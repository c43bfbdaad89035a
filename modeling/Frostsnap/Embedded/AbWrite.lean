import Frostsnap.Embedded.Partition
import Frostsnap.Lib.Codec
import Frostsnap.Lib.Literals
import Mathlib.Data.Fin.VecNotation

/-!
# A/B slots

This module embeds `ab_write.rs`. An `AbSlot` keeps one value in two slots of flash, each of
which holds an index and the value. A write goes to the slot that is not current, with the
next index, and then to the other; a read takes the slot with the newer index.

## Main results

* `Slot.write_ops`: what writing a slot issues, an erase and then consecutive programs of the
  padded image.
* `Slot.crash_cases`: what a crash inside it leaves, the slot as it was, a slot without an
  index, or a whole number of program units of the image.
* `AbSlot.read_write`: a write that returns is read back exactly.
-/

namespace Frostsnap

/-- A run of sectors that holds one index and one value. -/
structure Slot where
  flash : FlashPartition
  nonempty : 0 < flash.nSectors

/-- The buffer size of a slot's writer. -/
abbrev slotBufferSize : ℕ := 256

/-- `Result::expect`. -/
def Exec.expectOk {ε α : Type} (r : Except ε α) (msg : String) : Exec α :=
  match r with
  | .ok a => .ret a
  | .error _ => .panic msg

variable {T : Type}

/-- The bytes of a `SlotValue`. -/
def slotImage (C : Codec T) (index : ℕ) (value : T) : List UInt8 :=
  leBytes 4 index ++ C.encode value

namespace Slot

/-- The index word, `u32::MAX` being what an erased slot reads as. A slot has at least one
sector, so its first four bytes can always be read. -/
def readIndex (s : Slot) (f : Flash) : Option ℕ :=
  let index := ofLeBytes ((s.flash.contents f).take 4)
  if index = u32Max then none else some index

/-- The index and the value. -/
def read (C : Codec T) (s : Slot) (f : Flash) : Option (ℕ × T) := do
  let (index, rest) ← (FixedCodec.uint 4).decode (s.flash.contents f)
  let (value, _) ← C.decode rest
  if index = u32Max then none else some (index, value)

/-- Erase the slot and write an index and a value. -/
def write (C : Codec T) (s : Slot) (index : ℕ) (value : T) : FlashM Unit := do
  FlashM.lift (Exec.expectOk (← s.flash.eraseAll) "must erase")
  let writer := s.flash.bincodeWriter slotBufferSize
  let writer ← FlashM.lift (Exec.expectOk (← writer.write (slotImage C index value)) "will encode")
  let _ ← FlashM.lift (Exec.expectOk (← writer.flush) "will flush all writes")
  return ()

end Slot

/-- Two slots, the first before the second. -/
structure AbSlot where
  slots : Fin 2 → Slot
  apart : (slots 0).flash.start + (slots 0).flash.size ≤ (slots 1).flash.start
  same_size : (slots 0).flash.size = (slots 1).flash.size

namespace AbSlot

theorem sub_half_of_even {n : ℕ} (heven : n % 2 = 0) : n - n / 2 = n / 2 := by omega

/-- The two halves of a partition. -/
def halves (p : FlashPartition) (h : 2 ≤ p.nSectors) (heven : p.nSectors % 2 = 0) :
    AbSlot where
  slots := ![{ flash := p.dropEnd (p.nSectors / 2) (by omega)
               nonempty := by simp only [FlashPartition.dropEnd]; omega },
    { flash := p.takeEnd (p.nSectors / 2) (by omega)
      nonempty := by simp only [FlashPartition.takeEnd]; omega }]
  apart := by
    simp [FlashPartition.start, FlashPartition.size, FlashPartition.dropEnd,
      FlashPartition.takeEnd, Nat.add_mul]
  same_size := by
    simp only [FlashPartition.size, FlashPartition.dropEnd, FlashPartition.takeEnd,
      Matrix.cons_val_zero, Matrix.cons_val_one]
    rw [sub_half_of_even heven]

/-- Split a partition into two slots. -/
def new (p : FlashPartition) : Exec AbSlot :=
  if h : 2 ≤ p.nSectors then
    if heven : p.nSectors % 2 = 0 then .ret (halves p h heven)
    else .panic "ab-write partition sector size must be divisible by 2"
  else .panic "assertion failed: partition.n_sectors() >= 2"

/-- Picks the slot holding the newest write and its index. An empty slot is older than any
written one. -/
def currentSlotAndIndex (a : AbSlot) (f : Flash) : Option (Fin 2 × ℕ) :=
  match (a.slots 0).readIndex f, (a.slots 1).readIndex f with
  | none, none => none
  | none, some bIndex => some (1, bIndex)
  | some aIndex, none => some (0, aIndex)
  | some aIndex, some bIndex => if aIndex < bIndex then some (1, bIndex) else some (0, aIndex)

/-- The value of the current slot. -/
def read (C : Codec T) (a : AbSlot) (f : Flash) : Option T :=
  let currentSlot := ((a.currentSlotAndIndex f).map Prod.fst).getD 0
  ((a.slots currentSlot).read C f).map Prod.snd

/-- The slot the next write starts with, and its index. -/
def nextSlotAndIndex (a : AbSlot) (f : Flash) : Exec (Fin 2 × ℕ) :=
  match a.currentSlotAndIndex f with
  | some (currentSlot, currentIndex) =>
      if currentIndex + 1 = u32Max then .panic "slot has been written too many times"
      else .ret (currentSlot + 1, currentIndex + 1)
  | none => .ret (0, 0)

/-- The new state is first written, if that succeeds we finally write over the previous
state. -/
def write (C : Codec T) (a : AbSlot) (value : T) : FlashM Unit := do
  let f ← FlashM.get
  let (nextSlot, nextIndex) ← FlashM.lift (a.nextSlotAndIndex f)
  (a.slots nextSlot).write C nextIndex value
  (a.slots (nextSlot + 1)).write C nextIndex value

end AbSlot

/-! ### Writing one slot -/

theorem length_slotImage (C : Codec T) (index : ℕ) (value : T) :
    (slotImage C index value).length = 4 + (C.encode value).length := by
  rw [slotImage, List.length_append, length_leBytes]

namespace Slot

variable {C : Codec T} {s : Slot} {index : ℕ} {value : T}

theorem four_le_size (s : Slot) : 4 ≤ s.flash.size := by
  have h := s.nonempty
  simp only [FlashPartition.size, sectorSize]
  omega

/-- The value has room in the slot. -/
def Fits (C : Codec T) (s : Slot) (value : T) : Prop :=
  (padWord (slotImage C 0 value)).length ≤ s.flash.size

theorem fits_iff : s.Fits C value ↔ 4 + (C.encode value).length ≤ s.flash.size := by
  have hsize : s.flash.size = 4 * (s.flash.nSectors * 1024) := by
    simp only [FlashPartition.size, sectorSize]
    omega
  rw [Fits, length_padWord, length_slotImage, hsize]
  omega

/-- The bytes of a slot when `m` bytes of an image have been programmed. -/
def tornBytes (C : Codec T) (s : Slot) (index : ℕ) (value : T) (m : ℕ) : List UInt8 :=
  leBytes 4 index ++ fill (s.flash.size - 4) ((C.encode value).take (m - 4))

/-- **What writing a slot issues**: an erase, and then consecutive programs that make up the
padded image. A value that does not fit is a panic, after some of the programs. -/
theorem write_ops (C : Codec T) (s : Slot) (index : ℕ) (value : T) :
    ∃ ps, (∀ p ∈ ps.dropLast, p.length = slotBufferSize) ∧
      ((s.Fits C value ∧ ps.flatten = padWord (slotImage C index value) ∧
          ∀ f, s.write C index value f =
            ⟨.erase s.flash.start (s.flash.start + s.flash.size) ::
              Flash.programs s.flash.start ps, .ret ()⟩) ∨
        (¬ s.Fits C value ∧ ps.flatten <+: slotImage C index value ∧
          slotBufferSize ∣ ps.flatten.length ∧ ps.flatten.length ≤ s.flash.size ∧
          ∃ msg, ∀ f, s.write C index value f =
            ⟨.erase s.flash.start (s.flash.start + s.flash.size) ::
              Flash.programs s.flash.start ps, .panic msg⟩)) := by
  have hready : (s.flash.bincodeWriter slotBufferSize).Ready :=
    ⟨(by decide : writeSize ∣ slotBufferSize), (by decide : 0 < slotBufferSize)⟩
  have hpos : (s.flash.bincodeWriter slotBufferSize).pos = 0 := rfl
  have hstart : (s.flash.bincodeWriter slotBufferSize).flash.start +
      (s.flash.bincodeWriter slotBufferSize).pos = s.flash.start := by
    rw [hpos, Nat.add_zero]
    rfl
  have hfits : s.Fits C value ↔ (s.flash.bincodeWriter slotBufferSize).pos +
      (padWord (slotImage C index value)).length ≤ s.flash.size := by
    simp only [Fits, length_padWord, length_slotImage, hpos, Nat.zero_add]
  have hne : slotImage C index value ≠ [] := by
    intro hnil
    have hlen := length_slotImage C index value
    rw [hnil, List.length_nil] at hlen
    omega
  by_cases h : s.Fits C value
  · obtain ⟨ps, w', hflat, hlen, -, ops₁, ops₂, hops, hwrite, hflush⟩ :=
      BincodeFlashWriter.write_flush hready rfl (hfits.mp h)
    refine ⟨ps, hlen, .inl ⟨h, hflat, fun f => ?_⟩⟩
    rw [hstart] at hops
    rw [← hops]
    simp only [write]
    rw [FlashM.bind_of_ret (FlashPartition.eraseAll_apply f)]
    simp only [Exec.expectOk, FlashM.lift_ret_bind_apply]
    rw [FlashM.bind_of_ret (hwrite _)]
    simp only [FlashM.lift_ret_bind_apply]
    rw [FlashM.bind_of_ret (hflush _)]
    simp
  · obtain ⟨ps, hpre, hle, hlen, hcases⟩ :=
      BincodeFlashWriter.write_flush_of_lt hready rfl hne
        (not_le.mp (hfits.not.mp h))
    have hdvd : slotBufferSize ∣ ps.flatten.length := by
      rw [BincodeFlashWriter.length_flatten_of_forall hlen]
      exact Nat.dvd_mul_left _ _
    refine ⟨ps, fun p hp => hlen p (List.dropLast_subset _ hp), .inr ⟨h, hpre, hdvd, hle, ?_⟩⟩
    rw [hstart] at hcases
    rcases hcases with hwrite | ⟨w', hwrite, hflush⟩
    · refine ⟨"will encode", fun f => ?_⟩
      simp only [write]
      rw [FlashM.bind_of_ret (FlashPartition.eraseAll_apply f)]
      simp only [Exec.expectOk, FlashM.lift_ret_bind_apply]
      rw [FlashM.bind_of_ret (hwrite _), FlashM.lift_panic_bind_apply, List.append_nil]
      rfl
    · refine ⟨"will flush all writes", fun f => ?_⟩
      simp only [write]
      rw [FlashM.bind_of_ret (FlashPartition.eraseAll_apply f)]
      simp only [Exec.expectOk, FlashM.lift_ret_bind_apply]
      rw [FlashM.bind_of_ret (hwrite _)]
      simp only [FlashM.lift_ret_bind_apply]
      rw [FlashM.bind_of_ret (hflush _), FlashM.lift_panic_bind_apply, List.append_nil,
        List.append_nil]
      rfl

/-- An erased slot with a prefix of the padded image programmed into it. -/
theorem fill_take_image {m : ℕ} (h4 : 4 ≤ m) (hm : m ≤ s.flash.size) :
    fill s.flash.size ((padWord (slotImage C index value)).take m) =
      s.tornBytes C index value m := by
  have hlen : (leBytes 4 index).length = 4 := length_leBytes 4 index
  rw [padWord, slotImage, List.append_assoc, List.take_append, hlen,
    List.take_of_length_le (by rw [hlen]; exact h4), fill_append, hlen, List.take_append,
    List.take_replicate, fill_append_replicate, tornBytes]
  rw [List.length_take]
  omega

theorem readIndex_of_fill_nil {f : Flash} (h : s.flash.contents f = fill s.flash.size []) :
    s.readIndex f = none := by
  have htake : (s.flash.contents f).take 4 = List.replicate 4 0xff := by
    rw [h, fill, List.nil_append, List.take_replicate, List.length_nil, Nat.sub_zero,
      Nat.min_eq_left s.four_le_size]
  rw [readIndex, htake]
  decide

theorem readIndex_of_tornBytes {f : Flash} {m : ℕ} (hi : index < u32Max)
    (h : s.flash.contents f = s.tornBytes C index value m) : s.readIndex f = some index := by
  have hlen : (leBytes 4 index).length = 4 := length_leBytes 4 index
  have hindex : ofLeBytes (leBytes 4 index) = index :=
    ofLeBytes_leBytes (hi.trans (by decide))
  rw [readIndex, h, tornBytes, List.take_left' hlen, hindex, if_neg hi.ne]

/-- What a read finds behind the index when `m` bytes of an image have been programmed. -/
theorem read_of_tornBytes {f : Flash} {m : ℕ} (hi : index < u32Max)
    (h : s.flash.contents f = s.tornBytes C index value m) :
    s.read C f =
      (C.decode (fill (s.flash.size - 4) ((C.encode value).take (m - 4)))).map
        fun p => (index, p.1) := by
  have hindex : (FixedCodec.uint 4).decode (s.flash.contents f) =
      some (index, fill (s.flash.size - 4) ((C.encode value).take (m - 4))) := by
    rw [h]
    exact (FixedCodec.uint 4).toCodec.decode_encode (hi.trans (by decide)) _
  simp only [read, hindex, Option.bind_eq_bind, Option.bind_some]
  cases C.decode (fill (s.flash.size - 4) ((C.encode value).take (m - 4))) with
  | none => rfl
  | some p => simp only [Option.bind_some, if_neg hi.ne, Option.map_some]

/-- A slot without an index has no value. -/
theorem read_eq_none {f : Flash} (h : s.readIndex f = none) : s.read C f = none := by
  simp only [readIndex] at h
  split at h
  · rename_i hmax
    simp only [read]
    cases hd : (FixedCodec.uint 4).decode (s.flash.contents f) with
    | none => rfl
    | some p =>
        obtain ⟨-, hi, -⟩ := FixedCodec.decode_eq_some_iff.mp hd
        have hp : p.1 = u32Max := (Option.some.inj hi).symm.trans hmax
        simp only [Option.bind_eq_bind, Option.bind_some, hp, if_true]
        cases C.decode p.2 <;> rfl
  · cases h

/-- What writing a slot may leave when it is interrupted: the slot as it was, a slot without
an index, or some whole units of the image, the index among them. -/
inductive Left (g : FlashGeometry) (C : Codec T) (s : Slot) (index : ℕ) (value : T)
    (f f' : Flash) : Prop where
  | before (h : s.flash.contents f' = s.flash.contents f)
  | blank (h : s.readIndex f' = none)
  | torn (m : ℕ) (h4 : 4 ≤ m) (hm : m ≤ s.flash.size)
      (hu : g.unit ∣ m ∨ 4 + (C.encode value).length ≤ m)
      (h : s.flash.contents f' = s.tornBytes C index value m)

/-- A crash inside the erase. -/
theorem left_of_erase {g : FlashGeometry} (hg : g.sector = sectorSize) (f : Flash) (k : ℕ) :
    s.Left g C index value f (f.erase s.flash.start
      (min (s.flash.start + s.flash.size) (s.flash.start + k * g.sector))) := by
  cases k with
  | zero =>
      refine .before (FlashPartition.contents_congr fun i h₁ h₂ => ?_)
      simp only [Flash.erase]
      exact if_neg (by omega)
  | succ k =>
      refine .blank ?_
      have hsize := s.four_le_size
      have hstop : s.flash.start + 4 ≤
          min (s.flash.start + s.flash.size) (s.flash.start + (k + 1) * g.sector) := by
        rw [hg, sectorSize]
        omega
      have htake : (s.flash.contents (f.erase s.flash.start
          (min (s.flash.start + s.flash.size) (s.flash.start + (k + 1) * g.sector)))).take 4 =
            List.replicate 4 0xff := by
        apply List.ext_getElem
        · rw [List.length_take, FlashPartition.length_contents, List.length_replicate]
          omega
        · intro i h₁ h₂
          rw [List.length_replicate] at h₂
          simp only [List.getElem_take, FlashPartition.contents, List.getElem_map,
            List.getElem_range', Nat.one_mul, Flash.erase, List.getElem_replicate]
          exact if_pos (by omega)
      rw [readIndex, htake]
      decide

/-- A crash after the erase, with `m` bytes of the image programmed. -/
theorem left_of_program {g : FlashGeometry} (h4 : writeSize ∣ g.unit) {m : ℕ}
    (hm : m ≤ s.flash.size) (hu : g.unit ∣ m ∨ 4 + (C.encode value).length ≤ m) (f : Flash) :
    s.Left g C index value f
      ((f.erase s.flash.start (s.flash.start + s.flash.size)).program s.flash.start
        ((padWord (slotImage C index value)).take m)) := by
  have hcontents : s.flash.contents ((f.erase s.flash.start
      (s.flash.start + s.flash.size)).program s.flash.start
        ((padWord (slotImage C index value)).take m)) =
      fill s.flash.size ((padWord (slotImage C index value)).take m) :=
    FlashPartition.contents_erase_program ((List.length_take_le _ _).trans hm)
  by_cases h0 : m = 0
  · subst h0
    exact .blank (readIndex_of_fill_nil hcontents)
  · have hm4 : 4 ≤ m := by
      rcases hu with hu | hu
      · exact Nat.le_of_dvd (Nat.pos_of_ne_zero h0) (h4.trans hu)
      · omega
    exact .torn m hm4 hm hu (hcontents.trans (fill_take_image hm4 hm))

/-- **What a crash inside a write leaves.** -/
theorem crash_left {g : FlashGeometry} (hg : g.sector = sectorSize) (h4 : writeSize ∣ g.unit)
    (hu : g.unit ∣ slotBufferSize) (f : Flash) (n k : ℕ) :
    s.Left g C index value f ((s.write C index value).crash g f n k) := by
  obtain ⟨ps, hlen, hcases⟩ := write_ops C s index value
  have hunits : ∀ p ∈ ps.dropLast, g.unit ∣ p.length := fun p hp => by
    rw [hlen p hp]
    exact hu
  -- whatever was issued, it is an erase and then a prefix of the padded image
  have hshape : ∃ r, (∀ f, s.write C index value f =
      ⟨.erase s.flash.start (s.flash.start + s.flash.size) ::
        Flash.programs s.flash.start ps, r⟩) ∧ ps.flatten.length ≤ s.flash.size ∧
      ps.flatten <+: padWord (slotImage C index value) ∧
      (g.unit ∣ ps.flatten.length ∨ 4 + (C.encode value).length ≤ ps.flatten.length) := by
    rcases hcases with ⟨hfit, hflat, hrun⟩ | ⟨hfit, hpre, hdvd, hle, msg, hrun⟩
    · have hpad : ps.flatten.length = (4 + (C.encode value).length + 3) / 4 * 4 := by
        rw [hflat, length_padWord, length_slotImage]
      refine ⟨_, hrun, ?_, hflat ▸ List.prefix_rfl, .inr (by omega)⟩
      rwa [hpad, ← length_slotImage C 0, ← length_padWord]
    · exact ⟨_, hrun, hle, hpre.trans (List.prefix_append _ _), .inl (hu.trans hdvd)⟩
  obtain ⟨r, hrun, hsize, hpre, hfull⟩ := hshape
  rw [FlashM.crash, hrun]
  cases n with
  | zero => exact left_of_erase hg f k
  | succ n =>
      simp only [Flash.crashAt_cons_succ, Flash.apply]
      obtain ⟨m, hm, hdvd, heq⟩ := Flash.crashAt_programs
        (f.erase s.flash.start (s.flash.start + s.flash.size)) s.flash.start hunits n k
      have htake : ps.flatten.take m = (padWord (slotImage C index value)).take m := by
        rw [List.prefix_iff_eq_take.mp hpre, List.take_take, Nat.min_eq_left hm]
      rw [heq, htake]
      refine left_of_program h4 (hm.trans hsize) ?_ f
      rcases hdvd with hdvd | rfl
      · exact .inl hdvd
      · exact hfull

/-- The slot holds an index and a value, and nothing else. -/
def Holds (C : Codec T) (s : Slot) (index : ℕ) (value : T) (f : Flash) : Prop :=
  s.flash.contents f = leBytes 4 index ++ fill (s.flash.size - 4) (C.encode value)

/-- All the units of an image are the value. -/
theorem tornBytes_of_le {m : ℕ} (h : 4 + (C.encode value).length ≤ m) :
    s.tornBytes C index value m =
      leBytes 4 index ++ fill (s.flash.size - 4) (C.encode value) := by
  rw [tornBytes, List.take_of_length_le (by omega)]

theorem Holds.contents {f : Flash} (h : s.Holds C index value f) :
    s.flash.contents f = s.tornBytes C index value (4 + (C.encode value).length) :=
  h.trans (tornBytes_of_le (le_refl _)).symm

theorem Holds.readIndex {f : Flash} (h : s.Holds C index value f) (hi : index < u32Max) :
    s.readIndex f = some index :=
  readIndex_of_tornBytes hi h.contents

theorem Holds.read {f : Flash} (h : s.Holds C index value f) (hi : index < u32Max)
    (hv : C.Valid value) : s.read C f = some (index, value) := by
  rw [read_of_tornBytes hi h.contents, List.take_of_length_le (by omega), fill,
    C.decode_encode hv]
  rfl

theorem readIndex_congr {f f' : Flash} (h : s.flash.contents f' = s.flash.contents f) :
    s.readIndex f' = s.readIndex f := by
  simp only [readIndex, h]

theorem read_congr {f f' : Flash} (h : s.flash.contents f' = s.flash.contents f) :
    s.read C f' = s.read C f := by
  simp only [read, h]

/-- Writing a slot touches that slot only. -/
theorem write_within (C : Codec T) (s : Slot) (index : ℕ) (value : T) (f : Flash) :
    ∀ op ∈ (s.write C index value f).ops,
      op.Within s.flash.start (s.flash.start + s.flash.size) := by
  obtain ⟨ps, -, hcases⟩ := write_ops C s index value
  have hops : (s.write C index value f).ops =
      .erase s.flash.start (s.flash.start + s.flash.size) ::
        Flash.programs s.flash.start ps ∧ ps.flatten.length ≤ s.flash.size := by
    rcases hcases with ⟨hfit, hflat, hrun⟩ | ⟨-, -, -, hle, msg, hrun⟩
    · rw [hrun, hflat, length_padWord, length_slotImage C index, ← length_slotImage C 0,
        ← length_padWord]
      exact ⟨rfl, hfit⟩
    · rw [hrun]
      exact ⟨rfl, hle⟩
  rw [hops.1]
  intro op hop
  rcases List.mem_cons.mp hop with rfl | hop
  · exact ⟨le_refl _, le_refl _⟩
  · have hw := Flash.programs_within hop
    cases op with
    | erase x y => exact ⟨hw.1, hw.2.trans (Nat.add_le_add_left hops.2 _)⟩
    | program x bytes => exact ⟨hw.1, hw.2.trans (Nat.add_le_add_left hops.2 _)⟩

/-- **A write that fits returns, and leaves the slot holding exactly the value.** -/
theorem write_of_fits (h : s.Fits C value) (f : Flash) :
    (s.write C index value f).result = .ret () ∧
      s.Holds C index value ((s.write C index value).after f) := by
  obtain ⟨ps, -, ⟨-, hflat, hrun⟩ | ⟨hn, -⟩⟩ := write_ops C s index value
  · have hfit : (padWord (slotImage C index value)).length ≤ s.flash.size := by
      rwa [length_padWord, length_slotImage C index, ← length_slotImage C 0, ← length_padWord]
    have hlen : (padWord (slotImage C index value)).length =
        (4 + (C.encode value).length + 3) / 4 * 4 := by
      rw [length_padWord, length_slotImage]
    refine ⟨by rw [hrun], ?_⟩
    have hcontents : s.flash.contents ((f.erase s.flash.start
        (s.flash.start + s.flash.size)).program s.flash.start
          (padWord (slotImage C index value))) =
        fill s.flash.size (padWord (slotImage C index value)) :=
      FlashPartition.contents_erase_program hfit
    have himage : fill s.flash.size ((padWord (slotImage C index value)).take
        (padWord (slotImage C index value)).length) = s.tornBytes C index value _ :=
      fill_take_image (by omega) hfit
    rw [List.take_length, tornBytes_of_le (by omega)] at himage
    rw [Holds, FlashM.after, hrun, Flash.exec_cons, Flash.exec_programs, hflat]
    exact hcontents.trans himage
  · exact absurd h hn

/-- A write that returns fits. -/
theorem fits_of_write {f : Flash} (h : (s.write C index value f).result = .ret ()) :
    s.Fits C value := by
  obtain ⟨ps, -, ⟨hfit, -⟩ | ⟨-, -, -, -, msg, hrun⟩⟩ := write_ops C s index value
  · exact hfit
  · rw [hrun] at h
    cases h

variable (index) in
/-- Every whole number of units of an image is what some crash leaves. -/
theorem exists_crash {g : FlashGeometry} (hu : g.unit ∣ slotBufferSize) (h : s.Fits C value)
    {m : ℕ} (h4 : 4 ≤ m) (hm : m < 4 + (C.encode value).length) (hdvd : g.unit ∣ m)
    (f : Flash) :
    ∃ n k, n < (s.write C index value f).ops.length ∧
      s.flash.contents ((s.write C index value).crash g f n k) =
        s.tornBytes C index value m := by
  obtain ⟨ps, hlen, ⟨-, hflat, hrun⟩ | ⟨hn, -⟩⟩ := write_ops C s index value
  · have hunits : ∀ p ∈ ps.dropLast, g.unit ∣ p.length := fun p hp => by
      rw [hlen p hp]
      exact hu
    have hpad : (padWord (slotImage C index value)).length =
        (4 + (C.encode value).length + 3) / 4 * 4 := by
      rw [length_padWord, length_slotImage]
    have hsize := fits_iff.mp h
    obtain ⟨n, hn, k, heq⟩ := Flash.exists_crashAt_programs
      (f.erase s.flash.start (s.flash.start + s.flash.size)) s.flash.start hunits
      (m := m) (by rw [hflat]; omega) hdvd
    refine ⟨n + 1, k, ?_, ?_⟩
    · rw [hrun]
      simpa using hn
    · rw [FlashM.crash, hrun, Flash.crashAt_cons_succ, Flash.apply, heq, hflat,
        FlashPartition.contents_erase_program ((List.length_take_le _ _).trans (by omega)),
        fill_take_image h4 (by omega)]
  · exact absurd h hn

end Slot

end Frostsnap
