import Frostsnap.Embedded.AbWrite
import Frostsnap.Embedded.NonceCodec

/-!
# Power loss inside an A/B write

An A/B slot is meant never to lose the state it holds: the new state goes to one slot first,
and only when that has succeeded over the previous state in the other. But the current slot is
picked by its index alone, and the index is the first thing a write programs. A crash after
the index and before the end of the value leaves a current slot with a partial value.

## Main results

* `AbSlot.read_write`: a write that returns is read back exactly, whatever the slots held.
* `AbSlot.crash_left`: what a crash inside a write leaves in the two slots.
* `AbSlot.crashAtomic_iff`: a write is atomic exactly when it is refused, or every partial
  value on a unit boundary is read as the old value or the new one.
-/

namespace Frostsnap

variable {T : Type} {C : Codec T} {g : FlashGeometry}

/-- The units in which power loss interrupts the operations of a slot: whole sectors, and
program units from a word up to the writer's buffer. -/
structure FlashGeometry.ForSlots (g : FlashGeometry) : Prop where
  sector : g.sector = sectorSize
  word_dvd : writeSize ∣ g.unit
  dvd_buffer : g.unit ∣ slotBufferSize

namespace AbSlot

variable {a : AbSlot} {f : Flash} {value : T}

/-! ### Picking the current slot -/

theorem eq_zero_or_one : ∀ i : Fin 2, i = 0 ∨ i = 1 := by decide

theorem add_one_add_one : ∀ i : Fin 2, i + 1 + 1 = i := by decide

/-- A slot with an index newer than the other's is current. -/
theorem current_of_lt {i : Fin 2} {index : ℕ} (h : (a.slots i).readIndex f = some index)
    (hlt : ∀ other, (a.slots (i + 1)).readIndex f = some other → other < index) :
    a.currentSlotAndIndex f = some (i, index) := by
  rcases eq_zero_or_one i with rfl | rfl
  · simp only [currentSlotAndIndex, h]
    cases h1 : (a.slots 1).readIndex f with
    | none => rfl
    | some other =>
        have hother := hlt other h1
        exact if_neg (by omega)
  · simp only [currentSlotAndIndex, h]
    cases h0 : (a.slots 0).readIndex f with
    | none => rfl
    | some other => exact if_pos (hlt other h0)

/-- Of two slots with one index the first is current. -/
theorem current_of_eq {index : ℕ} (h : ∀ i, (a.slots i).readIndex f = some index) :
    a.currentSlotAndIndex f = some (0, index) := by
  simp only [currentSlotAndIndex, h]
  exact if_neg (lt_irrefl _)

/-- The current slot has the index it is picked by, and the other no newer one. -/
theorem readIndex_of_current {i : Fin 2} {index : ℕ}
    (h : a.currentSlotAndIndex f = some (i, index)) :
    (a.slots i).readIndex f = some index ∧
      ∀ other, (a.slots (i + 1)).readIndex f = some other → other ≤ index := by
  simp only [currentSlotAndIndex] at h
  cases h0 : (a.slots 0).readIndex f with
  | none =>
      cases h1 : (a.slots 1).readIndex f with
      | none =>
          simp only [h0, h1] at h
          cases h
      | some y =>
          simp only [h0, h1] at h
          cases h
          exact ⟨h1, fun other ho => by rw [show (1 + 1 : Fin 2) = 0 from rfl, h0] at ho; cases ho⟩
  | some x =>
      cases h1 : (a.slots 1).readIndex f with
      | none =>
          simp only [h0, h1] at h
          cases h
          exact ⟨h0, fun other ho => by rw [show (0 + 1 : Fin 2) = 1 from rfl, h1] at ho; cases ho⟩
      | some y =>
          simp only [h0, h1] at h
          split at h
          · rename_i hlt
            cases h
            refine ⟨h1, fun other ho => ?_⟩
            rw [show (1 + 1 : Fin 2) = 0 from rfl, h0] at ho
            cases ho
            exact hlt.le
          · rename_i hlt
            cases h
            refine ⟨h0, fun other ho => ?_⟩
            rw [show (0 + 1 : Fin 2) = 1 from rfl, h1] at ho
            cases ho
            exact not_lt.mp hlt


theorem size_eq (a : AbSlot) (i j : Fin 2) :
    (a.slots i).flash.size = (a.slots j).flash.size := by
  have h := a.same_size
  have hzero : ∀ i, (a.slots i).flash.size = (a.slots 0).flash.size := by
    intro i
    rcases eq_zero_or_one i with rfl | rfl
    · exact Eq.refl _
    · exact h.symm
  exact (hzero i).trans (hzero j).symm

theorem fits_iff_fits (a : AbSlot) (i j : Fin 2) :
    (a.slots i).Fits C value ↔ (a.slots j).Fits C value := by
  rw [Slot.fits_iff, Slot.fits_iff, a.size_eq i j]

/-- The two slots do not overlap. -/
theorem disjoint (a : AbSlot) (i : Fin 2) {x : ℕ} (h₁ : (a.slots (i + 1)).flash.start ≤ x)
    (h₂ : x < (a.slots (i + 1)).flash.start + (a.slots (i + 1)).flash.size) :
    x < (a.slots i).flash.start ∨ (a.slots i).flash.start + (a.slots i).flash.size ≤ x := by
  have hapart := a.apart
  rcases eq_zero_or_one i with rfl | rfl
  · rw [show (0 + 1 : Fin 2) = 1 from rfl] at h₁
    exact .inr (hapart.trans h₁)
  · rw [show (1 + 1 : Fin 2) = 0 from rfl] at h₂
    exact .inl (h₂.trans_le hapart)

theorem contents_exec_other (a : AbSlot) (i : Fin 2) {ops : List FlashOp}
    (h : ∀ op ∈ ops, op.Within (a.slots i).flash.start
      ((a.slots i).flash.start + (a.slots i).flash.size)) (f : Flash) :
    (a.slots (i + 1)).flash.contents (f.exec ops) = (a.slots (i + 1)).flash.contents f :=
  FlashPartition.contents_congr fun _ h₁ h₂ => Flash.exec_outside h (a.disjoint i h₁ h₂)

theorem contents_crashAt_other (a : AbSlot) (i : Fin 2) {ops : List FlashOp}
    (h : ∀ op ∈ ops, op.Within (a.slots i).flash.start
      ((a.slots i).flash.start + (a.slots i).flash.size)) (f : Flash) (n k : ℕ) :
    (a.slots (i + 1)).flash.contents (f.crashAt g ops n k) =
      (a.slots (i + 1)).flash.contents f :=
  FlashPartition.contents_congr fun _ h₁ h₂ =>
    Flash.crashAt_outside h (a.disjoint i h₁ h₂) n k

/-! ### Writing -/

/-- The write counter of the slot is used up. -/
def Exhausted (a : AbSlot) (f : Flash) : Prop :=
  ∃ i index, a.currentSlotAndIndex f = some (i, index) ∧ index + 1 = u32Max

/-- A write starts with the slot that is not current, one past the current index, or with the
first slot and index zero when neither has been written; an exhausted slot refuses it. -/
theorem nextSlotAndIndex_cases (a : AbSlot) (f : Flash) :
    (a.Exhausted f ∧ a.nextSlotAndIndex f = .panic "slot has been written too many times") ∨
    ∃ i index, a.nextSlotAndIndex f = .ret (i, index) ∧ index < u32Max ∧
      ((∃ old, a.currentSlotAndIndex f = some (i + 1, old) ∧ index = old + 1) ∨
        a.currentSlotAndIndex f = none) := by
  cases hcur : a.currentSlotAndIndex f with
  | none => exact .inr ⟨0, 0, by simp only [nextSlotAndIndex, hcur], by decide, .inr rfl⟩
  | some p =>
      obtain ⟨i, old⟩ := p
      by_cases hmax : old + 1 = u32Max
      · exact .inl ⟨⟨i, old, hcur, hmax⟩, by simp only [nextSlotAndIndex, hcur, if_pos hmax]⟩
      · refine .inr ⟨i + 1, old + 1, by simp only [nextSlotAndIndex, hcur, if_neg hmax], ?_, ?_⟩
        · have hread := (readIndex_of_current hcur).1
          simp only [Slot.readIndex] at hread
          split at hread
          · cases hread
          · rename_i hne
            have hlt := ofLeBytes_lt (((a.slots i).flash.contents f).take 4)
            have hlen : (((a.slots i).flash.contents f).take 4).length ≤ 4 :=
              List.length_take_le _ _
            have hpow := Nat.pow_le_pow_right (n := 256) (by decide) hlen
            cases hread
            simp only [u32Max] at hne hmax ⊢
            omega
        · exact .inl ⟨old, by rw [add_one_add_one], rfl⟩

/-- The write of an exhausted slot. -/
theorem write_of_exhausted (h : a.nextSlotAndIndex f =
    .panic "slot has been written too many times") :
    a.write C value f = ⟨[], .panic "slot has been written too many times"⟩ := by
  rw [write, FlashM.get_bind_apply, h, FlashM.lift_panic_bind_apply]

/-- Any other write is one slot after the other. -/
theorem write_of_next {i : Fin 2} {index : ℕ} (h : a.nextSlotAndIndex f = .ret (i, index)) :
    a.write C value f =
      ((a.slots i).write C index value >>= fun _ =>
        (a.slots (i + 1)).write C index value) f := by
  rw [write, FlashM.get_bind_apply, h, FlashM.lift_ret_bind_apply]

/-- The trace of the first slot's write, when the value fits. -/
theorem first_write {i : Fin 2} {index : ℕ} (hfit : (a.slots i).Fits C value) (f : Flash) :
    (a.slots i).write C index value f =
      ⟨((a.slots i).write C index value f).ops, .ret ()⟩ := by
  have hret : ((a.slots i).write C index value f).result = .ret () :=
    (Slot.write_of_fits hfit f).1
  rw [← hret]

/-- **What a write that returns leaves**: both slots hold the value, under the next index. -/
theorem write_holds (h : (a.write C value f).result = .ret ()) :
    ∃ i index, a.nextSlotAndIndex f = .ret (i, index) ∧ index < u32Max ∧
      ∀ j, (a.slots j).Holds C index value ((a.write C value).after f) := by
  rcases a.nextSlotAndIndex_cases f with ⟨-, hn⟩ | ⟨i, index, hn, hlt, -⟩
  · rw [write_of_exhausted hn] at h
    cases h
  · refine ⟨i, index, hn, hlt, ?_⟩
    rw [write_of_next hn] at h
    obtain ⟨ops, u, hfirst, hsecond⟩ := FlashM.bind_result_eq_ret h
    have hfit : (a.slots i).Fits C value := Slot.fits_of_write (by rw [hfirst])
    have hafter : (a.write C value).after f =
        ((a.slots (i + 1)).write C index value).after (f.exec ops) := by
      simp only [FlashM.after, write_of_next hn]
      rw [FlashM.bind_of_ret hfirst, Flash.exec_append]
    have hops : ops = ((a.slots i).write C index value f).ops := by rw [hfirst]
    intro j
    rw [hafter]
    have hj : j = i ∨ j = i + 1 := by
      rcases eq_zero_or_one i with rfl | rfl <;> rcases eq_zero_or_one j with rfl | rfl <;> simp
    rcases hj with rfl | rfl
    · have hother := a.contents_exec_other (j + 1)
        (Slot.write_within C (a.slots (j + 1)) index value (f.exec ops)) (f.exec ops)
      rw [add_one_add_one] at hother
      have hholds : (a.slots j).Holds C index value _ := (Slot.write_of_fits hfit f).2
      rw [FlashM.after, ← hops] at hholds
      exact hother.trans hholds
    · exact (Slot.write_of_fits ((a.fits_iff_fits _ _).mp hfit) _).2

/-- **A write that returns is read back exactly**, whatever the slots held before. -/
theorem read_write (hv : C.Valid value) (h : (a.write C value f).result = .ret ()) :
    a.read C ((a.write C value).after f) = some value := by
  obtain ⟨i, index, -, hlt, hholds⟩ := write_holds h
  have hcur := current_of_eq fun j => (hholds j).readIndex hlt
  simp only [read, hcur, Option.map_some, Option.getD_some, (hholds 0).read hlt hv]

/-- A write of a value that fits returns, unless the slot is exhausted. -/
theorem write_returns (hfit : (a.slots 0).Fits C value) (hex : ¬ a.Exhausted f) :
    (a.write C value f).result = .ret () := by
  rcases a.nextSlotAndIndex_cases f with ⟨hn, -⟩ | ⟨i, index, hn, -⟩
  · exact absurd hn hex
  · have hi := (a.fits_iff_fits 0 i).mp hfit
    have hother : ∀ f', ((a.slots (i + 1)).write C index value f').result = .ret () :=
      fun f' => (Slot.write_of_fits ((a.fits_iff_fits 0 (i + 1)).mp hfit) f').1
    rw [write_of_next hn, FlashM.bind_of_ret (first_write hi f)]
    simp only [hother]

/-- The first address of the two slots. -/
def start (a : AbSlot) : ℕ := (a.slots 0).flash.start

/-- One past the last address of the two slots. -/
def stop (a : AbSlot) : ℕ := (a.slots 1).flash.start + (a.slots 1).flash.size

theorem slot_within (a : AbSlot) (i : Fin 2) :
    a.start ≤ (a.slots i).flash.start ∧
      (a.slots i).flash.start + (a.slots i).flash.size ≤ a.stop := by
  have hapart := a.apart
  rcases eq_zero_or_one i with rfl | rfl
  · exact ⟨le_refl _, hapart.trans (Nat.le_add_right _ _)⟩
  · exact ⟨(Nat.le_add_right _ _).trans hapart, le_refl _⟩

/-- A write touches the two slots only. -/
theorem write_within (C : Codec T) (a : AbSlot) (value : T) (f : Flash) :
    ∀ op ∈ (a.write C value f).ops, op.Within a.start a.stop := by
  have hslot : ∀ i index f, ∀ op ∈ ((a.slots i).write C index value f).ops,
      op.Within a.start a.stop := by
    intro i index f op hop
    obtain ⟨h₁, h₂⟩ := a.slot_within i
    have hw := Slot.write_within C (a.slots i) index value f op hop
    cases op with
    | erase x y => exact ⟨h₁.trans hw.1, hw.2.trans h₂⟩
    | program x bytes => exact ⟨h₁.trans hw.1, hw.2.trans h₂⟩
  rcases a.nextSlotAndIndex_cases f with ⟨-, hn⟩ | ⟨i, index, hn, -⟩
  · rw [write_of_exhausted hn]
    nofun
  · rw [write_of_next hn]
    intro op hop
    cases hfirst : (a.slots i).write C index value f with
    | mk ops result =>
        have hops := hslot i index f
        rw [hfirst] at hops
        cases result with
        | ret u =>
            rw [FlashM.bind_of_ret hfirst] at hop
            rcases List.mem_append.mp hop with hop | hop
            · exact hops op hop
            · exact hslot (i + 1) index _ op hop
        | panic msg =>
            rw [FlashM.bind_of_panic hfirst] at hop
            exact hops op hop

/-! ### Crashes -/

variable (C value) in
/-- **What a crash inside a write leaves**: the first slot interrupted and the other as it
was, or the first slot holding the value and the other interrupted. -/
theorem crash_left (hg : g.ForSlots) {i : Fin 2} {index : ℕ}
    (hn : a.nextSlotAndIndex f = .ret (i, index)) (n k : ℕ) :
    ((a.slots i).Left g C index value f ((a.write C value).crash g f n k) ∧
      (a.slots (i + 1)).flash.contents ((a.write C value).crash g f n k) =
        (a.slots (i + 1)).flash.contents f) ∨
    ((a.slots i).Fits C value ∧
      (a.slots i).Holds C index value ((a.write C value).crash g f n k) ∧
      (a.slots (i + 1)).Left g C index value f ((a.write C value).crash g f n k)) := by
  have hwithin := Slot.write_within C (a.slots i) index value f
  by_cases hfit : (a.slots i).Fits C value
  · have hfirst : (a.slots i).write C index value f = _ := first_write hfit f
    have hcrash : (a.write C value).crash g f n k =
        if n < ((a.slots i).write C index value f).ops.length then
          ((a.slots i).write C index value).crash g f n k
        else ((a.slots (i + 1)).write C index value).crash g
          (f.exec ((a.slots i).write C index value f).ops)
          (n - ((a.slots i).write C index value f).ops.length) k := by
      have hbind := FlashM.crash_bind_of_ret (g := g)
        (k := fun _ => (a.slots (i + 1)).write C index value) hfirst n k
      simp only [FlashM.crash] at hbind ⊢
      rw [write_of_next hn, hbind]
    rw [hcrash]
    split
    · refine .inl ⟨Slot.crash_left hg.sector hg.word_dvd hg.dvd_buffer f n k, ?_⟩
      exact a.contents_crashAt_other i hwithin f n k
    · refine .inr ⟨hfit, ?_, ?_⟩
      · have hother := a.contents_crashAt_other (g := g) (i + 1)
          (Slot.write_within C (a.slots (i + 1)) index value
            (f.exec ((a.slots i).write C index value f).ops))
          (f.exec ((a.slots i).write C index value f).ops)
          (n - ((a.slots i).write C index value f).ops.length) k
        rw [add_one_add_one] at hother
        exact hother.trans (Slot.write_of_fits hfit f).2
      · have hleft : (a.slots (i + 1)).Left g C index value _ _ :=
          Slot.crash_left hg.sector hg.word_dvd hg.dvd_buffer
            (f.exec ((a.slots i).write C index value f).ops)
            (n - ((a.slots i).write C index value f).ops.length) k
        cases hleft with
        | before h => exact .before (h.trans (a.contents_exec_other i hwithin f))
        | blank h => exact .blank h
        | torn m h4 hm hu h => exact .torn m h4 hm hu h
  · left
    have hpanic : ∃ msg, (a.slots i).write C index value f =
        ⟨((a.slots i).write C index value f).ops, .panic msg⟩ := by
      obtain ⟨ps, -, ⟨h, -⟩ | ⟨-, -, -, -, msg, hrun⟩⟩ := Slot.write_ops C (a.slots i) index value
      · exact absurd h hfit
      · exact ⟨msg, by rw [hrun]⟩
    obtain ⟨msg, hpanic⟩ := hpanic
    have hcrash : (a.write C value).crash g f n k =
        ((a.slots i).write C index value).crash g f n k := by
      simp only [FlashM.crash, write_of_next hn]
      rw [FlashM.bind_of_panic hpanic]
    rw [hcrash]
    exact ⟨Slot.crash_left hg.sector hg.word_dvd hg.dvd_buffer f n k,
      a.contents_crashAt_other i hwithin f n k⟩

/-- What is read as the value when `m` bytes of a slot's image have been programmed. -/
def tornRead (C : Codec T) (a : AbSlot) (value : T) (m : ℕ) : Option T :=
  (C.decode (fill ((a.slots 0).flash.size - 4) ((C.encode value).take (m - 4)))).map Prod.fst

theorem read_of_current {i : Fin 2} {index : ℕ} (h : a.currentSlotAndIndex f = some (i, index)) :
    a.read C f = ((a.slots i).read C f).map Prod.snd := by
  simp only [read, h, Option.map_some, Option.getD_some]

/-- A slot that is current with part of an image reads as that part. -/
theorem read_of_torn {i : Fin 2} {index m : ℕ} (hi : index < u32Max)
    (hcur : a.currentSlotAndIndex f = some (i, index))
    (h : (a.slots i).flash.contents f = (a.slots i).tornBytes C index value m) :
    a.read C f = a.tornRead C value m := by
  rw [read_of_current hcur, Slot.read_of_tornBytes hi h, tornRead, a.size_eq i 0]
  cases C.decode (fill ((a.slots 0).flash.size - 4) ((C.encode value).take (m - 4))) <;> rfl

theorem tornRead_of_le (hv : C.Valid value) {m : ℕ} (h : 4 + (C.encode value).length ≤ m) :
    a.tornRead C value m = some value := by
  rw [tornRead, List.take_of_length_le (by omega), fill, C.decode_encode hv]
  rfl

/-- Something that can be read is in a current slot. -/
theorem current_of_read {v : T} (h : a.read C f = some v) :
    ∃ i index, a.currentSlotAndIndex f = some (i, index) := by
  cases hcur : a.currentSlotAndIndex f with
  | some p => exact ⟨p.1, p.2, rfl⟩
  | none =>
      have hnone : (a.slots 0).readIndex f = none := by
        simp only [currentSlotAndIndex] at hcur
        cases h0 : (a.slots 0).readIndex f with
        | none => rfl
        | some x =>
            cases h1 : (a.slots 1).readIndex f with
            | none =>
                simp only [h0, h1] at hcur
                cases hcur
            | some y =>
                simp only [h0, h1] at hcur
                split at hcur <;> cases hcur
      simp only [read, hcur, Option.map_none, Option.getD_none] at h
      obtain ⟨p, hp, -⟩ := Option.map_eq_some_iff.mp h
      rw [Slot.read_eq_none hnone] at hp
      cases hp

theorem read_congr_current {f f' : Flash} (h : ∀ i, (a.slots i).flash.contents f' =
    (a.slots i).flash.contents f) : a.read C f' = a.read C f := by
  simp only [read, currentSlotAndIndex, fun i => Slot.readIndex_congr (h i),
    fun i => Slot.read_congr (C := C) (h i)]

/-- A slot that was not touched and is the only one with an index is read as before. -/
theorem read_of_blank {i : Fin 2} {old : ℕ} {f' : Flash}
    (hcur : a.currentSlotAndIndex f = some (i + 1, old))
    (hother : (a.slots (i + 1)).flash.contents f' = (a.slots (i + 1)).flash.contents f)
    (hblank : (a.slots i).readIndex f' = none) : a.read C f' = a.read C f := by
  have hold : (a.slots (i + 1)).readIndex f' = some old := by
    rw [Slot.readIndex_congr hother, (readIndex_of_current hcur).1]
  have hcur' : a.currentSlotAndIndex f' = some (i + 1, old) := by
    refine current_of_lt hold fun other ho => ?_
    rw [add_one_add_one, hblank] at ho
    cases ho
  rw [read_of_current hcur', read_of_current hcur, Slot.read_congr hother]

/-- **What is read after a crash**: the old value, the new one, or part of the new one. -/
theorem read_crash (hg : g.ForSlots) {v v' : T} (hv' : C.Valid v') (hread : a.read C f = some v)
    (n k : ℕ) :
    a.read C ((a.write C v').crash g f n k) = some v ∨
    a.read C ((a.write C v').crash g f n k) = some v' ∨
    ¬ a.Exhausted f ∧ ∃ m, 4 ≤ m ∧ g.unit ∣ m ∧ m < 4 + (C.encode v').length ∧
      a.read C ((a.write C v').crash g f n k) = a.tornRead C v' m := by
  rcases a.nextSlotAndIndex_cases f with ⟨-, hn⟩ | ⟨i, index, hn, hlt, hcases⟩
  · rw [FlashM.crash, write_of_exhausted hn]
    exact .inl hread
  obtain ⟨old, hcur, hindex⟩ : ∃ old, a.currentSlotAndIndex f = some (i + 1, old) ∧
      index = old + 1 := by
    rcases hcases with h | h
    · exact h
    · obtain ⟨j, c, hj⟩ := current_of_read hread
      rw [h] at hj
      cases hj
  have hne : ¬ a.Exhausted f := by
    rintro ⟨j, c, hj, hmax⟩
    rw [hcur] at hj
    cases hj
    omega
  -- part of the image that is not all of it, or all of it
  have htorn : ∀ m, 4 ≤ m → (g.unit ∣ m ∨ 4 + (C.encode v').length ≤ m) →
      a.read C ((a.write C v').crash g f n k) = a.tornRead C v' m →
      a.read C ((a.write C v').crash g f n k) = some v' ∨
      ¬ a.Exhausted f ∧ ∃ m, 4 ≤ m ∧ g.unit ∣ m ∧ m < 4 + (C.encode v').length ∧
        a.read C ((a.write C v').crash g f n k) = a.tornRead C v' m := by
    intro m h4 hu hr
    by_cases hm : 4 + (C.encode v').length ≤ m
    · exact .inl (hr.trans (tornRead_of_le hv' hm))
    · exact .inr ⟨hne, m, h4, hu.resolve_right hm, not_le.mp hm, hr⟩
  rcases crash_left C v' hg hn n k with
    ⟨hleft, hother⟩ | ⟨-, hholds, hleft⟩
  · -- the first slot is interrupted
    have hold : (a.slots (i + 1)).readIndex ((a.write C v').crash g f n k) = some old := by
      rw [Slot.readIndex_congr hother, (readIndex_of_current hcur).1]
    cases hleft with
    | before h =>
        left
        rw [read_congr_current fun j => ?_, hread]
        rcases eq_zero_or_one i with rfl | rfl <;> rcases eq_zero_or_one j with rfl | rfl
        · exact h
        · exact hother
        · exact hother
        · exact h
    | blank h =>
        left
        rw [read_of_blank hcur hother h, hread]
    | torn m h4 hm hu h =>
        right
        have hcur' : a.currentSlotAndIndex ((a.write C v').crash g f n k) = some (i, index) := by
          refine current_of_lt (Slot.readIndex_of_tornBytes hlt h) fun x hx => ?_
          rw [hold] at hx
          cases hx
          omega
        exact htorn m h4 hu (read_of_torn hlt hcur' h)
  · -- the first slot holds the new value, the other is interrupted
    right
    have hnew := hholds.readIndex hlt
    have hdone : a.currentSlotAndIndex ((a.write C v').crash g f n k) = some (i, index) →
        a.read C ((a.write C v').crash g f n k) = some v' := by
      intro hcur'
      rw [read_of_current hcur', hholds.read hlt hv']
      rfl
    cases hleft with
    | before h =>
        refine .inl (hdone (current_of_lt hnew fun x hx => ?_))
        rw [Slot.readIndex_congr h, (readIndex_of_current hcur).1] at hx
        cases hx
        omega
    | blank h =>
        refine .inl (hdone (current_of_lt hnew fun x hx => ?_))
        rw [h] at hx
        cases hx
    | torn m h4 hm hu h =>
        have hsame : (a.slots (i + 1)).readIndex ((a.write C v').crash g f n k) = some index :=
          Slot.readIndex_of_tornBytes hlt h
        have hcur' : a.currentSlotAndIndex ((a.write C v').crash g f n k) = some (0, index) := by
          apply current_of_eq
          intro j
          rcases eq_zero_or_one i with rfl | rfl <;> rcases eq_zero_or_one j with rfl | rfl
          · exact hnew
          · exact hsame
          · exact hsame
          · exact hnew
        rcases eq_zero_or_one i with rfl | rfl
        · exact .inl (hdone hcur')
        · exact htorn m h4 hu (read_of_torn hlt hcur' h)

/-- Every proper part of the new value on a unit boundary is read after some crash. -/
theorem exists_read_torn (hg : g.ForSlots) {v v' : T} (hread : a.read C f = some v)
    (hfit : (a.slots 0).Fits C v') (hex : ¬ a.Exhausted f) {m : ℕ} (h4 : 4 ≤ m)
    (hu : g.unit ∣ m) (hm : m < 4 + (C.encode v').length) :
    ∃ n k, a.read C ((a.write C v').crash g f n k) = a.tornRead C v' m := by
  rcases a.nextSlotAndIndex_cases f with ⟨hn, -⟩ | ⟨i, index, hn, hlt, hcases⟩
  · exact absurd hn hex
  obtain ⟨old, hcur, hindex⟩ : ∃ old, a.currentSlotAndIndex f = some (i + 1, old) ∧
      index = old + 1 := by
    rcases hcases with h | h
    · exact h
    · obtain ⟨j, c, hj⟩ := current_of_read hread
      rw [h] at hj
      cases hj
  have hfiti := (a.fits_iff_fits 0 i).mp hfit
  obtain ⟨n, k, hlen, hcontents⟩ := Slot.exists_crash index hg.dvd_buffer hfiti h4 hm hu f
  refine ⟨n, k, ?_⟩
  have hfirst : (a.slots i).write C index v' f = _ := first_write hfiti f
  have hcrash : (a.write C v').crash g f n k = ((a.slots i).write C index v').crash g f n k := by
    have hbind := FlashM.crash_bind_of_ret (g := g)
      (k := fun _ => (a.slots (i + 1)).write C index v') hfirst n k
    rw [if_pos hlen] at hbind
    simp only [FlashM.crash] at hbind ⊢
    rw [write_of_next hn, hbind]
  rw [hcrash]
  have hother : (a.slots (i + 1)).flash.contents
      (((a.slots i).write C index v').crash g f n k) = (a.slots (i + 1)).flash.contents f :=
    a.contents_crashAt_other i (Slot.write_within C (a.slots i) index v' f) f n k
  refine read_of_torn hlt (current_of_lt (Slot.readIndex_of_tornBytes hlt hcontents)
    fun x hx => ?_) hcontents
  rw [Slot.readIndex_congr hother, (readIndex_of_current hcur).1] at hx
  cases hx
  omega

/-! ### Crash atomicity -/

/-- A write of `v'` over `v` is atomic: power loss at any point leaves one of the two, and
the slot goes on to store what is written to it later. -/
def CrashAtomic (g : FlashGeometry) (C : Codec T) (a : AbSlot) (f : Flash) (v v' : T) : Prop :=
  ∀ n k, (a.read C ((a.write C v').crash g f n k) = some v ∨
      a.read C ((a.write C v').crash g f n k) = some v') ∧
    ∀ w, C.Valid w → (a.write C w ((a.write C v').crash g f n k)).result = .ret () →
      a.read C ((a.write C w).after ((a.write C v').crash g f n k)) = some w

/-- No proper part of the new value reads as anything but the old value or the new one. -/
def PartsHarmless (g : FlashGeometry) (C : Codec T) (a : AbSlot) (v v' : T) : Prop :=
  ∀ m, 4 ≤ m → g.unit ∣ m → m < 4 + (C.encode v').length →
    a.tornRead C v' m = some v ∨ a.tornRead C v' m = some v'

/-- A value that fits one program unit together with its index has no proper parts. -/
theorem partsHarmless_of_le {v v' : T} (h : 4 + (C.encode v').length ≤ g.unit) :
    a.PartsHarmless g C v v' := by
  intro m h4 hu hm
  have hle := Nat.le_of_dvd (by omega) hu
  omega

/-- The first write to an erased slot is not the last one it can take. -/
theorem not_exhausted_first (hfit : (a.slots 0).Fits C value) :
    ¬ a.Exhausted ((a.write C value).after fun _ => 0xff) ∧
      (a.write C value fun _ => 0xff).result = .ret () := by
  have hblank : ∀ i, (a.slots i).readIndex (fun _ => 0xff) = none := fun i =>
    Slot.readIndex_of_fill_nil (FlashPartition.contents_erased _)
  have hnone : a.currentSlotAndIndex (fun _ => 0xff) = none := by
    simp only [currentSlotAndIndex, hblank]
  have hret : (a.write C value fun _ => 0xff).result = .ret () := by
    refine write_returns hfit ?_
    rintro ⟨i, index, hcur, -⟩
    rw [hnone] at hcur
    cases hcur
  refine ⟨?_, hret⟩
  rintro ⟨i, index, hcur, hmax⟩
  obtain ⟨j, index', hn, hlt, hholds⟩ := write_holds hret
  rw [nextSlotAndIndex, hnone] at hn
  cases hn
  rw [current_of_eq fun j => (hholds j).readIndex hlt] at hcur
  cases hcur
  exact absurd hmax (by decide)

/-- An atomic write has no harmful part, unless it is refused. -/
theorem CrashAtomic.partsHarmless (hg : g.ForSlots) {v v' : T} (hread : a.read C f = some v)
    (hfit : (a.slots 0).Fits C v') (hex : ¬ a.Exhausted f) (h : a.CrashAtomic g C f v v') :
    a.PartsHarmless g C v v' := by
  intro m h4 hu hm
  obtain ⟨n, k, htorn⟩ := exists_read_torn hg hread hfit hex h4 hu hm
  rw [← htorn]
  exact (h n k).1

end AbSlot

/-- **When an A/B write is crash atomic**: it is refused because the slot is exhausted, or no
proper part of the new value, up to a unit boundary behind the index, is read as anything but
the old value or the new one. -/
theorem abSlot_crashAtomic_iff {a : AbSlot} {f : Flash} (hg : g.ForSlots) {v v' : T}
    (hread : a.read C f = some v) (hv' : C.Valid v') (hfit : (a.slots 0).Fits C v') :
    a.CrashAtomic g C f v v' ↔ a.Exhausted f ∨ a.PartsHarmless g C v v' := by
  constructor
  · intro h
    by_cases hex : a.Exhausted f
    · exact .inl hex
    · exact .inr (h.partsHarmless hg hread hfit hex)
  · intro h n k
    refine ⟨?_, fun w hw hret => AbSlot.read_write hw hret⟩
    rcases AbSlot.read_crash hg hv' hread n k with hold | hnew | ⟨hex, m, h4, hu, hm, htorn⟩
    · exact .inl hold
    · exact .inr hnew
    · rw [htorn]
      exact h.resolve_left hex m h4 hu hm

/-! ### Five signature shares -/

/-- An A/B slot of two sectors. -/
def twoSectors : AbSlot :=
  AbSlot.halves { offsetSector := 0, nSectors := 2, inBounds := by decide } (by decide) rfl

/-- A nonce slot before it has signed. -/
def unsignedSlot : SecretNonceSlot RatchetSeedMaterial (BitVec 256) := .initial 1 1 1

/-- The slot after it has signed `n` sign items of one session, with shares all zero. -/
def signedSlot (n : ℕ) : SecretNonceSlot RatchetSeedMaterial (BitVec 256) where
  index := n
  nonceStreamId := 1
  ratchetPrgSeedMaterial := 2
  lastUsed := 2
  signingState := some { sessionId := 1, signatureShares := List.replicate n 0 }

/-- The codec of a nonce slot with shares of thirty-two bytes. -/
abbrev nonceSlotCodec : Codec (SecretNonceSlot RatchetSeedMaterial (BitVec 256)) :=
  secretNonceSlotCodec (FixedCodec.bits 32)

/-- The flash after `unsignedSlot` was written to an erased slot. -/
def unsignedFlash : Flash := (twoSectors.write nonceSlotCodec unsignedSlot).after fun _ => 0xff

theorem length_unsignedSlot : (nonceSlotCodec.encode unsignedSlot).length = 61 :=
  length_encodeSlot (FixedCodec.bits 32) unsignedSlot

theorem length_signedSlot (n : ℕ) :
    (nonceSlotCodec.encode (signedSlot n)).length = 61 + (40 + 32 * n) := by
  have h := length_encodeSlot (FixedCodec.bits 32) (signedSlot n)
  rw [signedSlot, Option.elim_some, List.length_replicate] at h
  exact h

theorem size_twoSectors : (twoSectors.slots 0).flash.size = 4096 := by decide

theorem unsignedSlot_fits : (twoSectors.slots 0).Fits nonceSlotCodec unsignedSlot := by
  rw [Slot.fits_iff, length_unsignedSlot, size_twoSectors]
  decide

theorem signedSlot_fits {n : ℕ} (h : n ≤ 100) :
    (twoSectors.slots 0).Fits nonceSlotCodec (signedSlot n) := by
  rw [Slot.fits_iff, length_signedSlot, size_twoSectors]
  omega

theorem unsignedFlash_read : twoSectors.read nonceSlotCodec unsignedFlash = some unsignedSlot :=
  AbSlot.read_write ⟨by decide, by decide, nofun, nofun⟩
    (AbSlot.not_exhausted_first unsignedSlot_fits).2

theorem signedSlot_valid {n : ℕ} (h : n ≤ u32Max) : nonceSlotCodec.Valid (signedSlot n) := by
  refine ⟨h, (by decide : 2 ≤ u32Max), ?_, ?_⟩
  · rintro st ⟨⟩
    simpa using h
  · rintro st ⟨⟩ s -
    trivial

/-- One share fits one buffer, so signing one item replaces the slot atomically. -/
theorem abSlot_crashAtomic_iff_one_share :
    twoSectors.CrashAtomic ⟨256, 4096⟩ nonceSlotCodec unsignedFlash unsignedSlot
      (signedSlot 1) :=
  (abSlot_crashAtomic_iff ⟨rfl, by decide, by decide⟩ unsignedFlash_read
    (signedSlot_valid (by decide)) (signedSlot_fits (by decide))).mpr
    (.inr (AbSlot.partsHarmless_of_le (by rw [length_signedSlot]; decide)))

/-- The slot that is read when the last nine bytes of the fifth share are erased. -/
def tornSlot : SecretNonceSlot RatchetSeedMaterial (BitVec 256) :=
  { signedSlot 5 with
    signingState := some
      { sessionId := 1
        signatureShares := [0, 0, 0, 0, BitVec.ofNat 256 (2 ^ 256 - 2 ^ 184)] } }

theorem encode_tornSlot :
    (nonceSlotCodec.encode (signedSlot 5)).take 252 ++ List.replicate 9 0xff =
      nonceSlotCodec.encode tornSlot := by
  decide +kernel

/-- Five shares take two buffers. Power loss between the two programs leaves the new slot with
the end of the fifth share erased, and that is what is read. -/
theorem abSlot_not_crashAtomic_five_shares :
    twoSectors.read nonceSlotCodec unsignedFlash = some unsignedSlot ∧
    nonceSlotCodec.Valid (signedSlot 5) ∧
    (twoSectors.slots 0).Fits nonceSlotCodec (signedSlot 5) ∧
    ¬ twoSectors.CrashAtomic ⟨256, 4096⟩ nonceSlotCodec unsignedFlash unsignedSlot
      (signedSlot 5) := by
  have hfit := signedSlot_fits (n := 5) (by decide)
  refine ⟨unsignedFlash_read, signedSlot_valid (by decide), hfit, fun h => ?_⟩
  have hparts := h.partsHarmless ⟨rfl, by decide, by decide⟩ unsignedFlash_read hfit
    (AbSlot.not_exhausted_first unsignedSlot_fits).1 256 (by decide) (by decide)
    (by rw [length_signedSlot]; decide)
  have htorn : twoSectors.tornRead nonceSlotCodec (signedSlot 5) 256 = some tornSlot := by
    have hlen : ((nonceSlotCodec.encode (signedSlot 5)).take 252).length = 252 := by
      rw [List.length_take, length_signedSlot]
      decide
    have hvalid : nonceSlotCodec.Valid tornSlot :=
      ⟨(by decide : 5 ≤ u32Max), (by decide : 2 ≤ u32Max), by rintro st ⟨⟩; decide,
        by rintro st ⟨⟩ s -; trivial⟩
    rw [AbSlot.tornRead, size_twoSectors, show 256 - 4 = 252 from rfl,
      ← fill_append_replicate (r := 9) (by rw [hlen]; decide), encode_tornSlot, fill,
      nonceSlotCodec.decode_encode hvalid]
    rfl
  rw [htorn] at hparts
  rcases hparts with hparts | hparts
  · exact absurd hparts (by decide)
  · exact absurd hparts (by decide)

end Frostsnap
