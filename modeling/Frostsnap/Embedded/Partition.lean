import Frostsnap.Core.NonceStream
import Frostsnap.Lib.FlashM

/-!
# Flash partitions

This module embeds `partition.rs`: a `FlashPartition` is a run of sectors with checked reads,
writes and erases, and a `BincodeFlashWriter` collects the bytes of an encoded value in a
buffer and programs the buffer each time it is full.

## Main results

* `BincodeFlashWriter.write_spec`: what the writer issues are consecutive programs of full
  buffers, as long as they fit; the first that does not fit is an error.
* `BincodeFlashWriter.encode_spec`: the same for a value that is written and flushed.
-/

namespace Frostsnap

/-- The sector size of the flash, in bytes. -/
abbrev sectorSize : ℕ := 4096

/-- `S::WRITE_SIZE`, the word size of the flash, in bytes. -/
abbrev writeSize : ℕ := 4

/-- The errors of a flash. -/
inductive NorFlashErrorKind where
  | notAligned
  | outOfBounds
  | other
  deriving DecidableEq

/-- Saturating `u32` addition. -/
def saturatingAddU32 (a b : ℕ) : ℕ := min (a + b) u32Max

/-- A run of sectors of the flash, all of it inside the `u32` address space. -/
structure FlashPartition where
  offsetSector : ℕ
  nSectors : ℕ
  inBounds : (offsetSector + nSectors) * sectorSize ≤ u32Max
  deriving DecidableEq

/-- Bytes at the start of an erased region of `n` bytes. -/
def fill (n : ℕ) (bytes : List UInt8) : List UInt8 :=
  bytes ++ List.replicate (n - bytes.length) 0xff

theorem length_fill {n : ℕ} {bytes : List UInt8} (h : bytes.length ≤ n) :
    (fill n bytes).length = n := by
  simp only [fill, List.length_append, List.length_replicate]
  omega

theorem fill_append (bytes bytes' : List UInt8) (n : ℕ) :
    fill n (bytes ++ bytes') = bytes ++ fill (n - bytes.length) bytes' := by
  simp only [fill, List.length_append, List.append_assoc, Nat.sub_add_eq]

/-- A part of two byte strings that has all of the first. -/
theorem fill_take_append {bytes : List UInt8} {n m k : ℕ} (hk : bytes.length = k) (h : k ≤ m)
    (bytes' : List UInt8) :
    fill n ((bytes ++ bytes').take m) = bytes ++ fill (n - k) (bytes'.take (m - k)) := by
  rw [List.take_append, hk, List.take_of_length_le (hk.trans_le h), fill_append, hk]

/-- Programming erased bytes is programming nothing. -/
theorem fill_append_replicate {bytes : List UInt8} {n r : ℕ} (h : bytes.length + r ≤ n) :
    fill n (bytes ++ List.replicate r 0xff) = fill n bytes := by
  rw [fill_append, fill, fill, List.length_replicate, List.append_cancel_left_eq,
    List.replicate_append_replicate]
  congr 1
  omega

namespace FlashPartition

/-- The address of the first byte. -/
def start (p : FlashPartition) : ℕ := p.offsetSector * sectorSize

/-- Size in bytes. -/
def size (p : FlashPartition) : ℕ := p.nSectors * sectorSize

theorem size_lt (p : FlashPartition) : p.size < u32Max := by
  have h := p.inBounds
  simp only [size, sectorSize, u32Max] at h ⊢
  omega

/-- The bytes of the partition. -/
def contents (p : FlashPartition) (f : Flash) : List UInt8 :=
  (List.range' p.start p.size).map f

@[simp] theorem length_contents (p : FlashPartition) (f : Flash) :
    (p.contents f).length = p.size := by
  simp [contents]

/-- Program bytes at an offset. -/
def norWrite (p : FlashPartition) (offset : ℕ) (bytes : List UInt8) :
    FlashM (Except NorFlashErrorKind Unit) :=
  if p.size < saturatingAddU32 offset bytes.length then pure (.error .outOfBounds)
  else do
    FlashM.issue (.program (p.start + offset) bytes)
    return .ok ()

/-- Read bytes at an offset. -/
def read (p : FlashPartition) (f : Flash) (offset len : ℕ) :
    Except NorFlashErrorKind (List UInt8) :=
  if p.size < saturatingAddU32 offset len then .error .outOfBounds
  else .ok (((p.contents f).drop offset).take len)

/-- The partition without its last `n` sectors. -/
def dropEnd (p : FlashPartition) (n : ℕ) (h : n ≤ p.nSectors) : FlashPartition where
  offsetSector := p.offsetSector
  nSectors := p.nSectors - n
  inBounds := (Nat.mul_le_mul_right _ (by omega)).trans p.inBounds

/-- The last `n` sectors of the partition. -/
def takeEnd (p : FlashPartition) (n : ℕ) (h : n ≤ p.nSectors) : FlashPartition where
  offsetSector := p.offsetSector + (p.nSectors - n)
  nSectors := n
  inBounds := (Nat.mul_le_mul_right _ (by omega)).trans p.inBounds

/-- Splits sectors off the end of the partition into a new partition. -/
def splitOffEnd (p : FlashPartition) (n : ℕ) : Exec (FlashPartition × FlashPartition) :=
  if h : n ≤ p.nSectors then .ret (p.dropEnd n h, p.takeEnd n h)
  else .panic "assertion failed: n_sectors <= self.n_sectors"

/-- Splits sectors off the front of the partition; the second result is the front. -/
def splitOffFront (p : FlashPartition) (n : ℕ) : Exec (FlashPartition × FlashPartition) := do
  Exec.assert (n ≤ p.nSectors) "assertion failed: n_sectors <= self.n_sectors"
  let (front, rest) ← p.splitOffEnd (p.nSectors - n)
  return (rest, front)

/-- Erase a run of sectors. -/
def eraseSectors (p : FlashPartition) (startSector count : ℕ) :
    FlashM (Except NorFlashErrorKind Unit) :=
  if p.nSectors < startSector + count then pure (.error .outOfBounds)
  else do
    FlashM.issue (.erase ((p.offsetSector + startSector) * sectorSize)
      ((p.offsetSector + (startSector + count)) * sectorSize))
    return .ok ()

/-- Erase one sector. -/
def eraseSector (p : FlashPartition) (sector : ℕ) : FlashM (Except NorFlashErrorKind Unit) :=
  if p.nSectors ≤ sector then pure (.error .outOfBounds)
  else do
    FlashM.issue (.erase ((p.offsetSector + sector) * sectorSize)
      ((p.offsetSector + sector + 1) * sectorSize))
    return .ok ()

/-- Erase every sector. -/
def eraseAll (p : FlashPartition) : FlashM (Except NorFlashErrorKind Unit) := do
  FlashM.issue (.erase p.start (p.start + p.size))
  return .ok ()

theorem eraseAll_apply {p : FlashPartition} (f : Flash) :
    p.eraseAll f = ⟨[.erase p.start (p.start + p.size)], .ret (.ok ())⟩ := rfl

/-- Every byte is erased. -/
def isEmpty (p : FlashPartition) (f : Flash) : Bool := (p.contents f).all (· == 0xff)

/-- The contents are the bytes in the partition. -/
theorem contents_congr {p : FlashPartition} {f g : Flash}
    (h : ∀ i, p.start ≤ i → i < p.start + p.size → f i = g i) : p.contents f = p.contents g := by
  apply List.map_congr_left
  intro i hi
  obtain ⟨h₁, h₂⟩ := List.mem_range'_1.mp hi
  exact h i h₁ h₂

/-- The contents of a partition of an erased flash. -/
theorem contents_erased (p : FlashPartition) :
    p.contents (fun _ => 0xff) = fill p.size [] := by
  simp [contents, fill, List.map_const']

/-- The contents of a partition that was erased and then programmed from its start. -/
theorem contents_erase_program {p : FlashPartition} {f : Flash} {bytes : List UInt8}
    (h : bytes.length ≤ p.size) :
    p.contents ((f.erase p.start (p.start + p.size)).program p.start bytes) =
      fill p.size bytes := by
  apply List.ext_getElem
  · simp only [length_contents, fill, List.length_append, List.length_replicate]
    omega
  · intro i h₁ h₂
    rw [length_contents] at h₁
    simp only [contents, List.getElem_map, List.getElem_range', Nat.one_mul, Flash.program,
      Flash.erase, fill]
    rw [if_pos (by omega), if_pos (by omega), UInt8.ff_and, Nat.add_sub_cancel_left]
    by_cases hi : i < bytes.length
    · rw [List.getElem_append_left hi, List.getD_eq_getElem _ _ hi]
    · rw [List.getElem_append_right (by omega), List.getD_eq_default _ _ (by omega),
        List.getElem_replicate]

/-- A write that fits is one program. -/
theorem norWrite_apply {p : FlashPartition} {offset : ℕ} {bytes : List UInt8}
    (h : offset + bytes.length ≤ p.size) (f : Flash) :
    p.norWrite offset bytes f = ⟨[.program (p.start + offset) bytes], .ret (.ok ())⟩ := by
  have hfit : ¬ p.size < saturatingAddU32 offset bytes.length := by
    have := Nat.min_le_left (offset + bytes.length) u32Max
    simp only [saturatingAddU32]
    omega
  rw [norWrite, if_neg hfit]
  rfl

/-- A write that does not fit is an error, and touches nothing. -/
theorem norWrite_apply_of_lt {p : FlashPartition} {offset : ℕ} {bytes : List UInt8}
    (h : p.size < offset + bytes.length) (f : Flash) :
    p.norWrite offset bytes f = ⟨[], .ret (.error .outOfBounds)⟩ := by
  have hfit : p.size < saturatingAddU32 offset bytes.length := Nat.lt_min.mpr ⟨h, p.size_lt⟩
  rw [norWrite, if_pos hfit]
  rfl

/-! ### Operations on a partition stay in it -/

/-- Two partitions that do not overlap. -/
def Apart (p q : FlashPartition) : Prop :=
  p.start + p.size ≤ q.start ∨ q.start + q.size ≤ p.start

theorem Apart.symm {p q : FlashPartition} (h : p.Apart q) : q.Apart p := Or.symm h

/-- The call changes nothing but the partition. -/
def Confines {α : Type} (p : FlashPartition) (m : FlashM α) : Prop :=
  m.Confined p.start (p.start + p.size)

theorem norWrite_confined (p : FlashPartition) (offset : ℕ) (bytes : List UInt8) :
    p.Confines (p.norWrite offset bytes) := by
  unfold Confines norWrite
  split
  · exact FlashM.confined_pure _
  · rename_i hfit
    have hsize := p.size_lt
    simp only [saturatingAddU32, not_lt] at hfit
    refine FlashM.Confined.bind' (FlashM.confined_issue ?_) fun _ => FlashM.confined_pure _
    refine ⟨Nat.le_add_right _ _, ?_⟩
    rcases min_le_iff.mp hfit with h | h
    · omega
    · omega

theorem eraseSector_confined (p : FlashPartition) (sector : ℕ) :
    p.Confines (p.eraseSector sector) := by
  unfold Confines eraseSector
  split
  · exact FlashM.confined_pure _
  · rename_i hlt
    refine FlashM.Confined.bind' (FlashM.confined_issue ?_) fun _ => FlashM.confined_pure _
    simp only [FlashOp.Within, start, size, sectorSize]
    omega

theorem eraseAll_confined (p : FlashPartition) : p.Confines p.eraseAll := by
  refine FlashM.Confined.bind' (FlashM.confined_issue ?_) fun _ => FlashM.confined_pure _
  exact ⟨le_refl _, le_refl _⟩

/-- A call that changes nothing but one partition leaves another as it is, also when it is
interrupted. -/
theorem Confines.contents_flashAfter {α : Type} {p q : FlashPartition} {m : FlashM α}
    (h : p.Confines m) (hapart : p.Apart q) (g : FlashGeometry) (f : Flash)
    (crash : Option (ℕ × ℕ)) : q.contents (m.flashAfter g f crash) = q.contents f := by
  refine contents_congr fun i h₁ h₂ => FlashM.Confined.flashAfter_outside h crash ?_
  rcases hapart with h | h
  · exact .inr (h.trans h₁)
  · exact .inl (h₂.trans_le h)

/-- The same, when it is not interrupted. -/
theorem Confines.contents_after {α : Type} {p q : FlashPartition} {m : FlashM α}
    (h : p.Confines m) (hapart : p.Apart q) (f : Flash) : q.contents (m.after f) = q.contents f :=
  h.contents_flashAfter hapart ⟨writeSize, sectorSize⟩ f none

end FlashPartition

/-- Writes an encoded value to a partition through a buffer. -/
structure BincodeFlashWriter where
  flash : FlashPartition
  bufferSize : ℕ
  /-- the bytes below `buf_index` -/
  buf : List UInt8
  wordPos : ℕ

/-- A writer at the start of a partition, which must be flushed at the end. -/
def FlashPartition.bincodeWriter (p : FlashPartition) (bufferSize : ℕ) : BincodeFlashWriter where
  flash := p
  bufferSize := bufferSize
  buf := []
  wordPos := 0

/-- Fill with erased bytes up to a word boundary. -/
def padWord (bytes : List UInt8) : List UInt8 :=
  bytes ++ List.replicate ((writeSize - bytes.length % writeSize) % writeSize) 0xff

theorem length_padWord (bytes : List UInt8) :
    (padWord bytes).length = (bytes.length + 3) / 4 * 4 := by
  simp only [padWord, writeSize, List.length_append, List.length_replicate]
  omega

/-- Padding only looks at what follows whole words. -/
theorem padWord_append {bytes : List UInt8} (h : writeSize ∣ bytes.length)
    (rest : List UInt8) : padWord (bytes ++ rest) = bytes ++ padWord rest := by
  have hmod : (bytes ++ rest).length % writeSize = rest.length % writeSize := by
    rw [List.length_append, Nat.add_mod, Nat.mod_eq_zero_of_dvd h]
    simp
  rw [padWord, padWord, hmod, List.append_assoc]

theorem padWord_nil : padWord [] = [] := rfl

namespace BincodeFlashWriter

/-- One byte of the loop of `write`. -/
def push (w : BincodeFlashWriter) (byte : UInt8) :
    FlashM (Except NorFlashErrorKind BincodeFlashWriter) :=
  let buf := w.buf ++ [byte]
  if buf.length = w.bufferSize then do
    match ← w.flash.norWrite (w.wordPos * writeSize) buf with
    | .error e => return .error e
    | .ok () =>
        return .ok { w with buf := [], wordPos := w.wordPos + w.bufferSize / writeSize }
  else return .ok { w with buf := buf }

/-- Write bytes. -/
def write (w : BincodeFlashWriter) :
    List UInt8 → FlashM (Except NorFlashErrorKind BincodeFlashWriter)
  | [] => pure (.ok w)
  | byte :: bytes => do
      match ← w.push byte with
      | .error e => return .error e
      | .ok w => w.write bytes

/-- Program what is left in the buffer, up to a word boundary, and return the word after. -/
def flush (w : BincodeFlashWriter) : FlashM (Except NorFlashErrorKind ℕ) :=
  if w.buf = [] then pure (.ok w.wordPos)
  else do
    match ← w.flash.norWrite (w.wordPos * writeSize) (padWord w.buf) with
    | .error e => return .error e
    | .ok () => return .ok (w.wordPos + (padWord w.buf).length / writeSize)

/-- One byte more, and the writer is still at the same partition. -/
theorem flash_push {w w' : BincodeFlashWriter} {byte : UInt8} {f : Flash} {ops : List FlashOp}
    (h : w.push byte f = ⟨ops, .ret (.ok w')⟩) : w'.flash = w.flash := by
  unfold push at h
  split at h
  · obtain ⟨ops', r, -, hr⟩ := FlashM.bind_result_eq_ret (congrArg FlashTrace.result h)
    rcases r with e | u
    · cases hr
    · cases hr
      rfl
  · cases h
    rfl

theorem push_confined (w : BincodeFlashWriter) (byte : UInt8) : w.flash.Confines (w.push byte) := by
  simp only [push]
  split
  · refine FlashM.Confined.bind' (w.flash.norWrite_confined _ _) fun r => ?_
    rcases r with e | u
    · exact FlashM.confined_pure _
    · exact FlashM.confined_pure _
  · exact FlashM.confined_pure _

/-- Writing changes nothing but the partition, and keeps to it. -/
theorem write_confined (w : BincodeFlashWriter) (bytes : List UInt8) :
    w.flash.Confines (w.write bytes) := by
  induction bytes generalizing w with
  | nil => exact FlashM.confined_pure _
  | cons byte bytes ih =>
      refine FlashM.Confined.bind (w.push_confined byte) fun f ops r hr => ?_
      rcases r with e | w'
      · exact FlashM.confined_pure _
      · have h := ih w'
        rw [flash_push hr] at h
        exact h

theorem flash_write {w w' : BincodeFlashWriter} {bytes : List UInt8} {f : Flash}
    (h : (w.write bytes f).result = .ret (.ok w')) : w'.flash = w.flash := by
  induction bytes generalizing w f with
  | nil =>
      cases h
      rfl
  | cons byte bytes ih =>
      obtain ⟨ops, r, hr, h⟩ := FlashM.bind_result_eq_ret h
      rcases r with e | w₁
      · cases h
      · exact (ih h).trans (flash_push hr)

theorem flush_confined (w : BincodeFlashWriter) : w.flash.Confines w.flush := by
  unfold flush
  split
  · exact FlashM.confined_pure _
  · refine FlashM.Confined.bind' (w.flash.norWrite_confined _ _) fun r => ?_
    rcases r with e | u
    · exact FlashM.confined_pure _
    · exact FlashM.confined_pure _

/-- The next byte to be programmed, as an offset into the partition. -/
def pos (w : BincodeFlashWriter) : ℕ := w.wordPos * writeSize

/-- The buffer is not full, and a whole number of words. -/
def Ready (w : BincodeFlashWriter) : Prop :=
  writeSize ∣ w.bufferSize ∧ w.buf.length < w.bufferSize

/-- How many more full buffers fit in the partition. -/
def room (w : BincodeFlashWriter) : ℕ := (w.flash.size - w.pos) / w.bufferSize

/-- The writer after a full buffer has been programmed. -/
def advance (w : BincodeFlashWriter) : BincodeFlashWriter :=
  { w with buf := [], wordPos := w.wordPos + w.bufferSize / writeSize }

theorem pos_advance {w : BincodeFlashWriter} (hw : w.Ready) :
    w.advance.pos = w.pos + w.bufferSize := by
  obtain ⟨⟨k, hk⟩, -⟩ := hw
  simp only [advance, pos, hk, writeSize]
  omega

theorem ready_advance {w : BincodeFlashWriter} (hw : w.Ready) : w.advance.Ready :=
  ⟨hw.1, Nat.zero_lt_of_lt hw.2⟩

theorem room_advance {w : BincodeFlashWriter} (hw : w.Ready) :
    w.advance.room = w.room - 1 := by
  have hpos : 0 < w.bufferSize := Nat.zero_lt_of_lt hw.2
  have hsub := Nat.sub_mul_div (w.flash.size - w.pos) w.bufferSize 1
  rw [Nat.mul_one, ← Nat.sub_add_eq, ← pos_advance hw] at hsub
  exact hsub

/-- One byte: it is buffered, or the full buffer is programmed, or it does not fit. -/
theorem push_apply {w : BincodeFlashWriter} (hw : w.Ready) (byte : UInt8) (f : Flash) :
    w.push byte f =
      if w.buf.length + 1 < w.bufferSize then
        ⟨[], .ret (.ok { w with buf := w.buf ++ [byte] })⟩
      else if 0 < w.room then
        ⟨[.program (w.flash.start + w.pos) (w.buf ++ [byte])], .ret (.ok w.advance)⟩
      else ⟨[], .ret (.error .outOfBounds)⟩ := by
  have hlen : (w.buf ++ [byte]).length = w.buf.length + 1 := by simp
  obtain ⟨-, hlt⟩ := hw
  by_cases hfull : w.buf.length + 1 = w.bufferSize
  · have hroom : 0 < w.room ↔ w.pos + w.bufferSize ≤ w.flash.size := by
      rw [room, Nat.div_pos_iff]
      omega
    rw [if_neg (by omega), push, hlen, if_pos hfull]
    by_cases hfit : 0 < w.room
    · rw [if_pos hfit, FlashM.bind_of_ret
        (FlashPartition.norWrite_apply (by rw [hlen, hfull]; exact hroom.mp hfit) f)]
      rfl
    · rw [if_neg hfit, FlashM.bind_of_pure (FlashPartition.norWrite_apply_of_lt
        (by rw [hlen, hfull]; exact not_le.mp (hroom.not.mp hfit)) f)]
      rfl
  · rw [if_pos (by omega), push, hlen, if_neg hfull]
    rfl

/-- **What writing bytes issues**: consecutive programs of full buffers, as many as fit. It
ends with the rest in the buffer when all of them fit, and with an error otherwise. -/
theorem write_spec {w : BincodeFlashWriter} (hw : w.Ready) (bytes : List UInt8) :
    ∃ (pieces : List (List UInt8)) (rest : List UInt8),
      (∀ p ∈ pieces, p.length = w.bufferSize) ∧ rest.length < w.bufferSize ∧
      pieces.flatten ++ rest = w.buf ++ bytes ∧
      ∀ f, w.write bytes f = ⟨Flash.programs (w.flash.start + w.pos) (pieces.take w.room),
        if pieces.length ≤ w.room then
          .ret (.ok { w with
            buf := rest
            wordPos := w.wordPos + pieces.length * (w.bufferSize / writeSize) })
        else .ret (.error .outOfBounds)⟩ := by
  induction bytes generalizing w with
  | nil => exact ⟨[], w.buf, by simp, hw.2, by simp, fun f => by simp [write, Flash.programs]⟩
  | cons byte bytes ih =>
      by_cases hfull : w.buf.length + 1 < w.bufferSize
      · obtain ⟨pieces, rest, hp, hr, hcat, hrun⟩ :=
          @ih { w with buf := w.buf ++ [byte] } ⟨hw.1, by simpa using hfull⟩
        refine ⟨pieces, rest, hp, hr, by simpa using hcat, fun f => ?_⟩
        have hpush := push_apply hw byte f
        rw [if_pos hfull] at hpush
        rw [write, FlashM.bind_of_pure hpush]
        exact hrun f
      · obtain ⟨pieces, rest, hp, hr, hcat, hrun⟩ := ih (ready_advance hw)
        have hlen : (w.buf ++ [byte]).length = w.bufferSize := by
          have := hw.2
          simp only [List.length_append, List.length_singleton]
          omega
        refine ⟨(w.buf ++ [byte]) :: pieces, rest, ?_, hr, ?_, fun f => ?_⟩
        · intro p hmem
          rcases List.mem_cons.mp hmem with rfl | hmem
          · exact hlen
          · exact hp p hmem
        · have hcat' : pieces.flatten ++ rest = bytes := by simpa [advance] using hcat
          rw [List.flatten_cons, List.append_assoc, hcat', List.append_assoc,
            List.singleton_append]
        · have hpush := push_apply hw byte f
          rw [if_neg hfull] at hpush
          by_cases hroom : 0 < w.room
          · rw [if_pos hroom] at hpush
            have hsucc : w.room = w.advance.room + 1 := by
              rw [room_advance hw]
              omega
            have hstart : w.advance.flash.start + w.advance.pos =
                w.flash.start + w.pos + (w.buf ++ [byte]).length := by
              rw [pos_advance hw, hlen]
              exact (Nat.add_assoc _ _ _).symm
            rw [write, FlashM.bind_of_ret hpush]
            have hword : w.advance.wordPos + pieces.length * (w.advance.bufferSize / writeSize)
                = w.wordPos + (pieces.length + 1) * (w.bufferSize / writeSize) := by
              rw [Nat.add_mul, Nat.one_mul, Nat.add_comm (pieces.length * _), ← Nat.add_assoc]
              rfl
            simp only [hrun, hsucc, List.take_succ_cons, Flash.programs, hstart, hword,
              List.singleton_append, List.length_cons, Nat.add_le_add_iff_right]
            rfl
          · rw [if_neg hroom] at hpush
            have hzero : w.room = 0 := by omega
            rw [write, FlashM.bind_of_pure hpush, hzero]
            simp [Flash.programs]

theorem length_flatten_of_forall {pieces : List (List UInt8)} {n : ℕ}
    (h : ∀ p ∈ pieces, p.length = n) : pieces.flatten.length = pieces.length * n := by
  induction pieces with
  | nil => simp
  | cons p pieces ih =>
      rw [List.flatten_cons, List.length_append, h p List.mem_cons_self,
        ih fun q hq => h q (List.mem_cons_of_mem _ hq), List.length_cons, Nat.add_mul,
        Nat.one_mul, Nat.add_comm]

theorem mul_div_writeSize {w : BincodeFlashWriter} (hw : w.Ready) (n : ℕ) :
    n * (w.bufferSize / writeSize) * writeSize = n * w.bufferSize := by
  rw [Nat.mul_assoc, Nat.div_mul_cancel hw.1]

/-- **Writing and flushing bytes that fit** programs consecutive pieces, every one but the
last a full buffer, which together are the bytes padded to a whole word. -/
theorem write_flush {w : BincodeFlashWriter} (hw : w.Ready) (hbuf : w.buf = [])
    {bytes : List UInt8} (hfit : w.pos + (padWord bytes).length ≤ w.flash.size) :
    ∃ ps w', ps.flatten = padWord bytes ∧ (∀ p ∈ ps.dropLast, p.length = w.bufferSize) ∧
      ps.length = (bytes.length + w.bufferSize - 1) / w.bufferSize ∧
      ∃ ops₁ ops₂, ops₁ ++ ops₂ = Flash.programs (w.flash.start + w.pos) ps ∧
        (∀ f, w.write bytes f = ⟨ops₁, .ret (.ok w')⟩) ∧
        ∀ f, w'.flush f =
          ⟨ops₂, .ret (.ok (w.wordPos + (padWord bytes).length / writeSize))⟩ := by
  obtain ⟨pieces, rest, hp, hr, hcat, hrun⟩ := write_spec hw bytes
  rw [hbuf, List.nil_append] at hcat
  have hflat := length_flatten_of_forall hp
  have hdvd : writeSize ∣ pieces.flatten.length := by
    rw [hflat]
    exact Nat.dvd_mul_left_of_dvd hw.1 _
  have hpad : padWord bytes = pieces.flatten ++ padWord rest := by
    rw [← hcat, padWord_append hdvd]
  have hlen : (padWord bytes).length = pieces.length * w.bufferSize + (padWord rest).length := by
    rw [hpad, List.length_append, hflat]
  have hroom : pieces.length ≤ w.room := by
    rw [room, Nat.le_div_iff_mul_le (Nat.zero_lt_of_lt hr)]
    omega
  simp only [List.take_of_length_le hroom, if_pos hroom] at hrun
  have hword : (w.wordPos + pieces.length * (w.bufferSize / writeSize)) * writeSize
      = w.pos + pieces.flatten.length := by
    rw [Nat.add_mul, mul_div_writeSize hw, hflat, pos]
  have hend : w.wordPos + pieces.length * (w.bufferSize / writeSize)
      + (padWord rest).length / writeSize = w.wordPos + (padWord bytes).length / writeSize := by
    have hmul := mul_div_writeSize hw pieces.length
    simp only [writeSize] at hmul ⊢
    omega
  have hpos : 0 < w.bufferSize := Nat.zero_lt_of_lt hr
  have hbytes : bytes.length = pieces.length * w.bufferSize + rest.length := by
    rw [← hcat, List.length_append, hflat]
  by_cases hrest : rest = []
  · subst hrest
    refine ⟨pieces, _, by simpa [padWord_nil] using hpad.symm, ?_, ?_, _, [], ?_, hrun,
      fun f => ?_⟩
    · exact fun p hmem => hp p (List.dropLast_subset _ hmem)
    · rw [hbytes, List.length_nil, Nat.add_zero, Nat.add_sub_assoc hpos, Nat.add_comm,
        Nat.add_mul_div_right _ _ hpos, Nat.div_eq_of_lt (by omega), Nat.zero_add]
    · rw [List.append_nil]
    · rw [flush, if_pos rfl]
      simpa [padWord_nil] using hend
  · refine ⟨pieces ++ [padWord rest], _, by simp [hpad], ?_, ?_, _,
      [.program (w.flash.start + w.pos + pieces.flatten.length) (padWord rest)], ?_, hrun,
      fun f => ?_⟩
    · rw [List.dropLast_concat]
      exact hp
    · have hlast : 0 < rest.length := List.length_pos_iff.mpr hrest
      have hsum : bytes.length + w.bufferSize - 1 =
          rest.length - 1 + (pieces.length + 1) * w.bufferSize := by
        rw [Nat.add_mul, Nat.one_mul]
        omega
      rw [hsum, Nat.add_mul_div_right _ _ hpos, Nat.div_eq_of_lt (by omega), Nat.zero_add,
        List.length_append, List.length_singleton]
    · rw [Flash.programs_append]
      rfl
    · rw [flush, if_neg hrest]
      have hwr : w.flash.norWrite (w.pos + pieces.flatten.length) (padWord rest) f = _ :=
        FlashPartition.norWrite_apply (by rw [hflat]; omega) f
      simp only [hword]
      rw [FlashM.bind_of_ret hwr, ← Nat.add_assoc]
      simp only [hend]
      rfl

/-- Writing and flushing bytes that do not fit programs some of them, as far as the end of
the partition, and is an error. -/
theorem write_flush_of_lt {w : BincodeFlashWriter} (hw : w.Ready) (hbuf : w.buf = [])
    {bytes : List UInt8} (hne : bytes ≠ [])
    (hfit : w.flash.size < w.pos + (padWord bytes).length) :
    ∃ ps, ps.flatten <+: bytes ∧ ps.flatten.length ≤ w.flash.size - w.pos ∧
      (∀ p ∈ ps, p.length = w.bufferSize) ∧
      ((∀ f, w.write bytes f =
          ⟨Flash.programs (w.flash.start + w.pos) ps, .ret (.error .outOfBounds)⟩) ∨
        ∃ w', (∀ f, w.write bytes f =
            ⟨Flash.programs (w.flash.start + w.pos) ps, .ret (.ok w')⟩) ∧
          ∀ f, w'.flush f = ⟨[], .ret (.error .outOfBounds)⟩) := by
  obtain ⟨pieces, rest, hp, hr, hcat, hrun⟩ := write_spec hw bytes
  rw [hbuf, List.nil_append] at hcat
  have hflat := length_flatten_of_forall hp
  have htake : ∀ p ∈ pieces.take w.room, p.length = w.bufferSize :=
    fun p hmem => hp p (List.mem_of_mem_take hmem)
  refine ⟨pieces.take w.room, ?_, ?_, htake, ?_⟩
  · rw [← hcat]
    have hpre : (pieces.take w.room).flatten <+: pieces.flatten :=
      ⟨(pieces.drop w.room).flatten, by rw [← List.flatten_append, List.take_append_drop]⟩
    exact hpre.trans (List.prefix_append _ _)
  · rw [length_flatten_of_forall htake, List.length_take]
    calc min w.room pieces.length * w.bufferSize ≤ w.room * w.bufferSize :=
          Nat.mul_le_mul_right _ (Nat.min_le_left _ _)
      _ ≤ w.flash.size - w.pos := Nat.div_mul_le_self _ _
  · by_cases hroom : pieces.length ≤ w.room
    · simp only [if_pos hroom] at hrun
      refine .inr ⟨_, hrun, fun f => ?_⟩
      have hdvd : writeSize ∣ pieces.flatten.length := by
        rw [hflat]
        exact Nat.dvd_mul_left_of_dvd hw.1 _
      rw [← hcat, padWord_append hdvd, List.length_append, hflat] at hfit
      have hrest : rest ≠ [] := by
        rintro rfl
        have hle : pieces.length * w.bufferSize ≤ w.flash.size - w.pos :=
          (Nat.mul_le_mul_right _ hroom).trans (Nat.div_mul_le_self _ _)
        have hzero : pieces.flatten.length = 0 := by
          rw [hflat]
          simp only [padWord_nil, List.length_nil] at hfit
          omega
        rw [List.append_nil, List.length_eq_zero_iff.mp hzero] at hcat
        exact hne hcat.symm
      have hword : (w.wordPos + pieces.length * (w.bufferSize / writeSize)) * writeSize
          = w.pos + pieces.length * w.bufferSize := by
        rw [Nat.add_mul, mul_div_writeSize hw, pos]
      have hwr : w.flash.norWrite (w.pos + pieces.length * w.bufferSize) (padWord rest) f = _ :=
        FlashPartition.norWrite_apply_of_lt (by omega) f
      rw [flush, if_neg hrest]
      simp only [hword]
      rw [FlashM.bind_of_pure hwr]
      rfl
    · simp only [if_neg hroom] at hrun
      exact .inl hrun

end BincodeFlashWriter

end Frostsnap
