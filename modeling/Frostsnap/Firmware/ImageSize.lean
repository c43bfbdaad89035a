import Frostsnap.Firmware.Image

/-!
# The size of a firmware image

`firmware_size` (`firmware_reader.rs`) finds where an image ends: it goes from segment header to
segment header, which may straddle two sectors, and looks for a signature sector from the end. This
module embeds it for any reader and with its arithmetic on `u32`. The bytes of the image, one after
the other, are what it is compared with.

The header of every segment has to be in the image. The last segment itself does not: nothing is
read behind it.

## Main results

* `readSegmentHeaderSafe_eq_ok_iff`: a straddling header is the eight bytes at its position.
* `segmentsEnd_eq_ok_iff`: the end of the last segment.
* `firmwareSize_of_declares`: what the sizes are.
* `sizeInside_iff_fitsImage`: when they are inside the image.
* `firmwareSize_ofPartition`: for a partition these are the sizes of `Image`.
-/

namespace Frostsnap

/-- `u32` multiplication. -/
def mulU32 [Build] (a b : ℕ) : Exec ℕ :=
  if a * b ≤ u32Max then .ret (a * b)
  else if Build.checks then .panic "attempt to multiply with overflow"
  else .ret (asU32 (a * b))

/-- An overflow that is looked for. -/
theorem addU32_of_checks [Build] (hchecks : Build.checks = true) {a b : ℕ} (h : u32Max < a + b) :
    addU32 a b = .panic "attempt to add with overflow" := by
  rw [addU32, if_neg (not_le.2 h), if_pos hchecks]

/-- An overflow that is not. -/
theorem addU32_of_wraps [Build] (hchecks : Build.checks = false) {a b : ℕ} (h : u32Max < a + b) :
    addU32 a b = .ret (asU32 (a + b)) := by
  rw [addU32, if_neg (not_le.2 h), if_neg (by rw [hchecks]; exact nofun)]

/-- A product that fits. -/
theorem mulU32_of_le [Build] {a b : ℕ} (h : a * b ≤ u32Max) : mulU32 a b = .ret (a * b) := if_pos h

/-- A product that does not fit, where that is looked for. -/
theorem mulU32_of_checks [Build] (hchecks : Build.checks = true) {a b : ℕ} (h : u32Max < a * b) :
    mulU32 a b = .panic "attempt to multiply with overflow" := by
  rw [mulU32, if_neg (not_le.2 h), if_pos hchecks]

/-- A product that does not fit, where it is not. -/
theorem mulU32_of_wraps [Build] (hchecks : Build.checks = false) {a b : ℕ} (h : u32Max < a * b) :
    mulU32 a b = .ret (asU32 (a * b)) := by
  rw [mulU32, if_neg (not_le.2 h), if_neg (by rw [hchecks]; exact nofun)]

/-- A debug build. -/
@[reducible]
def Build.debug : Build where
  checks := true

namespace Firmware

/-- A `FirmwareReader` with what the types of the program say of one. -/
structure ImageReader (ε : Type) extends FirmwareReader ε where
  /-- `Box<[u8; SECTOR_SIZE]>` -/
  length_sector : ∀ {sector bytes}, readSector sector = .ok bytes → bytes.length = sectorSize
  nSectors_le : nSectors ≤ u32Max

namespace ImageReader

open FirmwareReader

variable {ε : Type}

/-- The header of the image, and where its segments end. -/
def readLayout (reader : ImageReader ε) : Except FirmwareSizeError (ImageHeader × ℕ) := do
  let firstSector ← reader.readFor 0 "Failed to read first sector: "
  let header := ImageHeader.parse firstSector
  if firstSector.length < HEADER_SIZE then throw .invalidHeaderSize
  else if header.magic ≠ ESP_MAGIC then throw (.invalidMagic header.magic)
  else if header.segmentCount = 0 ∨ MAX_SEGMENTS < header.segmentCount then
    throw (.invalidSegmentCount header.segmentCount)
  else
    let unpaddedLength ← reader.segmentsEnd header.segmentCount.toNat HEADER_SIZE HEADER_SIZE
    return (header, unpaddedLength)

/-- The size of the firmware, and the size with its signature block if it has one. -/
def firmwareSize [Build] (reader : ImageReader ε) : Exec (Except FirmwareSizeError (ℕ × ℕ)) :=
  match reader.readLayout with
  | .error e => .ret (.error e)
  | .ok (header, unpaddedLength) => do
      let lengthWithChecksum ← addU32 unpaddedLength 1
      let padded ← addU32 lengthWithChecksum 15
      let paddedLength := padded / 16 * 16
      match if header.appendDigest = 1 then checkedAdd paddedLength 32 else some paddedLength with
      | none => return .error .corruptedSegmentHeader
      | some firmwareEnd =>
          match reader.findSignatureSector with
          | some signatureSector =>
              let sectors ← addU32 signatureSector 1
              let totalSize ← mulU32 sectors sectorSize
              return .ok (firmwareEnd, totalSize)
          | none => return .ok (firmwareEnd, firmwareEnd)

/-! ### The bytes of an image -/

/-- A byte of the image can be read. -/
def Readable (reader : ImageReader ε) (offset : ℕ) : Prop :=
  offset / sectorSize < reader.nSectors ∧
    ∃ bytes, reader.readSector (offset / sectorSize) = .ok bytes

/-- A byte of the image. -/
def byteAt (reader : ImageReader ε) (offset : ℕ) : UInt8 :=
  match reader.readSector (offset / sectorSize) with
  | .ok bytes => bytes.getD (offset % sectorSize) 0
  | .error _ => 0

/-- Bytes of the image from a position on, whatever sectors they are in. -/
def bytesAt (reader : ImageReader ε) (pos n : ℕ) : List UInt8 :=
  (List.range' pos n).map reader.byteAt

variable {reader : ImageReader ε}

/-- As many as are asked for. -/
@[simp] theorem length_bytesAt (pos n : ℕ) : (reader.bytesAt pos n).length = n := by
  rw [bytesAt, List.length_map, List.length_range']

/-- In two goes. -/
theorem bytesAt_add (pos m n : ℕ) :
    reader.bytesAt pos (m + n) = reader.bytesAt pos m ++ reader.bytesAt (pos + m) n := by
  rw [bytesAt, ← List.range'_append_1, List.map_append]
  rfl

/-- Bytes of one sector. -/
theorem bytesAt_of_sector {pos n : ℕ} {bytes : List UInt8}
    (hread : reader.readSector (pos / sectorSize) = .ok bytes)
    (hin : pos % sectorSize + n ≤ sectorSize) :
    reader.bytesAt pos n = (bytes.drop (pos % sectorSize)).take n := by
  have hlen := reader.length_sector hread
  refine List.ext_getElem ?_ fun i hi _ => ?_
  · rw [length_bytesAt, List.length_take, List.length_drop, hlen]
    omega
  · rw [length_bytesAt] at hi
    have hdiv : (pos + i) / sectorSize = pos / sectorSize := by
      simp only [sectorSize] at hin ⊢
      omega
    have hmod : (pos + i) % sectorSize = pos % sectorSize + i := by
      simp only [sectorSize] at hin ⊢
      omega
    have hget : pos % sectorSize + i < bytes.length := by omega
    simp only [bytesAt, List.getElem_map, List.getElem_range', Nat.one_mul, byteAt, hdiv, hmod,
      hread, List.getElem_take, List.getElem_drop, List.getD_eq_getElem bytes 0 hget]

/-! ### Segment headers -/

/-- The rest goes on with what was read. -/
theorem ok_bind {ε α β : Type} (a : α) (f : α → Except ε β) : (Except.ok a >>= f) = f a := rfl

/-- Inversion of a sequence that succeeds. -/
theorem bind_eq_ok_iff {ε α β : Type} {x : Except ε α} {f : α → Except ε β} {b : β} :
    (x >>= f) = .ok b ↔ ∃ a, x = .ok a ∧ f a = .ok b := by
  cases x with
  | error e =>
      refine ⟨nofun, ?_⟩
      rintro ⟨a, h, -⟩
      cases h
  | ok a =>
      refine ⟨fun h => ⟨a, rfl, h⟩, ?_⟩
      rintro ⟨a', ha, h⟩
      obtain rfl := Except.ok.inj ha
      exact h

/-- The message is for errors only. -/
theorem readFor_eq_ok_iff {sector : ℕ} {what : String} {bytes : List UInt8} :
    reader.readFor sector what = .ok bytes ↔ reader.readSector sector = .ok bytes := by
  rw [readFor]
  cases reader.readSector sector with
  | error e => exact ⟨nofun, nofun⟩
  | ok bytes' =>
      exact ⟨fun h => congrArg _ (Except.ok.inj h), fun h => congrArg _ (Except.ok.inj h)⟩

/-- The eight bytes of a segment header can be read. -/
def HeaderReadable (reader : ImageReader ε) (pos : ℕ) : Prop :=
  reader.Readable pos ∧ reader.Readable (pos + 7)

/-- A header that goes on into the next sector. -/
theorem bytesAt_straddle {pos : ℕ} {sector nextSector : List UInt8}
    (hread : reader.readSector (pos / sectorSize) = .ok sector)
    (hnext : reader.readSector (pos / sectorSize + 1) = .ok nextSector)
    (hout : sectorSize < pos % sectorSize + 8) :
    reader.bytesAt pos 8 =
      sector.drop (pos % sectorSize) ++
        nextSector.take (8 - (sector.length - pos % sectorSize)) := by
  have hlen := reader.length_sector hread
  have hmod : pos % sectorSize < sectorSize := Nat.mod_lt pos (by decide)
  have hpos : (pos + (sectorSize - pos % sectorSize)) / sectorSize = pos / sectorSize + 1 ∧
      (pos + (sectorSize - pos % sectorSize)) % sectorSize = 0 := by
    simp only [sectorSize] at hmod ⊢
    omega
  have hfirst : reader.bytesAt pos (sectorSize - pos % sectorSize) =
      sector.drop (pos % sectorSize) := by
    rw [bytesAt_of_sector hread (by omega), List.take_of_length_le]
    rw [List.length_drop, hlen]
  have hsecond : reader.bytesAt (pos + (sectorSize - pos % sectorSize))
      (8 - (sectorSize - pos % sectorSize)) =
        nextSector.take (8 - (sectorSize - pos % sectorSize)) := by
    have hread' : reader.readSector ((pos + (sectorSize - pos % sectorSize)) / sectorSize) =
        .ok nextSector := by
      rw [hpos.1]
      exact hnext
    rw [bytesAt_of_sector hread' (by rw [hpos.2]; simp only [sectorSize]; omega), hpos.2,
      List.drop_zero]
  have h8 : 8 = sectorSize - pos % sectorSize + (8 - (sectorSize - pos % sectorSize)) := by omega
  rw [hlen, ← hfirst, ← hsecond, ← bytesAt_add, ← h8]

/-- **A segment header** is the eight bytes at its position, in one sector or in two. -/
theorem readSegmentHeaderSafe_eq_ok_iff {pos : ℕ} {header : SegmentHeader} :
    reader.readSegmentHeaderSafe pos = .ok header ↔
      reader.HeaderReadable pos ∧ header = parseSegmentHeader (reader.bytesAt pos 8) := by
  have hmod : pos % sectorSize < sectorSize := Nat.mod_lt pos (by decide)
  rw [readSegmentHeaderSafe]
  dsimp only
  by_cases hnum : reader.nSectors ≤ pos / sectorSize
  · rw [if_pos hnum]
    refine ⟨fun h => ?_, fun h => absurd h.1.1.1 (not_lt.2 hnum)⟩
    cases h
  rw [if_neg hnum, bind_eq_ok_iff]
  by_cases hin : pos % sectorSize + 8 ≤ sectorSize
  · have hsame : (pos + 7) / sectorSize = pos / sectorSize := by
      simp only [sectorSize] at hin ⊢
      omega
    constructor
    · rintro ⟨sector, hread, h⟩
      rw [readFor_eq_ok_iff] at hread
      rw [if_pos ((reader.length_sector hread).symm ▸ hin)] at h
      have hreadable : reader.Readable pos := ⟨not_le.1 hnum, sector, hread⟩
      refine ⟨⟨hreadable, ?_⟩, ?_⟩
      · rw [Readable, hsame]
        exact hreadable
      · rw [bytesAt_of_sector hread hin]
        exact (Except.ok.inj h).symm
    · rintro ⟨⟨⟨-, sector, hread⟩, -⟩, rfl⟩
      refine ⟨sector, readFor_eq_ok_iff.2 hread, ?_⟩
      rw [if_pos ((reader.length_sector hread).symm ▸ hin), bytesAt_of_sector hread hin]
      rfl
  · have hnext : (pos + 7) / sectorSize = pos / sectorSize + 1 := by
      simp only [sectorSize] at hin ⊢
      omega
    have hrest : ∀ {n m : ℕ}, m = sectorSize → 8 - n ≤ m := by
      rintro n m rfl
      exact (Nat.sub_le 8 n).trans (by decide)
    constructor
    · rintro ⟨sector, hread, h⟩
      rw [readFor_eq_ok_iff] at hread
      have hlen := reader.length_sector hread
      rw [if_neg (hlen.symm ▸ hin)] at h
      by_cases hnum' : reader.nSectors ≤ pos / sectorSize + 1
      · rw [if_pos hnum'] at h
        cases h
      rw [if_neg hnum', bind_eq_ok_iff] at h
      obtain ⟨nextSector, hread', h⟩ := h
      rw [readFor_eq_ok_iff] at hread'
      rw [if_pos (hrest (reader.length_sector hread'))] at h
      refine ⟨⟨⟨not_le.1 hnum, sector, hread⟩, ?_⟩, ?_⟩
      · rw [Readable, hnext]
        exact ⟨not_le.1 hnum', nextSector, hread'⟩
      · rw [bytesAt_straddle hread hread' (not_le.1 hin)]
        exact (Except.ok.inj h).symm
    · rintro ⟨⟨⟨-, sector, hread⟩, hreadable⟩, rfl⟩
      rw [Readable, hnext] at hreadable
      obtain ⟨hnum', nextSector, hread'⟩ := hreadable
      have hlen := reader.length_sector hread
      refine ⟨sector, readFor_eq_ok_iff.2 hread, ?_⟩
      rw [if_neg (hlen.symm ▸ hin), if_neg (not_le.2 hnum'), bind_eq_ok_iff]
      refine ⟨nextSector, readFor_eq_ok_iff.2 hread', ?_⟩
      rw [if_pos (hrest (reader.length_sector hread')),
        bytesAt_straddle hread hread' (not_le.1 hin)]
      rfl

/-! ### The segments -/

/-- The length that a segment header declares. -/
def lengthAt (reader : ImageReader ε) (pos : ℕ) : ℕ :=
  (parseSegmentHeader (reader.bytesAt pos 8)).length

/-- Where the segments end that start at a position: each has its header and as many bytes as that
declares. -/
def segmentEnd (reader : ImageReader ε) : ℕ → ℕ → ℕ
  | 0, pos => pos
  | count + 1, pos => segmentEnd reader count (pos + 8 + reader.lengthAt pos)

/-- Every segment header is in the image, none declares too much, and no end is past the `u32`s. -/
def SegmentsDeclared (reader : ImageReader ε) (count pos : ℕ) : Prop :=
  ∀ k, k < count →
    reader.HeaderReadable (reader.segmentEnd k pos) ∧
      reader.lengthAt (reader.segmentEnd k pos) ≤ MAX_SEGMENT_SIZE ∧
      reader.segmentEnd (k + 1) pos ≤ u32Max

/-- The first segment and the others. -/
theorem segmentsDeclared_succ {count pos : ℕ} :
    reader.SegmentsDeclared (count + 1) pos ↔
      (reader.HeaderReadable pos ∧ reader.lengthAt pos ≤ MAX_SEGMENT_SIZE ∧
        pos + 8 + reader.lengthAt pos ≤ u32Max) ∧
      reader.SegmentsDeclared count (pos + 8 + reader.lengthAt pos) := by
  constructor
  · intro h
    exact ⟨h 0 (Nat.succ_pos count), fun k hk => h (k + 1) (Nat.succ_lt_succ hk)⟩
  · rintro ⟨hfirst, hrest⟩ k hk
    cases k with
    | zero => exact hfirst
    | succ k => exact hrest k (Nat.lt_of_succ_lt_succ hk)

/-- The last segment and those before. -/
theorem segmentEnd_succ (count pos : ℕ) :
    reader.segmentEnd (count + 1) pos =
      reader.segmentEnd count pos + 8 + reader.lengthAt (reader.segmentEnd count pos) := by
  induction count generalizing pos with
  | zero => rfl
  | succ count ih =>
      rw [segmentEnd, ih, segmentEnd]

/-- Inversion of a checked sum. -/
theorem checkedAdd_eq_some_iff {a b c : ℕ} :
    checkedAdd a b = some c ↔ a + b ≤ u32Max ∧ c = a + b := by
  rw [checkedAdd]
  split
  · next h => exact ⟨fun heq => ⟨h, (Option.some.inj heq).symm⟩, fun heq => congrArg _ heq.2.symm⟩
  · next h => exact ⟨nofun, fun heq => absurd heq.1 h⟩

/-- Both additions of a step are checked. -/
theorem segmentDataEnd_eq_some_iff {pos length stop : ℕ} :
    (checkedAdd pos SEGMENT_HEADER_SIZE).bind (checkedAdd · length) = some stop ↔
      pos + 8 + length ≤ u32Max ∧ stop = pos + 8 + length := by
  rw [Option.bind_eq_some_iff]
  constructor
  · rintro ⟨next, hnext, h⟩
    obtain ⟨-, rfl⟩ := checkedAdd_eq_some_iff.1 hnext
    exact checkedAdd_eq_some_iff.1 h
  · intro h
    have hnext : pos + SEGMENT_HEADER_SIZE ≤ u32Max := (Nat.le_add_right _ length).trans h.1
    exact ⟨pos + 8, checkedAdd_eq_some_iff.2 ⟨hnext, rfl⟩, checkedAdd_eq_some_iff.2 h⟩

/-- **The segments** end where the lengths in their headers say. The end of one is where the next
one starts, so it is the largest so far. -/
theorem segmentsEnd_eq_ok_iff {count pos stop : ℕ} :
    reader.segmentsEnd count pos pos = .ok stop ↔
      reader.SegmentsDeclared count pos ∧ stop = reader.segmentEnd count pos := by
  induction count generalizing pos with
  | zero =>
      refine ⟨fun h => ⟨fun k hk => absurd hk (Nat.not_lt_zero k), (Except.ok.inj h).symm⟩, ?_⟩
      rintro ⟨-, rfl⟩
      rfl
  | succ count ih =>
      have hmax : max pos (pos + 8 + reader.lengthAt pos) = pos + 8 + reader.lengthAt pos :=
        max_eq_right (by omega)
      rw [segmentsEnd, segmentsDeclared_succ, segmentEnd, bind_eq_ok_iff, and_assoc, ← ih]
      constructor
      · rintro ⟨header, hheader, h⟩
        obtain ⟨hreadable, rfl⟩ := readSegmentHeaderSafe_eq_ok_iff.1 hheader
        rw [← lengthAt] at h
        by_cases hlarge : MAX_SEGMENT_SIZE < reader.lengthAt pos
        · rw [if_pos hlarge] at h
          cases h
        rw [if_neg hlarge] at h
        cases hstop : (checkedAdd pos SEGMENT_HEADER_SIZE).bind
            (checkedAdd · (reader.lengthAt pos)) with
        | none =>
            rw [hstop] at h
            cases h
        | some next =>
            rw [hstop] at h
            obtain ⟨hle, rfl⟩ := segmentDataEnd_eq_some_iff.1 hstop
            dsimp only at h
            rw [hmax] at h
            exact ⟨⟨hreadable, not_lt.1 hlarge, hle⟩, h⟩
      · rintro ⟨⟨hreadable, hlength, hle⟩, h⟩
        refine ⟨_, readSegmentHeaderSafe_eq_ok_iff.2 ⟨hreadable, rfl⟩, ?_⟩
        rw [← lengthAt, if_neg (not_lt.2 hlength), segmentDataEnd_eq_some_iff.2 ⟨hle, rfl⟩]
        dsimp only
        rw [hmax]
        exact h

/-! ### What an image declares -/

/-- The header of the image and those of its segments are in order. -/
structure Declares (reader : ImageReader ε) : Prop where
  first : ∃ bytes, reader.readSector 0 = .ok bytes
  magic : reader.byteAt 0 = ESP_MAGIC
  count_ne : reader.byteAt 1 ≠ 0
  count_le : reader.byteAt 1 ≤ MAX_SEGMENTS
  segments : reader.SegmentsDeclared (reader.byteAt 1).toNat HEADER_SIZE

/-- Where the last segment ends. -/
def lastEnd (reader : ImageReader ε) : ℕ := reader.segmentEnd (reader.byteAt 1).toNat HEADER_SIZE

/-- The header is the bytes of the image at its front. -/
theorem parse_of_first {bytes : List UInt8} (h : reader.readSector 0 = .ok bytes) :
    ImageHeader.parse bytes = ⟨reader.byteAt 0, reader.byteAt 1, reader.byteAt 23⟩ := by
  have hbyte : ∀ i, i < sectorSize → reader.byteAt i = bytes.getD i 0 := by
    intro i hi
    rw [byteAt, Nat.div_eq_of_lt hi, Nat.mod_eq_of_lt hi, h]
  rw [hbyte 0 (by decide), hbyte 1 (by decide), hbyte 23 (by decide)]
  rfl

/-- **The layout** is read if the image declares one. -/
theorem readLayout_eq_ok_iff {header : ImageHeader} {stop : ℕ} :
    reader.readLayout = .ok (header, stop) ↔
      reader.Declares ∧ stop = reader.lastEnd ∧
        header = ⟨reader.byteAt 0, reader.byteAt 1, reader.byteAt 23⟩ := by
  rw [readLayout, bind_eq_ok_iff]
  constructor
  · rintro ⟨bytes, hread, h⟩
    rw [readFor_eq_ok_iff] at hread
    have hlen : ¬bytes.length < HEADER_SIZE := by
      rw [reader.length_sector hread]
      decide
    rw [if_neg hlen, parse_of_first hread] at h
    dsimp only at h
    split at h
    · cases h
    rename_i hmagic
    split at h
    · cases h
    rename_i hcount
    obtain ⟨stop', hstop, h⟩ := bind_eq_ok_iff.1 h
    obtain ⟨hsegments, rfl⟩ := segmentsEnd_eq_ok_iff.1 hstop
    obtain ⟨rfl, rfl⟩ := Prod.mk.inj (Except.ok.inj h)
    rw [not_or, UInt8.not_lt] at hcount
    exact ⟨⟨⟨bytes, hread⟩, not_not.1 hmagic, hcount.1, hcount.2, hsegments⟩, rfl, rfl⟩
  · rintro ⟨⟨⟨bytes, hread⟩, hmagic, hne, hle, hsegments⟩, rfl, rfl⟩
    have hlen : ¬bytes.length < HEADER_SIZE := by
      rw [reader.length_sector hread]
      decide
    refine ⟨bytes, readFor_eq_ok_iff.2 hread, ?_⟩
    rw [if_neg hlen, parse_of_first hread]
    dsimp only
    rw [if_neg (not_not.2 hmagic), if_neg (not_or.2 ⟨hne, UInt8.not_lt.2 hle⟩), bind_eq_ok_iff]
    exact ⟨_, segmentsEnd_eq_ok_iff.2 ⟨hsegments, rfl⟩, rfl⟩

/-! ### The signature sector -/

/-- A sector that starts as a signature block does. -/
def IsSignature (reader : ImageReader ε) (i : ℕ) : Prop :=
  i < reader.nSectors ∧
    ∃ bytes, reader.readSector i = .ok bytes ∧ bytes.take 4 = SIGNATURE_BLOCK_MAGIC

/-- The last of them. -/
def LastSignature (reader : ImageReader ε) (s : ℕ) : Prop :=
  reader.IsSignature s ∧ ∀ i, s < i → ¬reader.IsSignature i

/-- What is looked for in a sector. -/
theorem isSignature_iff {i : ℕ} (hi : i < reader.nSectors) :
    (match reader.readSector i with
      | .ok sectorData =>
          decide (4 ≤ sectorData.length ∧ sectorData.take 4 = SIGNATURE_BLOCK_MAGIC)
      | .error _ => false) = true ↔ reader.IsSignature i := by
  rw [IsSignature]
  cases hread : reader.readSector i with
  | error e => simp
  | ok bytes =>
      have hlen : 4 ≤ bytes.length := by
        rw [reader.length_sector hread]
        decide
      simp [hlen, hi]

/-- The signature sector that is found is the last one. -/
theorem findSignatureSector_eq_some_iff {s : ℕ} :
    reader.findSignatureSector = some s ↔ reader.LastSignature s := by
  rw [findSignatureSector, find?_reverse_range_eq_some_iff]
  constructor
  · rintro ⟨hs, hsig, hlast⟩
    refine ⟨(isSignature_iff hs).1 hsig, fun i hi hsig' => ?_⟩
    have hfalse := hlast i hi hsig'.1
    exact Bool.false_ne_true (hfalse.symm.trans ((isSignature_iff hsig'.1).2 hsig'))
  · rintro ⟨hsig, hlast⟩
    refine ⟨hsig.1, (isSignature_iff hsig.1).2 hsig, fun i hi hin => ?_⟩
    rw [Bool.eq_false_iff]
    exact fun htrue => hlast i hi ((isSignature_iff hin).1 htrue)

/-- None is found if there is none. -/
theorem findSignatureSector_eq_none_iff :
    reader.findSignatureSector = none ↔ ∀ i, ¬reader.IsSignature i := by
  rw [findSignatureSector, List.find?_eq_none]
  constructor
  · intro h i hsig
    exact h i (List.mem_reverse.2 (List.mem_range.2 hsig.1)) ((isSignature_iff hsig.1).2 hsig)
  · intro h i hi hsig
    exact h i ((isSignature_iff (List.mem_range.1 (List.mem_reverse.1 hi))).1 hsig)

/-! ### The sizes -/

/-- The end of the last segment with its checksum, padding and digest. -/
def bodyEnd (reader : ImageReader ε) : ℕ :=
  (reader.lastEnd + 16) / 16 * 16 + if reader.byteAt 23 = 1 then 32 else 0

/-- Without a layout there is no size. -/
theorem firmwareSize_of_not_declares [Build] (h : ¬reader.Declares) :
    ∃ e, reader.firmwareSize = .ret (.error e) := by
  rw [firmwareSize]
  cases hlayout : reader.readLayout with
  | error e => exact ⟨e, rfl⟩
  | ok layout => exact absurd (readLayout_eq_ok_iff.1 hlayout).1 h

/-- A body, with the signature sector if there is one. -/
def withSignature [Build] (reader : ImageReader ε) (body : ℕ) :
    Exec (Except FirmwareSizeError (ℕ × ℕ)) :=
  match reader.findSignatureSector with
  | some s => do
      let total ← mulU32 (s + 1) sectorSize
      return .ok (body, total)
  | none => .ret (.ok (body, body))

/-- Without a signature sector the total is the body. -/
theorem withSignature_of_unsigned [Build] (h : ∀ i, ¬reader.IsSignature i) (body : ℕ) :
    reader.withSignature body = .ret (.ok (body, body)) := by
  rw [withSignature, findSignatureSector_eq_none_iff.2 h]

/-- With one it ends where that ends. -/
theorem withSignature_of_signed [Build] {s : ℕ} (h : reader.LastSignature s) (body : ℕ) :
    reader.withSignature body =
      mulU32 (s + 1) sectorSize >>= fun total => .ret (.ok (body, total)) := by
  rw [withSignature, findSignatureSector_eq_some_iff.2 h]
  rfl

/-- An image has a last signature sector or none. -/
theorem signed_or_unsigned (reader : ImageReader ε) :
    (∃ s, reader.LastSignature s) ∨ ∀ i, ¬reader.IsSignature i := by
  cases hsig : reader.findSignatureSector with
  | none => exact Or.inr (findSignatureSector_eq_none_iff.1 hsig)
  | some s => exact Or.inl ⟨s, findSignatureSector_eq_some_iff.1 hsig⟩

/-- There is one last signature sector. -/
theorem LastSignature.unique {s t : ℕ} (hs : reader.LastSignature s) (ht : reader.LastSignature t) :
    s = t :=
  Option.some.inj
    ((findSignatureSector_eq_some_iff.2 hs).symm.trans (findSignatureSector_eq_some_iff.2 ht))

/-- The sector behind the last one has a number that fits. -/
theorem withSignature_eq [Build] (body : ℕ) :
    (match reader.findSignatureSector with
      | some signatureSector => do
          let sectors ← addU32 signatureSector 1
          let totalSize ← mulU32 sectors sectorSize
          return .ok (body, totalSize)
      | none => return .ok (body, body)) = reader.withSignature body := by
  rw [withSignature]
  cases hsig : reader.findSignatureSector with
  | none => rfl
  | some s =>
      have hs := (findSignatureSector_eq_some_iff.1 hsig).1.1
      dsimp only
      rw [addU32_of_le ((Nat.succ_le_of_lt hs).trans reader.nSectors_le), Exec.ret_bind]

/-- The sizes of an image that does not overflow. -/
theorem firmwareSize_of_declares [Build] (h : reader.Declares)
    (hfit : reader.lastEnd + 16 ≤ u32Max) :
    reader.firmwareSize =
      if reader.bodyEnd ≤ u32Max then reader.withSignature reader.bodyEnd
      else .ret (.error .corruptedSegmentHeader) := by
  have hpadded : (reader.lastEnd + 16) / 16 * 16 ≤ u32Max :=
    (Nat.div_mul_le_self _ 16).trans hfit
  have hend : (if reader.byteAt 23 = 1 then checkedAdd ((reader.lastEnd + 16) / 16 * 16) 32
      else some ((reader.lastEnd + 16) / 16 * 16)) =
        if reader.bodyEnd ≤ u32Max then some reader.bodyEnd else none := by
    rw [bodyEnd]
    by_cases hdigest : reader.byteAt 23 = 1
    · rw [if_pos hdigest, if_pos hdigest, checkedAdd]
    · rw [if_neg hdigest, if_neg hdigest, Nat.add_zero]
      exact (if_pos hpadded).symm
  rw [firmwareSize, readLayout_eq_ok_iff.2 ⟨h, rfl, rfl⟩]
  dsimp only
  rw [addU32_of_le (by omega), Exec.ret_bind, addU32_of_le (by omega), Exec.ret_bind,
    Nat.add_assoc, hend]
  by_cases hbody : reader.bodyEnd ≤ u32Max
  · rw [if_pos hbody, if_pos hbody]
    exact withSignature_eq _
  · rw [if_neg hbody, if_neg hbody]
    rfl

/-- The last of the segments. -/
theorem exists_last_segment (h : reader.Declares) :
    ∃ pos, reader.HeaderReadable pos ∧ reader.lengthAt pos ≤ MAX_SEGMENT_SIZE ∧
      reader.lastEnd = pos + 8 + reader.lengthAt pos ∧ reader.lastEnd ≤ u32Max := by
  have hne : (reader.byteAt 1).toNat ≠ 0 := fun hzero => h.count_ne (UInt8.toNat_inj.1 hzero)
  obtain ⟨count, hcount⟩ := Nat.exists_eq_succ_of_ne_zero hne
  obtain ⟨hreadable, hlength, hle⟩ := h.segments count (by omega)
  rw [lastEnd, hcount]
  exact ⟨_, hreadable, hlength, segmentEnd_succ count HEADER_SIZE, hle⟩

/-- An overflow ends a build that looks for it. -/
theorem firmwareSize_of_overflow [Build] (hchecks : Build.checks = true) (h : reader.Declares)
    (hover : u32Max < reader.lastEnd + 16) :
    reader.firmwareSize = .panic "attempt to add with overflow" := by
  rw [firmwareSize, readLayout_eq_ok_iff.2 ⟨h, rfl, rfl⟩]
  dsimp only
  by_cases hone : reader.lastEnd + 1 ≤ u32Max
  · rw [addU32_of_le hone, Exec.ret_bind, addU32_of_checks hchecks (by omega), Exec.panic_bind]
  · rw [addU32_of_checks hchecks (by omega), Exec.panic_bind]

/-- In another build the body is its digest. -/
theorem firmwareSize_of_wrap [Build] (hchecks : Build.checks = false) (h : reader.Declares)
    (hover : u32Max < reader.lastEnd + 16) :
    reader.firmwareSize = reader.withSignature (if reader.byteAt 23 = 1 then 32 else 0) := by
  obtain ⟨-, -, -, -, hle⟩ := exists_last_segment h
  obtain ⟨a, b, ha, hb, hzero⟩ :
      ∃ a b, addU32 reader.lastEnd 1 = .ret a ∧ addU32 a 15 = .ret b ∧ b / 16 * 16 = 0 := by
    by_cases hone : reader.lastEnd + 1 ≤ u32Max
    · refine ⟨_, _, addU32_of_le hone, addU32_of_wraps hchecks (by omega), ?_⟩
      simp only [asU32, u32Max] at hone hover ⊢
      omega
    · have hwrap : asU32 (reader.lastEnd + 1) = 0 := by
        simp only [asU32, u32Max] at hone hle ⊢
        omega
      rw [addU32_of_wraps hchecks (by omega), hwrap]
      exact ⟨0, 15, rfl, addU32_of_le (by decide), rfl⟩
  have hend : (if reader.byteAt 23 = 1 then checkedAdd 0 32 else some 0) =
      some (if reader.byteAt 23 = 1 then 32 else 0) := by
    by_cases hdigest : reader.byteAt 23 = 1
    · rw [if_pos hdigest, if_pos hdigest]
      rfl
    · rw [if_neg hdigest, if_neg hdigest]
  rw [firmwareSize, readLayout_eq_ok_iff.2 ⟨h, rfl, rfl⟩]
  dsimp only
  rw [ha, Exec.ret_bind, hb, Exec.ret_bind, hzero, hend]
  exact withSignature_eq _

/-! ### Inside the image -/

/-- The sizes, as far as there are some, are inside the image, and nothing overflows on the way. -/
def SizeInside (reader : ImageReader ε) : Prop :=
  ∃ sizes, @firmwareSize ε Build.debug reader = .ret sizes ∧
    ∀ body total, sizes = .ok (body, total) →
      body ≤ total ∧ total ≤ reader.nSectors * sectorSize

/-- What the headers declare ends before the signature sector does, or before the image does if it
has none. An image of 4080 MiB or more must not reach the last of the `u32`s either. -/
def FitsImage (reader : ImageReader ε) : Prop :=
  reader.Declares →
    reader.lastEnd + 16 ≤ u32Max ∧
      (reader.bodyEnd ≤ u32Max →
        (∀ s, reader.LastSignature s →
          (s + 1) * sectorSize ≤ u32Max ∧ reader.bodyEnd ≤ (s + 1) * sectorSize) ∧
        ((∀ i, ¬reader.IsSignature i) → reader.bodyEnd ≤ reader.nSectors * sectorSize))

/-- A body with a signature sector. -/
theorem withSignature_inside_iff {body : ℕ} :
    (∃ sizes, @withSignature ε Build.debug reader body = .ret sizes ∧
      ∀ body' total, sizes = .ok (body', total) →
        body' ≤ total ∧ total ≤ reader.nSectors * sectorSize) ↔
      (∀ s, reader.LastSignature s → (s + 1) * sectorSize ≤ u32Max ∧ body ≤ (s + 1) * sectorSize) ∧
        ((∀ i, ¬reader.IsSignature i) → body ≤ reader.nSectors * sectorSize) := by
  rcases reader.signed_or_unsigned with ⟨s, hlast⟩ | hnone
  · have hinside : (s + 1) * sectorSize ≤ reader.nSectors * sectorSize :=
      Nat.mul_le_mul_right _ hlast.1.1
    rw [@withSignature_of_signed ε reader Build.debug s hlast]
    by_cases hmul : (s + 1) * sectorSize ≤ u32Max
    · rw [@mulU32_of_le Build.debug _ _ hmul, Exec.ret_bind]
      constructor
      · rintro ⟨sizes, hret, hin⟩
        refine ⟨fun t ht => ?_, fun hnone => absurd hlast.1 (hnone s)⟩
        obtain rfl := hlast.unique ht
        exact ⟨hmul, (hin _ _ (Exec.ret.inj hret).symm).1⟩
      · intro hin
        refine ⟨_, rfl, fun body' total heq => ?_⟩
        obtain ⟨rfl, rfl⟩ := Prod.mk.inj (Except.ok.inj heq)
        exact ⟨(hin.1 s hlast).2, hinside⟩
    · rw [@mulU32_of_checks Build.debug rfl _ _ (not_le.1 hmul), Exec.panic_bind]
      refine ⟨?_, fun hin => absurd (hin.1 s hlast).1 hmul⟩
      rintro ⟨sizes, hret, -⟩
      cases hret
  · rw [@withSignature_of_unsigned ε reader Build.debug hnone]
    constructor
    · rintro ⟨sizes, hret, hin⟩
      exact ⟨fun s hs => absurd hs.1 (hnone s), fun _ => (hin _ _ (Exec.ret.inj hret).symm).2⟩
    · intro hin
      refine ⟨_, rfl, fun body' total heq => ?_⟩
      obtain ⟨rfl, rfl⟩ := Prod.mk.inj (Except.ok.inj heq)
      exact ⟨le_rfl, hin.2 hnone⟩

/-- **The sizes are inside** the image exactly if what it declares fits. -/
theorem sizeInside_iff_fitsImage : reader.SizeInside ↔ reader.FitsImage := by
  rw [SizeInside, FitsImage]
  by_cases h : reader.Declares
  · by_cases hfit : reader.lastEnd + 16 ≤ u32Max
    · rw [@firmwareSize_of_declares ε reader Build.debug h hfit]
      by_cases hbody : reader.bodyEnd ≤ u32Max
      · rw [if_pos hbody, withSignature_inside_iff]
        exact ⟨fun hin _ => ⟨hfit, fun _ => hin⟩, fun hin => (hin h).2 hbody⟩
      · rw [if_neg hbody]
        exact ⟨fun _ _ => ⟨hfit, fun hle => absurd hle hbody⟩, fun _ => ⟨_, rfl, nofun⟩⟩
    · rw [@firmwareSize_of_overflow ε reader Build.debug rfl h (not_le.1 hfit)]
      refine ⟨?_, fun hin => absurd (hin h).1 hfit⟩
      rintro ⟨sizes, hret, -⟩
      cases hret
  · obtain ⟨e, he⟩ := @firmwareSize_of_not_declares ε reader Build.debug h
    rw [he]
    exact ⟨fun _ hdeclares => absurd hdeclares h, fun _ => ⟨_, rfl, nofun⟩⟩

/-! ### Partitions -/

/-- A sector that is read is whole. -/
theorem length_readSector {p : FlashPartition} {f : Flash} {sector : ℕ} {bytes : List UInt8}
    (h : (readerOf p f).readSector sector = .ok bytes) : bytes.length = sectorSize := by
  rw [readerOf] at h
  dsimp only at h
  rw [FlashPartition.readSector, FlashPartition.read] at h
  split at h
  · cases h
  rename_i hfit
  obtain rfl := Except.ok.inj h
  have hsize := p.size_lt
  rw [saturatingAddU32] at hfit
  rw [List.length_take, List.length_drop, FlashPartition.length_contents]
  omega

/-- A partition has no more sectors than bytes. -/
theorem nSectors_le_u32Max (p : FlashPartition) : p.nSectors ≤ u32Max :=
  (Nat.le_mul_of_pos_right _ (by decide)).trans p.size_lt.le

/-- A partition as such a reader. -/
def ofPartition (p : FlashPartition) (f : Flash) : ImageReader NorFlashErrorKind where
  toFirmwareReader := readerOf p f
  length_sector := length_readSector
  nSectors_le := nSectors_le_u32Max p

variable {p : FlashPartition} {f : Flash}

/-- The same reader, with what its types say. -/
@[simp] theorem toFirmwareReader_ofPartition :
    (ofPartition p f).toFirmwareReader = readerOf p f := rfl

/-- What `Image` says of a partition, in terms of its layout. -/
theorem firmwareSize_readerOf :
    Firmware.firmwareSize (readerOf p f) =
      (ofPartition p f).readLayout >>= fun (header, unpaddedLength) =>
        match if header.appendDigest = 1 then checkedAdd ((unpaddedLength + 16) / 16 * 16) 32
          else some ((unpaddedLength + 16) / 16 * 16) with
        | none => .error .corruptedSegmentHeader
        | some firmwareEnd =>
            match (ofPartition p f).findSignatureSector with
            | some s => .ok (firmwareEnd, (s + 1) * sectorSize)
            | none => .ok (firmwareEnd, firmwareEnd) := by
  rw [Firmware.firmwareSize, readLayout, toFirmwareReader_ofPartition]
  cases hfirst : (readerOf p f).readFor 0 "Failed to read first sector: " with
  | error e => rfl
  | ok firstSector =>
      rw [ok_bind, ok_bind]
      dsimp only
      split
      · rfl
      split
      · rfl
      split
      · rfl
      cases (readerOf p f).segmentsEnd (ImageHeader.parse firstSector).segmentCount.toNat
        HEADER_SIZE HEADER_SIZE with
      | error e => rfl
      | ok stop =>
        simp only [ok_bind, pure_bind, Nat.add_assoc]
        by_cases hdigest : (ImageHeader.parse firstSector).appendDigest = 1
        · rw [if_pos hdigest, if_pos hdigest]
          cases checkedAdd ((stop + (1 + 15)) / 16 * 16) 32 with
          | none => rfl
          | some stop' => cases (readerOf p f).findSignatureSector <;> rfl
        · rw [if_neg hdigest, if_neg hdigest]
          cases (readerOf p f).findSignatureSector <;> rfl

/-- **For a partition** the sizes are those of `Image`, unless one overflows. -/
theorem firmwareSize_ofPartition [Build]
    (hfit : (ofPartition p f).Declares → (ofPartition p f).lastEnd + 16 ≤ u32Max) :
    (ofPartition p f).firmwareSize = .ret (Firmware.firmwareSize (readerOf p f)) := by
  rw [firmwareSize, firmwareSize_readerOf]
  cases hlayout : (ofPartition p f).readLayout with
  | error e => rfl
  | ok layout =>
      obtain ⟨header, stop⟩ := layout
      obtain ⟨hdeclares, rfl, -⟩ := readLayout_eq_ok_iff.1 hlayout
      have hfit' := hfit hdeclares
      rw [ok_bind]
      dsimp only
      rw [addU32_of_le (by omega), Exec.ret_bind, addU32_of_le (by omega), Exec.ret_bind,
        Nat.add_assoc]
      generalize ((ofPartition p f).lastEnd + 16) / 16 * 16 = padded
      cases if header.appendDigest = 1 then checkedAdd padded 32 else some padded with
      | none => rfl
      | some body =>
          cases hsig : (ofPartition p f).findSignatureSector with
          | none => rfl
          | some s =>
              have hs : s + 1 ≤ p.nSectors := (findSignatureSector_eq_some_iff.1 hsig).1.1
              have hin := p.inBounds
              have hmul : (s + 1) * sectorSize ≤ u32Max :=
                (Nat.mul_le_mul_right _ (hs.trans (Nat.le_add_left _ _))).trans hin
              dsimp only
              rw [addU32_of_le (by simp only [sectorSize] at hmul; omega), Exec.ret_bind,
                mulU32_of_le hmul, Exec.ret_bind]
              rfl

end ImageReader

end Firmware

end Frostsnap
