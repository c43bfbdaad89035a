import Frostsnap.Comms.Messages
import Frostsnap.Embedded.Partition
import Frostsnap.Lib.Codec
import Frostsnap.Lib.Literals
import Mathlib.Data.List.Basic

/-!
# Firmware images

This module embeds what the device looks at before it commits to a firmware image that was written
to a partition: `firmware_reader.rs`, which finds where an image ends, `secure_boot.rs`, which
checks its signature, the list of released versions of `firmware_version.rs` as a device links it,
and `decide_upgrade` of `ota.rs`. The peripherals of the chip are parameters: the SHA-256 engine,
the RSA engine, and the eFuses.

## Main results

* `decideUpgrade_eq_commit_iff`: what an image has that is committed to.
* `decideUpgrade_congr`: the verdict is about the bytes of the partition alone, so it stands for as
  long as they do.
-/

namespace Frostsnap

namespace FlashPartition

/-- Read one sector. -/
def readSector (p : FlashPartition) (f : Flash) (sector : ℕ) :
    Except NorFlashErrorKind (List UInt8) :=
  p.read f (sector * sectorSize) sectorSize

/-- `read_sector` reads the contents. -/
theorem readSector_congr {p : FlashPartition} {f g : Flash} (h : p.contents f = p.contents g)
    (sector : ℕ) : p.readSector f sector = p.readSector g sector := by
  simp only [readSector, read, h]

end FlashPartition

/-- The digest whose bytes are these, the first the most significant. -/
def Sha256Digest.ofBytes (bytes : List UInt8) : Sha256Digest :=
  BitVec.ofNat 256 (ofLeBytes bytes.reverse)

/-- The bytes of a digest, the most significant one first. -/
def Sha256Digest.toBytes (digest : Sha256Digest) : List UInt8 :=
  (leBytes 32 digest.toNat).reverse

/-! ### Checksums -/

/-- One bit of a reflected CRC-32 with the polynomial `0x04c11db7`. -/
def crcBit (reg : BitVec 32) : BitVec 32 :=
  if reg.getLsbD 0 then (reg >>> 1) ^^^ 0xedb88320#32 else reg >>> 1

/-- One byte, bit by bit. -/
def crcByte (reg : BitVec 32) (byte : UInt8) : BitVec 32 :=
  Nat.iterate crcBit 8 (reg ^^^ byte.toBitVec.setWidth 32)

/-- The checksum of an algorithm with this `init`, reflected in and out, `xorout` all ones. -/
def crcChecksum (init : BitVec 32) (bytes : List UInt8) : ℕ :=
  (bytes.foldl crcByte init ^^^ 0xffffffff#32).toNat

namespace Firmware

/-! ### `firmware_reader.rs` -/

/-- `FirmwareReader`: an image that is read sector by sector. -/
structure FirmwareReader (ε : Type) where
  readSector : ℕ → Except ε (List UInt8)
  nSectors : ℕ
  /-- what an error prints as -/
  debug : ε → String

/-- What a flash error prints as. -/
def debugKind : NorFlashErrorKind → String
  | .notAligned => "NotAligned"
  | .outOfBounds => "OutOfBounds"
  | .other => "Other"

/-- A partition as a `FirmwareReader`. -/
def readerOf (p : FlashPartition) (f : Flash) : FirmwareReader NorFlashErrorKind where
  readSector := p.readSector f
  nSectors := p.nSectors
  debug := debugKind

/-- Why an image has no size. -/
inductive FirmwareSizeError where
  | ioError (message : String)
  | invalidMagic (magic : UInt8)
  | invalidHeaderSize
  | invalidSegmentCount (count : UInt8)
  | segmentTooLarge (size : ℕ)
  | sectorOutOfBounds (sector : ℕ)
  | corruptedSegmentHeader
  deriving DecidableEq

abbrev ESP_MAGIC : UInt8 := 0xE9
abbrev HEADER_SIZE : ℕ := 24
abbrev SEGMENT_HEADER_SIZE : ℕ := 8
abbrev MAX_SEGMENTS : UInt8 := 16
abbrev MAX_SEGMENT_SIZE : ℕ := 16 * 1024 * 1024
abbrev SIGNATURE_BLOCK_MAGIC : List UInt8 := [0xE7, 0x02, 0x00, 0x00]

/-- The part of the header of an image that is looked at. -/
structure ImageHeader where
  magic : UInt8
  segmentCount : UInt8
  appendDigest : UInt8

/-- The header is at the front of the first sector. -/
def ImageHeader.parse (firstSector : List UInt8) : ImageHeader where
  magic := firstSector.getD 0 0
  segmentCount := firstSector.getD 1 0
  appendDigest := firstSector.getD 23 0

/-- Where a segment is loaded to, and how long it is. -/
structure SegmentHeader where
  addr : ℕ
  length : ℕ

/-- Both numbers are little-endian. -/
def parseSegmentHeader (bytes : List UInt8) : SegmentHeader where
  addr := ofLeBytes (bytes.take 4)
  length := ofLeBytes ((bytes.drop 4).take 4)

/-- `u32::checked_add`. -/
def checkedAdd (a b : ℕ) : Option ℕ := if a + b ≤ u32Max then some (a + b) else none

/-- The last of the numbers below a bound that have a property. -/
theorem find?_reverse_range_eq_some_iff {P : ℕ → Bool} {n b : ℕ} :
    (List.range n).reverse.find? P = some b ↔
      b < n ∧ P b = true ∧ ∀ i, b < i → i < n → P i = false := by
  induction n with
  | zero => exact ⟨nofun, fun h => absurd h.1 (Nat.not_lt_zero b)⟩
  | succ n ih =>
      rw [List.range_succ, List.reverse_append, List.reverse_singleton, List.singleton_append,
        List.find?_cons]
      cases hn : P n with
      | true =>
          constructor
          · intro h
            obtain rfl := Option.some.inj h
            exact ⟨Nat.lt_succ_self n, hn, fun i hi hin => by omega⟩
          · rintro ⟨hb, -, hlast⟩
            rcases Nat.lt_succ_iff_lt_or_eq.1 hb with hlt | rfl
            · exact absurd (hlast n hlt (Nat.lt_succ_self n)) (by rw [hn]; exact nofun)
            · rfl
      | false =>
          dsimp only
          rw [ih]
          constructor
          · rintro ⟨hb, hP, hlast⟩
            refine ⟨Nat.lt_succ_of_lt hb, hP, fun i hi hin => ?_⟩
            rcases Nat.lt_succ_iff_lt_or_eq.1 hin with hlt | rfl
            · exact hlast i hi hlt
            · exact hn
          · rintro ⟨hb, hP, hlast⟩
            rcases Nat.lt_succ_iff_lt_or_eq.1 hb with hlt | rfl
            · exact ⟨hlt, hP, fun i hi hin => hlast i hi (Nat.lt_succ_of_lt hin)⟩
            · rw [hn] at hP
              cases hP

namespace FirmwareReader

variable {ε : Type}

/-- Find the signature sector in firmware. -/
def findSignatureSector (reader : FirmwareReader ε) : Option ℕ :=
  (List.range reader.nSectors).reverse.find? fun i =>
    match reader.readSector i with
    | .ok sectorData => decide (4 ≤ sectorData.length ∧ sectorData.take 4 = SIGNATURE_BLOCK_MAGIC)
    | .error _ => false

/-- `read_sector` with an error that says what for. -/
def readFor (reader : FirmwareReader ε) (sector : ℕ) (what : String) :
    Except FirmwareSizeError (List UInt8) :=
  match reader.readSector sector with
  | .ok bytes => .ok bytes
  | .error e => .error (.ioError (what ++ reader.debug e))

/-- The header of a segment may go on into the next sector. -/
def readSegmentHeaderSafe (reader : FirmwareReader ε) (pos : ℕ) :
    Except FirmwareSizeError SegmentHeader := do
  let sectorNum := pos / sectorSize
  let sectorOffset := pos % sectorSize
  if reader.nSectors ≤ sectorNum then throw (.sectorOutOfBounds sectorNum)
  let sector ← reader.readFor sectorNum "Failed to read sector for segment header: "
  if sectorOffset + SEGMENT_HEADER_SIZE ≤ sector.length then
    return parseSegmentHeader ((sector.drop sectorOffset).take SEGMENT_HEADER_SIZE)
  let firstPart := sector.length - sectorOffset
  let nextSectorNum := sectorNum + 1
  if reader.nSectors ≤ nextSectorNum then throw (.sectorOutOfBounds nextSectorNum)
  let nextSector ← reader.readFor nextSectorNum
    "Failed to read next sector for spanning segment header: "
  let remaining := SEGMENT_HEADER_SIZE - firstPart
  if remaining ≤ nextSector.length then
    return parseSegmentHeader (sector.drop sectorOffset ++ nextSector.take remaining)
  throw .corruptedSegmentHeader

/-- Where the last of the segments ends. -/
def segmentsEnd (reader : FirmwareReader ε) : ℕ → ℕ → ℕ → Except FirmwareSizeError ℕ
  | 0, _, maxDataEnd => .ok maxDataEnd
  | count + 1, currentPos, maxDataEnd => do
      let segmentHeader ← reader.readSegmentHeaderSafe currentPos
      if MAX_SEGMENT_SIZE < segmentHeader.length then throw (.segmentTooLarge segmentHeader.length)
      match (checkedAdd currentPos SEGMENT_HEADER_SIZE).bind
          (checkedAdd · segmentHeader.length) with
      | some segmentDataEnd =>
          segmentsEnd reader count segmentDataEnd (max maxDataEnd segmentDataEnd)
      | none => throw .corruptedSegmentHeader

end FirmwareReader

/-- The size of the firmware, and the size with its signature block if it has one. -/
def firmwareSize {ε : Type} (reader : FirmwareReader ε) : Except FirmwareSizeError (ℕ × ℕ) := do
  let firstSector ← reader.readFor 0 "Failed to read first sector: "
  if firstSector.length < HEADER_SIZE then throw .invalidHeaderSize
  let header := ImageHeader.parse firstSector
  if header.magic ≠ ESP_MAGIC then throw (.invalidMagic header.magic)
  if header.segmentCount = 0 ∨ MAX_SEGMENTS < header.segmentCount then
    throw (.invalidSegmentCount header.segmentCount)
  let unpaddedLength ← reader.segmentsEnd header.segmentCount.toNat HEADER_SIZE HEADER_SIZE
  let lengthWithChecksum := unpaddedLength + 1
  let paddedLength := (lengthWithChecksum + 15) / 16 * 16
  let firmwareEnd ← if header.appendDigest = 1 then
      match checkedAdd paddedLength 32 with
      | some firmwareEnd => pure firmwareEnd
      | none => throw .corruptedSegmentHeader
    else pure paddedLength
  match reader.findSignatureSector with
  | some signatureSector => return (firmwareEnd, (signatureSector + 1) * sectorSize)
  | none => return (firmwareEnd, firmwareEnd)

/-! ### `firmware_version.rs` -/

/-- A version of the firmware. -/
structure VersionNumber where
  major : ℕ
  minor : ℕ
  patch : ℕ
  deriving DecidableEq

/-- The derived order: by major number, then minor, then patch. -/
def VersionNumber.lt (v w : VersionNumber) : Bool :=
  v.major < w.major ||
    (v.major == w.major && (v.minor < w.minor || (v.minor == w.minor && v.patch < w.patch)))

/-- Devices refuse to install any release older than this. -/
def EARLIEST_ACCEPTABLE : VersionNumber := ⟨0, 4, 0⟩

/-- The digests of the shipped releases, as far as a device links them. -/
def KNOWN_FIRMWARE_VERSIONS : List (Sha256Digest × VersionNumber) :=
  [(0x6273dc08ca7c805fa70ac8feeb98c62f7b6fcb337fb1cd8412f24f0d6dda51f7#256, ⟨0, 3, 0⟩),
   (0xe432d313c7698b1e8843b10ba95efa8c28e66a5723b966c56c156687d09d16e0#256, ⟨0, 2, 0⟩),
   (0x5ff7bd280b96d645b2c739a6b91bfc6c27197e213302770f1a7180678ca4f720#256, ⟨0, 1, 0⟩),
   (0x8f45ae6b72c241a20798acbd3c6d3e54071cae73e335df1785f2d485a915da4c#256, ⟨0, 0, 1⟩)]

/-- Releases strictly older than `v`. -/
def VersionNumber.versionsBefore (v : VersionNumber) : List (Sha256Digest × VersionNumber) :=
  KNOWN_FIRMWARE_VERSIONS.filter fun release => release.2.lt v

/-! ### `secure_boot.rs` -/

/-- The peripherals of the chip. -/
structure Peripherals where
  /-- the SHA-256 engine, over all that it was given -/
  sha256 : List UInt8 → Sha256Digest
  /-- the RSA engine: exponent, modulus, `M'`, signature, `R` and then the words of the result -/
  modularExponentiation : List ℕ → List ℕ → ℕ → List ℕ → List ℕ → List ℕ
  /-- the eFuses `KEY_PURPOSE_0..5` -/
  keyPurpose : Fin 6 → ℕ
  /-- the eFuses `SECURE_BOOT_KEY_REVOKE0..2` -/
  secureBootKeyRevoke : Fin 3 → Bool
  /-- the eFuses `BLOCK_KEY0..5` -/
  blockKey : Fin 6 → Sha256Digest

/-- Why an image does not verify. -/
inductive SecureBootError where
  | missingSignature
  | checksumInvalid
  | efuseError
  | publicKeyInvalid
  | readImageError (sector : ℕ) (kind : NorFlashErrorKind)
  | imageHashInvalid
  | signatureInvalid
  | signatureError (message : String)
  deriving DecidableEq

/-- The signature block of version 2. -/
structure SignatureBlock where
  imageDigest : Sha256Digest
  rsaPublicModulus : List UInt8
  rsaPublicExponent : List UInt8
  precalculatedR : List UInt8
  precalculatedMPrime : List UInt8
  rsaPssSignature : List UInt8
  crc32 : List UInt8

/-- `data[start..stop]`. -/
def slice (data : List UInt8) (start stop : ℕ) : List UInt8 := (data.drop start).take (stop - start)

/-- Where its fields are. -/
def SignatureBlock.fromBytes (data : List UInt8) : SignatureBlock where
  imageDigest := Sha256Digest.ofBytes (slice data 4 36)
  rsaPublicModulus := slice data 36 420
  rsaPublicExponent := slice data 420 424
  precalculatedR := slice data 424 808
  precalculatedMPrime := slice data 808 812
  rsaPssSignature := slice data 812 1196
  crc32 := slice data 1196 1200

/-- The words of a byte string, little-endian. -/
def bytesToU32LeNative (bytes : List UInt8) : List ℕ := (bytes.toChunks 4).map ofLeBytes

variable (chip : Peripherals)

/-- `mgf1`, from a counter on: the digests of the seed with each counter. -/
def mgf1 (seed : List UInt8) (maskLen : ℕ) : List UInt8 :=
  ((List.range ((maskLen + 31) / 32)).flatMap fun counter =>
    (chip.sha256 (seed ++ (leBytes 4 counter).reverse)).toBytes).take maskLen

abbrev KEY_SIZE_BYTES : ℕ := 384
abbrev SALT_LEN : ℕ := 32
abbrev HASH_LEN : ℕ := 32

/-- The top bit of a byte is cleared. -/
def clearTopBit : List UInt8 → List UInt8
  | [] => []
  | byte :: bytes => (byte &&& 0x7f) :: bytes

/-- `verify_pss_padding`, with the lengths of RSA-3072 and SHA-256. -/
def verifyPssPadding (decrypted messageHash : List UInt8) : Bool :=
  if decrypted.length ≠ KEY_SIZE_BYTES then false
  else if decrypted.getD (KEY_SIZE_BYTES - 1) 0 ≠ 0xbc then false
  else
    let maskedDbLen := KEY_SIZE_BYTES - HASH_LEN - 1
    let emHash := slice decrypted maskedDbLen (KEY_SIZE_BYTES - 1)
    let maskedDb := decrypted.take maskedDbLen
    let db := clearTopBit (List.zipWith (· ^^^ ·) maskedDb (mgf1 chip emHash maskedDbLen))
    let psLen := maskedDbLen - SALT_LEN - 1
    if (db.take psLen).any (· != 0) then false
    else if db.getD psLen 0 ≠ 0x01 then false
    else
      let salt := db.drop (psLen + 1)
      let mPrime := List.replicate 8 0 ++ messageHash ++ salt
      emHash == (chip.sha256 mPrime).toBytes

/-- `verify_rsa_pss_signature`, by the RSA engine. -/
def verifyRsaPssSignature (sigBlock : SignatureBlock) (messageHash : Sha256Digest) :
    Except String Bool :=
  let modulus := bytesToU32LeNative sigBlock.rsaPublicModulus
  let rValue := bytesToU32LeNative sigBlock.precalculatedR
  let signature := bytesToU32LeNative sigBlock.rsaPssSignature
  let mPrime := ofLeBytes sigBlock.precalculatedMPrime
  if modulus.length ≠ 96 ∨ rValue.length ≠ 96 ∨ signature.length ≠ 96 then
    .error "Invalid RSA key size - expected 3072 bits"
  else
    let exponent := (bytesToU32LeNative sigBlock.rsaPublicExponent).take 1 ++ List.replicate 95 0
    let decrypted := chip.modularExponentiation exponent modulus mPrime signature rValue
    .ok (verifyPssPadding chip (decrypted.flatMap (leBytes 4)).reverse messageHash.toBytes)

/-- The key digest of the first key block that is for secure boot and not revoked. -/
def findSecureBootKey : Option Sha256Digest :=
  (List.finRange 6).findSome? fun i =>
    match ([(9, 0), (10, 1), (11, 2)] : List (ℕ × Fin 3)).find? fun (purpose, _) =>
        purpose == chip.keyPurpose i with
    | some (_, revokeField) =>
        if chip.secureBootKeyRevoke revokeField then none else some (chip.blockKey i)
    | none => none

/-- Secure boot is on when a key digest is burned and not revoked. -/
def isSecureBootEnabled : Bool := (findSecureBootKey chip).isSome

/-- The last sector that starts like a signature block. -/
def readSignatureSector {ε : Type} (reader : FirmwareReader ε) : Option (ℕ × List UInt8) := do
  let sectorIdx ← reader.findSignatureSector
  let sectorData ← (reader.readSector sectorIdx).toOption
  return (sectorIdx, sectorData)

/-- The sectors of an image in front of its signature block. -/
def readImage (reader : FirmwareReader NorFlashErrorKind) (sectors : ℕ) :
    Except SecureBootError (List UInt8) :=
  (List.range sectors).foldlM
    (fun image sector => match reader.readSector sector with
      | .ok sectorData => .ok (image ++ sectorData)
      | .error e => .error (.readImageError sector e)) []

/-- `verify_secure_boot`: the checksum, the key digest, the digest of the image and the signature.
-/
def verifySecureBoot (reader : FirmwareReader NorFlashErrorKind) : Except SecureBootError Unit := do
  match readSignatureSector reader with
  | none => throw .missingSignature
  | some (signatureSectorIndex, signatureBlock) =>
    let parsedBlock := SignatureBlock.fromBytes signatureBlock
    if crcChecksum 0xffffffff#32 (slice signatureBlock 0 1196) ≠ ofLeBytes parsedBlock.crc32 then
      throw .checksumInvalid
    match findSecureBootKey chip with
    | none => throw .efuseError
    | some efuseKeyDigest =>
      if chip.sha256 (slice signatureBlock 36 812) ≠ efuseKeyDigest then throw .publicKeyInvalid
      let image ← readImage reader signatureSectorIndex
      if chip.sha256 image ≠ parsedBlock.imageDigest then throw .imageHashInvalid
      match verifyRsaPssSignature chip parsedBlock parsedBlock.imageDigest with
      | .ok true => return ()
      | .ok false => throw .signatureInvalid
      | .error e => throw (.signatureError e)

/-! ### `decide_upgrade` -/

/-- Why an upgrade is refused. -/
inductive RefuseReason where
  | unparseableFirmware
  | digestMismatch
  | secureBootInvalid
  | downgradeBlocked
  deriving DecidableEq

/-- What is to be done with an image. -/
inductive UpgradeVerdict where
  | commit
  | refuse (reason : RefuseReason)
  deriving DecidableEq

/-- SHA-256 of the first bytes of a partition, sector after sector: no more than it has. -/
def sha256Digest (p : FlashPartition) (f : Flash) (upTo : Option ℕ) : Sha256Digest :=
  chip.sha256 ((p.contents f).take (match upTo with
    | some limit => min limit p.size
    | none => p.size))

/-- Decide whether to commit the downloaded upgrade sitting in a partition, against the digest the
coordinator announced. -/
def decideUpgrade (p : FlashPartition) (f : Flash) (announcedDigest : Sha256Digest) :
    UpgradeVerdict :=
  match firmwareSize (readerOf p f) with
  | .error _ => .refuse .unparseableFirmware
  | .ok (firmwareSize, _) =>
      let bodyDigest := sha256Digest chip p f (some firmwareSize)
      if bodyDigest ≠ announcedDigest then .refuse .digestMismatch
      else if isSecureBootEnabled chip ∧ verifySecureBoot chip (readerOf p f) ≠ .ok () then
        .refuse .secureBootInvalid
      else if EARLIEST_ACCEPTABLE.versionsBefore.any (·.1 == bodyDigest) then
        .refuse .downgradeBlocked
      else .commit

variable {chip}

/-- A partition is read by its contents alone. -/
theorem readerOf_congr {p : FlashPartition} {f g : Flash} (h : p.contents f = p.contents g) :
    readerOf p f = readerOf p g :=
  congrArg (FirmwareReader.mk · p.nSectors debugKind) (funext (FlashPartition.readSector_congr h))

/-- **The verdict is about the bytes of the partition alone.** -/
theorem decideUpgrade_congr {p : FlashPartition} {f g : Flash} (h : p.contents f = p.contents g)
    (announcedDigest : Sha256Digest) :
    decideUpgrade chip p f announcedDigest = decideUpgrade chip p g announcedDigest := by
  unfold decideUpgrade sha256Digest
  rw [readerOf_congr h, h]

/-- **What an image has that is committed to**: it can be parsed, it is the one that was announced,
it is signed when the chip asks for that, and it is not a release that was superseded. -/
theorem decideUpgrade_eq_commit_iff {p : FlashPartition} {f : Flash}
    {announcedDigest : Sha256Digest} :
    decideUpgrade chip p f announcedDigest = .commit ↔
      ∃ size total, firmwareSize (readerOf p f) = .ok (size, total) ∧
        sha256Digest chip p f (some size) = announcedDigest ∧
        (isSecureBootEnabled chip = true → verifySecureBoot chip (readerOf p f) = .ok ()) ∧
        ∀ release ∈ EARLIEST_ACCEPTABLE.versionsBefore, release.1 ≠ announcedDigest := by
  unfold decideUpgrade
  rcases hsize : firmwareSize (readerOf p f) with e | ⟨size, total⟩
  · simp
  · constructor
    · intro h
      dsimp only at h
      split at h
      · cases h
      rename_i hdigest
      split at h
      · cases h
      rename_i hboot
      split at h
      · cases h
      rename_i hnew
      rw [not_not] at hdigest
      refine ⟨size, total, rfl, hdigest, fun henabled => ?_, fun release hmem heq => ?_⟩
      · by_contra hne
        exact hboot ⟨henabled, hne⟩
      · refine hnew (List.any_eq_true.2 ⟨release, hmem, ?_⟩)
        rw [heq, hdigest]
        exact beq_self_eq_true _
    · rintro ⟨size', total', heq, hdigest, hboot, hnew⟩
      obtain ⟨rfl, rfl⟩ := Prod.mk.inj (Except.ok.inj heq)
      dsimp only
      rw [if_neg (not_not.2 hdigest), if_neg fun h => h.2 (hboot h.1), if_neg]
      rintro hany
      obtain ⟨release, hmem, hrelease⟩ := List.any_eq_true.1 hany
      exact hnew release hmem ((beq_iff_eq.1 hrelease).trans hdigest)

end Firmware

/-- The check value of the algorithm. -/
example : crcChecksum 0xffffffff#32 [0x31, 0x32, 0x33, 0x34, 0x35, 0x36, 0x37, 0x38, 0x39] =
    0xcbf43926 := by decide +kernel

end Frostsnap
