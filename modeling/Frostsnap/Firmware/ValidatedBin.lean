import Frostsnap.Firmware.ImageSize

/-!
# The firmware of the app

The app carries a firmware image for devices, which it checks when it starts: `FirmwareBin` and
`ValidatedFirmwareBin::new` (`frostsnap_coordinator/src/firmware.rs`). The digest that it announces
to a device is that of the image without its signature block.

## Main results

* `newSound_iff_fitsBin`: when the check of an image returns.
* `firmware_inside_image_iff`: the same with the sizes of any image.
-/

namespace Frostsnap.Firmware

/-- An image in memory. No slice has more than `isize::MAX` bytes. -/
structure FirmwareBin where
  bin : List UInt8
  length_lt : bin.length < 2 ^ 63

namespace FirmwareBin

/-- `size`. -/
def size (firmware : FirmwareBin) : ℕ := asU32 firmware.bin.length

/-- `FirmwareBin` as a reader: zeros are behind the bytes of a last sector. -/
def reader (firmware : FirmwareBin) : ImageReader String where
  readSector sector :=
    let sectorOffset := sector * sectorSize
    if firmware.bin.length ≤ sectorOffset then
      .error "Custom \x7b kind: UnexpectedEof, error: \"Sector out of bounds\" \x7d"
    else
      let data := (firmware.bin.drop sectorOffset).take sectorSize
      .ok (data ++ List.replicate (sectorSize - data.length) 0)
  nSectors := asU32 ((firmware.bin.length + (sectorSize - 1)) / sectorSize)
  debug := id
  length_sector := by
    intro sector bytes h
    dsimp only at h
    split at h
    · cases h
    · obtain rfl := Except.ok.inj h
      rw [List.length_append, List.length_replicate, List.length_take]
      omega
  nSectors_le := Nat.lt_succ_iff.1 (Nat.mod_lt _ (Nat.succ_pos _))

theorem lt_length_of_readSector {firmware : FirmwareBin} {sector : ℕ} {bytes : List UInt8}
    (h : firmware.reader.readSector sector = .ok bytes) :
    sector * sectorSize < firmware.bin.length := by
  by_contra hle
  rw [reader] at h
  dsimp only at h
  rw [if_pos (not_lt.1 hle)] at h
  cases h

end FirmwareBin

/-! ### `firmware_version.rs` -/

/-- The releases that a coordinator links: the current one too. -/
def KNOWN_FIRMWARE_VERSIONS.coordinator : List (Sha256Digest × VersionNumber) :=
  (0x037c345c9db9866d30e219ae56de5efe3905a4050a82df362590d5017e709df0#256, ⟨0, 4, 0⟩) ::
    KNOWN_FIRMWARE_VERSIONS

def V0_0_1_FULL_IMAGE_DIGEST : Sha256Digest :=
  0x57161f80b41413b1053e272f9c3da8d16ecfce44793345be69f7fe03d93f4eb0#256

def VersionNumber.fromDigest (digest : Sha256Digest) : Option VersionNumber :=
  if digest = V0_0_1_FULL_IMAGE_DIGEST then some ⟨0, 0, 1⟩
  else (KNOWN_FIRMWARE_VERSIONS.coordinator.find? fun release => release.1 == digest).map (·.2)

structure FirmwareVersion where
  digest : Sha256Digest
  version : Option VersionNumber

def FirmwareVersion.new (digest : Sha256Digest) : FirmwareVersion where
  digest := digest
  version := VersionNumber.fromDigest digest

/-! ### `ValidatedFirmwareBin` -/

inductive FirmwareValidationError where
  | invalidFormat (error : FirmwareSizeError)
  | sizeMismatch (expected actual : ℕ)
  | unknownSignedFirmware (digest : Sha256Digest)

structure ValidatedFirmwareBin where
  firmware : FirmwareBin
  digestWithSignature : Sha256Digest
  firmwareVersion : FirmwareVersion
  firmwareSize : ℕ
  totalSize : ℕ

/-- The digest that is announced. -/
def ValidatedFirmwareBin.digest (firmware : ValidatedFirmwareBin) : Sha256Digest :=
  firmware.firmwareVersion.digest

/-- `&bytes[..stop]`. -/
def sliceTo (bytes : List UInt8) (stop : ℕ) : Exec (List UInt8) :=
  if stop ≤ bytes.length then .ret (bytes.take stop)
  else .panic "range end index out of range for slice"

variable [Build] (sha256 : List UInt8 → Sha256Digest) (prod : Bool)

/-- `ValidatedFirmwareBin::new`, in an app that was built for production or not. -/
def ValidatedFirmwareBin.new (firmware : FirmwareBin) :
    Exec (Except FirmwareValidationError ValidatedFirmwareBin) := do
  match ← firmware.reader.firmwareSize with
  | .error e => return .error (.invalidFormat e)
  | .ok (firmwareSize, totalSize) =>
      if totalSize ≠ firmware.size then return .error (.sizeMismatch totalSize firmware.size)
      else
        let digestWithSignature := sha256 firmware.bin
        let body ← sliceTo firmware.bin firmwareSize
        let firmwareOnlyDigest := sha256 body
        let isSigned := firmwareSize < totalSize
        if isSigned ∧ prod ∧ VersionNumber.fromDigest firmwareOnlyDigest = none then
          return .error (.unknownSignedFirmware firmwareOnlyDigest)
        else
          return .ok {
            firmware
            digestWithSignature
            firmwareVersion := FirmwareVersion.new firmwareOnlyDigest
            firmwareSize
            totalSize }

/-- The check returns, and the digest of what it accepts is that of the body that was found. -/
def NewSound (firmware : FirmwareBin) : Prop :=
  ∃ result, ValidatedFirmwareBin.new sha256 prod firmware = .ret result ∧
    ∀ validated, result = .ok validated →
      ∃ body total, firmware.reader.firmwareSize = .ret (.ok (body, total)) ∧
        body ≤ firmware.bin.length ∧ validated.digest = sha256 (firmware.bin.take body)

/-- The condition: where a signature sector ends the image, what the headers declare must not go on
behind it. A build that looks for overflows has none. -/
def FitsBin (firmware : FirmwareBin) : Prop :=
  firmware.reader.Declares →
    (Build.checks = true → firmware.reader.lastEnd + 16 ≤ u32Max) ∧
      (firmware.reader.lastEnd + 16 ≤ u32Max → firmware.reader.bodyEnd ≤ u32Max →
        ∀ s, firmware.reader.LastSignature s →
          (Build.checks = true → (s + 1) * sectorSize ≤ u32Max) ∧
            ((s + 1) * sectorSize = firmware.size →
              firmware.reader.bodyEnd ≤ firmware.bin.length))

variable {sha256 prod} {firmware : FirmwareBin}

theorem newSound_of_error {e : FirmwareSizeError}
    (h : firmware.reader.firmwareSize = .ret (.error e)) : NewSound sha256 prod firmware := by
  refine ⟨.error (.invalidFormat e), ?_, nofun⟩
  rw [ValidatedFirmwareBin.new, h]
  rfl

theorem not_newSound_of_panic {msg : String} (h : firmware.reader.firmwareSize = .panic msg) :
    ¬NewSound sha256 prod firmware := by
  rintro ⟨result, hret, -⟩
  rw [ValidatedFirmwareBin.new, h] at hret
  cases hret

/-- What is left of the check when the sizes are known. -/
theorem newSound_of_sizes {body total : ℕ}
    (h : firmware.reader.firmwareSize = .ret (.ok (body, total))) :
    NewSound sha256 prod firmware ↔ (total = firmware.size → body ≤ firmware.bin.length) := by
  rw [NewSound, ValidatedFirmwareBin.new, h, Exec.ret_bind]
  dsimp only
  by_cases hsize : total = firmware.size
  · rw [if_neg (not_not.2 hsize), sliceTo]
    by_cases hbody : body ≤ firmware.bin.length
    · rw [if_pos hbody, Exec.ret_bind]
      refine ⟨fun _ _ => hbody, fun _ => ?_⟩
      split
      · exact ⟨_, rfl, nofun⟩
      · refine ⟨_, rfl, fun validated heq => ⟨body, total, rfl, hbody, ?_⟩⟩
        obtain rfl := Except.ok.inj heq
        rfl
    · rw [if_neg hbody, Exec.panic_bind]
      refine ⟨?_, fun hfits => absurd (hfits hsize) hbody⟩
      rintro ⟨result, hret, -⟩
      cases hret
  · rw [if_pos hsize]
    exact ⟨fun _ heq => absurd heq hsize, fun _ => ⟨_, rfl, nofun⟩⟩

omit [Build] in
/-- An image that ends with a signature sector past the `u32`s is longer than they are. -/
theorem u32Max_lt_length_of_wrap {s : ℕ} (hsig : firmware.reader.IsSignature s)
    (hover : u32Max < (s + 1) * sectorSize) (hsize : asU32 ((s + 1) * sectorSize) = firmware.size) :
    u32Max < firmware.bin.length := by
  obtain ⟨-, bytes, hread, -⟩ := hsig
  have hin := FirmwareBin.lt_length_of_readSector hread
  rw [FirmwareBin.size] at hsize
  simp only [asU32, u32Max, sectorSize] at hin hover hsize ⊢
  omega

/-- The check of an image with this body. -/
theorem newSound_of_withSignature {body : ℕ} (hbody : body ≤ u32Max)
    (h : firmware.reader.firmwareSize = firmware.reader.withSignature body) :
    NewSound sha256 prod firmware ↔
      ∀ s, firmware.reader.LastSignature s →
        (Build.checks = true → (s + 1) * sectorSize ≤ u32Max) ∧
          ((s + 1) * sectorSize = firmware.size → body ≤ firmware.bin.length) := by
  rcases firmware.reader.signed_or_unsigned with ⟨s, hlast⟩ | hnone
  · rw [ImageReader.withSignature_of_signed hlast] at h
    by_cases hmul : (s + 1) * sectorSize ≤ u32Max
    · rw [mulU32_of_le hmul, Exec.ret_bind] at h
      rw [newSound_of_sizes h]
      constructor
      · intro hfits t ht
        obtain rfl := hlast.unique ht
        exact ⟨fun _ => hmul, hfits⟩
      · intro hfits
        exact (hfits s hlast).2
    · have hover := not_le.1 hmul
      cases hchecks : (Build.checks) with
      | true =>
          rw [mulU32_of_checks hchecks hover, Exec.panic_bind] at h
          exact ⟨fun hsound => absurd hsound (not_newSound_of_panic h),
            fun hfits => absurd ((hfits s hlast).1 rfl) hmul⟩
      | false =>
          rw [mulU32_of_wraps hchecks hover, Exec.ret_bind] at h
          rw [newSound_of_sizes h]
          refine ⟨fun _ t ht => ⟨nofun, fun hsize => ?_⟩, fun _ hsize => ?_⟩
          · obtain rfl := hlast.unique ht
            have hlt : firmware.size ≤ u32Max := Nat.lt_succ_iff.1 (Nat.mod_lt _ (Nat.succ_pos _))
            omega
          · exact hbody.trans (u32Max_lt_length_of_wrap hlast.1 hover hsize).le
  · rw [ImageReader.withSignature_of_unsigned hnone] at h
    rw [newSound_of_sizes h]
    refine ⟨fun _ s hs => absurd hs.1 (hnone s), fun _ hsize => ?_⟩
    rw [hsize]
    exact Nat.mod_le _ _

omit [Build] in
/-- Only a long image declares so much that the padding overflows. -/
theorem digest_le_length (h : firmware.reader.Declares)
    (hover : u32Max < firmware.reader.lastEnd + 16) :
    (if firmware.reader.byteAt 23 = 1 then 32 else 0) ≤ firmware.bin.length := by
  obtain ⟨pos, ⟨⟨-, bytes, hread⟩, -⟩, hlength, hlast, -⟩ := ImageReader.exists_last_segment h
  have hin := FirmwareBin.lt_length_of_readSector hread
  have hdigest : (if firmware.reader.byteAt 23 = 1 then 32 else 0) ≤ 32 := by
    split <;> decide
  rw [hlast] at hover
  simp only [u32Max, sectorSize, MAX_SEGMENT_SIZE] at hin hlength hover
  omega

/-- **When the check of an image returns.** -/
theorem newSound_iff_fitsBin : NewSound sha256 prod firmware ↔ FitsBin firmware := by
  rw [FitsBin]
  by_cases h : firmware.reader.Declares
  · by_cases hfit : firmware.reader.lastEnd + 16 ≤ u32Max
    · have hsizes := ImageReader.firmwareSize_of_declares h hfit
      by_cases hbody : firmware.reader.bodyEnd ≤ u32Max
      · rw [if_pos hbody] at hsizes
        rw [newSound_of_withSignature hbody hsizes]
        exact ⟨fun hin _ => ⟨fun _ => hfit, fun _ _ => hin⟩, fun hin => (hin h).2 hfit hbody⟩
      · rw [if_neg hbody] at hsizes
        exact ⟨fun _ _ => ⟨fun _ => hfit, fun _ hle => absurd hle hbody⟩,
          fun _ => newSound_of_error hsizes⟩
    · have hover := not_le.1 hfit
      cases hchecks : (Build.checks) with
      | true =>
          have hpanic := ImageReader.firmwareSize_of_overflow hchecks h hover
          exact ⟨fun hsound => absurd hsound (not_newSound_of_panic hpanic),
            fun hin => absurd ((hin h).1 rfl) hfit⟩
      | false =>
          have hwrap := ImageReader.firmwareSize_of_wrap hchecks h hover
          have hle := digest_le_length h hover
          have hle' : (if firmware.reader.byteAt 23 = 1 then 32 else 0) ≤ u32Max := by
            split <;> decide
          refine ⟨fun _ _ => ⟨nofun, fun hle => absurd hle hfit⟩, fun _ => ?_⟩
          rw [newSound_of_withSignature hle' hwrap]
          exact fun s _ => ⟨fun htrue => absurd (hchecks.symm.trans htrue) nofun, fun _ => hle⟩
  · obtain ⟨e, he⟩ := ImageReader.firmwareSize_of_not_declares h
    exact ⟨fun _ hdeclares => absurd hdeclares h, fun _ => newSound_of_error he⟩

/-- **The sizes of an image are inside it**, and nothing overflows on the way, exactly if what its
headers declare is. The check of an image returns, and the digest that is announced is that of the
body, exactly if what the headers declare does not go on behind the signature sector it ends
with. -/
theorem firmware_inside_image_iff (sha256 : List UInt8 → Sha256Digest) (prod : Bool)
    {ε : Type} (reader : ImageReader ε) (firmware : FirmwareBin) :
    (reader.SizeInside ↔ reader.FitsImage) ∧
      (NewSound sha256 prod firmware ↔ FitsBin firmware) :=
  ⟨ImageReader.sizeInside_iff_fitsImage, newSound_iff_fitsBin⟩

/-- An image of two sectors, the second one the signature sector, whose only segment has 65536
bytes. -/
def overlongBin : FirmwareBin where
  bin :=
    (0xE9 :: 0x01 :: List.replicate 28 0 ++ [0x01, 0x00] ++ List.replicate 4064 0) ++
      (SIGNATURE_BLOCK_MAGIC ++ List.replicate 4092 0)
  length_lt := by
    simp only [List.length_append, List.length_cons, List.length_replicate, List.length_nil]
    decide

/-- The sizes that are found, if some are. -/
def foundSizes (reader : ImageReader String) : Option (ℕ × ℕ) :=
  match reader.firmwareSize with
  | .ret (.ok sizes) => some sizes
  | _ => none

theorem eq_ret_of_foundSizes {reader : ImageReader String} {sizes : ℕ × ℕ}
    (h : foundSizes reader = some sizes) : reader.firmwareSize = .ret (.ok sizes) := by
  rw [foundSizes] at h
  split at h
  · next hret => rw [hret, Option.some.inj h]
  · cases h

omit [Build] in
/-- Its body would have 65584 bytes, of the 8192 that there are. -/
theorem overlongBin_outside :
    (¬∀ reader : ImageReader String, reader.SizeInside) ∧
      ¬∀ (_ : Build) (sha256 : List UInt8 → Sha256Digest) (prod : Bool) (bin : FirmwareBin),
        NewSound sha256 prod bin := by
  constructor
  · intro h
    obtain ⟨sizes, hret, hin⟩ := h overlongBin.reader
    have hfound := @eq_ret_of_foundSizes Build.debug overlongBin.reader (65584, 8192)
      (by decide +kernel)
    obtain rfl := Exec.ret.inj (hfound.symm.trans hret)
    exact absurd (hin 65584 8192 rfl).1 (by decide)
  · intro h
    have hfound := @eq_ret_of_foundSizes Build.release overlongBin.reader (65584, 8192)
      (by decide +kernel)
    have hsound := (@newSound_of_sizes Build.release _ false overlongBin 65584 8192 hfound).1
      (h Build.release (fun _ => 0) false overlongBin)
    have hlength : overlongBin.bin.length = 8192 := by
      simp only [overlongBin, List.length_append, List.length_cons, List.length_replicate,
        List.length_nil]
    have hbody := hsound (by rw [FirmwareBin.size, hlength]; rfl)
    rw [hlength] at hbody
    exact absurd hbody (by decide)

end Frostsnap.Firmware
