import Frostsnap.Firmware.Image
import Frostsnap.Lib.EmsaPss
import Frostsnap.Lib.NewtonInverse
import Frostsnap.Lib.Words
import Mathlib.Data.Nat.Digits.Defs

/-!
# Signing firmware

This module embeds `frostsnap_secure_boot`: a Secure Boot v2 image is the firmware, padded to whole
sectors, and a signature block of one sector with the digest of the image, the key with its
Montgomery constants, the signature and a checksum. The RSA crate is a parameter.

## Main results

* `montgomeryMPrime_spec`: the five steps of the inverse find `M'` for every odd modulus.
* `buildSignatureBlock_layout`: where the fields of a block are.
* `verifyFirmware_of_sign`: what is signed is verified, by the key that signed it.
-/

namespace Frostsnap.Firmware

abbrev SECTOR_SIZE : ℕ := 4096
abbrev RSA_KEY_BYTES : ℕ := 384

structure RsaPublicKey where
  n : ℕ
  e : ℕ
  deriving DecidableEq

/-- The parts of the `rsa` crate that are called. A failed call says why. -/
structure RsaCrate (PrivateKey Rng : Type) where
  fromPkcs8Pem : String → Except String PrivateKey
  fromPkcs1Pem : String → Except String PrivateKey
  toPublicKey : PrivateKey → RsaPublicKey
  /-- `RsaPublicKey::new` -/
  newPublicKey : ℕ → ℕ → Except String RsaPublicKey
  /-- `SigningKey::sign_prehash_with_rng`, big-endian -/
  signPrehash : PrivateKey → Rng → List UInt8 → Except String (List UInt8)
  /-- `VerifyingKey::verify_prehash`, with the signature as bytes -/
  verifyPrehash : RsaPublicKey → List UInt8 → List UInt8 → Except String Unit

/-! ### Bytes -/

/-- `block[start..start + bytes.len()].copy_from_slice(bytes)`. -/
def copyAt (block : List UInt8) (start : ℕ) (bytes : List UInt8) : List UInt8 :=
  block.take start ++ bytes ++ block.drop (start + bytes.length)

/-- `BigUint::to_bytes_le`: no more bytes than needed, and one for zero. -/
def toBytesLe (n : ℕ) : List UInt8 :=
  if n = 0 then [0] else (Nat.digits 256 n).map UInt8.ofNat

def toLeBytesFixed (size val : ℕ) : List UInt8 :=
  let bytes := toBytesLe val
  let len := min bytes.length size
  copyAt (List.replicate size 0) 0 (bytes.take len)

/-! ### The Montgomery constants -/

/-- The loop of `montgomery_m_prime`. -/
def newtonLoop (n32 : BitVec 32) : ℕ → BitVec 32 → BitVec 32
  | 0, x => x
  | rounds + 1, x => newtonLoop n32 rounds (x * (2#32 - n32 * x))

/-- Montgomery `M' = -N^(-1) mod 2^32`. -/
def montgomeryMPrime (n : ℕ) : Exec (BitVec 32) :=
  match toBytesLe n with
  | b₀ :: b₁ :: b₂ :: b₃ :: _ =>
      let n32 := BitVec.ofNat 32 (ofLeBytes [b₀, b₁, b₂, b₃])
      .ret (0#32 - newtonLoop n32 5 1#32)
  | _ => .panic "index out of bounds"

/-- `R`, which is the square of `2^3072` modulo the key. -/
def montgomeryR (n : ℕ) : ℕ := 2 ^ (RSA_KEY_BYTES * 8) * 2 ^ (RSA_KEY_BYTES * 8) % n

variable (sha256 : List UInt8 → Sha256Digest)

/-- Compute the ESP32 Secure Boot v2 eFuse "key digest" for a public key. -/
def computeKeyDigest (publicKey : RsaPublicKey) : Exec Sha256Digest := do
  let modulusLe := toLeBytesFixed RSA_KEY_BYTES publicKey.n
  let exponentLe := toLeBytesFixed 4 publicKey.e
  let rLe := toLeBytesFixed RSA_KEY_BYTES (montgomeryR publicKey.n)
  let mPrime ← montgomeryMPrime publicKey.n
  let mPrimeLe := leBytes 4 mPrime.toNat
  let buf := List.replicate 776 0
  let buf := copyAt buf 0 modulusLe
  let buf := copyAt buf 384 exponentLe
  let buf := copyAt buf 388 rLe
  let buf := copyAt buf 772 mPrimeLe
  return sha256 buf

variable {PrivateKey Rng : Type} (R : RsaCrate PrivateKey Rng)

def buildSignatureBlock (privateKey : PrivateKey) (imageDigest : Sha256Digest) (rng : Rng) :
    Exec (Except String (List UInt8)) := do
  let publicKey := R.toPublicKey privateKey
  let modulusLe := toLeBytesFixed RSA_KEY_BYTES publicKey.n
  let exponentLe := toLeBytesFixed 4 publicKey.e
  let rLe := toLeBytesFixed RSA_KEY_BYTES (montgomeryR publicKey.n)
  let mPrime ← montgomeryMPrime publicKey.n
  let mPrimeLe := leBytes 4 mPrime.toNat
  match R.signPrehash privateKey rng imageDigest.toBytes with
  | .error e => return .error e
  | .ok sigBytes =>
      if sigBytes.length ≠ RSA_KEY_BYTES then
        .panic "copy_from_slice: source slice length does not match destination slice length"
      else
        let sigLe := sigBytes.reverse
        let block := List.replicate SECTOR_SIZE 0
        let block := copyAt block 0 SIGNATURE_BLOCK_MAGIC
        let block := copyAt block 4 imageDigest.toBytes
        let block := copyAt block 36 modulusLe
        let block := copyAt block 420 exponentLe
        let block := copyAt block 424 rLe
        let block := copyAt block 808 mPrimeLe
        let block := copyAt block 812 sigLe
        let crcVal := crcChecksum 0xffffffff#32 (slice block 0 1196)
        let block := copyAt block 1196 (leBytes 4 crcVal)
        let block := copyAt block 1216 (List.replicate (SECTOR_SIZE - 1216) 0xff)
        return .ok block

/-- The key of a PEM file, in one of two forms. -/
def loadPrivateKey (pemKey : List UInt8) : Except String PrivateKey :=
  match String.fromUTF8? ⟨pemKey.toArray⟩ with
  | none => .error "invalid utf-8 sequence"
  | some pemStr =>
      match R.fromPkcs8Pem pemStr with
      | .ok privateKey => .ok privateKey
      | .error _ => R.fromPkcs1Pem pemStr

/-- The firmware, padded to a sector boundary with `0xFF`. -/
def padFirmware (firmware : List UInt8) : List UInt8 :=
  let paddedLen := (firmware.length + (SECTOR_SIZE - 1)) / SECTOR_SIZE * SECTOR_SIZE
  firmware ++ List.replicate (paddedLen - firmware.length) 0xff

def signFirmware (firmware pemKey : List UInt8) (rng : Rng) : Exec (Except String (List UInt8)) :=
  match loadPrivateKey R pemKey with
  | .error e => .ret (.error e)
  | .ok privateKey => do
      let signed := padFirmware firmware
      let imageDigest := sha256 signed
      match ← buildSignatureBlock R privateKey imageDigest rng with
      | .error e => return .error e
      | .ok sigBlock => return .ok (signed ++ sigBlock)

/-! ### Verification -/

inductive VerifyError where
  | tooSmall
  | notSectorAligned
  | badMagic
  | crcMismatch
  | digestMismatch
  | invalidPublicKey (message : String)
  | montgomeryMismatch
  | signatureInvalid (message : String)
  deriving DecidableEq

/-- Result of a successful Secure Boot v2 verification. -/
structure Verified where
  publicKey : RsaPublicKey
  keyDigest : Sha256Digest
  imageDigest : Sha256Digest

/-- Whether an image is signed by the expected key, compared by the eFuse key digest. -/
def Verified.signedBy (verified : Verified) (expected : RsaPublicKey) : Exec Bool := do
  let digest ← computeKeyDigest sha256 expected
  return verified.keyDigest == digest

/-- Verify the Secure Boot v2 signature block on a signed firmware image. -/
def verifyFirmware (signedFirmware : List UInt8) : Except VerifyError Verified := do
  if signedFirmware.length < SECTOR_SIZE * 2 then throw .tooSmall
  if signedFirmware.length % SECTOR_SIZE ≠ 0 then throw .notSectorAligned
  let sigBlockOffset := signedFirmware.length - SECTOR_SIZE
  let block := signedFirmware.drop sigBlockOffset
  let firmware := signedFirmware.take sigBlockOffset
  if slice block 0 4 ≠ SIGNATURE_BLOCK_MAGIC then throw .badMagic
  let crcStored := ofLeBytes (slice block 1196 1200)
  let crcCalc := crcChecksum 0xffffffff#32 (slice block 0 1196)
  if crcStored ≠ crcCalc then throw .crcMismatch
  let imageDigest := sha256 firmware
  if slice block 4 36 ≠ imageDigest.toBytes then throw .digestMismatch
  let modulus := ofLeBytes (slice block 36 420)
  let exponent := ofLeBytes (slice block 420 424)
  match R.newPublicKey modulus exponent with
  | .error e => throw (.invalidPublicKey e)
  | .ok publicKey =>
    let r := ofLeBytes (slice block 424 808)
    if r ≠ montgomeryR modulus then throw .montgomeryMismatch
    let mPrime := ofLeBytes (slice block 808 812)
    if (modulus * mPrime + 1) % 2 ^ 32 ≠ 0 then throw .montgomeryMismatch
    let sigBe := (slice block 812 1196).reverse
    match R.verifyPrehash publicKey imageDigest.toBytes sigBe with
    | .error e => throw (.signatureInvalid e)
    | .ok () =>
      let keyDigest := sha256 (slice block 36 812)
      return { publicKey := publicKey, keyDigest := keyDigest, imageDigest := imageDigest }

/-! ### Slices -/

theorem slice_append_left {x y : List UInt8} {start stop : ℕ} (h : stop ≤ x.length) :
    slice (x ++ y) start stop = slice x start stop := by
  rw [slice, slice, List.drop_append, List.take_append_of_le_length]
  rw [List.length_drop]
  omega

/-- Fields one after the other: from the start of one to the start of another are the fields in
between. -/
theorem slice_flatten (fields : List (List UInt8)) {i j : ℕ} (h : i ≤ j) :
    slice fields.flatten (fields.take i).flatten.length (fields.take j).flatten.length =
      ((fields.take j).drop i).flatten := by
  have hsplit : fields.flatten = (fields.take j).flatten ++ (fields.drop j).flatten := by
    rw [← List.flatten_append, List.take_append_drop]
  have hhead : (fields.take j).flatten =
      (fields.take i).flatten ++ ((fields.take j).drop i).flatten := by
    rw [← List.flatten_append]
    congr 1
    conv_lhs => rw [← List.take_append_drop i (fields.take j), List.take_take, Nat.min_eq_left h]
  rw [hsplit, slice_append_left (le_refl _), slice, hhead, List.drop_left, List.length_append,
    Nat.add_sub_cancel_left, List.take_length]

/-- Writing behind what is written. -/
theorem copyAt_append_replicate {written bytes : List UInt8} {start k : ℕ}
    (hstart : written.length = start) :
    copyAt (written ++ List.replicate k 0) start bytes =
      (written ++ bytes) ++ List.replicate (k - bytes.length) 0 := by
  subst hstart
  rw [copyAt, List.take_left, ← List.drop_drop, List.drop_left, List.drop_replicate]

/-- Write fields one behind the other. -/
def copyFields (block : List UInt8) : ℕ → List (List UInt8) → List UInt8
  | _, [] => block
  | start, bytes :: fields => copyFields (copyAt block start bytes) (start + bytes.length) fields

/-- **Writing fields** behind what is written. -/
theorem copyFields_eq (fields : List (List UInt8)) (written : List UInt8) (k : ℕ)
    (h : fields.flatten.length ≤ k) :
    copyFields (written ++ List.replicate k 0) written.length fields =
      written ++ fields.flatten ++ List.replicate (k - fields.flatten.length) 0 := by
  induction fields generalizing written k with
  | nil => simp [copyFields]
  | cons bytes fields ih =>
      rw [List.flatten_cons, List.length_append] at h
      rw [copyFields, copyAt_append_replicate rfl, ← List.length_append, ih _ _ (by omega),
        List.flatten_cons, List.length_append, Nat.sub_sub]
      simp only [List.append_assoc]

/-! ### Numbers as bytes -/

/-- The bytes of a number, as many as asked for, are its digits and zeros. -/
theorem leBytes_eq_digits (k n : ℕ) :
    leBytes k n = ((Nat.digits 256 n).map UInt8.ofNat).take k ++
      List.replicate (k - (Nat.digits 256 n).length) 0 := by
  induction k generalizing n with
  | zero => simp [leBytes]
  | succ k ih =>
      rcases Nat.eq_zero_or_pos n with rfl | hpos
      · rw [leBytes_zero, Nat.digits_zero]
        rfl
      · rw [leBytes, ih, Nat.digits_def' (by omega) hpos]
        simp only [List.map_cons, List.take_succ_cons, List.cons_append, List.length_cons,
          Nat.add_sub_add_right]
        congr 1
        apply UInt8.toNat_inj.mp
        rw [UInt8.toNat_ofNat', UInt8.toNat_ofNat', Nat.mod_mod]

/-- **Padding a number** to a fixed size gives that many of its bytes. -/
theorem toLeBytesFixed_eq (size val : ℕ) : toLeBytesFixed size val = leBytes size val := by
  have hcopy : ∀ bytes : List UInt8, copyAt (List.replicate size 0) 0 bytes =
      bytes ++ List.replicate (size - bytes.length) 0 := fun bytes =>
    @copyAt_append_replicate [] bytes 0 size rfl
  rw [toLeBytesFixed, hcopy, List.length_take, toBytesLe]
  split
  · rename_i hzero
    rw [hzero, leBytes_zero]
    rcases size with - | size
    · rfl
    · simp [List.replicate_succ]
  · rw [leBytes_eq_digits, List.length_map]
    have htake : ∀ l : List UInt8, l.take (min l.length size) = l.take size := by
      intro l
      rw [Nat.min_comm, ← List.take_eq_take_min]
    rw [← List.length_map (UInt8.ofNat), htake]
    congr 2
    omega

/-! ### Montgomery's `M'` -/

theorem newtonLoop_eq (n32 x : BitVec 32) (rounds : ℕ) :
    newtonLoop n32 rounds x = (newtonStep n32)^[rounds] x := by
  induction rounds generalizing x with
  | zero => rfl
  | succ rounds ih =>
      have hstep : x * (2#32 - n32 * x) = newtonStep n32 x := by
        rw [newtonStep, show 2#32 = 1 + 1 from rfl]
        ring
      rw [newtonLoop, ih, Function.iterate_succ_apply, hstep]

/-- The first bytes of a number that has them. -/
theorem toBytesLe_eq_cons {n : ℕ} (h : 2 ^ 24 ≤ n) :
    ∃ b₀ b₁ b₂ b₃ rest, toBytesLe n = b₀ :: b₁ :: b₂ :: b₃ :: rest ∧
      [b₀, b₁, b₂, b₃] = leBytes 4 n := by
  have hlen : 4 ≤ (Nat.digits 256 n).length := by
    by_contra hlt
    have hbound := Nat.lt_base_pow_length_digits (m := n) (by omega : 1 < 256)
    have hpow : 256 ^ (Nat.digits 256 n).length ≤ 256 ^ 3 :=
      Nat.pow_le_pow_right (by omega) (by omega)
    omega
  have hle := leBytes_eq_digits 4 n
  rw [Nat.sub_eq_zero_of_le hlen, List.replicate_zero, List.append_nil] at hle
  rw [toBytesLe, if_neg (by omega), hle]
  have hlen' : 4 ≤ ((Nat.digits 256 n).map UInt8.ofNat).length := by rwa [List.length_map]
  match hbytes : (Nat.digits 256 n).map UInt8.ofNat, hlen' with
  | b₀ :: b₁ :: b₂ :: b₃ :: rest, _ => exact ⟨b₀, b₁, b₂, b₃, rest, rfl, rfl⟩

/-- **The five steps** find `M'`, for every odd modulus that has four bytes. -/
theorem montgomeryMPrime_spec {n : ℕ} (hodd : n % 2 = 1) (hbytes : 2 ^ 24 ≤ n) :
    ∃ mPrime, montgomeryMPrime n = .ret mPrime ∧ (n * mPrime.toNat + 1) % 2 ^ 32 = 0 := by
  obtain ⟨b₀, b₁, b₂, b₃, rest, hbytes, hlow⟩ := toBytesLe_eq_cons hbytes
  have hn32 : BitVec.ofNat 32 (ofLeBytes [b₀, b₁, b₂, b₃]) = BitVec.ofNat 32 n := by
    apply BitVec.eq_of_toNat_eq
    rw [hlow, ofLeBytes_leBytes_mod, BitVec.toNat_ofNat, BitVec.toNat_ofNat]
    exact Nat.mod_mod _ _
  have hodd' : (BitVec.ofNat 32 n).toNat % 2 = 1 := by
    rw [BitVec.toNat_ofNat]
    omega
  have hinverse := BitVec.mul_newtonInverse hodd' (k := 5) (by norm_num)
  refine ⟨0#32 - newtonInverse 5 (BitVec.ofNat 32 n), ?_, ?_⟩
  · rw [montgomeryMPrime, hbytes]
    dsimp only
    rw [newtonLoop_eq, hn32]
    rfl
  · have hzero : BitVec.ofNat 32 n * (0 - newtonInverse 5 (BitVec.ofNat 32 n)) + 1 = 0 := by
      rw [mul_sub, hinverse, mul_zero, zero_sub, neg_add_cancel]
    have hnat := congrArg BitVec.toNat hzero
    rw [BitVec.toNat_add, BitVec.toNat_mul, BitVec.toNat_ofNat, Nat.mod_mul_mod] at hnat
    rw [Nat.add_mod]
    exact hnat

/-! ### The layout of a signature block -/

@[simp] theorem length_toBytes (digest : Sha256Digest) : digest.toBytes.length = 32 := by
  rw [Sha256Digest.toBytes, List.length_reverse, length_leBytes]

/-- The fields of a block that are under its checksum. -/
def blockFields (imageDigest : Sha256Digest) (publicKey : RsaPublicKey) (mPrime : BitVec 32)
    (sigBytes : List UInt8) : List (List UInt8) :=
  [SIGNATURE_BLOCK_MAGIC, imageDigest.toBytes, leBytes 384 publicKey.n, leBytes 4 publicKey.e,
    leBytes 384 (montgomeryR publicKey.n), leBytes 4 mPrime.toNat, sigBytes.reverse]

/-- The fields of a block: those, their checksum, and filling. -/
def withTrailer (fields : List (List UInt8)) : List (List UInt8) :=
  fields ++ [leBytes 4 (crcChecksum 0xffffffff#32 fields.flatten), List.replicate 16 0,
    List.replicate 2880 0xff]

variable {R} {privateKey : PrivateKey} {rng : Rng} {imageDigest : Sha256Digest}
  {block sigBytes : List UInt8}

theorem length_blockFields (publicKey : RsaPublicKey) (mPrime : BitVec 32)
    (h : sigBytes.length = RSA_KEY_BYTES) :
    (blockFields imageDigest publicKey mPrime sigBytes).flatten.length = 1196 := by
  simp only [blockFields, List.flatten_cons, List.flatten_nil, List.length_append,
    length_leBytes, length_toBytes, List.length_reverse, h, List.length_nil]
  rfl

/-- **The layout of a block**: the fields one after the other. -/
theorem buildSignatureBlock_layout
    (h : buildSignatureBlock R privateKey imageDigest rng = .ret (.ok block)) :
    ∃ mPrime sigBytes, montgomeryMPrime (R.toPublicKey privateKey).n = .ret mPrime ∧
      R.signPrehash privateKey rng imageDigest.toBytes = .ok sigBytes ∧
      sigBytes.length = RSA_KEY_BYTES ∧
      block = (withTrailer
        (blockFields imageDigest (R.toPublicKey privateKey) mPrime sigBytes)).flatten := by
  rw [buildSignatureBlock] at h
  obtain ⟨mPrime, hmPrime, h⟩ := Exec.bind_eq_ret_iff.mp h
  rcases hsig : R.signPrehash privateKey rng imageDigest.toBytes with e | sigBytes
  · rw [hsig] at h
    cases h
  · rw [hsig] at h
    dsimp only at h
    split at h
    · cases h
    rename_i hlen
    rw [not_not] at hlen
    refine ⟨mPrime, sigBytes, hmPrime, rfl, hlen, ?_⟩
    have hblock := (Except.ok.inj (Exec.ret.inj h)).symm
    rw [toLeBytesFixed_eq, toLeBytesFixed_eq, toLeBytesFixed_eq] at hblock
    rw [hblock]
    generalize hfields : blockFields imageDigest (R.toPublicKey privateKey) mPrime sigBytes = fields
    have hlength : fields.flatten.length = 1196 := by
      rw [← hfields, length_blockFields _ _ hlen]
    have hwritten := copyFields_eq fields [] 4096 (by omega)
    have hmagic : SIGNATURE_BLOCK_MAGIC.length = 4 := rfl
    rw [hlength, List.nil_append, List.nil_append, List.length_nil] at hwritten
    conv_lhs at hwritten =>
      rw [← hfields, blockFields]
      simp only [copyFields, length_toBytes, length_leBytes, hmagic, Nat.reduceAdd]
    rw [hwritten, slice_append_left hlength.ge, slice, List.drop_zero, List.take_of_length_le,
      copyAt_append_replicate hlength, length_leBytes]
    · have hfill : List.replicate (4096 - 1196 - 4) (0 : UInt8) =
          List.replicate 16 0 ++ List.replicate 2880 0 := by
        rw [List.replicate_append_replicate]
      have hbehind : (fields.flatten ++ leBytes 4 (crcChecksum 0xffffffff#32 fields.flatten) ++
          List.replicate 16 0).length = 1216 := by
        rw [List.length_append, List.length_append, hlength, length_leBytes, List.length_replicate]
      rw [hfill, ← List.append_assoc, copyAt_append_replicate hbehind, List.length_replicate]
      simp only [withTrailer, List.flatten_append, List.flatten_cons, List.flatten_nil,
        List.append_assoc, SECTOR_SIZE, Nat.reduceSub, List.replicate_zero, List.append_nil]
    · omega

/-! ### What the parts of a block are -/

variable {publicKey : RsaPublicKey} {mPrime : BitVec 32}

/-- The fields of a block have their lengths, when the signature has. -/
theorem length_withTrailer (h : sigBytes.length = RSA_KEY_BYTES) :
    (withTrailer (blockFields imageDigest publicKey mPrime sigBytes)).map List.length =
      [4, 32, 384, 4, 384, 4, 384, 4, 16, 2880] := by
  simp only [withTrailer, blockFields, List.cons_append, List.nil_append, List.map_cons,
    List.map_nil, length_toBytes, length_leBytes, List.length_reverse, List.length_replicate, h]
  rfl

/-- **A part of a block** is the fields in it. -/
theorem slice_block (h : sigBytes.length = RSA_KEY_BYTES) {i j start stop : ℕ} (hij : i ≤ j)
    (hstart : (([4, 32, 384, 4, 384, 4, 384, 4, 16, 2880] : List ℕ).take i).sum = start)
    (hstop : (([4, 32, 384, 4, 384, 4, 384, 4, 16, 2880] : List ℕ).take j).sum = stop) :
    slice (withTrailer (blockFields imageDigest publicKey mPrime sigBytes)).flatten start stop =
      (((withTrailer (blockFields imageDigest publicKey mPrime sigBytes)).take j).drop
        i).flatten := by
  have hlength : ∀ k, ((withTrailer (blockFields imageDigest publicKey mPrime sigBytes)).take
      k).flatten.length = (([4, 32, 384, 4, 384, 4, 384, 4, 16, 2880] : List ℕ).take k).sum := by
    intro k
    rw [List.length_flatten, List.map_take, length_withTrailer h]
  rw [← hstart, ← hstop, ← hlength, ← hlength, slice_flatten _ hij]

/-- What a verifier reads out of a block. -/
structure IsBlock (block : List UInt8) (imageDigest : Sha256Digest) (publicKey : RsaPublicKey)
    (mPrime : BitVec 32) (sigBytes : List UInt8) : Prop where
  length : block.length = SECTOR_SIZE
  magic : slice block 0 4 = SIGNATURE_BLOCK_MAGIC
  digest : slice block 4 36 = imageDigest.toBytes
  modulus : slice block 36 420 = leBytes 384 publicKey.n
  exponent : slice block 420 424 = leBytes 4 publicKey.e
  r : slice block 424 808 = leBytes 384 (montgomeryR publicKey.n)
  constant : slice block 808 812 = leBytes 4 mPrime.toNat
  signature : slice block 812 1196 = sigBytes.reverse
  crc : slice block 1196 1200 = leBytes 4 (crcChecksum 0xffffffff#32 (slice block 0 1196))
  key : slice block 36 812 = leBytes 384 publicKey.n ++ leBytes 4 publicKey.e ++
    leBytes 384 (montgomeryR publicKey.n) ++ leBytes 4 mPrime.toNat

/-- **A block reads as what was put into it.** -/
theorem isBlock_withTrailer (imageDigest : Sha256Digest) (publicKey : RsaPublicKey)
    (mPrime : BitVec 32) (h : sigBytes.length = RSA_KEY_BYTES) :
    IsBlock (withTrailer (blockFields imageDigest publicKey mPrime sigBytes)).flatten imageDigest
      publicKey mPrime sigBytes := by
  have hslice : ∀ i j start stop, i ≤ j → _ → _ → _ = _ :=
    @slice_block imageDigest sigBytes publicKey mPrime h
  refine ⟨?_, ?_, ?_, ?_, ?_, ?_, ?_, ?_, ?_, ?_⟩
  · rw [List.length_flatten, length_withTrailer h]
    rfl
  · exact (hslice 0 1 0 4 (by omega) rfl rfl).trans (List.append_nil _)
  · exact (hslice 1 2 4 36 (by omega) rfl rfl).trans (List.append_nil _)
  · exact (hslice 2 3 36 420 (by omega) rfl rfl).trans (List.append_nil _)
  · exact (hslice 3 4 420 424 (by omega) rfl rfl).trans (List.append_nil _)
  · exact (hslice 4 5 424 808 (by omega) rfl rfl).trans (List.append_nil _)
  · exact (hslice 5 6 808 812 (by omega) rfl rfl).trans (List.append_nil _)
  · exact (hslice 6 7 812 1196 (by omega) rfl rfl).trans (List.append_nil _)
  · rw [hslice 0 7 0 1196 (by omega) rfl rfl]
    exact (hslice 7 8 1196 1200 (by omega) rfl rfl).trans (List.append_nil _)
  · rw [hslice 2 6 36 812 (by omega) rfl rfl]
    simp only [List.append_assoc]
    rfl

/-- A checksum has four bytes. -/
theorem ofLeBytes_crc (init : BitVec 32) (bytes : List UInt8) :
    ofLeBytes (leBytes 4 (crcChecksum init bytes)) = crcChecksum init bytes :=
  ofLeBytes_leBytes (BitVec.isLt _)

/-! ### What is signed is verified -/

/-- What is relied on of the RSA crate: a key that was loaded is a valid key, and a signature by it
is verified. A signature by a key of 3072 bits is a number below the modulus, whose power is the PSS
encoding of the digest with a salt of 32 bytes. -/
structure RsaCrate.Sound (R : RsaCrate PrivateKey Rng) (sha256 : List UInt8 → Sha256Digest) :
    Prop where
  odd : ∀ key, (R.toPublicKey key).n % 2 = 1
  newPublicKey : ∀ key, R.newPublicKey (R.toPublicKey key).n (R.toPublicKey key).e =
    .ok (R.toPublicKey key)
  verifies : ∀ key rng digest sigBytes, R.signPrehash key rng digest = .ok sigBytes →
    R.verifyPrehash (R.toPublicKey key) digest sigBytes = .ok ()
  signs : ∀ key rng digest sigBytes, R.signPrehash key rng digest = .ok sigBytes →
    2 ^ 3071 ≤ (R.toPublicKey key).n → (R.toPublicKey key).n < 2 ^ 3072 →
    sigBytes.length = RSA_KEY_BYTES ∧ ofLeBytes sigBytes.reverse < (R.toPublicKey key).n ∧
      ∃ salt, salt.length = 32 ∧
        ofLeBytes sigBytes.reverse ^ (R.toPublicKey key).e % (R.toPublicKey key).n =
          ofLeBytes (Pss.encode (fun bytes => (sha256 bytes).toBytes) 32 3071 digest salt).reverse

variable {sha256} {firmware pemKey image : List UInt8}

theorem length_padFirmware (firmware : List UInt8) :
    (padFirmware firmware).length =
      (firmware.length + (SECTOR_SIZE - 1)) / SECTOR_SIZE * SECTOR_SIZE := by
  simp only [padFirmware, SECTOR_SIZE, List.length_append, List.length_replicate]
  omega

/-- What a signed image is made of. -/
theorem signFirmware_layout (h : signFirmware sha256 R firmware pemKey rng = .ret (.ok image)) :
    ∃ privateKey mPrime sigBytes, loadPrivateKey R pemKey = .ok privateKey ∧
      montgomeryMPrime (R.toPublicKey privateKey).n = .ret mPrime ∧
      R.signPrehash privateKey rng (sha256 (padFirmware firmware)).toBytes = .ok sigBytes ∧
      sigBytes.length = RSA_KEY_BYTES ∧
      image = padFirmware firmware ++ (withTrailer (blockFields (sha256 (padFirmware firmware))
        (R.toPublicKey privateKey) mPrime sigBytes)).flatten := by
  rw [signFirmware] at h
  rcases hload : loadPrivateKey R pemKey with e | privateKey
  · rw [hload] at h
    cases h
  · rw [hload] at h
    obtain ⟨r, hblock, h⟩ := Exec.bind_eq_ret_iff.mp h
    rcases r with e | sigBlock
    · cases h
    · obtain ⟨mPrime, sigBytes, hmPrime, hsig, hlen, rfl⟩ := buildSignatureBlock_layout hblock
      exact ⟨privateKey, mPrime, sigBytes, rfl, hmPrime, hsig, hlen,
        (Except.ok.inj (Exec.ret.inj h)).symm⟩

/-- **The key digest** is that of the key fields of a block. -/
theorem IsBlock.computeKeyDigest_eq (h : IsBlock block imageDigest publicKey mPrime sigBytes)
    (hmPrime : montgomeryMPrime publicKey.n = .ret mPrime) :
    computeKeyDigest sha256 publicKey = .ret (sha256 (slice block 36 812)) := by
  have hwritten := copyFields_eq [leBytes 384 publicKey.n, leBytes 4 publicKey.e,
    leBytes 384 (montgomeryR publicKey.n), leBytes 4 mPrime.toNat] [] 776
  simp only [copyFields, List.flatten_cons, List.flatten_nil, List.length_append, length_leBytes,
    List.length_nil, Nat.reduceAdd, le_refl, List.nil_append, forall_const, Nat.sub_self,
    List.replicate_zero, List.append_nil] at hwritten
  rw [computeKeyDigest, hmPrime, Exec.ret_bind, toLeBytesFixed_eq, toLeBytesFixed_eq,
    toLeBytesFixed_eq, h.key]
  dsimp only
  rw [hwritten]
  simp only [List.append_assoc]
  rfl

/-- **A block is verified** with the firmware that it has the digest of. -/
theorem IsBlock.verifyFirmware_eq (h : IsBlock block (sha256 firmware) publicKey mPrime sigBytes)
    (hpos : firmware ≠ []) (haligned : SECTOR_SIZE ∣ firmware.length)
    (hn : publicKey.n < 2 ^ 3072) (he : publicKey.e < 2 ^ 32)
    (hmPrime : (publicKey.n * mPrime.toNat + 1) % 2 ^ 32 = 0)
    (hnew : R.newPublicKey publicKey.n publicKey.e = .ok publicKey)
    (hverify : R.verifyPrehash publicKey (sha256 firmware).toBytes sigBytes = .ok ()) :
    verifyFirmware sha256 R (firmware ++ block) =
      .ok { publicKey := publicKey, keyDigest := sha256 (slice block 36 812),
            imageDigest := sha256 firmware } := by
  have hfirst : 0 < firmware.length := List.length_pos_iff.mpr hpos
  obtain ⟨sectors, hsectors⟩ := haligned
  have hlength : (firmware ++ block).length = SECTOR_SIZE * sectors + SECTOR_SIZE := by
    rw [List.length_append, h.length, hsectors]
  have hoffset : SECTOR_SIZE * sectors + SECTOR_SIZE - SECTOR_SIZE = firmware.length := by
    rw [hsectors, Nat.add_sub_cancel]
  have hsize : 2 ^ 3072 ≤ 256 ^ 384 := by rw [show (256 : ℕ) = 2 ^ 8 from rfl, ← pow_mul]
  have hpos' : 0 < publicKey.n := by
    rcases Nat.eq_zero_or_pos publicKey.n with hzero | hpos'
    · rw [hzero, Nat.zero_mul] at hmPrime
      omega
    · exact hpos'
  have hmodulus : ofLeBytes (leBytes 384 publicKey.n) = publicKey.n :=
    ofLeBytes_leBytes (hn.trans_le hsize)
  have hexponent : ofLeBytes (leBytes 4 publicKey.e) = publicKey.e := ofLeBytes_leBytes he
  have hr : ofLeBytes (leBytes 384 (montgomeryR publicKey.n)) = montgomeryR publicKey.n :=
    ofLeBytes_leBytes ((Nat.mod_lt _ hpos').trans (hn.trans_le hsize))
  have hconstant : ofLeBytes (leBytes 4 mPrime.toNat) = mPrime.toNat :=
    ofLeBytes_leBytes (BitVec.isLt _)
  unfold verifyFirmware
  dsimp only
  rw [hlength, hoffset, List.drop_left, List.take_left, h.magic, h.crc, h.digest, h.modulus,
    h.exponent, h.r, h.constant, h.signature, ofLeBytes_crc, hmodulus, hexponent, hr, hconstant,
    hnew, if_neg (by simp only [SECTOR_SIZE] at hsectors ⊢; omega),
    if_neg (by simp only [SECTOR_SIZE]; omega), if_neg (not_not.mpr rfl),
    if_neg (not_not.mpr rfl), if_neg (not_not.mpr rfl)]
  dsimp only
  rw [if_neg (not_not.mpr rfl), if_neg (not_not.mpr hmPrime), List.reverse_reverse, hverify]
  rfl

/-- **What is signed is verified**, by the key that signed it. -/
theorem verifyFirmware_of_sign (hR : R.Sound sha256) (hpos : firmware ≠ [])
    (hload : loadPrivateKey R pemKey = .ok privateKey)
    (hn₀ : 2 ^ 3071 ≤ (R.toPublicKey privateKey).n) (hn : (R.toPublicKey privateKey).n < 2 ^ 3072)
    (he : (R.toPublicKey privateKey).e < 2 ^ 32)
    (h : signFirmware sha256 R firmware pemKey rng = .ret (.ok image)) :
    ∃ verified, verifyFirmware sha256 R image = .ok verified ∧
      verified.signedBy sha256 (R.toPublicKey privateKey) = .ret true ∧
      verified.imageDigest = sha256 (padFirmware firmware) := by
  obtain ⟨key, mPrime, sigBytes, hkey, hmPrime, hsig, hlen, rfl⟩ := signFirmware_layout h
  obtain rfl : privateKey = key := Except.ok.inj (hload.symm.trans hkey)
  have hblock := isBlock_withTrailer (sha256 (padFirmware firmware)) (R.toPublicKey privateKey)
    mPrime hlen
  obtain ⟨mPrime', hmPrime', hspec⟩ := montgomeryMPrime_spec (hR.odd privateKey)
    ((Nat.pow_le_pow_right (by omega) (by omega)).trans hn₀)
  obtain rfl : mPrime = mPrime' := Exec.ret.inj (hmPrime.symm.trans hmPrime')
  have hpadded : padFirmware firmware ≠ [] := by
    rw [padFirmware]
    exact List.append_ne_nil_of_left_ne_nil hpos _
  have haligned : SECTOR_SIZE ∣ (padFirmware firmware).length := by
    rw [length_padFirmware]
    exact Nat.dvd_mul_left _ _
  refine ⟨_, hblock.verifyFirmware_eq hpadded haligned hn he hspec (hR.newPublicKey privateKey)
    (hR.verifies _ _ _ _ hsig), ?_, rfl⟩
  rw [Verified.signedBy, hblock.computeKeyDigest_eq hmPrime, Exec.ret_bind, beq_self_eq_true]
  rfl

end Frostsnap.Firmware
