import Frostsnap.Firmware.SecureBoot
import Frostsnap.Lib.Rsa
import Frostsnap.Lib.Sha256
import Mathlib.Tactic.NormNum.Prime

/-!
# Signed firmware on a device

A signed image that was written to an erased partition is accepted by `verify_secure_boot`. The
device finds the signature block from the end of the partition, has the RSA engine take the
signature to the power of the exponent, and takes the PSS encoding apart itself.

## Main results

* `findSignatureSector_of_written`: the signature sector behind which everything is erased.
* `verifyPssPadding_of_verify`: the device accepts a PSS encoding.
* `signed_firmware_verifies`: a signed image is accepted on both sides.
-/

namespace Frostsnap.Firmware

/-! ### Reading a partition -/

variable {p : FlashPartition} {f : Flash} {padded block : List UInt8}

theorem readSector_eq {i : ℕ} (h : i < p.nSectors) :
    (readerOf p f).readSector i =
      .ok (((p.contents f).drop (i * sectorSize)).take sectorSize) := by
  have hle : (i + 1) * sectorSize ≤ p.nSectors * sectorSize := Nat.mul_le_mul_right _ h
  have hfit : ¬ p.size < saturatingAddU32 (i * sectorSize) sectorSize := by
    refine not_lt.mpr ((Nat.min_le_left _ _).trans ?_)
    simp only [FlashPartition.size, sectorSize] at hle ⊢
    omega
  rw [readerOf]
  dsimp only
  rw [FlashPartition.readSector, FlashPartition.read, if_neg hfit]

/-- **The signature sector** is the last sector of the image, when nothing is behind it. -/
theorem findSignatureSector_of_written {sectors : ℕ}
    (hpadded : padded.length = sectors * sectorSize)
    (hblock : block.length = sectorSize) (hmagic : slice block 0 4 = SIGNATURE_BLOCK_MAGIC)
    (hfit : sectors < p.nSectors) (hcontents : p.contents f = fill p.size (padded ++ block)) :
    (readerOf p f).findSignatureSector = some sectors ∧
      (readerOf p f).readSector sectors = .ok block := by
  have hread : (readerOf p f).readSector sectors = .ok block := by
    rw [readSector_eq hfit, hcontents, fill, List.append_assoc, ← hpadded, List.drop_left, ← hblock,
      List.take_left]
  refine ⟨find?_reverse_range_eq_some_iff.2 ⟨hfit, ?_, fun i hi hin => ?_⟩, hread⟩
  · rw [hread]
    have hmagic' : block.take 4 = SIGNATURE_BLOCK_MAGIC := by
      rw [slice, List.drop_zero] at hmagic
      exact hmagic
    simp only [hblock, hmagic', decide_eq_true_eq]
    exact ⟨by simp only [sectorSize]; omega, trivial⟩
  · -- behind the block the partition is erased
    have hwritten : (padded ++ block).length ≤ i * sectorSize := by
      have hle : (sectors + 1) * sectorSize ≤ i * sectorSize := Nat.mul_le_mul_right _ hi
      rw [List.length_append, hpadded, hblock, ← Nat.succ_mul]
      exact hle
    rw [readSector_eq hin, hcontents, fill, List.drop_append, List.drop_of_length_le hwritten,
      List.nil_append, List.drop_replicate, List.take_replicate]
    refine decide_eq_false ?_
    rintro ⟨-, herased⟩
    have hmem : (0xE7 : UInt8) ∈ SIGNATURE_BLOCK_MAGIC := List.mem_cons_self
    rw [← herased, List.take_replicate] at hmem
    exact absurd (List.eq_of_mem_replicate hmem) (by decide)

/-- **The sectors in front** of a sector are the bytes in front of it. -/
theorem readImage_eq {sectors : ℕ} (h : sectors ≤ p.nSectors) :
    readImage (readerOf p f) sectors = .ok ((p.contents f).take (sectors * sectorSize)) := by
  induction sectors with
  | zero => rw [Nat.zero_mul, List.take_zero]; rfl
  | succ sectors ih =>
      have hprev := ih (by omega)
      rw [readImage] at hprev ⊢
      rw [List.range_succ, List.foldlM_append, hprev, Nat.succ_mul, List.take_add]
      simp only [bind, Except.bind, List.foldlM_cons, List.foldlM_nil,
        readSector_eq (Nat.lt_of_succ_le h)]
      rfl

/-! ### The PSS encoding -/

variable {chip : Peripherals} {sha256 : List UInt8 → Sha256Digest}

theorem clearTopBit_eq (bytes : List UInt8) :
    clearTopBit bytes = Pss.maskFirst (Pss.topMask 3071) bytes := by
  have hmask : Pss.topMask 3071 = 0x7f := by decide
  rw [hmask]
  cases bytes <;> rfl

/-- **The device accepts** what EMSA-PSS-VERIFY does, with a salt of the length that it expects. -/
theorem verifyPssPadding_of_verify {decrypted messageHash : List UInt8}
    (h : Pss.verify (fun bytes => (chip.sha256 bytes).toBytes) 32 3071 SALT_LEN messageHash
      decrypted = true) : verifyPssPadding chip decrypted messageHash = true := by
  obtain ⟨hlength, htrailer, -, hzeros, hone, hsalted⟩ := of_decide_eq_true h
  have hdb : clearTopBit (List.zipWith (· ^^^ ·) (decrypted.take 351)
      (mgf1 chip ((decrypted.drop 351).take 32) 351)) =
      Pss.maskFirst (Pss.topMask 3071) (Pss.xorBytes (decrypted.take 351)
        (Pss.mgf1 (fun bytes => (chip.sha256 bytes).toBytes) 32
          ((decrypted.drop 351).take 32) 351)) := clearTopBit_eq _
  simp only [SALT_LEN, Nat.reduceSub, Nat.reduceAdd, Nat.reduceDiv]
    at hlength htrailer hzeros hone hsalted
  rw [← hdb] at hzeros hone hsalted
  have hany : ¬ (List.take 318 (clearTopBit (List.zipWith (· ^^^ ·) (decrypted.take 351)
      (mgf1 chip ((decrypted.drop 351).take 32) 351)))).any (· != 0) = true := by
    rw [hzeros, List.any_replicate]
    exact Bool.false_ne_true
  rw [verifyPssPadding, if_neg (not_not.mpr hlength)]
  calc _ = _ := if_neg (not_not.mpr htrailer)
    _ = _ := if_neg hany
    _ = _ := if_neg (not_not.mpr hone)
    _ = true := beq_iff_eq.mpr hsalted

/-! ### The RSA engine -/

/-- What is relied on of the chip: its SHA-256 engine computes SHA-256, and its RSA engine computes
`signature ^ exponent` modulo an odd modulus, from the constants that belong to the modulus. -/
structure Peripherals.Runs (chip : Peripherals) (sha256 : List UInt8 → Sha256Digest) : Prop where
  sha256 : chip.sha256 = sha256
  modularExponentiation : ∀ exponent modulus mPrime signature r,
    (∀ words ∈ [exponent, modulus, signature, r], words.length = 96 ∧ ∀ w ∈ words, w < 2 ^ 32) →
    ofWords modulus % 2 = 1 → ofWords signature < ofWords modulus →
    ofWords r = 2 ^ 3072 * 2 ^ 3072 % ofWords modulus →
    (ofWords modulus * mPrime + 1) % 2 ^ 32 = 0 →
    let result := chip.modularExponentiation exponent modulus mPrime signature r
    result.length = 96 ∧ (∀ w ∈ result, w < 2 ^ 32) ∧
      ofWords result = ofWords signature ^ ofWords exponent % ofWords modulus

theorem ofBytes_toBytes (digest : Sha256Digest) : Sha256Digest.ofBytes digest.toBytes = digest := by
  rw [Sha256Digest.ofBytes, Sha256Digest.toBytes, List.reverse_reverse,
    ofLeBytes_leBytes digest.isLt, BitVec.ofNat_toNat, BitVec.setWidth_eq]

/-- The exponent of a block is one word. -/
theorem bytesToU32LeNative_leBytes {e : ℕ} (he : e < 2 ^ 32) :
    bytesToU32LeNative (leBytes 4 e) = [e] := by
  have hchunks := toChunks_append (by omega) (length_leBytes 4 e) []
  rw [List.append_nil] at hchunks
  rw [bytesToU32LeNative, hchunks, List.map_cons, ofLeBytes_leBytes he]
  rfl

/-- A number of a key is 96 words. -/
theorem words_leBytes {n : ℕ} (hn : n < 2 ^ 3072) :
    ofWords (bytesToU32LeNative (leBytes 384 n)) = n ∧
      (bytesToU32LeNative (leBytes 384 n)).length = 96 ∧
      ∀ w ∈ bytesToU32LeNative (leBytes 384 n), w < 2 ^ 32 := by
  have hbytes : (2 : ℕ) ^ 3072 ≤ 256 ^ 384 := by rw [show (256 : ℕ) = 2 ^ 8 from rfl, ← pow_mul]
  have hchunks := @ofWords_toChunks (leBytes 384 n) 96 (length_leBytes _ _)
  rw [ofLeBytes_leBytes (hn.trans_le hbytes)] at hchunks
  exact ⟨hchunks.1, (List.length_map _).trans hchunks.2.1, hchunks.2.2⟩

variable {PrivateKey Rng : Type} {R : RsaCrate PrivateKey Rng} {privateKey : PrivateKey} {rng : Rng}
  {publicKey : RsaPublicKey} {mPrime : BitVec 32} {imageDigest : Sha256Digest}
  {sigBytes salt : List UInt8}

/-- **The RSA engine recovers the encoding** that was signed. -/
theorem IsBlock.verifyRsaPssSignature_eq (hchip : chip.Runs sha256)
    (h : IsBlock block imageDigest publicKey mPrime sigBytes) (hsigLen : sigBytes.length = 384)
    (hodd : publicKey.n % 2 = 1) (hn : publicKey.n < 2 ^ 3072) (he : publicKey.e < 2 ^ 32)
    (hmPrime : (publicKey.n * mPrime.toNat + 1) % 2 ^ 32 = 0)
    (hsig : ofLeBytes sigBytes.reverse < publicKey.n) (hsalt : salt.length = SALT_LEN)
    (hpower : ofLeBytes sigBytes.reverse ^ publicKey.e % publicKey.n = ofLeBytes (Pss.encode
      (fun bytes => (sha256 bytes).toBytes) 32 3071 imageDigest.toBytes salt).reverse) :
    verifyRsaPssSignature chip (SignatureBlock.fromBytes block) imageDigest = .ok true := by
  have hpos : 0 < publicKey.n := by
    rcases Nat.eq_zero_or_pos publicKey.n with hzero | hpos
    · rw [hzero] at hodd
      cases hodd
    · exact hpos
  -- the signature of the block, as the bytes of a number
  have hsigBytes : sigBytes.reverse = leBytes 384 (ofLeBytes sigBytes.reverse) := by
    have hback := leBytes_ofLeBytes sigBytes.reverse
    rw [List.length_reverse, hsigLen] at hback
    exact hback.symm
  have hconstant : ofLeBytes (leBytes 4 mPrime.toNat) = mPrime.toNat :=
    ofLeBytes_leBytes mPrime.isLt
  rw [verifyRsaPssSignature, SignatureBlock.fromBytes]
  dsimp only
  rw [h.modulus, h.r, h.signature, h.constant, h.exponent, hconstant, bytesToU32LeNative_leBytes he,
    hsigBytes]
  obtain ⟨hmodulus, hmodulusLen, hmodulusLt⟩ := words_leBytes hn
  obtain ⟨hr, hrLen, hrLt⟩ :=
    words_leBytes (show montgomeryR publicKey.n < 2 ^ 3072 from (Nat.mod_lt _ hpos).trans hn)
  obtain ⟨hsignature, hsignatureLen, hsignatureLt⟩ := words_leBytes (hsig.trans hn)
  generalize bytesToU32LeNative (leBytes 384 publicKey.n) = modulus at *
  generalize bytesToU32LeNative (leBytes 384 (montgomeryR publicKey.n)) = rValue at *
  generalize bytesToU32LeNative (leBytes 384 (ofLeBytes sigBytes.reverse)) = signature at *
  have hexponent : ofWords ([publicKey.e].take 1 ++ List.replicate 95 0) = publicKey.e := by
    rw [List.take_succ_cons, List.cons_append, ofWords, List.take_zero, List.nil_append,
      ofWords_replicate, Nat.mul_zero, Nat.add_zero]
  have hexponentLt : ∀ w ∈ [publicKey.e].take 1 ++ List.replicate 95 0, w < 2 ^ 32 := by
    intro w hw
    rcases List.mem_append.mp hw with hw | hw
    · obtain rfl := List.mem_singleton.mp (List.mem_of_mem_take hw)
      exact he
    · rw [List.eq_of_mem_replicate hw]
      exact Nat.two_pow_pos 32
  obtain ⟨hlength, hlt, hresult⟩ := hchip.modularExponentiation
    ([publicKey.e].take 1 ++ List.replicate 95 0) modulus mPrime.toNat signature rValue
    (by
      intro words hmem
      simp only [List.mem_cons, List.not_mem_nil, or_false] at hmem
      rcases hmem with rfl | rfl | rfl | rfl
      · exact ⟨rfl, hexponentLt⟩
      · exact ⟨hmodulusLen, hmodulusLt⟩
      · exact ⟨hsignatureLen, hsignatureLt⟩
      · exact ⟨hrLen, hrLt⟩)
    (by rw [hmodulus]; exact hodd) (by rw [hmodulus, hsignature]; exact hsig)
    (by rw [hr, hmodulus]; simp only [montgomeryR, RSA_KEY_BYTES, Nat.reduceMul])
    (by rw [hmodulus]; exact hmPrime)
  rw [hexponent, hmodulus, hsignature, hpower] at hresult
  have hlen : ∀ bytes, ((fun bytes => (sha256 bytes).toBytes) bytes).length = 32 :=
    fun bytes => length_toBytes _
  have hencode := @Pss.length_encode _ 32 hlen (by omega) 3071 imageDigest.toBytes salt
    (by rw [hsalt]; decide)
  have hpadding : verifyPssPadding chip (Pss.encode (fun bytes => (sha256 bytes).toBytes) 32 3071
      imageDigest.toBytes salt) imageDigest.toBytes = true := by
    apply verifyPssPadding_of_verify
    rw [hchip.sha256, ← hsalt]
    exact Pss.verify_encode hlen (by omega) _ (by rw [hsalt]; decide)
  generalize Pss.encode (fun bytes => (sha256 bytes).toBytes) 32 3071 imageDigest.toBytes salt =
    encoded at hresult hencode hpadding
  have hdecrypted : encoded.reverse = leBytes 384 (ofLeBytes encoded.reverse) := by
    have hback := leBytes_ofLeBytes encoded.reverse
    rw [List.length_reverse, hencode] at hback
    exact hback.symm
  rw [if_neg (by rw [hmodulusLen, hrLen, hsignatureLen]; simp), flatMap_leBytes hlt, hlength,
    hresult, ← hdecrypted, List.reverse_reverse, hpadding]

/-! ### A signed image on a device -/

/-- **The device accepts** a padded firmware and its block, with nothing behind them. -/
theorem IsBlock.verifySecureBoot_eq {sectors : ℕ} (hchip : chip.Runs sha256)
    (h : IsBlock block (sha256 padded) publicKey mPrime sigBytes) (hsigLen : sigBytes.length = 384)
    (hpadded : padded.length = sectors * sectorSize) (hfit : sectors < p.nSectors)
    (hcontents : p.contents f = fill p.size (padded ++ block))
    (hkey : findSecureBootKey chip = some (sha256 (slice block 36 812)))
    (hodd : publicKey.n % 2 = 1) (hn : publicKey.n < 2 ^ 3072) (he : publicKey.e < 2 ^ 32)
    (hmPrime : (publicKey.n * mPrime.toNat + 1) % 2 ^ 32 = 0)
    (hsig : ofLeBytes sigBytes.reverse < publicKey.n) (hsalt : salt.length = SALT_LEN)
    (hpower : ofLeBytes sigBytes.reverse ^ publicKey.e % publicKey.n = ofLeBytes (Pss.encode
      (fun bytes => (sha256 bytes).toBytes) 32 3071 (sha256 padded).toBytes salt).reverse) :
    verifySecureBoot chip (readerOf p f) = .ok () := by
  obtain ⟨hsector, hread⟩ := findSignatureSector_of_written hpadded h.length h.magic hfit hcontents
  have himage : readImage (readerOf p f) sectors = .ok padded := by
    rw [readImage_eq hfit.le, hcontents, fill, List.append_assoc, List.take_left' hpadded]
  have hsignature := h.verifyRsaPssSignature_eq hchip hsigLen hodd hn he hmPrime hsig hsalt hpower
  have hdigest : (SignatureBlock.fromBytes block).imageDigest = sha256 padded := by
    rw [SignatureBlock.fromBytes, h.digest, ofBytes_toBytes]
  have hcrc : ofLeBytes (SignatureBlock.fromBytes block).crc32 =
      crcChecksum 0xffffffff#32 (slice block 0 1196) := by
    rw [SignatureBlock.fromBytes]
    dsimp only
    rw [h.crc, ofLeBytes_crc]
  have hsome : readSignatureSector (readerOf p f) = some (sectors, block) := by
    rw [readSignatureSector, hsector]
    simp only [Option.bind_eq_bind, Option.bind_some, hread]
    rfl
  unfold verifySecureBoot
  rw [hsome]
  dsimp only
  rw [hcrc, if_neg (not_not.mpr rfl), hkey]
  dsimp only
  rw [hchip.sha256, if_neg (not_not.mpr rfl), himage, hdigest, hsignature]
  exact if_neg (not_not.mpr rfl)

/-! ### RSA with PSS -/

/-- A key of 3072 bits, with an exponent that a public key may have. -/
structure RsaPrivateKey where
  key : Rsa.Key
  two_lt : 2 < key.p ∧ 2 < key.q
  le_n : 2 ^ 3071 ≤ key.n
  n_lt : key.n < 2 ^ 3072
  odd_e : key.e % 2 = 1
  two_le_e : 2 ≤ key.e
  e_lt : key.e < 2 ^ 32

/-- The RSA crate over keys that are known by their PEM files, with the salt for its randomness. -/
def rsaPss (sha256 : List UInt8 → Sha256Digest) (known : List RsaPrivateKey) :
    RsaCrate RsaPrivateKey (List UInt8) where
  fromPkcs8Pem _ := .error "unexpected PEM type label"
  fromPkcs1Pem pem :=
    match known.find? fun privateKey => privateKey.key.pkcs1Pem == pem with
    | some privateKey => .ok privateKey
    | none => .error "malformed key"
  toPublicKey privateKey := ⟨privateKey.key.n, privateKey.key.e⟩
  newPublicKey n e :=
    if 2 ^ 4096 ≤ n then .error "modulus too large"
    else if n ≤ e ∨ n % 2 = 0 then .error "invalid modulus"
    else if e % 2 = 0 then .error "invalid exponent"
    else if e < 2 then .error "public exponent too small"
    else if 2 ^ 33 - 1 < e then .error "public exponent too large"
    else .ok ⟨n, e⟩
  signPrehash privateKey rng digest :=
    if digest.length ≠ 32 then .error "input must be hashed"
    else
      let salt := (rng ++ List.replicate 32 0).take 32
      let em := Pss.encode (fun bytes => (sha256 bytes).toBytes) 32 3071 digest salt
      .ok (leBytes 384 (ofLeBytes em.reverse ^ privateKey.key.d % privateKey.key.n)).reverse
  verifyPrehash publicKey digest sigBytes :=
    let signature := ofLeBytes sigBytes.reverse
    let em := (leBytes 384 (signature ^ publicKey.e % publicKey.n)).reverse
    if sigBytes.length = 384 ∧ signature < publicKey.n ∧
        Pss.verify (fun bytes => (sha256 bytes).toBytes) 32 3071 32 digest em = true then .ok ()
    else .error "verification error"

variable {known : List RsaPrivateKey}

/-- What a signature is: the number whose power is the encoding. -/
theorem rsaPss_sign {privateKey : RsaPrivateKey} {rng digest sigBytes : List UInt8}
    (h : (rsaPss sha256 known).signPrehash privateKey rng digest = .ok sigBytes) :
    sigBytes.length = 384 ∧ ofLeBytes sigBytes.reverse < privateKey.key.n ∧
      ∃ salt em, salt.length = 32 ∧
        em = Pss.encode (fun bytes => (sha256 bytes).toBytes) 32 3071 digest salt ∧
        em.length = 384 ∧
        ofLeBytes sigBytes.reverse ^ privateKey.key.e % privateKey.key.n =
          ofLeBytes em.reverse := by
  dsimp only [rsaPss] at h
  split at h
  · cases h
  have hsalt : ((rng ++ List.replicate 32 0).take 32).length = 32 := by
    rw [List.length_take, List.length_append, List.length_replicate]
    omega
  generalize (rng ++ List.replicate 32 0).take 32 = salt at h hsalt
  obtain rfl := Except.ok.inj h
  have hhash : ∀ bytes, ((fun bytes => (sha256 bytes).toBytes) bytes).length = 32 :=
    fun bytes => length_toBytes _
  have hroom : salt.length + 32 + 2 ≤ (3071 + 7) / 8 := by
    rw [hsalt]
    decide
  have hemLen := @Pss.length_encode _ 32 hhash (by omega) 3071 digest salt hroom
  have hbits := @Pss.ofLeBytes_encode_lt _ 32 hhash (by omega) 3071 digest salt hroom
  generalize hencode : Pss.encode (fun bytes => (sha256 bytes).toBytes) 32 3071 digest salt = em
    at hemLen hbits
  have hmask : (Pss.topMask 3071).toNat + 1 = 2 ^ 7 := by decide
  have hbytes : (2 : ℕ) ^ 3072 ≤ 256 ^ 384 := by rw [show (256 : ℕ) = 2 ^ 8 from rfl, ← pow_mul]
  have hem : ofLeBytes em.reverse < privateKey.key.n := by
    have hpow : (2 : ℕ) ^ 7 * 256 ^ ((3071 + 7) / 8 - 1) ≤ 2 ^ 3071 := by
      rw [show (256 : ℕ) = 2 ^ 8 from rfl, ← pow_mul, ← pow_add]
    rw [hmask] at hbits
    exact (hbits.trans_le hpow).trans_le privateKey.le_n
  have hpos := Nat.zero_lt_of_lt hem
  have hsignature : ofLeBytes (leBytes 384
      (ofLeBytes em.reverse ^ privateKey.key.d % privateKey.key.n)) =
      ofLeBytes em.reverse ^ privateKey.key.d % privateKey.key.n :=
    ofLeBytes_leBytes ((Nat.mod_lt _ hpos).trans (privateKey.n_lt.trans_le hbytes))
  rw [List.reverse_reverse, List.length_reverse, length_leBytes, hsignature]
  exact ⟨rfl, Nat.mod_lt _ hpos, salt, em, hsalt, hencode.symm, hemLen,
    privateKey.key.recover hem⟩

/-- **The crate is sound**, by RSA and by the encoding. -/
theorem rsaPss_sound (known : List RsaPrivateKey) : (rsaPss sha256 known).Sound sha256 where
  odd privateKey := privateKey.key.odd_n privateKey.two_lt.1 privateKey.two_lt.2
  newPublicKey privateKey := by
    have hpow : (2 : ℕ) ^ 3072 ≤ 2 ^ 4096 :=
      pow_le_pow_right₀ one_le_two (by omega : 3072 ≤ 4096)
    have hlarge : ¬ 2 ^ 4096 ≤ privateKey.key.n := not_le.mpr (privateKey.n_lt.trans_le hpow)
    have hpow' : (2 : ℕ) ^ 32 ≤ 2 ^ 3071 := pow_le_pow_right₀ one_le_two (by omega : 32 ≤ 3071)
    have hsmall : privateKey.key.e < privateKey.key.n :=
      (privateKey.e_lt.trans_le hpow').trans_le privateKey.le_n
    have hodd := privateKey.key.odd_n privateKey.two_lt.1 privateKey.two_lt.2
    have hodd' := privateKey.odd_e
    have htwo := privateKey.two_le_e
    have he := privateKey.e_lt
    dsimp only [rsaPss]
    rw [if_neg hlarge, if_neg (by rw [hodd]; simp [hsmall]), if_neg (by rw [hodd']; simp),
      if_neg (not_lt.mpr htwo), if_neg (not_lt.mpr (by omega))]
  verifies privateKey rng digest sigBytes h := by
    obtain ⟨hlen, hlt, salt, em, hsalt, hem, hemLen, hpower⟩ := rsaPss_sign h
    have hback : leBytes 384 (ofLeBytes em.reverse) = em.reverse := by
      rw [← hemLen, ← List.length_reverse, leBytes_ofLeBytes]
    have hverify : Pss.verify (fun bytes => (sha256 bytes).toBytes) 32 3071 32 digest em =
        true := by
      have hencode := @Pss.verify_encode _ 32 (fun bytes => length_toBytes (sha256 bytes))
        (by omega) 3071 digest salt (by rw [hsalt]; decide)
      rwa [hsalt, ← hem] at hencode
    dsimp only [rsaPss]
    rw [hpower, hback, List.reverse_reverse, if_pos ⟨hlen, hlt, hverify⟩]
  signs privateKey rng digest sigBytes h _ _ := by
    obtain ⟨hlen, hlt, salt, em, hsalt, hem, -, hpower⟩ := rsaPss_sign h
    exact ⟨hlen, hlt, salt, hsalt, hem ▸ hpower⟩

theorem loadPrivateKey_rsaPss (privateKey : RsaPrivateKey) :
    loadPrivateKey (rsaPss sha256 [privateKey]) privateKey.key.pkcs1Pem.toByteArray.data.toList =
      .ok privateKey := by
  have hutf8 : String.fromUTF8? ⟨privateKey.key.pkcs1Pem.toByteArray.data.toList.toArray⟩ =
      some privateKey.key.pkcs1Pem := by
    rw [Array.toArray_toList]
    exact dif_pos privateKey.key.pkcs1Pem.isValidUTF8
  have hfind : [privateKey].find? (fun known => known.key.pkcs1Pem == privateKey.key.pkcs1Pem) =
      some privateKey := List.find?_cons_of_pos (beq_self_eq_true _)
  rw [loadPrivateKey, hutf8]
  dsimp only [rsaPss]
  rw [hfind]

/-- **Signing returns** an image. -/
theorem signFirmware_rsaPss (privateKey : RsaPrivateKey) (firmware rng : List UInt8) :
    ∃ image, signFirmware sha256 (rsaPss sha256 [privateKey]) firmware
      privateKey.key.pkcs1Pem.toByteArray.data.toList rng = .ret (.ok image) := by
  obtain ⟨mPrime, hmPrime, -⟩ :=
    montgomeryMPrime_spec (privateKey.key.odd_n privateKey.two_lt.1 privateKey.two_lt.2)
      ((Nat.pow_le_pow_right (by omega) (by omega)).trans privateKey.le_n)
  have hdigest : ¬ (sha256 (padFirmware firmware)).toBytes.length ≠ 32 :=
    not_not.mpr (length_toBytes _)
  have hsign : ∃ sigBytes, (rsaPss sha256 [privateKey]).signPrehash privateKey rng
      (sha256 (padFirmware firmware)).toBytes = .ok sigBytes := by
    dsimp only [rsaPss]
    rw [if_neg hdigest]
    exact ⟨_, rfl⟩
  obtain ⟨sigBytes, hsign⟩ := hsign
  have hlen := (rsaPss_sign hsign).1
  have hblock : ∃ block, buildSignatureBlock (rsaPss sha256 [privateKey]) privateKey
      (sha256 (padFirmware firmware)) rng = .ret (.ok block) := by
    rw [buildSignatureBlock, hsign]
    dsimp only [rsaPss]
    rw [hmPrime, Exec.ret_bind, if_neg (not_not.mpr hlen)]
    exact ⟨_, rfl⟩
  obtain ⟨block, hblock⟩ := hblock
  rw [signFirmware, loadPrivateKey_rsaPss]
  dsimp only
  rw [hblock]
  exact ⟨_, rfl⟩

theorem computeKeyDigest_rsaPss (privateKey : RsaPrivateKey) :
    ∃ keyDigest, computeKeyDigest sha256
      ((rsaPss sha256 [privateKey]).toPublicKey privateKey) = .ret keyDigest := by
  obtain ⟨mPrime, hmPrime, -⟩ :=
    montgomeryMPrime_spec (privateKey.key.odd_n privateKey.two_lt.1 privateKey.two_lt.2)
      ((Nat.pow_le_pow_right (by omega) (by omega)).trans privateKey.le_n)
  rw [computeKeyDigest]
  dsimp only [rsaPss]
  rw [hmPrime]
  exact ⟨_, rfl⟩

/-- A chip with the digest of a key in its first key block. -/
def esp32c3 (sha256 : List UInt8 → Sha256Digest) (keyDigest : Sha256Digest) : Peripherals where
  sha256 := sha256
  modularExponentiation exponent modulus _ signature _ :=
    bytesToU32LeNative
      (leBytes 384 (ofWords signature ^ ofWords exponent % ofWords modulus))
  keyPurpose i := if i = 0 then 9 else 0
  secureBootKeyRevoke _ := false
  blockKey _ := keyDigest

theorem findSecureBootKey_esp32c3 (keyDigest : Sha256Digest) :
    findSecureBootKey (esp32c3 sha256 keyDigest) = some keyDigest := by
  rfl

theorem esp32c3_runs (keyDigest : Sha256Digest) : (esp32c3 sha256 keyDigest).Runs sha256 where
  sha256 := rfl
  modularExponentiation exponent modulus mPrime signature r hwords hodd hlt _ _ := by
    obtain ⟨hlen, hmodulus⟩ := hwords modulus (by simp)
    have hpos : 0 < ofWords modulus := Nat.pos_of_ne_zero fun hzero => by
      rw [hzero] at hodd
      cases hodd
    have hn := ofWords_lt hmodulus
    rw [hlen, show 32 * 96 = 3072 from rfl] at hn
    obtain ⟨hresult, hresultLen, hresultLt⟩ :=
      words_leBytes ((Nat.mod_lt (ofWords signature ^ ofWords exponent) hpos).trans hn)
    dsimp only [esp32c3]
    exact ⟨hresultLen, hresultLt, hresult⟩

/-- **Signed firmware verifies** everywhere: an image that was signed with a key of 3072 bits is
verified, by that key and with the digest of the padded firmware, and a device with the digest of
the key in its eFuses accepts it in any erased partition that it was written to. -/
theorem signed_firmware_verifies {firmware pemKey image : List UInt8} (hR : R.Sound sha256)
    (hchip : chip.Runs sha256) (hpos : firmware ≠ [])
    (hload : loadPrivateKey R pemKey = .ok privateKey)
    (hn₀ : 2 ^ 3071 ≤ (R.toPublicKey privateKey).n) (hn : (R.toPublicKey privateKey).n < 2 ^ 3072)
    (he : (R.toPublicKey privateKey).e < 2 ^ 32)
    (h : signFirmware sha256 R firmware pemKey rng = .ret (.ok image)) :
    (∃ verified, verifyFirmware sha256 R image = .ok verified ∧
      verified.signedBy sha256 (R.toPublicKey privateKey) = .ret true ∧
      verified.imageDigest = sha256 (padFirmware firmware)) ∧
    ∃ keyDigest, computeKeyDigest sha256 (R.toPublicKey privateKey) = .ret keyDigest ∧
      (findSecureBootKey chip = some keyDigest → ∀ (p : FlashPartition) (g : Flash),
        image.length ≤ p.size → verifySecureBoot chip
          (readerOf p ((g.erase p.start (p.start + p.size)).program p.start image)) = .ok ()) := by
  refine ⟨verifyFirmware_of_sign hR hpos hload hn₀ hn he h, ?_⟩
  obtain ⟨key, mPrime, sigBytes, hkey, hmPrime, hsign, hlen, rfl⟩ := signFirmware_layout h
  obtain rfl : privateKey = key := Except.ok.inj (hload.symm.trans hkey)
  have hblock := isBlock_withTrailer (sha256 (padFirmware firmware)) (R.toPublicKey privateKey)
    mPrime hlen
  obtain ⟨mPrime', hmPrime', hspec⟩ := montgomeryMPrime_spec (hR.odd privateKey)
    ((Nat.pow_le_pow_right (by omega) (by omega)).trans hn₀)
  obtain rfl : mPrime = mPrime' := Exec.ret.inj (hmPrime.symm.trans hmPrime')
  obtain ⟨-, hsig, salt, hsalt, hpower⟩ := hR.signs _ _ _ _ hsign hn₀ hn
  refine ⟨_, hblock.computeKeyDigest_eq hmPrime, fun hefuse p g hsize => ?_⟩
  have hpadded := length_padFirmware firmware
  refine hblock.verifySecureBoot_eq hchip hlen hpadded ?_
    (FlashPartition.contents_erase_program hsize) hefuse (hR.odd privateKey) hn he hspec hsig hsalt
    hpower
  rw [List.length_append, hblock.length, hpadded] at hsize
  simp only [FlashPartition.size, SECTOR_SIZE, sectorSize] at hsize ⊢
  omega

theorem prime_193 : (193 * 2 ^ (1527 + 1) + 1).Prime :=
  Rsa.prime_of_iterate_square 3 (by norm_num) rfl (by decide +kernel)
    (by decide +kernel) (by decide +kernel)

theorem prime_4051 : (4051 * 2 ^ (1523 + 1) + 1).Prime :=
  Rsa.prime_of_iterate_square 3 (by norm_num) rfl (by decide +kernel)
    (by decide +kernel) (by decide +kernel)

/-- A key of 3072 bits. -/
def exampleKey : RsaPrivateKey where
  key :=
    { p := 193 * 2 ^ (1527 + 1) + 1
      q := 4051 * 2 ^ (1523 + 1) + 1
      e := 65537
      prime_p := prime_193
      prime_q := prime_4051
      ne := by decide +kernel
      coprime := by decide +kernel }
  two_lt := by decide +kernel
  le_n := by decide +kernel
  n_lt := by decide +kernel
  odd_e := rfl
  two_le_e := by decide
  e_lt := by decide

/-- Firmware of one byte, signed with that key: SHA-256, RSA and a chip that has the digest. -/
theorem signed_firmware_verifies_of_exampleKey :
    let sha256 := fun bytes => Sha256Digest.ofBytes (Sha256.sha256 bytes)
    let crate := rsaPss sha256 [exampleKey]
    let pemKey := exampleKey.key.pkcs1Pem.toByteArray.data.toList
    ∃ keyDigest image,
      computeKeyDigest sha256 (crate.toPublicKey exampleKey) = .ret keyDigest ∧
      signFirmware sha256 crate [0xE9] pemKey [] = .ret (.ok image) ∧
      (∃ verified, verifyFirmware sha256 crate image = .ok verified ∧
        verified.signedBy sha256 (crate.toPublicKey exampleKey) = .ret true ∧
        verified.imageDigest = sha256 (padFirmware [0xE9])) ∧
      ∀ (p : FlashPartition) (g : Flash), image.length ≤ p.size →
        verifySecureBoot (esp32c3 sha256 keyDigest)
          (readerOf p ((g.erase p.start (p.start + p.size)).program p.start image)) = .ok () := by
  intro sha256 crate pemKey
  obtain ⟨keyDigest, hkeyDigest⟩ := @computeKeyDigest_rsaPss sha256 exampleKey
  obtain ⟨image, himage⟩ := @signFirmware_rsaPss sha256 exampleKey [0xE9] []
  obtain ⟨hverified, keyDigest', hkeyDigest', haccepted⟩ :=
    signed_firmware_verifies (rsaPss_sound [exampleKey]) (esp32c3_runs keyDigest)
      (List.cons_ne_nil _ _) (loadPrivateKey_rsaPss exampleKey) exampleKey.le_n exampleKey.n_lt
      exampleKey.e_lt himage
  obtain rfl : keyDigest = keyDigest' := Exec.ret.inj (hkeyDigest.symm.trans hkeyDigest')
  exact ⟨keyDigest, image, hkeyDigest, himage, hverified,
    haccepted (findSecureBootKey_esp32c3 keyDigest)⟩

end Frostsnap.Firmware
