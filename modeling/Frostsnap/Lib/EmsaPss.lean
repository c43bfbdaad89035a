import Frostsnap.Lib.Codec
import Mathlib.Data.List.GetD

/-!
# The PSS encoding of a message digest

The encoding of a digest that a PSS signature is over: a data block of zeros, a one and the salt,
masked by what a mask generation function makes of the digest `H` of the message digest and the
salt, and behind it `H` and a trailer. The leftmost bits that the modulus has no room for are
cleared. The hash function is a parameter.

## Main results

* `Pss.length_encode`: the length of an encoding.
* `Pss.ofLeBytes_encode_lt`: an encoding is a number with no more bits than it was made for.
* `Pss.verify_encode`: an encoding is verified.
-/

namespace Frostsnap.Pss

/-- Clear bits of the first byte. -/
def maskFirst (top : UInt8) : List UInt8 → List UInt8
  | [] => []
  | byte :: bytes => (byte &&& top) :: bytes

/-- The bits of the first byte of an encoding of some bits that belong to it. -/
def topMask (emBits : ℕ) : UInt8 := 0xff >>> UInt8.ofNat ((emBits + 7) / 8 * 8 - emBits)

/-- Byte by byte. -/
def xorBytes (a b : List UInt8) : List UInt8 := List.zipWith (· ^^^ ·) a b

variable (hash : List UInt8 → List UInt8) (hLen : ℕ)

/-- The mask generation function on a hash function: the hashes of the seed with each counter. -/
def mgf1 (seed : List UInt8) (maskLen : ℕ) : List UInt8 :=
  ((List.range ((maskLen + (hLen - 1)) / hLen)).flatMap fun counter =>
    hash (seed ++ (leBytes 4 counter).reverse)).take maskLen

/-- The hash of a message digest and a salt. -/
def hashSalted (mHash salt : List UInt8) : List UInt8 := hash (List.replicate 8 0 ++ mHash ++ salt)

/-- The data block, with `psLen` zeros in front. -/
def dataBlock (psLen : ℕ) (salt : List UInt8) : List UInt8 := List.replicate psLen 0 ++ 0x01 :: salt

/-- The data block under the mask, with its first bits cleared. -/
def maskedDb (emBits psLen : ℕ) (mHash salt : List UInt8) : List UInt8 :=
  maskFirst (topMask emBits) (xorBytes (dataBlock psLen salt)
    (mgf1 hash hLen (hashSalted hash mHash salt) (psLen + 1 + salt.length)))

/-- EMSA-PSS-ENCODE. -/
def encode (emBits : ℕ) (mHash salt : List UInt8) : List UInt8 :=
  let psLen := (emBits + 7) / 8 - salt.length - hLen - 2
  maskedDb hash hLen emBits psLen mHash salt ++ hashSalted hash mHash salt ++ [0xbc]

/-- EMSA-PSS-VERIFY. -/
def verify (emBits sLen : ℕ) (mHash em : List UInt8) : Bool :=
  let emLen := (emBits + 7) / 8
  let dbLen := emLen - hLen - 1
  let psLen := dbLen - sLen - 1
  let masked := em.take dbLen
  let salted := (em.drop dbLen).take hLen
  let db := maskFirst (topMask emBits) (xorBytes masked (mgf1 hash hLen salted dbLen))
  decide (em.length = emLen ∧ em.getD (emLen - 1) 0 = 0xbc ∧
    maskFirst (topMask emBits) masked = masked ∧ db.take psLen = List.replicate psLen 0 ∧
    db.getD psLen 0 = 0x01 ∧ salted = hashSalted hash mHash (db.drop (psLen + 1)))

/-- The bits that are cleared are still there as zeros. -/
theorem length_maskFirst (top : UInt8) (bytes : List UInt8) :
    (maskFirst top bytes).length = bytes.length := by
  cases bytes <;> rfl

/-- As long as both are. -/
theorem length_xorBytes {a b : List UInt8} (h : a.length = b.length) :
    (xorBytes a b).length = a.length := by
  rw [xorBytes, List.length_zipWith, ← h, Nat.min_self]

/-- Zeros, a one and the salt. -/
theorem length_dataBlock (psLen : ℕ) (salt : List UInt8) :
    (dataBlock psLen salt).length = psLen + 1 + salt.length := by
  rw [dataBlock, List.length_append, List.length_replicate, List.length_cons]
  omega

/-! ### The parts of a data block -/

/-- The zeros are in front. -/
theorem take_dataBlock (psLen : ℕ) (salt : List UInt8) :
    (dataBlock psLen salt).take psLen = List.replicate psLen 0 := by
  rw [dataBlock, List.take_left' List.length_replicate]

/-- The one is behind them. -/
theorem getD_dataBlock (psLen : ℕ) (salt : List UInt8) (default : UInt8) :
    (dataBlock psLen salt).getD psLen default = 0x01 := by
  have hle : (List.replicate psLen (0 : UInt8)).length ≤ psLen := List.length_replicate.le
  rw [dataBlock, List.getD_append_right _ _ _ _ hle, List.length_replicate, Nat.sub_self]
  rfl

/-- The salt is behind that. -/
theorem drop_dataBlock (psLen : ℕ) (salt : List UInt8) :
    (dataBlock psLen salt).drop (psLen + 1) = salt := by
  rw [dataBlock, ← List.drop_drop, List.drop_left' List.length_replicate]
  rfl

/-! ### Masking twice -/

/-- A mask taken off again. -/
theorem xor_xor (a m : UInt8) : a ^^^ m ^^^ m = a := by
  rw [UInt8.xor_assoc, UInt8.xor_self, UInt8.xor_zero]

/-- Masking a byte twice, where the cleared bits stay cleared. -/
theorem xor_and_xor_and (a m t : UInt8) : ((a ^^^ m) &&& t ^^^ m) &&& t = a &&& t := by
  apply UInt8.toBitVec_inj.mp
  apply BitVec.eq_of_getLsbD_eq
  intro i hi
  simp only [UInt8.toBitVec_and, UInt8.toBitVec_xor, BitVec.getLsbD_and, BitVec.getLsbD_xor]
  cases a.toBitVec.getLsbD i <;> cases m.toBitVec.getLsbD i <;> cases t.toBitVec.getLsbD i <;> rfl

/-- The same for many bytes. -/
theorem xorBytes_xorBytes {a m : List UInt8} (h : a.length = m.length) :
    xorBytes (xorBytes a m) m = a := by
  induction a generalizing m with
  | nil => rfl
  | cons byte bytes ih =>
      rcases m with - | ⟨byte', m⟩
      · cases h
      · have htail := ih (Nat.succ.inj h)
        simp only [xorBytes, List.zipWith_cons_cons] at htail ⊢
        rw [htail, xor_xor]

/-- **Masking a second time** gives back what was masked, but for the cleared bits. -/
theorem maskFirst_xorBytes {a m : List UInt8} (h : a.length = m.length) (top : UInt8) :
    maskFirst top (xorBytes (maskFirst top (xorBytes a m)) m) = maskFirst top a := by
  rcases a with - | ⟨byte, bytes⟩
  · rfl
  · rcases m with - | ⟨byte', m⟩
    · cases h
    · have htail := xorBytes_xorBytes (Nat.succ.inj h)
      simp only [xorBytes] at htail
      simp only [xorBytes, List.zipWith_cons_cons, maskFirst, htail, xor_and_xor_and]

/-- A data block that starts with a zero has no bits to be cleared. -/
theorem maskFirst_dataBlock (top : UInt8) {psLen : ℕ} (h : 0 < psLen) (salt : List UInt8) :
    maskFirst top (dataBlock psLen salt) = dataBlock psLen salt := by
  obtain ⟨n, rfl⟩ := Nat.exists_eq_add_of_lt h
  rw [Nat.zero_add, dataBlock, List.replicate_succ, List.cons_append, maskFirst, UInt8.zero_and]

/-! ### The parts of an encoding -/

variable {hash hLen}

/-- As long as it is asked for. -/
theorem length_mgf1 (hlen : ∀ message, (hash message).length = hLen) (hpos : 0 < hLen)
    (seed : List UInt8) (maskLen : ℕ) : (mgf1 hash hLen seed maskLen).length = maskLen := by
  have hsum : ∀ n, ((List.range n).flatMap fun counter =>
      hash (seed ++ (leBytes 4 counter).reverse)).length = n * hLen := by
    intro n
    induction n with
    | zero => rw [List.range_zero, List.flatMap_nil, List.length_nil, Nat.zero_mul]
    | succ n ih =>
        rw [List.range_succ, List.flatMap_append, List.length_append, ih, List.flatMap_singleton,
          hlen, Nat.succ_mul]
  rw [mgf1, List.length_take, hsum]
  have hle := Nat.lt_div_mul_add (a := maskLen + (hLen - 1)) hpos
  omega

/-- The mask changes no length. -/
theorem length_maskedDb (hlen : ∀ message, (hash message).length = hLen) (hpos : 0 < hLen)
    (emBits psLen : ℕ) (mHash salt : List UInt8) :
    (maskedDb hash hLen emBits psLen mHash salt).length = psLen + 1 + salt.length := by
  have heq : (dataBlock psLen salt).length =
      (mgf1 hash hLen (hashSalted hash mHash salt) (psLen + 1 + salt.length)).length := by
    rw [length_dataBlock, length_mgf1 hlen hpos]
  rw [maskedDb, length_maskFirst, length_xorBytes heq, length_dataBlock]

/-- An encoded message is as long as the modulus. -/
theorem length_encode (hlen : ∀ message, (hash message).length = hLen) (hpos : 0 < hLen)
    {emBits : ℕ} {mHash salt : List UInt8} (hroom : salt.length + hLen + 2 ≤ (emBits + 7) / 8) :
    (encode hash hLen emBits mHash salt).length = (emBits + 7) / 8 := by
  simp only [encode, List.length_append, length_maskedDb hlen hpos, hashSalted, hlen,
    List.length_singleton]
  omega

/-- **Masking the masked data block** gives the data block. -/
theorem unmask_maskedDb (hlen : ∀ message, (hash message).length = hLen) (hpos : 0 < hLen)
    (emBits : ℕ) {psLen : ℕ} (hps : 0 < psLen) (mHash salt : List UInt8) :
    maskFirst (topMask emBits) (xorBytes (maskedDb hash hLen emBits psLen mHash salt)
      (mgf1 hash hLen (hashSalted hash mHash salt) (psLen + 1 + salt.length))) =
      dataBlock psLen salt := by
  rw [maskedDb, maskFirst_xorBytes, maskFirst_dataBlock _ hps]
  rw [length_dataBlock, length_mgf1 hlen hpos]

/-- What is cleared stays cleared. -/
theorem maskFirst_maskFirst (top : UInt8) (bytes : List UInt8) :
    maskFirst top (maskFirst top bytes) = maskFirst top bytes := by
  cases bytes with
  | nil => rfl
  | cons byte bytes => rw [maskFirst, maskFirst, UInt8.and_assoc, UInt8.and_self]

/-- The bits that there is no room for stay cleared. -/
theorem maskFirst_maskedDb (emBits psLen : ℕ) (mHash salt : List UInt8) :
    maskFirst (topMask emBits) (maskedDb hash hLen emBits psLen mHash salt) =
      maskedDb hash hLen emBits psLen mHash salt := by
  rw [maskedDb, maskFirst_maskFirst]

/-- **An encoding is verified.** -/
theorem verify_encode (hlen : ∀ message, (hash message).length = hLen) (hpos : 0 < hLen)
    {emBits : ℕ} (mHash : List UInt8) {salt : List UInt8}
    (hroom : salt.length + hLen + 2 < (emBits + 7) / 8) :
    verify hash hLen emBits salt.length mHash (encode hash hLen emBits mHash salt) = true := by
  have hlength := @length_encode hash hLen hlen hpos emBits mHash salt hroom.le
  generalize hem : (emBits + 7) / 8 = emLen at hroom hlength
  have hps : emLen - hLen - 1 - salt.length - 1 = emLen - salt.length - hLen - 2 := by omega
  have hdb : emLen - hLen - 1 = emLen - salt.length - hLen - 2 + 1 + salt.length := by omega
  have hmasked := length_maskedDb hlen hpos emBits (emLen - salt.length - hLen - 2) mHash salt
  have hunmask := unmask_maskedDb hlen hpos emBits
    (show 0 < emLen - salt.length - hLen - 2 by omega) mHash salt
  have hbits := @maskFirst_maskedDb hash hLen emBits (emLen - salt.length - hLen - 2) mHash salt
  have hsalted : (hashSalted hash mHash salt).length = hLen := hlen _
  rw [verify]
  simp only [hem, hps, hlength]
  rw [encode]
  simp only [hem]
  rw [← hdb] at hmasked hunmask
  generalize maskedDb hash hLen emBits (emLen - salt.length - hLen - 2) mHash salt = masked
    at hmasked hunmask hbits ⊢
  generalize hashed : hashSalted hash mHash salt = salted at hsalted hunmask ⊢
  have hboth : (masked ++ salted).length = emLen - 1 := by
    rw [List.length_append, hmasked, hsalted]
    omega
  have htake : (masked ++ salted ++ [0xbc]).take (emLen - hLen - 1) = masked := by
    rw [List.append_assoc, List.take_left' hmasked]
  have hdrop : ((masked ++ salted ++ [0xbc]).drop (emLen - hLen - 1)).take hLen = salted := by
    rw [List.append_assoc, List.drop_left' hmasked, List.take_left' hsalted]
  have htrailer : (masked ++ salted ++ [0xbc]).getD (emLen - 1) 0 = 0xbc := by
    rw [List.getD_append_right _ _ _ _ hboth.le, hboth, Nat.sub_self]
    rfl
  rw [htake, hdrop, htrailer, hunmask, take_dataBlock, getD_dataBlock, drop_dataBlock, hashed]
  exact decide_eq_true ⟨trivial, rfl, hbits, rfl, rfl, rfl⟩

/-- **An encoding as a number** has its bits in the bytes that it has room for. -/
theorem ofLeBytes_encode_lt (hlen : ∀ message, (hash message).length = hLen) (hpos : 0 < hLen)
    {emBits : ℕ} (mHash : List UInt8) {salt : List UInt8}
    (hroom : salt.length + hLen + 2 ≤ (emBits + 7) / 8) :
    ofLeBytes (encode hash hLen emBits mHash salt).reverse <
      ((topMask emBits).toNat + 1) * 256 ^ ((emBits + 7) / 8 - 1) := by
  have hlength := @length_encode hash hLen hlen hpos emBits mHash salt hroom
  have hmasked := length_maskedDb hlen hpos emBits
    ((emBits + 7) / 8 - salt.length - hLen - 2) mHash salt
  have hbits := @maskFirst_maskedDb hash hLen emBits
    ((emBits + 7) / 8 - salt.length - hLen - 2) mHash salt
  rw [encode] at hlength ⊢
  generalize maskedDb hash hLen emBits ((emBits + 7) / 8 - salt.length - hLen - 2) mHash salt =
    masked at hlength hmasked hbits ⊢
  rcases masked with - | ⟨byte, bytes⟩
  · rw [List.length_nil] at hmasked
    omega
  · rw [maskFirst, List.cons.injEq] at hbits
    rw [List.append_assoc, List.cons_append] at hlength ⊢
    generalize bytes ++ (hashSalted hash mHash salt ++ [0xbc]) = rest at hlength ⊢
    rw [List.length_cons] at hlength
    have hbound := ofLeBytes_lt rest.reverse
    have hfirst : byte.toNat ≤ (topMask emBits).toNat := by
      rw [← hbits.1, UInt8.toNat_and]
      exact Nat.and_le_right
    rw [List.reverse_cons, ofLeBytes_append, ofLeBytes, ofLeBytes, List.length_reverse]
    rw [List.length_reverse] at hbound
    rw [← hlength, Nat.add_sub_cancel, Nat.mul_zero, Nat.add_zero, Nat.add_mul, Nat.one_mul]
    have hscaled := Nat.mul_le_mul_left (256 ^ rest.length) hfirst
    rw [Nat.mul_comm (topMask emBits).toNat]
    omega

end Frostsnap.Pss
