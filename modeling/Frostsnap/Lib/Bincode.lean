import Frostsnap.Core.Ids
import Frostsnap.Lib.Codec

/-!
# Bincode with a limit

The encoding that `bincode` derives, with integers of variable length, and its decoder. The decoder
has a limit on what it claims: an integer claims its size in memory, an array of bytes its length,
and a container its length times the size of an element, of which it gives back the size of one
element just before it decodes it. Where the limit would be exceeded decoding fails. The encoder has
no limit.

A `Format` has for each value how much is claimed at most while it is decoded, its `peak`, and how
much stays claimed, its `net`. With these it is known exactly when what was encoded is decoded.

## Main definitions

* `Format`: an encoding that round trips exactly when its peak is within the limit.
* `Format.prod`, `Format.list`, `Format.enum` and so on: structures, containers, enumerations.

## Main results

* `Format.decodeFromSlice_encode`: what is decoded of an encoded value.
-/

namespace Frostsnap.Bincode

variable {α β : Type} {limit n w : ℕ}

/-! ### Decoders -/

/-- How much is claimed, and what is left to read. -/
structure Decoder where
  claimed : ℕ
  rest : List UInt8

abbrev DecodeM := StateT Decoder Option

/-- `claim_bytes_read`. -/
def claim (limit n : ℕ) : DecodeM Unit := fun d =>
  if d.claimed + n ≤ limit then some ((), { d with claimed := d.claimed + n }) else none

/-- `unclaim_bytes_read`. -/
def unclaim (n : ℕ) : DecodeM Unit := fun d => some ((), { d with claimed := d.claimed - n })

/-- `Reader::read`. -/
def read (n : ℕ) : DecodeM (List UInt8) := fun d =>
  if n ≤ d.rest.length then some (d.rest.take n, { d with rest := d.rest.drop n }) else none

/-- A decoder that is given the bytes of a value, and any others after them, claims at most `peak`
more than what is claimed, and in the end `net` more; it returns the value when `peak` is within the
limit, and otherwise fails. -/
structure Reads (limit : ℕ) (dec : DecodeM α) (bytes : List UInt8) (peak net : ℕ) (a : α) :
    Prop where
  net_le : net ≤ peak
  run : ∀ claimed rest, claimed ≤ limit → dec ⟨claimed, bytes ++ rest⟩ =
    if claimed + peak ≤ limit then some (a, ⟨claimed + net, rest⟩) else none

namespace Reads

variable {dec : DecodeM α} {next : α → DecodeM β} {bytes bytes' : List UInt8}
  {peak peak' net net' : ℕ} {a : α} {b : β}

theorem pure (a : α) : Reads limit (pure a) [] 0 0 a :=
  ⟨le_rfl, fun _ _ h => (if_pos h).symm⟩

theorem bind (h : Reads limit dec bytes peak net a)
    (h' : Reads limit (next a) bytes' peak' net' b) :
    Reads limit (dec >>= next) (bytes ++ bytes') (max peak (net + peak')) (net + net') b where
  net_le := le_max_of_le_right (Nat.add_le_add_left h'.net_le net)
  run claimed rest hle := by
    have hnet := h.net_le
    have hrun := h.run claimed (bytes' ++ rest) hle
    show (dec ⟨claimed, bytes ++ bytes' ++ rest⟩).bind (fun p => next p.1 p.2) = _
    rw [List.append_assoc, hrun]
    by_cases hpeak : claimed + peak ≤ limit
    · rw [if_pos hpeak, Option.bind_some, h'.run _ _ (by omega), Nat.add_assoc, Nat.add_assoc]
      exact if_congr (by omega) rfl rfl
    · rw [if_neg hpeak, Option.bind_none, if_neg (by omega)]

theorem map {f : α → β} (h : Reads limit dec bytes peak net a) :
    Reads limit (f <$> dec) bytes peak net (f a) where
  net_le := h.net_le
  run claimed rest hle := by
    show (dec ⟨claimed, bytes ++ rest⟩).bind (fun p => some (f p.1, p.2)) = _
    rw [h.run _ _ hle]
    by_cases hpeak : claimed + peak ≤ limit
    · rw [if_pos hpeak, if_pos hpeak, Option.bind_some]
    · rw [if_neg hpeak, if_neg hpeak, Option.bind_none]

/-- A claim, and then what it is for. -/
theorem claim (h : Reads limit dec bytes peak net a) :
    Reads limit (claim limit n >>= fun _ => dec) bytes (n + peak) (n + net) a where
  net_le := Nat.add_le_add_left h.net_le n
  run claimed rest hle := by
    show (if claimed + n ≤ limit then some ((), (⟨claimed + n, bytes ++ rest⟩ : Decoder))
      else none).bind (fun p => dec p.2) = _
    by_cases hn : claimed + n ≤ limit
    · rw [if_pos hn, Option.bind_some, h.run _ _ hn, Nat.add_assoc, Nat.add_assoc]
    · rw [if_neg hn, Option.bind_none, if_neg (by omega)]

theorem read : Reads limit (read bytes.length) bytes 0 0 bytes where
  net_le := le_rfl
  run claimed rest hle := by
    rw [Bincode.read, if_pos (by rw [List.length_append]; omega), List.take_left, List.drop_left]
    exact (if_pos hle).symm

theorem cast (h : Reads limit dec bytes peak net a) (hbytes : bytes = bytes')
    (hpeak : peak = peak') (hnet : net = net') : Reads limit dec bytes' peak' net' a := by
  subst hbytes hpeak hnet
  exact h

/-- A value that is read, and then checked and turned into another one. -/
theorem liftOption {f : α → Option β} (h : Reads limit dec bytes peak net a) (hf : f a = some b) :
    Reads limit (dec >>= fun a => StateT.lift (f a)) bytes peak net b where
  net_le := h.net_le
  run claimed rest hle := by
    show (dec ⟨claimed, bytes ++ rest⟩).bind
      (fun p => (f p.1).bind fun b => some (b, p.2)) = _
    rw [h.run _ _ hle]
    by_cases hpeak : claimed + peak ≤ limit
    · rw [if_pos hpeak, if_pos hpeak, Option.bind_some, hf, Option.bind_some]
    · rw [if_neg hpeak, if_neg hpeak, Option.bind_none]

end Reads

/-! ### Integers of variable length -/

/-- The first byte is the integer, or says how many bytes follow. -/
def encodeVarint (v : ℕ) : List UInt8 :=
  if v < 251 then [UInt8.ofNat v]
  else if v < 256 ^ 2 then 251 :: leBytes 2 v
  else if v < 256 ^ 4 then 252 :: leBytes 4 v
  else 253 :: leBytes 8 v

theorem length_encodeVarint_le (v : ℕ) : (encodeVarint v).length ≤ 9 := by
  rw [encodeVarint]
  split_ifs <;> simp

/-- What follows the first byte of an integer of a type of `w` bytes. -/
def decodeAfter (w first : ℕ) : DecodeM ℕ :=
  if first < 251 then pure first
  else if first = 251 ∧ 2 ≤ w then ofLeBytes <$> read 2
  else if first = 252 ∧ 4 ≤ w then ofLeBytes <$> read 4
  else if first = 253 ∧ 8 ≤ w then ofLeBytes <$> read 8
  else StateT.lift none

def decodeVarint (w : ℕ) : DecodeM ℕ := do
  let first ← read 1
  decodeAfter w (ofLeBytes first)

/-- The widths of integers that are encoded with a variable length. -/
def IsWidth (w : ℕ) : Prop := w = 2 ∨ w = 4 ∨ w = 8

theorem reads_decodeVarint {v : ℕ} (hw : IsWidth w) (hv : v < 256 ^ w) :
    Reads limit (decodeVarint w) (encodeVarint v) 0 0 v := by
  have hread (k : ℕ) (hk : v < 256 ^ k) :
      Reads limit (ofLeBytes <$> read k) (leBytes k v) 0 0 v := by
    have hbytes := @Reads.read limit (leBytes k v)
    rw [length_leBytes] at hbytes
    have hmap := hbytes.map (f := ofLeBytes)
    rwa [ofLeBytes_leBytes hk] at hmap
  have hfirst (b : UInt8) (bytes : List UInt8)
      (h : Reads limit (decodeAfter w b.toNat) bytes 0 0 v) :
      Reads limit (decodeVarint w) (b :: bytes) 0 0 v := by
    have hb : ofLeBytes [b] = b.toNat := by simp [ofLeBytes]
    rw [← hb] at h
    exact @Reads.bind _ _ limit (read 1) (fun first => decodeAfter w (ofLeBytes first)) [b] bytes
      0 0 0 0 [b] v (@Reads.read limit [b]) h
  rw [encodeVarint]
  split
  · rename_i hsmall
    have htoNat : (UInt8.ofNat v).toNat = v := by
      rw [UInt8.toNat_ofNat']
      omega
    refine hfirst _ [] ?_
    rw [htoNat, decodeAfter, if_pos hsmall]
    exact .pure v
  · split
    · rename_i h
      refine hfirst 251 _ ?_
      have htwo : 2 ≤ w := by rcases hw with rfl | rfl | rfl <;> omega
      rw [decodeAfter, if_neg (by decide), if_pos ⟨rfl, htwo⟩]
      exact hread 2 h
    · split
      · rename_i hbig h
        refine hfirst 252 _ ?_
        have hfour : 4 ≤ w := by rcases hw with rfl | rfl | rfl <;> omega
        rw [decodeAfter, if_neg (by decide), if_neg (by simp), if_pos ⟨rfl, hfour⟩]
        exact hread 4 h
      · rename_i hbig hbig'
        refine hfirst 253 _ ?_
        obtain rfl : w = 8 := by rcases hw with rfl | rfl | rfl <;> omega
        rw [decodeAfter, if_neg (by decide), if_neg (by simp), if_neg (by simp),
          if_pos ⟨rfl, le_rfl⟩]
        exact hread 8 hv

/-! ### Formats -/

/-- How the values of a type are encoded and decoded. -/
structure Format (α : Type) where
  /-- what a value of the type in the program is -/
  Valid : α → Prop
  encode : α → List UInt8
  decode : ℕ → DecodeM α
  /-- the most that is claimed at any time while a value is decoded -/
  peak : α → ℕ
  /-- what stays claimed -/
  net : α → ℕ
  reads : ∀ {limit a}, Valid a → Reads limit (decode limit) (encode a) (peak a) (net a) a

/-- `decode_from_slice`, and what it leaves. -/
def decodeFromSlice (limit : ℕ) (c : Format α) (bytes : List UInt8) : Option (α × List UInt8) :=
  (c.decode limit ⟨0, bytes⟩).map fun p => (p.1, p.2.rest)

namespace Format

/-- **A value that is encoded** is decoded exactly when its peak is within the limit. -/
theorem decodeFromSlice_encode (c : Format α) {a : α} (h : c.Valid a) (rest : List UInt8) :
    decodeFromSlice limit c (c.encode a ++ rest) =
      if c.peak a ≤ limit then some (a, rest) else none := by
  rw [decodeFromSlice, (c.reads h).run 0 rest (Nat.zero_le limit), Nat.zero_add, Nat.zero_add]
  by_cases hpeak : c.peak a ≤ limit
  · rw [if_pos hpeak, if_pos hpeak]
    rfl
  · rw [if_neg hpeak, if_neg hpeak]
    rfl

/-- What is decoded of the bytes of a value, and nothing after them. -/
theorem decodeFromSlice_encode_eq_some_iff (c : Format α) {a : α} (h : c.Valid a) :
    (decodeFromSlice limit c (c.encode a)).map Prod.fst = some a ↔ c.peak a ≤ limit := by
  have hdecode := @decodeFromSlice_encode _ limit c a h []
  rw [List.append_nil] at hdecode
  rw [hdecode]
  by_cases hpeak : c.peak a ≤ limit
  · rw [if_pos hpeak]
    exact iff_of_true rfl hpeak
  · rw [if_neg hpeak]
    exact iff_of_false nofun hpeak

/-! ### Bytes and integers -/

/-- A structure without fields. -/
def unit : Format Unit where
  Valid _ := True
  encode _ := []
  decode _ := pure ()
  peak _ := 0
  net _ := 0
  reads _ := .pure ()

/-- A byte array that is read without a claim, by a decoder that the program has written. -/
def rawBytes (n : ℕ) : Format (Vector UInt8 n) where
  Valid _ := True
  encode v := v.toList
  decode _ := do
    let bytes ← read n
    StateT.lift (if h : bytes.length = n then some ⟨bytes.toArray, by simpa using h⟩ else none)
  peak _ := 0
  net _ := 0
  reads {limit v} _ := by
    have hread := @Reads.read limit v.toList
    rw [v.length_toList] at hread
    refine hread.liftOption ?_
    rw [dif_pos v.length_toList]
    exact congrArg some (Vector.toArray_inj.1 (@Array.toArray_toList _ v.toArray))

/-- Such an array as a number, the first byte of which is the highest. -/
def raw (n : ℕ) : Format (BitVec (8 * n)) where
  Valid _ := True
  encode v := (leBytes n v.toNat).reverse
  decode _ := do
    let bytes ← read n
    return BitVec.ofNat (8 * n) (ofLeBytes bytes.reverse)
  peak _ := 0
  net _ := 0
  reads {limit v} _ := by
    have hread := @Reads.read limit (leBytes n v.toNat).reverse
    have hlt : v.toNat < 256 ^ n := by
      have h := v.isLt
      rwa [Nat.pow_mul] at h
    rw [List.length_reverse, length_leBytes] at hread
    have hmap := hread.map (f := fun bytes => BitVec.ofNat (8 * n) (ofLeBytes bytes.reverse))
    rw [List.reverse_reverse, ofLeBytes_leBytes hlt, BitVec.ofNat_toNat, BitVec.setWidth_eq] at hmap
    exact hmap

/-- An integer of `w` bytes in memory. -/
def uint (w : ℕ) (hw : IsWidth w) : Format ℕ where
  Valid v := v < 256 ^ w
  encode := encodeVarint
  decode limit := do
    claim limit w
    decodeVarint w
  peak _ := w
  net _ := w
  reads hv := (reads_decodeVarint hw hv).claim

def u16 : Format ℕ := uint 2 (.inl rfl)

def u32 : Format ℕ := uint 4 (.inr (.inl rfl))

def u64 : Format ℕ := uint 8 (.inr (.inr rfl))

/-- A byte. -/
def u8 : Format ℕ where
  Valid v := v < 256
  encode v := leBytes 1 v
  decode limit := do
    claim limit 1
    ofLeBytes <$> read 1
  peak _ := 1
  net _ := 1
  reads {limit v} hv := by
    have hread := (@Reads.read limit (leBytes 1 v)).map (f := ofLeBytes)
    rw [ofLeBytes_leBytes hv] at hread
    exact hread.claim

/-! ### Other types with the same encoding -/

/-- A value that is checked when it is decoded. -/
def check (c : Format α) (p : α → Bool) : Format α where
  Valid a := c.Valid a ∧ p a
  encode := c.encode
  decode limit := do
    let a ← c.decode limit
    StateT.lift (if p a then some a else none)
  peak := c.peak
  net := c.net
  reads h := (c.reads h.1).liftOption (if_pos h.2)

/-- A value that is encoded as one of another type, not all of which stand for one. -/
def partialMap (c : Format α) (f : α → Option β) (g : β → α) (h : ∀ b, f (g b) = some b) :
    Format β where
  Valid b := c.Valid (g b)
  encode b := c.encode (g b)
  decode limit := do
    let a ← c.decode limit
    StateT.lift (f a)
  peak b := c.peak (g b)
  net b := c.net (g b)
  reads {_ b} hb := (c.reads hb).liftOption (h b)

/-- A value that is encoded as one of another type. -/
def map (c : Format α) (f : α → β) (g : β → α) (h : ∀ b, f (g b) = b) : Format β where
  Valid b := c.Valid (g b)
  encode b := c.encode (g b)
  decode limit := f <$> c.decode limit
  peak b := c.peak (g b)
  net b := c.net (g b)
  reads {limit b} hb := by
    have hmap := (@reads _ c limit _ hb).map (f := f)
    rwa [h] at hmap

/-- A byte of a container. -/
def byte : Format UInt8 := u8.map UInt8.ofNat UInt8.toNat fun b => by simp

def bool : Format Bool :=
  u8.partialMap (fun v => if v = 0 then some false else if v = 1 then some true else none)
    Bool.toNat
    fun b => by cases b <;> rfl

/-- Unsigned integers as bit vectors. -/
def ofBits (c : Format ℕ) (n : ℕ) : Format (BitVec n) :=
  c.map (BitVec.ofNat n) BitVec.toNat fun v => by rw [BitVec.ofNat_toNat, BitVec.setWidth_eq]

/-- Signed integers, with the sign in the lowest bit. -/
def zigzag : ℤ → ℕ
  | .ofNat n => 2 * n
  | .negSucc n => 2 * n + 1

def unzigzag (v : ℕ) : ℤ := if v % 2 = 0 then .ofNat (v / 2) else .negSucc (v / 2)

theorem unzigzag_zigzag (v : ℤ) : unzigzag (zigzag v) = v := by
  cases v with
  | ofNat n =>
      rw [zigzag, unzigzag, if_pos (by omega)]
      congr
      omega
  | negSucc n =>
      rw [zigzag, unzigzag, if_neg (by omega)]
      congr
      omega

def i64 : Format ℤ := u64.map unzigzag zigzag unzigzag_zigzag

/-! ### Structures, containers and enumerations -/

/-- One field after the other. -/
def prod (c : Format α) (c' : Format β) : Format (α × β) where
  Valid p := c.Valid p.1 ∧ c'.Valid p.2
  encode p := c.encode p.1 ++ c'.encode p.2
  decode limit := do
    let a ← c.decode limit
    let b ← c'.decode limit
    return (a, b)
  peak p := max (c.peak p.1) (c.net p.1 + c'.peak p.2)
  net p := c.net p.1 + c'.net p.2
  reads h := (c.reads h.1).bind (c'.reads h.2).map

/-- `Vec<u8>`, which is read at once. -/
def bytes : Format (List UInt8) where
  Valid v := v.length < 256 ^ 8
  encode v := encodeVarint v.length ++ v
  decode limit := do
    let len ← u64.decode limit
    claim limit len
    read len
  peak v := 8 + v.length
  net v := 8 + v.length
  reads h := ((u64.reads h).bind Reads.read.claim).cast rfl (by simp [u64, uint]) rfl

/-- `String`. -/
def string : Format String :=
  bytes.partialMap (fun v => String.fromUTF8? ⟨v.toArray⟩) (fun s => s.toByteArray.data.toList)
    fun s => dif_pos s.isValidUTF8

/-- What follows the byte that says whether there is a value. -/
def decodeSome (c : Format α) (limit : ℕ) : ℕ → DecodeM (Option α)
  | 0 => return none
  | 1 => some <$> c.decode limit
  | _ => StateT.lift none

/-- `Option`. -/
def option (c : Format α) : Format (Option α) where
  Valid a := ∀ b ∈ a, c.Valid b
  encode
    | none => [0]
    | some a => 1 :: c.encode a
  decode limit := do
    let isSome ← u8.decode limit
    c.decodeSome limit isSome
  peak
    | none => 1
    | some a => 1 + c.peak a
  net
    | none => 1
    | some a => 1 + c.net a
  reads {limit a} h := by
    have hbyte (b : ℕ) (hb : b < 256) : Reads limit (u8.decode limit) (leBytes 1 b) 1 1 b :=
      u8.reads hb
    cases a with
    | none =>
        have hnone : Reads limit (c.decodeSome limit 0) [] 0 0 none := .pure none
        exact (hbyte 0 (by omega)).bind hnone
    | some a =>
        have hsome : Reads limit (c.decodeSome limit 1) (c.encode a) (c.peak a)
          (c.net a) (some a) :=
          (c.reads (h a rfl)).map
        refine ((hbyte 1 (by omega)).bind hsome).cast rfl ?_ rfl
        show max 1 (1 + c.peak a) = 1 + c.peak a
        omega

/-- The elements of a container, each of which is claimed already. -/
def decodeElems (size : ℕ) (dec : DecodeM α) : ℕ → DecodeM (List α)
  | 0 => return []
  | n + 1 => do
      unclaim size
      let a ← dec
      let as ← decodeElems size dec n
      return a :: as

/-- The most that elements claim, and what is still claimed for those after them. -/
def elemsPeak (c : Format α) (size : ℕ) : List α → ℕ
  | [] => 0
  | a :: as => max (as.length * size + c.peak a) (c.net a + c.elemsPeak size as)

def elemsNet (c : Format α) (as : List α) : ℕ := (as.map c.net).sum

@[simp] theorem elemsPeak_cons (c : Format α) (size : ℕ) (a : α) (as : List α) :
    c.elemsPeak size (a :: as) =
      max (as.length * size + c.peak a) (c.net a + c.elemsPeak size as) := rfl

@[simp] theorem elemsNet_cons (c : Format α) (a : α) (as : List α) :
    c.elemsNet (a :: as) = c.net a + c.elemsNet as := List.sum_cons

theorem elemsNet_le (c : Format α) (size : ℕ) {as : List α} (h : ∀ a ∈ as, c.Valid a) :
    c.elemsNet as ≤ c.elemsPeak size as := by
  induction as with
  | nil => exact le_rfl
  | cons a as ih =>
      have has := ih fun b hb => h b (List.mem_cons_of_mem a hb)
      rw [elemsNet_cons, elemsPeak_cons]
      omega

/-- The elements, all of which are claimed when the first one is decoded. -/
theorem run_decodeElems (c : Format α) (size : ℕ) {as : List α} (h : ∀ a ∈ as, c.Valid a)
    (claimed : ℕ) (rest : List UInt8) (hle : claimed + as.length * size ≤ limit) :
    decodeElems size (c.decode limit) as.length
        ⟨claimed + as.length * size, (as.map c.encode).flatten ++ rest⟩ =
      if claimed + c.elemsPeak size as ≤ limit then
        some (as, ⟨claimed + c.elemsNet as, rest⟩)
      else none := by
  induction as generalizing claimed with
  | nil =>
      have hclaimed : claimed ≤ limit := by simpa using hle
      have hzero : claimed + ([] : List α).length * size = claimed := by simp
      rw [hzero]
      exact (if_pos hclaimed).symm
  | cons a as ih =>
      have hrest : claimed + (as.length + 1) * size - size = claimed + as.length * size := by
        rw [Nat.add_mul]
        omega
      have hle' : claimed + as.length * size ≤ limit := by
        rw [List.length_cons, Nat.add_mul] at hle
        omega
      have hreads := @reads _ c limit _ (h a List.mem_cons_self)
      have ha := hreads.run
        (claimed + as.length * size) ((as.map c.encode).flatten ++ rest) hle'
      have hnet := hreads.net_le
      show (c.decode limit ⟨claimed + (as.length + 1) * size - size, _⟩).bind (fun p =>
        (decodeElems size (c.decode limit) as.length p.2).bind fun q => some (p.1 :: q.1, q.2)) = _
      rw [hrest, List.map_cons, List.flatten_cons, List.append_assoc, ha]
      by_cases hpeak : claimed + as.length * size + c.peak a ≤ limit
      · have has := ih (fun b hb => h b (List.mem_cons_of_mem a hb)) (claimed + c.net a) (by omega)
        rw [if_pos hpeak, Option.bind_some]
        have hcomm : claimed + as.length * size + c.net a =
          claimed + c.net a + as.length * size := by omega
        rw [hcomm, has, elemsPeak_cons, elemsNet_cons]
        by_cases hpeak' : claimed + c.net a + c.elemsPeak size as ≤ limit
        · rw [if_pos hpeak', if_pos (by omega), Option.bind_some,
            Nat.add_assoc claimed (c.net a) (c.elemsNet as)]
        · rw [if_neg hpeak', if_neg (by omega), Option.bind_none]
      · rw [if_neg hpeak, Option.bind_none, elemsPeak_cons, if_neg (by omega)]

/-- Elements that claim nothing themselves. -/
theorem elemsPeak_le (c : Format α) (size : ℕ) {as : List α}
    (h : ∀ a, c.peak a = 0 ∧ c.net a = 0) : c.elemsPeak size as ≤ as.length * size := by
  induction as with
  | nil => exact Nat.zero_le _
  | cons a as ih =>
      have ha := h a
      rw [elemsPeak_cons, List.length_cons, Nat.add_mul]
      omega

theorem elemsNet_eq_zero (c : Format α) {as : List α} (h : ∀ a, c.net a = 0) :
    c.elemsNet as = 0 := by
  induction as with
  | nil => rfl
  | cons a as ih => rw [elemsNet_cons, h, ih]

/-- `Vec` and `VecDeque`, of elements that take `size` bytes in memory. -/
def list (size : ℕ) (c : Format α) : Format (List α) where
  Valid as := as.length < 256 ^ 8 ∧ ∀ a ∈ as, c.Valid a
  encode as := encodeVarint as.length ++ (as.map c.encode).flatten
  decode limit := do
    let len ← u64.decode limit
    claim limit (len * size)
    decodeElems size (c.decode limit) len
  peak as := 8 + max (as.length * size) (c.elemsPeak size as)
  net as := 8 + c.elemsNet as
  reads {limit as} h := by
    have helems : Reads limit (Bincode.claim limit (as.length * size) >>= fun _ =>
        decodeElems size (c.decode limit) as.length) (as.map c.encode).flatten
        (max (as.length * size) (c.elemsPeak size as)) (c.elemsNet as) as := by
      refine ⟨le_max_of_le_right (c.elemsNet_le size h.2), fun claimed rest hle => ?_⟩
      show (if claimed + as.length * size ≤ limit then
        some ((), (⟨claimed + as.length * size, _⟩ : Decoder)) else none).bind (fun p =>
          decodeElems size (c.decode limit) as.length p.2) = _
      by_cases hclaim : claimed + as.length * size ≤ limit
      · rw [if_pos hclaim, Option.bind_some, c.run_decodeElems size h.2 claimed rest hclaim]
        exact if_congr (by omega) rfl rfl
      · rw [if_neg hclaim, Option.bind_none, if_neg (by omega)]
    refine ((u64.reads h.1).bind helems).cast rfl ?_ rfl
    show max 8 (8 + max (as.length * size) (c.elemsPeak size as)) = _
    omega

/-- One of the variants of an enumeration. -/
structure Variant (α : Type) where
  Payload : Type
  format : Format Payload
  make : Payload → α

/-- A variant without fields. -/
def Variant.plain (a : α) : Variant α := ⟨Unit, unit, fun _ => a⟩

/-- What follows the index of a variant. -/
def decodeVariant (vs : Fin n → Variant α) (limit i : ℕ) : DecodeM α :=
  if hi : i < n then (vs ⟨i, hi⟩).make <$> (vs ⟨i, hi⟩).format.decode limit
  else StateT.lift none

/-- An enumeration, with the index of the variant first. -/
def enum (vs : Fin n → Variant α) (which : α → (i : Fin n) × (vs i).Payload)
    (hn : n ≤ 256 ^ 4) (h : ∀ a, (vs (which a).1).make (which a).2 = a) : Format α where
  Valid a := (vs (which a).1).format.Valid (which a).2
  encode a := encodeVarint (which a).1 ++ (vs (which a).1).format.encode (which a).2
  decode limit := do
    let i ← u32.decode limit
    decodeVariant vs limit i
  peak a := 4 + (vs (which a).1).format.peak (which a).2
  net a := 4 + (vs (which a).1).format.net (which a).2
  reads {limit a} ha := by
    have hindex : u32.Valid (which a).1 := (which a).1.isLt.trans_le hn
    have hvariant : Reads limit (decodeVariant vs limit (which a).1)
        ((vs (which a).1).format.encode (which a).2) ((vs (which a).1).format.peak (which a).2)
        ((vs (which a).1).format.net (which a).2) a := by
      have hmap := (@reads _ (vs (which a).1).format limit _ ha).map (f := (vs (which a).1).make)
      rw [h a] at hmap
      rw [decodeVariant, dif_pos (which a).1.isLt]
      exact hmap
    refine ((u32.reads hindex).bind hvariant).cast rfl ?_ rfl
    show max 4 (4 + _) = _
    omega

/-! ### Sets and maps -/

section Ordered

variable [Ord α] [Std.TransOrd α] [Std.LawfulEqOrd α]

/-- `BTreeSet`. -/
def set (size : ℕ) (c : Format α) : Format (BTreeSet α) :=
  (list size c).map (fun as => Std.ExtTreeSet.ofList as compare) (fun s => s.toList) fun s => by
    classical
    refine BTreeSet.ext_mem fun a => ?_
    rw [Std.ExtTreeSet.mem_ofList, List.contains_iff_mem, Std.ExtTreeSet.mem_toList]

/-- `BTreeMap`, of entries that take `size` bytes in memory. -/
def treeMap (size : ℕ) (c : Format α) (c' : Format β) : Format (BTreeMap α β) :=
  (list size (c.prod c')).map (fun as => Std.ExtTreeMap.ofList as compare) (fun m => m.toList)
    fun m => by
    classical
    refine Std.ExtTreeMap.ext_getElem? fun {a} => ?_
    cases hm : m[a]? with
    | none =>
        refine Std.ExtTreeMap.getElem?_ofList_of_contains_eq_false ?_
        rw [← Bool.not_eq_true, List.contains_iff_mem, List.mem_map]
        rintro ⟨⟨k, b⟩, hmem, rfl⟩
        rw [Std.ExtTreeMap.mem_toList_iff_getElem?_eq_some, hm] at hmem
        cases hmem
    | some b =>
        exact Std.ExtTreeMap.getElem?_ofList_of_mem (Std.compare_self)
          Std.ExtTreeMap.distinct_keys_toList
          (Std.ExtTreeMap.mem_toList_iff_getElem?_eq_some.2 hm)

end Ordered

end Format

end Frostsnap.Bincode
