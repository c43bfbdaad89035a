import Mathlib.Algebra.Order.Group.Nat
import Mathlib.Data.Vector.Basic
import Mathlib.Tactic.Ring

/-!
# Binary codecs

A `Codec` writes values as bytes and reads one value off the front of a byte string. What it
promises is that reading back what was written gives the value and leaves what followed.
`FixedCodec` is the special case of a fixed number of bytes, which is what a reader needs to
know to say where in a byte string a field lies.

## Main results

* `ofLeBytes_leBytes`: little-endian integers round trip.
* `FixedCodec.decode_congr`: a field depends only on its own bytes.
* `Codec.decodeList_encode`: a given number of values in a row.
* `Codec.ofTable`: the codec of finitely many values.
-/

namespace Frostsnap

/-- The little-endian bytes of a number, `k` of them. -/
def leBytes : ℕ → ℕ → List UInt8
  | 0, _ => []
  | k + 1, n => UInt8.ofNat n :: leBytes k (n / 256)

/-- The number little-endian bytes stand for. -/
def ofLeBytes : List UInt8 → ℕ
  | [] => 0
  | b :: bs => b.toNat + 256 * ofLeBytes bs

@[simp] theorem length_leBytes (k n : ℕ) : (leBytes k n).length = k := by
  induction k generalizing n with
  | zero => rfl
  | succ k ih => simp only [leBytes, List.length_cons, ih]

/-- Little-endian integers that fit round trip. -/
theorem ofLeBytes_leBytes {k n : ℕ} (h : n < 256 ^ k) : ofLeBytes (leBytes k n) = n := by
  induction k generalizing n with
  | zero =>
      simp only [Nat.pow_zero, Nat.lt_one_iff] at h
      simp [leBytes, ofLeBytes, h]
  | succ k ih =>
      have hdiv : n / 256 < 256 ^ k := by
        rw [Nat.pow_succ] at h
        exact Nat.div_lt_of_lt_mul (by omega)
      have hmod : (UInt8.ofNat n).toNat = n % 256 := by simp [UInt8.toNat_ofNat']
      simp only [leBytes, ofLeBytes, ih hdiv, hmod]
      omega

theorem ofLeBytes_lt (bytes : List UInt8) : ofLeBytes bytes < 256 ^ bytes.length := by
  induction bytes with
  | nil => simp [ofLeBytes]
  | cons b bs ih =>
      have hb := b.toNat_lt
      simp only [ofLeBytes, List.length_cons, Nat.pow_succ]
      omega

theorem leBytes_ofLeBytes (bytes : List UInt8) :
    leBytes bytes.length (ofLeBytes bytes) = bytes := by
  induction bytes with
  | nil => rfl
  | cons b bs ih =>
      have hb := b.toNat_lt
      have hdiv : (b.toNat + 256 * ofLeBytes bs) / 256 = ofLeBytes bs := by omega
      have hmod : UInt8.ofNat (b.toNat + 256 * ofLeBytes bs) = b := by
        apply UInt8.toNat_inj.mp
        simp only [UInt8.toNat_ofNat']
        omega
      simp only [List.length_cons, ofLeBytes, leBytes, hdiv, hmod, ih]

theorem ofLeBytes_append (xs ys : List UInt8) :
    ofLeBytes (xs ++ ys) = ofLeBytes xs + 256 ^ xs.length * ofLeBytes ys := by
  induction xs with
  | nil => simp [ofLeBytes]
  | cons x xs ih =>
      simp only [List.cons_append, ofLeBytes, ih, List.length_cons]
      ring

/-- A reader takes its bytes one after the other and never looks past the value: what follows
does not matter, and is what is left. -/
def Streams {α : Type} (read : List UInt8 → Option (α × List UInt8)) : Prop :=
  ∀ bytes a rest, read bytes = some (a, rest) →
    ∃ used, bytes = used ++ rest ∧ ∀ rest', read (used ++ rest') = some (a, rest')

/-- Reading one thing after the other. -/
theorem Streams.bind {α β : Type} {read : List UInt8 → Option (α × List UInt8)}
    {next : α → List UInt8 → Option (β × List UInt8)} (h : Streams read)
    (hnext : ∀ a, Streams (next a)) :
    Streams fun bytes => (read bytes).bind fun p => next p.1 p.2 := by
  intro bytes b rest hb
  obtain ⟨p, hp, hnb⟩ := Option.bind_eq_some_iff.mp hb
  obtain ⟨used, hbytes, hread⟩ := h _ _ _ hp
  obtain ⟨used', hrest, hread'⟩ := hnext p.1 _ _ _ hnb
  refine ⟨used ++ used', by rw [List.append_assoc, ← hrest, ← hbytes], fun rest' => ?_⟩
  simp only [List.append_assoc, hread, Option.bind_some, hread']

/-- Reading nothing more. -/
theorem Streams.done {α : Type} (a : α) : Streams fun bytes => some (a, bytes) := by
  intro bytes b rest h
  cases h
  exact ⟨[], rfl, fun _ => rfl⟩

/-- Failing. -/
theorem Streams.fail {α : Type} :
    Streams fun _ : List UInt8 => (none : Option (α × List UInt8)) := by
  rintro bytes a rest ⟨⟩

/-- Reading one thing or another. -/
theorem Streams.ite {α : Type} {read read' : List UInt8 → Option (α × List UInt8)} (p : Prop)
    [Decidable p] (h : Streams read) (h' : Streams read') :
    Streams fun bytes => if p then read bytes else read' bytes := by
  by_cases hp : p
  · simp only [if_pos hp]
    exact h
  · simp only [if_neg hp]
    exact h'

/-- Writes values as bytes and reads them back off the front of a byte string. -/
structure Codec (α : Type) where
  /-- the values that can be written -/
  Valid : α → Prop
  encode : α → List UInt8
  decode : List UInt8 → Option (α × List UInt8)
  decode_encode : ∀ {a}, Valid a → ∀ rest, decode (encode a ++ rest) = some (a, rest)
  streams : Streams decode

/-- A codec whose values all take `n` bytes. -/
structure FixedCodec (n : ℕ) (α : Type) where
  Valid : α → Prop
  toBytes : α → List UInt8
  ofBytes : List UInt8 → Option α
  length_toBytes : ∀ a, (toBytes a).length = n
  ofBytes_toBytes : ∀ {a}, Valid a → ofBytes (toBytes a) = some a
  /-- only values that can be written are read -/
  valid_of_ofBytes : ∀ {bytes a}, bytes.length = n → ofBytes bytes = some a → Valid a

namespace FixedCodec

variable {n m : ℕ} {α β : Type}

/-- Read `n` bytes and interpret them. -/
def decode (c : FixedCodec n α) (bytes : List UInt8) : Option (α × List UInt8) :=
  if n ≤ bytes.length then (c.ofBytes (bytes.take n)).map (·, bytes.drop n) else none

theorem decode_toBytes (c : FixedCodec n α) {a : α} (h : c.Valid a) (rest : List UInt8) :
    c.decode (c.toBytes a ++ rest) = some (a, rest) := by
  have hlen := c.length_toBytes a
  rw [decode, if_pos (by rw [List.length_append]; omega), List.take_left' hlen,
    List.drop_left' hlen, c.ofBytes_toBytes h]
  rfl

theorem streams (c : FixedCodec n α) : Streams c.decode := by
  intro bytes a rest h
  simp only [decode] at h
  split at h
  · rename_i hle
    obtain ⟨b, hb, heq⟩ := Option.map_eq_some_iff.mp h
    cases heq
    have hlen : (bytes.take n).length = n := by
      rw [List.length_take]
      omega
    refine ⟨bytes.take n, (List.take_append_drop _ _).symm, fun rest' => ?_⟩
    rw [decode, if_pos (by rw [List.length_append]; omega), List.take_left' hlen,
      List.drop_left' hlen, hb]
    rfl
  · cases h

/-- A fixed codec as a codec. -/
def toCodec (c : FixedCodec n α) : Codec α where
  Valid := c.Valid
  encode := c.toBytes
  decode := c.decode
  decode_encode := c.decode_toBytes
  streams := c.streams

/-- Little-endian integers of `k` bytes. -/
def uint (k : ℕ) : FixedCodec k ℕ where
  Valid n := n < 256 ^ k
  toBytes := leBytes k
  ofBytes bytes := some (ofLeBytes bytes)
  length_toBytes := length_leBytes k
  ofBytes_toBytes h := by rw [ofLeBytes_leBytes h]
  valid_of_ofBytes {bytes a} hlen h := by
    obtain rfl := Option.some.inj h
    rw [← hlen]
    exact ofLeBytes_lt bytes

/-- A byte array of `k` bytes, read as a number. -/
def bits (k : ℕ) : FixedCodec k (BitVec (8 * k)) where
  Valid _ := True
  toBytes v := leBytes k v.toNat
  ofBytes bytes := some (BitVec.ofNat (8 * k) (ofLeBytes bytes))
  length_toBytes v := length_leBytes k v.toNat
  ofBytes_toBytes {v} _ := by
    have hlt : v.toNat < 256 ^ k := by
      have h := v.isLt
      rwa [Nat.pow_mul] at h
    rw [ofLeBytes_leBytes hlt, BitVec.ofNat_toNat, BitVec.setWidth_eq]
  valid_of_ofBytes _ _ := trivial

/-- One value after the other. -/
def prod (c : FixedCodec n α) (c' : FixedCodec m β) : FixedCodec (n + m) (α × β) where
  Valid p := c.Valid p.1 ∧ c'.Valid p.2
  toBytes p := c.toBytes p.1 ++ c'.toBytes p.2
  ofBytes bytes := do
    let a ← c.ofBytes (bytes.take n)
    let b ← c'.ofBytes (bytes.drop n)
    return (a, b)
  length_toBytes p := by rw [List.length_append, c.length_toBytes, c'.length_toBytes]
  ofBytes_toBytes {p} h := by
    have hlen := c.length_toBytes p.1
    rw [List.take_left' hlen, List.drop_left' hlen, c.ofBytes_toBytes h.1,
      c'.ofBytes_toBytes h.2]
    rfl
  valid_of_ofBytes {bytes p} hlen h := by
    simp only [Option.bind_eq_bind, Option.bind_eq_some_iff] at h
    obtain ⟨a, ha, b, hb, heq⟩ := h
    cases heq
    exact ⟨c.valid_of_ofBytes (by rw [List.length_take]; omega) ha,
      c'.valid_of_ofBytes (by rw [List.length_drop]; omega) hb⟩

/-- A value that stands for another. -/
def equiv (c : FixedCodec n α) (e : α ≃ β) : FixedCodec n β where
  Valid b := c.Valid (e.symm b)
  toBytes b := c.toBytes (e.symm b)
  ofBytes bytes := (c.ofBytes bytes).map e
  length_toBytes b := c.length_toBytes _
  ofBytes_toBytes {b} h := by
    rw [c.ofBytes_toBytes h, Option.map_some, e.apply_symm_apply]
  valid_of_ofBytes {bytes b} hlen h := by
    obtain ⟨a, ha, rfl⟩ := Option.map_eq_some_iff.mp h
    rw [e.symm_apply_apply]
    exact c.valid_of_ofBytes hlen ha

/-- A mark that carries nothing. `bytes` is written, and whatever `accepts` is read. -/
def mark (bytes : List UInt8) (accepts : List UInt8 → Bool) (hlen : bytes.length = n)
    (h : accepts bytes = true) : FixedCodec n Unit where
  Valid _ := True
  toBytes _ := bytes
  ofBytes read := if accepts read then some () else none
  length_toBytes _ := hlen
  ofBytes_toBytes _ := if_pos h
  valid_of_ofBytes _ _ := trivial

theorem decode_eq_some_iff {c : FixedCodec n α} {bytes rest : List UInt8} {a : α} :
    c.decode bytes = some (a, rest) ↔
      n ≤ bytes.length ∧ c.ofBytes (bytes.take n) = some a ∧ rest = bytes.drop n := by
  simp only [decode]
  split
  · rename_i hle
    constructor
    · intro h
      obtain ⟨a', ha, heq⟩ := Option.map_eq_some_iff.mp h
      cases heq
      exact ⟨hle, ha, rfl⟩
    · rintro ⟨-, ha, rfl⟩
      rw [ha]
      rfl
  · rename_i hle
    simp only [hle, false_and, reduceCtorEq]

/-- What is read could have been written. -/
theorem valid_of_decode {c : FixedCodec n α} {bytes rest : List UInt8} {a : α}
    (h : c.decode bytes = some (a, rest)) : c.Valid a := by
  obtain ⟨hle, ha, -⟩ := decode_eq_some_iff.mp h
  exact c.valid_of_ofBytes (by rw [List.length_take]; omega) ha

end FixedCodec

namespace Codec

variable {α : Type}

/-- The decoder of a given number of values in a row. -/
def decodeList (c : Codec α) : ℕ → List UInt8 → Option (List α × List UInt8)
  | 0, bytes => some ([], bytes)
  | n + 1, bytes => do
      let (a, bytes) ← c.decode bytes
      let (as, bytes) ← c.decodeList n bytes
      return (a :: as, bytes)

theorem decodeList_encode (c : Codec α) {as : List α} (h : ∀ a ∈ as, c.Valid a)
    (rest : List UInt8) :
    c.decodeList as.length ((as.map c.encode).flatten ++ rest) = some (as, rest) := by
  induction as with
  | nil => rfl
  | cons a as ih =>
      simp only [List.length_cons, decodeList, List.map_cons, List.flatten_cons,
        List.append_assoc, c.decode_encode (h a List.mem_cons_self), Option.bind_eq_bind,
        Option.bind_some, ih fun b hb => h b (List.mem_cons_of_mem _ hb)]
      rfl

theorem decodeList_streams (c : Codec α) (n : ℕ) : Streams (c.decodeList n) := by
  induction n with
  | zero => exact Streams.done []
  | succ n ih => exact c.streams.bind fun a => ih.bind fun as => Streams.done (a :: as)

theorem length_of_decodeList {c : Codec α} {n : ℕ} {bytes rest : List UInt8} {as : List α}
    (h : c.decodeList n bytes = some (as, rest)) : as.length = n := by
  induction n generalizing bytes as with
  | zero =>
      simp only [decodeList, Option.some.injEq, Prod.mk.injEq] at h
      simp [← h.1]
  | succ n ih =>
      simp only [decodeList, Option.bind_eq_bind, Option.bind_eq_some_iff, Prod.exists] at h
      obtain ⟨a, bs, -, as', bs', htail, heq⟩ := h
      cases heq
      rw [List.length_cons, ih htail]

theorem forall_of_decodeList {c : Codec α} {P : α → Prop}
    (hP : ∀ {bytes a rest}, c.decode bytes = some (a, rest) → P a) {n : ℕ}
    {bytes rest : List UInt8} {as : List α}
    (h : c.decodeList n bytes = some (as, rest)) : ∀ a ∈ as, P a := by
  induction n generalizing bytes as with
  | zero =>
      simp only [decodeList, Option.some.injEq, Prod.mk.injEq] at h
      simp [← h.1]
  | succ n ih =>
      simp only [decodeList, Option.bind_eq_bind, Option.bind_eq_some_iff, Prod.exists] at h
      obtain ⟨a, bs, hhead, as', bs', htail, heq⟩ := h
      cases heq
      intro b hb
      rcases List.mem_cons.mp hb with rfl | hb
      · exact hP hhead
      · exact ih htail b hb

end Codec

/-! ### Codecs given by a table -/

/-- No byte string of a table begins with another one. -/
def PrefixFree {α : Type} (table : List (α × List UInt8)) : Prop :=
  table.Pairwise fun x y => ¬ x.2 <+: y.2 ∧ ¬ y.2 <+: x.2

instance {α : Type} (table : List (α × List UInt8)) : Decidable (PrefixFree table) :=
  inferInstanceAs (Decidable (table.Pairwise fun x y => ¬ x.2 <+: y.2 ∧ ¬ y.2 <+: x.2))

namespace Table

variable {α : Type}

/-- The bytes of a value. -/
def encode [DecidableEq α] (table : List (α × List UInt8)) (a : α) : List UInt8 :=
  ((table.find? fun x => x.1 = a).map Prod.snd).getD []

/-- The entry whose bytes come first. -/
def decode (table : List (α × List UInt8)) (bytes : List UInt8) : Option (α × List UInt8) :=
  table.findSome? fun x =>
    if x.2 <+: bytes then some (x.1, bytes.drop x.2.length) else none

/-- In a prefix-free table the bytes of an entry are read as that entry. -/
theorem decode_of_mem {table : List (α × List UInt8)} (h : PrefixFree table)
    {x : α × List UInt8} (hx : x ∈ table) (rest : List UInt8) :
    decode table (x.2 ++ rest) = some (x.1, rest) := by
  induction table with
  | nil => cases hx
  | cons y table ih =>
      obtain ⟨hy, htable⟩ := List.pairwise_cons.mp h
      simp only [decode, List.findSome?_cons]
      rcases List.mem_cons.mp hx with rfl | hx
      · rw [if_pos (List.prefix_append _ _), List.drop_left]
      · have hno : ¬ y.2 <+: x.2 ++ rest := fun hpre =>
          (List.prefix_or_prefix_of_prefix hpre (List.prefix_append _ _)).elim (hy x hx).1
            (hy x hx).2
        rw [if_neg hno]
        exact ih htable hx

/-- What is read is an entry whose bytes come first. -/
theorem mem_of_decode {table : List (α × List UInt8)} {bytes rest : List UInt8} {a : α}
    (h : decode table bytes = some (a, rest)) :
    ∃ x ∈ table, x.1 = a ∧ bytes = x.2 ++ rest := by
  obtain ⟨x, hx, hread⟩ := List.exists_of_findSome?_eq_some h
  split at hread
  · rename_i hpre
    obtain ⟨rest', rfl⟩ := hpre
    rw [List.drop_left] at hread
    cases hread
    exact ⟨x, hx, rfl, rfl⟩
  · cases hread

end Table

/-- The codec of finitely many values with their bytes. -/
def Codec.ofTable {α : Type} [DecidableEq α] (table : List (α × List UInt8))
    (h : PrefixFree table) : Codec α where
  Valid a := a ∈ table.map Prod.fst
  encode := Table.encode table
  decode := Table.decode table
  decode_encode {a} ha rest := by
    obtain ⟨x, hx, rfl⟩ := List.mem_map.mp ha
    have hfound : (table.find? fun y => decide (y.1 = x.1)).isSome :=
      List.find?_isSome.mpr ⟨x, hx, decide_eq_true rfl⟩
    obtain ⟨y, hy⟩ := Option.isSome_iff_exists.mp hfound
    have hya : y.1 = x.1 := by simpa using List.find?_some hy
    rw [Table.encode, hy, ← hya]
    exact Table.decode_of_mem h (List.mem_of_find?_eq_some hy) rest
  streams bytes a rest hread := by
    obtain ⟨x, hx, rfl, rfl⟩ := Table.mem_of_decode hread
    exact ⟨x.2, rfl, Table.decode_of_mem h hx⟩

theorem Codec.ofTable_valid {α : Type} [DecidableEq α] {table : List (α × List UInt8)}
    {h : PrefixFree table} {a : α} :
    (Codec.ofTable table h).Valid a ↔ a ∈ table.map Prod.fst :=
  Iff.rfl

end Frostsnap
