import Mathlib

/-!
# Identifiers

The identifiers of `frostsnap_core/src/lib.rs` that devices and coordinators share. Hashes,
scalars and points are byte arrays here: their order, which is the order a `BTreeMap` iterates
in, is that of their big-endian bytes.
-/

namespace Frostsnap

/-- A `BTreeMap`: equal maps have equal entries. -/
abbrev BTreeMap (α β : Type) [Ord α] := Std.ExtTreeMap α β compare

/-- A `BTreeSet`. -/
abbrev BTreeSet (α : Type) [Ord α] := Std.ExtTreeSet α compare

namespace BTreeMap

variable {α β γ : Type} [Ord α] [Std.TransOrd α] [Std.LawfulEqOrd α]

/-- What a key has after an insertion. -/
theorem getElem?_insert (m : BTreeMap α β) (k a : α) (v : β) [DecidableEq α] :
    (m.insert k v)[a]? = if k = a then some v else m[a]? := by
  simp only [Std.ExtTreeMap.getElem?_insert, Std.compare_eq_iff_eq]

/-- What a key has after an erasure. -/
theorem getElem?_erase (m : BTreeMap α β) (k a : α) [DecidableEq α] :
    (m.erase k)[a]? = if k = a then none else m[a]? := by
  simp only [Std.ExtTreeMap.getElem?_erase, Std.compare_eq_iff_eq]

/-- What was inserted is under its key, and the rest was there. -/
theorem getElem?_of_insert [DecidableEq α] {m : BTreeMap α β} {k a : α} {v w : β}
    (h : (m.insert k v)[a]? = some w) : k = a ∧ v = w ∨ m[a]? = some w := by
  rw [getElem?_insert] at h
  split at h
  · rename_i hk
    exact .inl ⟨hk, Option.some.inj h⟩
  · exact .inr h

/-- What is left after erasing was there. -/
theorem getElem?_of_erase [DecidableEq α] {m : BTreeMap α β} {k a : α} {v : β}
    (h : (m.erase k)[a]? = some v) : a ≠ k ∧ m[a]? = some v := by
  rw [getElem?_erase] at h
  split at h
  · cases h
  · rename_i hk
    exact ⟨fun ha => hk ha.symm, h⟩

/-- What a key has after a change of a value. -/
theorem getElem?_modify (m : BTreeMap α β) (k a : α) (f : β → β) [DecidableEq α] :
    (m.modify k f)[a]? = if k = a then m[a]?.map f else m[a]? := by
  simp only [Std.ExtTreeMap.getElem?_modify, Std.compare_eq_iff_eq]
  split
  · rename_i h
    rw [h]
  · rfl

/-- Inserting what is there does nothing. -/
theorem insert_of_getElem? {m : BTreeMap α β} {k : α} {v : β} (h : m[k]? = some v) :
    m.insert k v = m := by
  classical
  refine Std.ExtTreeMap.ext_getElem? fun {a} => ?_
  rw [getElem?_insert]
  split
  · rename_i hk
    rw [← hk, h]
  · rfl

/-- Erasing what is not there does nothing. -/
theorem erase_of_getElem? {m : BTreeMap α β} {k : α} (h : m[k]? = none) : m.erase k = m := by
  classical
  refine Std.ExtTreeMap.ext_getElem? fun {a} => ?_
  rw [getElem?_erase]
  split
  · rename_i hk
    rw [← hk, h]
  · rfl

omit [Std.LawfulEqOrd α] in
/-- A key is there if it has a value. -/
theorem mem_iff_getElem? {m : BTreeMap α β} {k : α} : k ∈ m ↔ ∃ v, m[k]? = some v := by
  rw [Std.ExtTreeMap.mem_iff_isSome_getElem?, Option.isSome_iff_exists]

omit [Std.LawfulEqOrd α] in
/-- A key without a value is not there. -/
theorem not_mem_iff_getElem? {m : BTreeMap α β} {k : α} : k ∉ m ↔ m[k]? = none := by
  rw [Std.ExtTreeMap.mem_iff_isSome_getElem?, Option.not_isSome_iff_eq_none]

theorem mem_insert {m : BTreeMap α β} {k a : α} {v : β} : a ∈ m.insert k v ↔ a = k ∨ a ∈ m := by
  rw [Std.ExtTreeMap.mem_insert, Std.compare_eq_iff_eq, eq_comm]

theorem mem_erase {m : BTreeMap α β} {k a : α} : a ∈ m.erase k ↔ a ≠ k ∧ a ∈ m := by
  rw [Std.ExtTreeMap.mem_erase, Ne, Std.compare_eq_iff_eq, eq_comm]

omit [Std.LawfulEqOrd α] in
/-- The values stand in the order of their keys. -/
theorem values_eq (m : BTreeMap α β) : m.values = m.toList.map Prod.snd := by
  obtain ⟨⟨m⟩⟩ := m
  induction m using Quotient.ind with
  | _ m =>
  have h : m.values = m.foldr (fun _ v values => v :: values) [] := rfl
  show m.values = (Std.DTreeMap.Const.toList m).map Prod.snd
  rw [h, Std.DTreeMap.Const.foldr_eq_foldr_toList, List.map_eq_foldr]

/-- Every value has a key. -/
theorem mem_values {m : BTreeMap α β} {v : β} : v ∈ m.values ↔ ∃ k : α, m[k]? = some v := by
  rw [values_eq, List.mem_map]
  constructor
  · rintro ⟨⟨k, v'⟩, hmem, rfl⟩
    exact ⟨k, Std.ExtTreeMap.mem_toList_iff_getElem?_eq_some.1 hmem⟩
  · rintro ⟨k, hk⟩
    exact ⟨(k, v), Std.ExtTreeMap.mem_toList_iff_getElem?_eq_some.2 hk, rfl⟩

/-- What a key has after a filter. -/
theorem getElem?_filter (m : BTreeMap α β) (f : α → β → Bool) (k : α) :
    (m.filter f)[k]? = m[k]?.filter (f k) := Std.ExtTreeMap.getElem?_filter'

/-- Modifying an entry to what it was under a map is the map of modifying it. -/
theorem map_modify (m : BTreeMap α β) (k : α) {f : β → β} {g : β → γ} {f' : γ → γ}
    (h : ∀ b, g (f b) = f' (g b)) :
    (m.modify k f).map (fun _ => g) = (m.map fun _ => g).modify k f' := by
  classical
  refine Std.ExtTreeMap.ext_getElem? fun {a} => ?_
  simp only [Std.ExtTreeMap.getElem?_map, getElem?_modify]
  split
  · cases m[a]? with
    | none => rfl
    | some b => simp only [Option.map_some, h]
  · rfl

/-- A map of the values, after an insertion. -/
theorem map_insert (m : BTreeMap α β) (k : α) (v : β) (g : β → γ) :
    (m.insert k v).map (fun _ => g) = (m.map fun _ => g).insert k (g v) := by
  classical
  refine Std.ExtTreeMap.ext_getElem? fun {a} => ?_
  simp only [Std.ExtTreeMap.getElem?_map, getElem?_insert]
  split <;> rfl

/-- Modifying what a map forgets does nothing. -/
theorem map_modify_eq (m : BTreeMap α β) (k : α) {f : β → β} {g : β → γ}
    (h : ∀ b, g (f b) = g b) : (m.modify k f).map (fun _ => g) = m.map fun _ => g := by
  classical
  refine Std.ExtTreeMap.ext_getElem? fun {a} => ?_
  simp only [Std.ExtTreeMap.getElem?_map, getElem?_modify]
  split
  · cases m[a]? with
    | none => rfl
    | some b => simp only [Option.map_some, h]
  · rfl

/-- Maps are equal when a map makes them equal, and so are entries that it makes equal. -/
theorem eq_of_map_eq {m m' : BTreeMap α β} {g : β → γ}
    (h : (m.map fun _ => g) = m'.map fun _ => g)
    (hentry : ∀ (k : α) (b b' : β), m[k]? = some b → m'[k]? = some b' → g b = g b' → b = b') :
    m = m' := by
  refine Std.ExtTreeMap.ext_getElem? fun {k} => ?_
  have hk := congrArg (fun t : BTreeMap α γ => t[k]?) h
  simp only [Std.ExtTreeMap.getElem?_map] at hk
  cases hm : m[k]? with
  | none =>
      rw [hm, Option.map_none, eq_comm, Option.map_eq_none_iff] at hk
      exact hk.symm
  | some b =>
      rw [hm, Option.map_some, eq_comm, Option.map_eq_some_iff] at hk
      obtain ⟨b', hm', hg⟩ := hk
      rw [hm', hentry k b b' hm hm' hg.symm]

section FoldInsert

variable (key : γ → α) (value : γ → β)

/-- A key that is not inserted keeps its value. -/
theorem getElem?_foldl_insert_of_ne {l : List γ} {k : α} (h : ∀ c ∈ l, key c ≠ k)
    (m : BTreeMap α β) :
    (l.foldl (fun m c => m.insert (key c) (value c)) m)[k]? = m[k]? := by
  classical
  induction l generalizing m with
  | nil => rfl
  | cons c l ih =>
      rw [List.foldl_cons, ih fun d hd => h d (List.mem_cons_of_mem c hd), getElem?_insert,
        if_neg (h c List.mem_cons_self)]

/-- A key that is inserted with one value only has it. -/
theorem getElem?_foldl_insert_of_mem {l : List γ} {k : α} {v : β} (hmem : ∃ c ∈ l, key c = k)
    (hvalue : ∀ c ∈ l, key c = k → value c = v) (m : BTreeMap α β) :
    (l.foldl (fun m c => m.insert (key c) (value c)) m)[k]? = some v := by
  classical
  induction l generalizing m with
  | nil =>
      obtain ⟨c, hc, -⟩ := hmem
      exact absurd hc List.not_mem_nil
  | cons c l ih =>
      rw [List.foldl_cons]
      have hrest : ∀ d ∈ l, key d = k → value d = v := fun d hd =>
        hvalue d (List.mem_cons_of_mem c hd)
      by_cases hlater : ∃ d ∈ l, key d = k
      · exact ih hlater hrest _
      · -- nothing later has the key, so this is the one that counts
        have hne : ∀ d ∈ l, key d ≠ k := fun d hd heq => hlater ⟨d, hd, heq⟩
        have hc : key c = k := by
          obtain ⟨d, hd, heq⟩ := hmem
          rcases List.mem_cons.1 hd with rfl | hd
          · exact heq
          · exact absurd heq (hne d hd)
        rw [getElem?_foldl_insert_of_ne key value hne, getElem?_insert, if_pos hc,
          hvalue c List.mem_cons_self hc]

end FoldInsert

end BTreeMap

namespace BTreeSet

variable {α : Type} [Ord α] [Std.TransOrd α] [Std.LawfulEqOrd α]

/-- A set is what its elements are. -/
theorem ext_mem {s t : BTreeSet α} (h : ∀ a, a ∈ s ↔ a ∈ t) : s = t :=
  Std.ExtTreeSet.ext_mem h

theorem mem_insert {s : BTreeSet α} {a b : α} : b ∈ s.insert a ↔ b = a ∨ b ∈ s := by
  rw [Std.ExtTreeSet.mem_insert, Std.compare_eq_iff_eq, eq_comm]

theorem mem_erase {s : BTreeSet α} {a b : α} : b ∈ s.erase a ↔ b ≠ a ∧ b ∈ s := by
  rw [Std.ExtTreeSet.mem_erase, Ne, Std.compare_eq_iff_eq, eq_comm]

/-- The elements that are let through. -/
theorem mem_filter {s : BTreeSet α} {f : α → Bool} {a : α} :
    a ∈ s.filter f ↔ a ∈ s ∧ f a = true := by
  rw [← Std.ExtTreeSet.mem_toList, Std.ExtTreeSet.toList_filter, List.mem_filter,
    Std.ExtTreeSet.mem_toList]

/-- Inserting what is there does nothing. -/
theorem insert_of_mem {s : BTreeSet α} {a : α} (h : a ∈ s) : s.insert a = s := by
  refine ext_mem fun b => ?_
  rw [Std.ExtTreeSet.mem_insert, Std.compare_eq_iff_eq]
  constructor
  · rintro (rfl | hb)
    · exact h
    · exact hb
  · exact .inr

/-- Erasing what is not there does nothing. -/
theorem erase_of_not_mem {s : BTreeSet α} {a : α} (h : a ∉ s) : s.erase a = s := by
  refine ext_mem fun b => ?_
  rw [Std.ExtTreeSet.mem_erase, Ne, Std.compare_eq_iff_eq]
  constructor
  · exact And.right
  · intro hb
    refine ⟨?_, hb⟩
    rintro rfl
    exact h hb

end BTreeSet

/-- The compressed encoding of a device's public key. -/
abbrev DeviceId := BitVec 264

/-- The hash of a root key. -/
abbrev KeyId := BitVec 256

/-- The hash of a threshold access structure for a particular key. -/
abbrev AccessStructureId := BitVec 256

/-- A short randomly sampled id for a restoration. -/
abbrev RestorationId := BitVec 128

/-- A short randomly sampled id for a key generation session. -/
abbrev KeygenId := BitVec 128

/-- A short randomly sampled id for a physical backup entry. -/
abbrev EnterPhysicalId := BitVec 128

/-- The index of a share, a scalar. -/
abbrev ShareIndex := BitVec 256

/-- The compressed encoding of a point. -/
abbrev Point := BitVec 264

/-- Identifiers are compared as numbers. Their instances have names, so that each is the same term
in every module. -/
instance DeviceId.transOrd : Std.TransOrd DeviceId := inferInstance

instance DeviceId.lawfulEqOrd : Std.LawfulEqOrd DeviceId := inferInstance

instance DeviceId.lawfulBEq : LawfulBEq DeviceId := inferInstance

instance KeyId.transOrd : Std.TransOrd KeyId := inferInstance

instance KeyId.lawfulEqOrd : Std.LawfulEqOrd KeyId := inferInstance

instance KeyId.lawfulBEq : LawfulBEq KeyId := inferInstance

instance KeygenId.transOrd : Std.TransOrd KeygenId := inferInstance

instance KeygenId.lawfulEqOrd : Std.LawfulEqOrd KeygenId := inferInstance

/-- In case we add access structures with more restricted properties later on. -/
inductive AccessStructureKind where
  | master
  deriving DecidableEq

/-- The bitcoin networks. -/
inductive Network where
  | bitcoin
  | testnet
  | testnet4
  | signet
  | regtest
  deriving DecidableEq

/-- So the coordinator can recognise which keys are relevant to it. -/
inductive KeyPurpose where
  | test
  | bitcoin (network : Network)
  | nostr
  deriving DecidableEq

/-- Uniquely identifies an access structure for a particular key. -/
@[ext]
structure AccessStructureRef where
  keyId : KeyId
  accessStructureId : AccessStructureId
  deriving DecidableEq

namespace AccessStructureRef

instance : Ord AccessStructureRef where
  compare := compareLex (compareOn AccessStructureRef.keyId)
    (compareOn AccessStructureRef.accessStructureId)

instance : Std.TransOrd AccessStructureRef :=
  inferInstanceAs (Std.TransCmp (compareLex (compareOn AccessStructureRef.keyId)
    (compareOn AccessStructureRef.accessStructureId)))

instance : Std.LawfulEqOrd AccessStructureRef where
  eq_of_compare {a b} h := by
    have hlex : (compare a.keyId b.keyId).then
        (compare a.accessStructureId b.accessStructureId) = .eq := h
    rw [Ordering.then_eq_eq, Std.compare_eq_iff_eq, Std.compare_eq_iff_eq] at hlex
    exact AccessStructureRef.ext hlex.1 hlex.2

end AccessStructureRef

/-- The point a share is the secret of, with its index. -/
structure ShareImage where
  index : ShareIndex
  image : Point
  deriving DecidableEq

namespace ShareImage

instance : Ord ShareImage where
  compare := compareLex (compareOn ShareImage.index) (compareOn ShareImage.image)

instance : Std.TransOrd ShareImage :=
  inferInstanceAs (Std.TransCmp (compareLex (compareOn ShareImage.index)
    (compareOn ShareImage.image)))

instance : Std.LawfulEqOrd ShareImage where
  eq_of_compare {a b} h := by
    obtain ⟨index, image⟩ := a
    obtain ⟨index', image'⟩ := b
    have hlex : (compare index index').then (compare image image') = .eq := h
    rw [Ordering.then_eq_eq, Std.compare_eq_iff_eq, Std.compare_eq_iff_eq] at hlex
    rw [hlex.1, hlex.2]

end ShareImage

end Frostsnap
