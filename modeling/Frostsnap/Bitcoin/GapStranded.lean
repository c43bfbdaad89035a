import Frostsnap.Bitcoin.CommitSend
import Frostsnap.Core.NonceStream
import Frostsnap.Lib.GapCrawl

/-!
# Coins that a restore does not find

A restore derives the addresses of a keychain until a gap of unused ones is too wide. `gap_stranded`
of `frostsnap_coordinator/src/bitcoin/send.rs` finds the coins whose address such a restore never
derives, by going through the used indices of each keychain in order.

## Main results

* `gapStranded_returns`: the coins that are returned, for every gap limit.
* `gapStranded_exact`: these are the coins that the crawl of their keychain never reaches, and a
  wider gap strands no more of them.
-/

namespace Frostsnap

namespace Bitcoin

/-- A keychain of a key. -/
abbrev KeychainId := MasterAppkey × BitcoinAccountKeychain

namespace KeychainId

/-- The numbers that keychains are ordered by. -/
def numbers (k : KeychainId) : ℕ × ℕ × ℕ :=
  (k.2.account.kind.toU32, k.2.account.index.toU32, k.2.keychain.toU32)

theorem numbers_inj {k k' : KeychainId} (hkey : k.1 = k'.1) (h : numbers k = numbers k') :
    k = k' := by
  obtain ⟨key, ⟨⟨⟨⟩, ⟨i, hi⟩⟩, keychain⟩⟩ := k
  obtain ⟨key', ⟨⟨⟨⟩, ⟨i', hi'⟩⟩, keychain'⟩⟩ := k'
  obtain ⟨-, hrest⟩ := Prod.mk.inj h
  obtain ⟨hindex, hkeychain⟩ := Prod.mk.inj hrest
  obtain rfl : key = key' := hkey
  obtain rfl : i = i' := hindex
  cases keychain <;> cases keychain' <;> first | rfl | cases hkeychain

instance : Ord KeychainId where
  compare := compareLex (compareOn Prod.fst) (compareLex (compareOn fun k => (numbers k).1)
    (compareLex (compareOn fun k => (numbers k).2.1) (compareOn fun k => (numbers k).2.2)))

instance : Std.TransOrd KeychainId :=
  inferInstanceAs (Std.TransCmp (compareLex (compareOn Prod.fst)
    (compareLex (compareOn fun k : KeychainId => (numbers k).1)
      (compareLex (compareOn fun k => (numbers k).2.1) (compareOn fun k => (numbers k).2.2)))))

instance : Std.LawfulEqOrd KeychainId where
  eq_of_compare {a b} h := by
    have hlex : (compare a.1 b.1).then ((compare (numbers a).1 (numbers b).1).then
        ((compare (numbers a).2.1 (numbers b).2.1).then
          (compare (numbers a).2.2 (numbers b).2.2))) = .eq := h
    simp only [Ordering.then_eq_eq, Std.compare_eq_iff_eq] at hlex
    exact numbers_inj hlex.1 (Prod.ext hlex.2.1 (Prod.ext hlex.2.2.1 hlex.2.2.2))

/-- `key_index_range`: from the external to the internal keychain of a key. -/
def inRange (masterAppkey : MasterAppkey) (k : KeychainId) : Bool :=
  k = (masterAppkey, .external) ∨ k = (masterAppkey, .internal)

end KeychainId

/-- The transaction outputs that are indexed, spent ones too, with the keychain and the index that
each is at. An index is one that is derived. -/
structure KeychainOutpoints where
  entries : List ((KeychainId × ℕ) × OutPoint)
  index_le : ∀ e ∈ entries, e.1.2 ≤ BIP32_MAX_INDEX

/-- `keychain_outpoints_in_range`, of a key. -/
def KeychainOutpoints.ofKey (o : KeychainOutpoints) (masterAppkey : MasterAppkey) :
    List ((KeychainId × ℕ) × OutPoint) :=
  o.entries.filter fun e => KeychainId.inRange masterAppkey e.1.1

/-- The strictest gap limit in common use. -/
abbrev RISKY_GAP : ℕ := 20

/-! ### What is returned -/

namespace gapStranded

/-- The used indices of each keychain. -/
def usedIndices (outpoints : List ((KeychainId × ℕ) × OutPoint)) :
    BTreeMap KeychainId (BTreeSet ℕ) :=
  outpoints.foldl
    (fun used e => used.insert e.1.1 ((used[e.1.1]?.getD ∅).insert e.1.2)) ∅

variable [Build]

/-- One used index: how far the window reaches, and what was not reached. -/
def visit (gap : ℕ) (s : ℕ × BTreeSet ℕ) (index : ℕ) : Exec (ℕ × BTreeSet ℕ) :=
  if index ≤ s.1 then do
    let reach ← addU32 index gap
    return (reach, s.2)
  else return (s.1, s.2.insert index)

/-- The crawl of one keychain. -/
def crawl (gap : ℕ) (indices : BTreeSet ℕ) : Exec (BTreeSet ℕ) := do
  let reach ← subU32 gap 1
  let (_, unreachable) ← indices.toList.foldlM (visit gap) (reach, ∅)
  return unreachable

end gapStranded

/-- `gap_stranded`, with a window of `gap` indices in place of `RISKY_GAP`. -/
def gapStranded [Build] (gap : ℕ) (o : KeychainOutpoints) (masterAppkey : MasterAppkey)
    (coins : List (KeychainId × ℕ)) : Exec (List ℕ) := do
  let used := gapStranded.usedIndices (o.ofKey masterAppkey)
  let stranded ← used.toList.foldlM
    (fun (stranded : BTreeMap KeychainId (BTreeSet ℕ)) (keychain, indices) => do
      return stranded.insert keychain (← gapStranded.crawl gap indices)) ∅
  let positions ← coins.zipIdx.mapM fun ((keychain, index), position) => do
    let unreachable ← Exec.expect stranded[keychain]? "no entry found for key"
    return if index ∈ unreachable then some position else none
  return positions.filterMap id

namespace gapStranded

/-! ### Which indices are used -/

theorem usedIndices_append (outpoints : List ((KeychainId × ℕ) × OutPoint))
    (e : (KeychainId × ℕ) × OutPoint) :
    usedIndices (outpoints ++ [e]) = (usedIndices outpoints).insert e.1.1
      (((usedIndices outpoints)[e.1.1]?.getD ∅).insert e.1.2) := by
  rw [usedIndices, List.foldl_append]
  rfl

/-- An index is used when an output is indexed at it. -/
theorem mem_usedIndices {outpoints : List ((KeychainId × ℕ) × OutPoint)} {k : KeychainId} {i : ℕ} :
    i ∈ (usedIndices outpoints)[k]?.getD ∅ ↔ ∃ outpoint, ((k, i), outpoint) ∈ outpoints := by
  induction outpoints using List.reverseRecOn with
  | nil => exact iff_of_false Std.ExtTreeSet.not_mem_empty fun ⟨_, h⟩ => List.not_mem_nil h
  | append_singleton outpoints e ih =>
      obtain ⟨⟨k', i'⟩, outpoint'⟩ := e
      rw [usedIndices_append, BTreeMap.getElem?_insert]
      simp only [List.mem_append, List.mem_singleton, Prod.mk.injEq, exists_or]
      rw [← ih]
      by_cases hk : k' = k
      · subst hk
        rw [if_pos rfl, Option.getD_some, BTreeSet.mem_insert, or_comm]
        simp
      · rw [if_neg hk]
        simp [Ne.symm hk]

theorem getElem?_usedIndices {outpoints : List ((KeychainId × ℕ) × OutPoint)} {k : KeychainId}
    {i : ℕ} (h : i ∈ (usedIndices outpoints)[k]?.getD ∅) :
    (usedIndices outpoints)[k]? = some ((usedIndices outpoints)[k]?.getD ∅) := by
  cases hk : (usedIndices outpoints)[k]? with
  | none =>
      rw [hk] at h
      exact absurd h Std.ExtTreeSet.not_mem_empty
  | some indices => rfl

/-! ### The crawl -/

/-- What the crawl of one keychain does not reach. -/
def unreachable (gap : ℕ) (indices : BTreeSet ℕ) : BTreeSet ℕ :=
  indices.filter fun i => i ∈ Crawl.unreached gap (gap - 1) indices.toList

theorem sorted_toList (indices : BTreeSet ℕ) : indices.toList.Pairwise (· < ·) :=
  Std.ExtTreeSet.ordered_toList.imp fun h => Nat.compare_eq_lt.1 h

theorem mem_unreachable {gap : ℕ} (hgap : 0 < gap) {indices : BTreeSet ℕ} {i : ℕ} :
    i ∈ unreachable gap indices ↔ i ∈ indices ∧ ¬ Crawl.Reaches gap {u | u ∈ indices} i := by
  have hreach : ∀ j ∈ indices.toList, gap - 1 ≤ j + gap := fun j _ =>
    (Nat.sub_le gap 1).trans (Nat.le_add_left gap j)
  rw [unreachable, BTreeSet.mem_filter, decide_eq_true_iff,
    Crawl.mem_unreached (sorted_toList indices) hreach, Crawl.reaches_iff hgap]
  simp only [Std.ExtTreeSet.mem_toList]
  exact ⟨fun h => h.2, fun h => ⟨h.1, h⟩⟩

variable [Build]

/-- The loop over the used indices, which does not overflow. -/
theorem foldlM_visit {gap reach : ℕ} {indices : List ℕ} (h : ∀ i ∈ indices, i + gap ≤ u32Max)
    (s : BTreeSet ℕ) :
    ∃ reach' s', indices.foldlM (visit gap) (reach, s) = .ret (reach', s') ∧
      ∀ i, i ∈ s' ↔ i ∈ s ∨ i ∈ Crawl.unreached gap reach indices := by
  induction indices generalizing reach s with
  | nil => exact ⟨reach, s, rfl, fun i => by rw [Crawl.unreached]; simp⟩
  | cons j indices ih =>
      have htl : ∀ i ∈ indices, i + gap ≤ u32Max := fun i hi => h i (List.mem_cons_of_mem j hi)
      rw [List.foldlM_cons, visit, Crawl.unreached]
      by_cases hle : j ≤ reach
      · obtain ⟨reach', s', heq, hmem⟩ := @ih (j + gap) htl s
        refine ⟨reach', s', ?_, ?_⟩
        · rw [if_pos hle, addU32_of_le (h j List.mem_cons_self)]
          exact heq
        · rwa [if_pos hle]
      · obtain ⟨reach', s', heq, hmem⟩ := @ih reach htl (s.insert j)
        refine ⟨reach', s', ?_, fun i => ?_⟩
        · rw [if_neg hle]
          exact heq
        · rw [if_neg hle, hmem, BTreeSet.mem_insert, List.mem_cons]
          tauto

theorem crawl_eq {gap : ℕ} (hgap : 0 < gap) (hmax : gap ≤ 2 ^ 31) {indices : BTreeSet ℕ}
    (h : ∀ i ∈ indices, i ≤ BIP32_MAX_INDEX) :
    crawl gap indices = .ret (unreachable gap indices) := by
  have hfits : ∀ i ∈ indices.toList, i + gap ≤ u32Max := by
    intro i hi
    have hle : i ≤ 2 ^ 31 - 1 := h i (Std.ExtTreeSet.mem_toList.1 hi)
    rw [u32Max]
    omega
  obtain ⟨reach', s', heq, hmem⟩ := foldlM_visit hfits ∅
  rw [crawl, subU32_of_le hgap, Exec.ret_bind, heq, Exec.ret_bind]
  have hs' : s' = unreachable gap indices := by
    refine BTreeSet.ext_mem fun i => ?_
    rw [hmem, unreachable, BTreeSet.mem_filter, decide_eq_true_iff]
    constructor
    · rintro (hi | hi)
      · exact absurd hi Std.ExtTreeSet.not_mem_empty
      · refine ⟨?_, hi⟩
        have hreach : ∀ j ∈ indices.toList, gap - 1 ≤ j + gap := fun j _ =>
          (Nat.sub_le gap 1).trans (Nat.le_add_left gap j)
        exact Std.ExtTreeSet.mem_toList.1
          ((Crawl.mem_unreached (sorted_toList indices) hreach).1 hi).1
    · exact fun hi => .inr hi.2
  rw [hs']
  rfl

end gapStranded

/-- The indices of a keychain that are used. -/
def KeychainOutpoints.used (o : KeychainOutpoints) (masterAppkey : MasterAppkey) (k : KeychainId) :
    Set ℕ :=
  {i | ∃ outpoint, ((k, i), outpoint) ∈ o.ofKey masterAppkey}

open Classical in
/-- **What is returned**: the positions of the coins whose index is never reached. -/
theorem gapStranded_returns [Build] {gap : ℕ} (hgap : 0 < gap) (hmax : gap ≤ 2 ^ 31)
    (o : KeychainOutpoints) (masterAppkey : MasterAppkey) {coins : List (KeychainId × ℕ)}
    (hcoins : ∀ coin ∈ coins, coin.2 ∈ o.used masterAppkey coin.1) :
    gapStranded gap o masterAppkey coins = .ret (coins.zipIdx.filterMap fun (coin, position) =>
      if Crawl.Reaches gap (o.used masterAppkey coin.1) coin.2 then none else some position) := by
  let used := gapStranded.usedIndices (o.ofKey masterAppkey)
  have hused : ∀ k i, i ∈ used[k]?.getD ∅ ↔ i ∈ o.used masterAppkey k :=
    fun k i => gapStranded.mem_usedIndices
  have hcrawl : ∀ e ∈ used.toList, ∀ stranded : BTreeMap KeychainId (BTreeSet ℕ),
      (do return stranded.insert e.1 (← gapStranded.crawl gap e.2)) =
        Exec.ret (stranded.insert e.1 (gapStranded.unreachable gap e.2)) := by
    intro e he stranded
    have hget : used[e.1]? = some e.2 := Std.ExtTreeMap.mem_toList_iff_getElem?_eq_some.1 he
    have hle : ∀ i ∈ e.2, i ≤ BIP32_MAX_INDEX := by
      intro i hi
      obtain ⟨outpoint, hmem⟩ := (hused e.1 i).1 (by rw [hget]; exact hi)
      exact o.index_le _ (List.mem_of_mem_filter hmem)
    rw [gapStranded.crawl_eq hgap hmax hle]
    rfl
  rw [gapStranded]
  simp only
  rw [Exec.foldlM_eq_ret hcrawl, Exec.ret_bind]
  have hposition : ∀ c ∈ coins.zipIdx,
      (do
        let unreachable ← Exec.expect
          (used.toList.foldl (fun (stranded : BTreeMap KeychainId (BTreeSet ℕ)) e =>
            stranded.insert e.1 (gapStranded.unreachable gap e.2)) ∅)[c.1.1]?
          "no entry found for key"
        return if c.1.2 ∈ unreachable then some c.2 else none) =
      Exec.ret (if Crawl.Reaches gap (o.used masterAppkey c.1.1) c.1.2 then none
        else some c.2) := by
    rintro ⟨⟨k, i⟩, position⟩ hc
    have hi : i ∈ used[k]?.getD ∅ := (hused k i).2 (hcoins (k, i) (List.fst_mem_of_mem_zipIdx hc))
    have hk : used[k]? = some (used[k]?.getD ∅) := gapStranded.getElem?_usedIndices hi
    have hset : {u | u ∈ used[k]?.getD ∅} = o.used masterAppkey k := Set.ext (hused k)
    rw [BTreeMap.getElem?_foldl_insert_of_mem (v := gapStranded.unreachable gap (used[k]?.getD ∅))
      Prod.fst fun e => gapStranded.unreachable gap e.2]
    · rw [Exec.expect_some, Exec.ret_bind, Exec.pure_eq]
      congr 1
      by_cases hreach : Crawl.Reaches gap (o.used masterAppkey k) i
      · rw [if_pos hreach, if_neg]
        rw [gapStranded.mem_unreachable hgap, hset]
        exact fun h => h.2 hreach
      · rw [if_neg hreach, if_pos]
        rw [gapStranded.mem_unreachable hgap, hset]
        exact ⟨hi, hreach⟩
    · exact ⟨(k, used[k]?.getD ∅), Std.ExtTreeMap.mem_toList_iff_getElem?_eq_some.2 hk, rfl⟩
    · rintro ⟨k', indices⟩ he rfl
      have hget : used[k']? = some indices := Std.ExtTreeMap.mem_toList_iff_getElem?_eq_some.1 he
      rw [hget, Option.getD_some]
  rw [Exec.mapM_eq_ret hposition, Exec.ret_bind, Exec.pure_eq, List.filterMap_map]
  rfl

theorem pairwise_zipIdx {α : Type} (l : List α) : l.zipIdx.Pairwise fun a b => a.2 < b.2 := by
  rw [← List.pairwise_map, List.zipIdx_map_snd]
  exact List.pairwise_lt_range'

/-- **The coins that are stranded**: in order, the coins whose index the crawl of their keychain
never reaches. A wider gap strands no more of them. -/
theorem gapStranded_exact [Build] {gap : ℕ} (hgap : 0 < gap) (hmax : gap ≤ 2 ^ 31)
    (o : KeychainOutpoints) (masterAppkey : MasterAppkey) {coins : List (KeychainId × ℕ)}
    (hcoins : ∀ coin ∈ coins, coin.2 ∈ o.used masterAppkey coin.1) :
    ∃ positions, gapStranded gap o masterAppkey coins = .ret positions ∧
      positions.Pairwise (· < ·) ∧
      (∀ position, position ∈ positions ↔ ∃ coin, coins[position]? = some coin ∧
        ¬ Crawl.Reaches gap (o.used masterAppkey coin.1) coin.2) ∧
      ∀ gap', gap ≤ gap' → gap' ≤ 2 ^ 31 → ∃ positions',
        gapStranded gap' o masterAppkey coins = .ret positions' ∧ positions' ⊆ positions := by
  classical
  have hmem : ∀ gap position, (position ∈ coins.zipIdx.filterMap fun (coin, position) =>
      if Crawl.Reaches gap (o.used masterAppkey coin.1) coin.2 then none else some position) ↔
        ∃ coin, coins[position]? = some coin ∧
          ¬ Crawl.Reaches gap (o.used masterAppkey coin.1) coin.2 := by
    intro gap position
    rw [List.mem_filterMap]
    constructor
    · rintro ⟨⟨coin, i⟩, hcoin, h⟩
      rw [List.mem_zipIdx_iff_getElem?] at hcoin
      dsimp only at h
      split at h
      · cases h
      · rename_i hnot
        obtain rfl := Option.some.inj h
        exact ⟨coin, hcoin, hnot⟩
    · rintro ⟨coin, hcoin, hnot⟩
      exact ⟨(coin, position), List.mem_zipIdx_iff_getElem?.2 hcoin, if_neg hnot⟩
  refine ⟨_, gapStranded_returns hgap hmax o masterAppkey hcoins, ?_, hmem gap, ?_⟩
  · rw [List.pairwise_filterMap]
    refine (pairwise_zipIdx coins).imp ?_
    intro a b hlt i hi j hj
    dsimp only at hi hj
    split at hi
    · cases hi
    · split at hj
      · cases hj
      · obtain rfl := Option.some.inj hi
        obtain rfl := Option.some.inj hj
        exact hlt
  · intro gap' hle hmax'
    refine ⟨_, gapStranded_returns (hgap.trans_le hle) hmax' o masterAppkey hcoins, ?_⟩
    intro position hposition
    obtain ⟨coin, hcoin, hnot⟩ := (hmem gap' position).1 hposition
    exact (hmem gap position).2 ⟨coin, hcoin, fun h => hnot (h.mono hle)⟩

/-- Payments to the first address and to two that are far from it. -/
def sampleOutpoints : KeychainOutpoints where
  entries := [(((7, .external), 0), { txid := 1, vout := 0 }),
    (((7, .external), 45), { txid := 2, vout := 0 }),
    (((7, .external), 50), { txid := 3, vout := 0 })]
  index_le := by decide

/-- The coins at the first address and at the last one. -/
theorem gapStranded_exact_of_sample :
    ∃ positions, @gapStranded .release RISKY_GAP sampleOutpoints 7
        [((7, .external), 0), ((7, .external), 50)] = .ret positions ∧
      positions.Pairwise (· < ·) ∧
      (∀ position, position ∈ positions ↔ ∃ coin,
        [(((7 : MasterAppkey), BitcoinAccountKeychain.external), 0),
          ((7, .external), 50)][position]? = some coin ∧
        ¬ Crawl.Reaches RISKY_GAP (sampleOutpoints.used 7 coin.1) coin.2) ∧
      ∀ gap', RISKY_GAP ≤ gap' → gap' ≤ 2 ^ 31 → ∃ positions',
        @gapStranded .release gap' sampleOutpoints 7
          [((7, .external), 0), ((7, .external), 50)] = .ret positions' ∧
        positions' ⊆ positions := by
  refine @gapStranded_exact .release RISKY_GAP (by decide) (by decide) sampleOutpoints 7 _ ?_
  intro coin hcoin
  rcases List.mem_pair.1 hcoin with rfl | rfl
  · exact ⟨_, List.mem_filter.2 ⟨List.mem_cons_self, decide_eq_true (.inl rfl)⟩⟩
  · exact ⟨_, List.mem_filter.2 ⟨List.mem_of_mem_getLast? rfl, decide_eq_true (.inl rfl)⟩⟩

end Bitcoin

end Frostsnap
