import Frostsnap.Core.NonceStream

/-!
# Merging nonce segments

What `NonceStreamSegment::extend` makes of two segments of a stream. Where their ranges of indices
touch or overlap it is meant to give the union of the two, and where they do not to keep one of
them.

## Main results

* `extend_merges_iff`: it does, but for the underflow at index `0` and the debug assertion.
-/

namespace Frostsnap.NonceStreamSegment

variable {Nonce : Type}

/-- The ranges of indices touch or overlap: there is no index between them. -/
def Touches (s other : NonceStreamSegment Nonce) : Prop :=
  s.index ≤ other.index + other.nonces.length ∧ other.index ≤ s.index + s.nonces.length

instance (s other : NonceStreamSegment Nonce) : Decidable (Touches s other) :=
  inferInstanceAs (Decidable (_ ∧ _))

/-- A segment is the union of two others, with the nonces of the first one where both have some. -/
structure UnionOf (new s other : NonceStreamSegment Nonce) : Prop where
  streamId : new.streamId = s.streamId
  index : new.index = min s.index other.index
  afterLast : new.index + new.nonces.length =
    max (s.index + s.nonces.length) (other.index + other.nonces.length)
  get : ∀ k, new.getNonce k = (s.getNonce k).or (other.getNonce k)

/-- What a segment is merged with another one to: the union of ranges that touch, and of others
the longer segment. -/
def Merges (new s other : NonceStreamSegment Nonce) : Prop :=
  if Touches s other then UnionOf new s other
  else new = if s.nonces.length > other.nonces.length then s else other

theorem getNonce_eq_none_iff {s : NonceStreamSegment Nonce} {k : ℕ} :
    s.getNonce k = none ↔ k < s.index ∨ s.index + s.nonces.length ≤ k := by
  unfold getNonce
  split
  · rw [List.getElem?_eq_none_iff]
    omega
  · simp only [true_iff]
    omega

/-! ### The loops -/

/-- The first loop takes over what the other segment has below. -/
theorem extendFront_get {other : NonceStreamSegment Nonce} {n : ℕ}
    {curr : NonceStreamSegment Nonce} (hn : n ≤ curr.index)
    (hother : ∀ k, curr.index - n ≤ k → k < curr.index → other.getNonce k ≠ none) :
    ∃ new, extendFront other n curr = .ret new ∧
      (∀ k, curr.index ≤ k → new.getNonce k = curr.getNonce k) ∧
      ∀ k, curr.index - n ≤ k → k < curr.index → new.getNonce k = other.getNonce k := by
  induction n generalizing curr with
  | zero => exact ⟨curr, rfl, fun _ _ => rfl, fun k hle hlt => by omega⟩
  | succ n ih =>
      obtain ⟨nonce, hnonce⟩ :=
        Option.ne_none_iff_exists'.1 (hother (curr.index - 1) (by omega) (by omega))
      set next : NonceStreamSegment Nonce :=
        { curr with index := curr.index - 1, nonces := nonce :: curr.nonces } with hnext
      have hindex : next.index = curr.index - 1 := rfl
      obtain ⟨new, hnew, hcurr, hbelow⟩ := @ih next (by omega) fun k hle hlt =>
        hother k (by omega) (by omega)
      refine ⟨new, ?_, fun k hle => ?_, fun k hle hlt => ?_⟩
      · rw [extendFront, hnonce, Exec.expect_some, Exec.ret_bind]
        exact hnew
      · rw [hcurr k (by omega), @getNonce_of_index _ next k (k - curr.index + 1) (by omega), hnext,
          List.getElem?_cons_succ, getNonce, if_pos hle]
      · rcases Nat.lt_or_ge k (curr.index - 1) with hk | hk
        · exact hbelow k (by omega) (by omega)
        · obtain rfl : k = curr.index - 1 := by omega
          rw [hcurr _ (by omega), @getNonce_of_index _ next _ 0 (by omega), hnonce]
          rfl

/-- The second loop takes over what the other segment has above. -/
theorem extendBack_get {other : NonceStreamSegment Nonce} {n currEnd : ℕ}
    {curr : NonceStreamSegment Nonce} (hend : currEnd + 1 = curr.index + curr.nonces.length)
    (hother : ∀ k, currEnd < k → k ≤ currEnd + n → other.getNonce k ≠ none) :
    ∃ new, extendBack other n currEnd curr = .ret new ∧
      new.index + new.nonces.length = currEnd + 1 + n ∧
      (∀ k, k ≤ currEnd → new.getNonce k = curr.getNonce k) ∧
      ∀ k, currEnd < k → k ≤ currEnd + n → new.getNonce k = other.getNonce k := by
  induction n generalizing curr currEnd with
  | zero => exact ⟨curr, rfl, hend.symm, fun _ _ => rfl, fun k hle hlt => by omega⟩
  | succ n ih =>
      obtain ⟨nonce, hnonce⟩ :=
        Option.ne_none_iff_exists'.1 (hother (currEnd + 1) (by omega) (by omega))
      set next : NonceStreamSegment Nonce :=
        { curr with nonces := curr.nonces ++ [nonce] } with hnext
      have hlength : next.nonces.length = curr.nonces.length + 1 := by
        rw [hnext, List.length_append, List.length_singleton]
      have hindex : next.index = curr.index := rfl
      obtain ⟨new, hnew, hlast, hcurr, habove⟩ := @ih (currEnd + 1) next (by omega)
        fun k hle hlt => hother k (by omega) (by omega)
      refine ⟨new, ?_, by omega, fun k hlt => ?_, fun k hle hlt => ?_⟩
      · rw [extendBack, hnonce, Exec.expect_some, Exec.ret_bind]
        exact hnew
      · rw [hcurr k (by omega)]
        unfold getNonce
        rw [hindex]
        split
        · exact List.getElem?_append_left (by omega)
        · rfl
      · rcases Nat.lt_or_ge (currEnd + 1) k with hk | hk
        · exact habove k (by omega) (by omega)
        · obtain rfl : k = currEnd + 1 := by omega
          rw [hcurr _ (by omega), hnonce,
            @getNonce_of_index _ next _ curr.nonces.length (by omega), hnext,
            List.getElem?_append_right (Nat.le_refl _), Nat.sub_self]
          rfl

/-! ### One merge -/

section Merge

variable [Build] {s other : NonceStreamSegment Nonce} {afterLast otherAfterLast : ℕ}

/-- Segments connect when their ranges touch. -/
theorem connects_eq (hs : s.indexAfterLast = some afterLast)
    (hother : other.indexAfterLast = some otherAfterLast) :
    connects s other = .ret (decide (Touches s other)) := by
  have hadd : ∀ {t : NonceStreamSegment Nonce} {i : ℕ}, t.indexAfterLast = some i →
      addU32 t.index (asU32 t.nonces.length) = .ret (t.index + t.nonces.length) := by
    intro t i ht
    obtain ⟨hle, -⟩ := indexAfterLast_eq_some_iff.1 ht
    rw [asU32_of_le (by omega), addU32_of_le hle]
  unfold connects Touches
  split
  · rename_i hlt
    rw [hadd hs, Exec.ret_bind, Exec.pure_eq]
    congr 1
    exact decide_eq_decide.2 ⟨fun h => ⟨by omega, h⟩, fun h => h.2⟩
  · rename_i hge
    rw [hadd hother, Exec.ret_bind, Exec.pure_eq]
    congr 1
    exact decide_eq_decide.2 ⟨fun h => ⟨h, by omega⟩, fun h => h.1⟩

/-- Segments that touch are joined nonce by nonce, when the last index of the other one can be
computed. -/
theorem _extend_of_touches (hid : s.streamId = other.streamId)
    (hs : s.indexAfterLast = some afterLast) (hother : other.indexAfterLast = some otherAfterLast)
    (htouches : Touches s other) (hnonempty : s.nonces ≠ []) (hlast : 0 < otherAfterLast) :
    ∃ new, _extend s other = .ret (.ok new) ∧ UnionOf new s other := by
  have hpos : 0 < s.nonces.length := List.length_pos_iff.2 hnonempty
  obtain ⟨hsMax, hsEnd⟩ := indexAfterLast_eq_some_iff.1 hs
  obtain ⟨hotherMax, hotherEnd⟩ := indexAfterLast_eq_some_iff.1 hother
  have hconnects := connects_eq hs hother
  obtain ⟨hle, hle'⟩ := htouches
  have hcovers : ∀ k, other.index ≤ k → k < otherAfterLast → other.getNonce k ≠ none := by
    intro k hk hk' hnone
    rw [getNonce_eq_none_iff] at hnone
    omega
  -- both loops find the nonces they need
  obtain ⟨front, hfront, hfrontCurr, hfrontBelow⟩ := @extendFront_get _ other
    (s.index - min s.index other.index) s (by omega) fun k hk hk' => hcovers k (by omega) (by omega)
  obtain ⟨hfrontId, hfrontIndex, hfrontEnd, -⟩ := extendFront_spec hfront (by omega)
  obtain ⟨back, hback, hbackEnd, hbackCurr, hbackAbove⟩ := @extendBack_get _ other
    (max (afterLast - 1) (otherAfterLast - 1) - (afterLast - 1)) (afterLast - 1) front (by omega)
    fun k hk hk' => hcovers k (by omega) (by omega)
  obtain ⟨hbackId, hbackIndex, -⟩ := extendBack_spec hback (by omega)
  refine ⟨back, ?_, hbackId.trans hfrontId, by omega, by omega, fun k => ?_⟩
  · have hbackLast : back.indexAfterLast = some (max afterLast otherAfterLast) :=
      indexAfterLast_eq_some_iff.2 ⟨by omega, by omega⟩
    unfold _extend
    rw [if_neg (not_not.2 hid)]
    simp only [hother, hconnects, Exec.ret_bind]
    rw [if_neg (by simp [Touches, hle, hle', hnonempty])]
    simp only [hs, Exec.expect_some, Exec.ret_bind, subU32_of_le (show 1 ≤ afterLast by omega),
      subU32_of_le (show 1 ≤ otherAfterLast by omega), hfront, hback]
    rw [Exec.assert_of _ (by omega), hbackLast]
    simp only [Exec.expect_some, Exec.ret_bind,
      subU32_of_le (show 1 ≤ max afterLast otherAfterLast by omega)]
    rw [Exec.assert_of _ (by omega)]
    rfl
  · rcases Nat.lt_or_ge k s.index with hk | hk
    · have hnone : s.getNonce k = none := getNonce_eq_none_iff.2 (.inl hk)
      rw [hbackCurr k (by omega), hnone, Option.none_or]
      rcases Nat.lt_or_ge k other.index with hk' | hk'
      · rw [getNonce_eq_none_iff.2 (.inl (by omega)), getNonce_eq_none_iff.2 (.inl hk')]
      · exact hfrontBelow k (by omega) hk
    · rcases Nat.lt_or_ge k afterLast with hk' | hk'
      · have hsome : s.getNonce k ≠ none := by
          rw [Ne, getNonce_eq_none_iff]
          omega
        obtain ⟨nonce, hnonce⟩ := Option.ne_none_iff_exists'.1 hsome
        rw [hbackCurr k (by omega), hfrontCurr k hk, hnonce, Option.some_or]
      · have hnone : s.getNonce k = none := getNonce_eq_none_iff.2 (.inr (by omega))
        rw [hnone, Option.none_or]
        rcases Nat.lt_or_ge k otherAfterLast with hk'' | hk''
        · exact hbackAbove k (by omega) (by omega)
        · rw [getNonce_eq_none_iff.2 (.inr (by omega)), getNonce_eq_none_iff.2 (.inr (by omega))]

/-- An empty segment at index `0` has no last index: the subtraction of its end underflows. -/
theorem _extend_of_underflow (hid : s.streamId = other.streamId)
    (hs : s.indexAfterLast = some afterLast) (hother : other.indexAfterLast = some 0)
    (hnonempty : s.nonces ≠ []) (hstart : s.index = 0) :
    ∃ msg, _extend s other = .panic msg := by
  have hpos : 0 < s.nonces.length := List.length_pos_iff.2 hnonempty
  obtain ⟨hsMax, hsEnd⟩ := indexAfterLast_eq_some_iff.1 hs
  obtain ⟨-, hotherEnd⟩ := indexAfterLast_eq_some_iff.1 hother
  have htouches : Touches s other := ⟨by omega, by omega⟩
  unfold _extend
  rw [if_neg (not_not.2 hid)]
  simp only [hother, connects_eq hs hother, Exec.ret_bind]
  rw [if_neg (by simp [htouches, hnonempty])]
  simp only [hs, Exec.expect_some, Exec.ret_bind, subU32_of_le (show 1 ≤ afterLast by omega)]
  cases hchecks : (Build.checks) with
  | true => exact ⟨_, by rw [subU32, if_neg (by omega), hchecks, if_pos rfl]; rfl⟩
  | false =>
      -- the end wraps to the last index there is, where the segment has no nonce
      have hnone : other.getNonce (afterLast - 1 + 1) = none :=
        getNonce_eq_none_iff.2 (.inr (by omega))
      have hwraps : subU32 0 1 = .ret u32Max := by
        rw [subU32, if_neg (by omega), hchecks]
        rfl
      have hfront : s.index - min s.index other.index = 0 := by omega
      obtain ⟨n, hn⟩ : ∃ n, max (afterLast - 1) u32Max - (afterLast - 1) = n + 1 :=
        ⟨u32Max - afterLast, by omega⟩
      rw [hwraps, Exec.ret_bind, hfront, hn]
      exact ⟨_, by simp only [extendFront, Exec.ret_bind, extendBack, hnone]; rfl⟩

omit [Build] in
/-- An empty segment that touches another one adds nothing to it. -/
theorem unionOf_of_empty (hid : s.streamId = other.streamId) (htouches : Touches s other)
    (hempty : s.nonces = []) : UnionOf other s other := by
  have hlength : s.nonces.length = 0 := List.length_eq_zero_iff.2 hempty
  obtain ⟨hle, hle'⟩ := htouches
  refine ⟨hid.symm, by omega, by omega, fun k => ?_⟩
  have hnone : s.getNonce k = none := getNonce_eq_none_iff.2 (by omega)
  rw [hnone, Option.none_or]

/-- Segments that are not joined: the longer one is kept, which a build with debug assertions does
not allow for the one that is extended. -/
theorem _extend_of_apart (hid : s.streamId = other.streamId)
    (hs : s.indexAfterLast = some afterLast) (hother : other.indexAfterLast = some otherAfterLast)
    (hapart : ¬ Touches s other ∨ s.nonces = []) :
    _extend s other =
      if s.nonces.length > other.nonces.length then
        if Build.checks then .panic "was unable to extend update" else .ret (.ok s)
      else .ret (.ok other) := by
  unfold _extend
  rw [if_neg (not_not.2 hid)]
  simp only [hother, connects_eq hs hother, Exec.ret_bind]
  rw [if_pos (by rwa [decide_eq_false_iff_not])]
  split
  · cases hchecks : (Build.checks) with
    | true => rw [Exec.debugAssert, hchecks]; rfl
    | false => rw [Exec.debugAssert, hchecks]; rfl
  · rfl

/-- The subtraction of the last index of an empty segment at index `0`. -/
def Underflows (s other : NonceStreamSegment Nonce) : Prop :=
  s.index = 0 ∧ s.nonces ≠ [] ∧ other.index = 0 ∧ other.nonces = []

/-- The debug assertion that a segment is not replaced by a shorter one that it does not touch. -/
def FailsAssertion (s other : NonceStreamSegment Nonce) : Prop :=
  Build.checks = true ∧ ¬ Touches s other ∧ other.nonces.length < s.nonces.length

/-- **Two segments are merged**, and it is said whether the first one changed, exactly when neither
the end of the other one underflows nor the debug assertion fails. -/
theorem extend_merges_iff [DecidableEq Nonce] (hid : s.streamId = other.streamId)
    (hs : s.indexAfterLast ≠ none) (hother : other.indexAfterLast ≠ none) :
    (∃ new, s.extend other = .ret (.ok (new, decide (new ≠ s))) ∧ Merges new s other) ↔
      ¬ (Underflows s other ∨ FailsAssertion s other) := by
  obtain ⟨afterLast, hs⟩ := Option.ne_none_iff_exists'.1 hs
  obtain ⟨otherAfterLast, hother⟩ := Option.ne_none_iff_exists'.1 hother
  obtain ⟨-, hotherEnd⟩ := indexAfterLast_eq_some_iff.1 hother
  have hmerges : (∃ new, s.extend other = .ret (.ok (new, decide (new ≠ s))) ∧ Merges new s other) ↔
      ∃ new, _extend s other = .ret (.ok new) ∧ Merges new s other := by
    refine exists_congr fun new => and_congr_left fun _ => ?_
    rw [extend_eq_ok_iff]
    exact and_iff_left rfl
  rw [hmerges]
  by_cases htouches : Touches s other
  · have hassert : ¬ FailsAssertion s other := fun h => h.2.1 htouches
    simp only [Merges, if_pos htouches, hassert, or_false]
    by_cases hempty : s.nonces = []
    · have hlength : s.nonces.length = 0 := List.length_eq_zero_iff.2 hempty
      refine iff_of_true ⟨other, ?_, unionOf_of_empty hid htouches hempty⟩ fun h => h.2.1 hempty
      rw [_extend_of_apart hid hs hother (.inr hempty), if_neg (by omega)]
    · by_cases hunderflows : Underflows s other
      · refine iff_of_false ?_ (not_not.2 hunderflows)
        obtain ⟨hstart, -, hstart', hempty'⟩ := hunderflows
        have hlength : other.nonces.length = 0 := List.length_eq_zero_iff.2 hempty'
        obtain rfl : otherAfterLast = 0 := by omega
        obtain ⟨msg, hpanic⟩ := _extend_of_underflow hid hs hother hempty hstart
        rintro ⟨new, hnew, -⟩
        rw [hpanic] at hnew
        cases hnew
      · refine iff_of_true (_extend_of_touches hid hs hother htouches hempty ?_) hunderflows
        -- the other segment could only end at `0` where it starts
        by_contra hzero
        refine hunderflows ⟨?_, hempty, by omega, List.length_eq_zero_iff.1 (by omega)⟩
        have hle := htouches.1
        omega
  · have hunderflows : ¬ Underflows s other := by
      rintro ⟨hstart, -, hstart', -⟩
      exact htouches ⟨by omega, by omega⟩
    simp only [Merges, hunderflows, false_or, FailsAssertion, htouches,
      not_false_eq_true, true_and]
    rw [_extend_of_apart hid hs hother (.inl htouches)]
    by_cases hlonger : s.nonces.length > other.nonces.length
    · cases hchecks : (Build.checks) with
      | true => simp [hlonger]
      | false => simp [hlonger]
    · simp [hlonger]

end Merge

/-- Two segments that overlap in one index. -/
theorem extend_overlapping :
    ∃ new, @extend ℕ .release _ ⟨7, [1, 2], 3⟩ ⟨7, [2, 5], 4⟩ =
        .ret (.ok (new, decide (new ≠ ⟨7, [1, 2], 3⟩))) ∧
      Merges new ⟨7, [1, 2], 3⟩ ⟨7, [2, 5], 4⟩ := by
  refine (@extend_merges_iff ℕ .release ⟨7, [1, 2], 3⟩ ⟨7, [2, 5], 4⟩ _ rfl (by decide)
    (by decide)).2 ?_
  rintro (⟨h, -⟩ | ⟨h, -⟩)
  · cases h
  · cases h

/-- A stream that has not been used since it was opened, and an empty segment of it: the end of the
segment wraps around, and the nonce that is looked for there does not exist. -/
theorem extend_empty_panics :
    ∃ msg, @extend ℕ .release _ ⟨7, [1], 0⟩ ⟨7, [], 0⟩ = .panic msg := by
  obtain ⟨msg, hpanic⟩ := @_extend_of_underflow ℕ .release ⟨7, [1], 0⟩ ⟨7, [], 0⟩ 1 rfl rfl rfl
    nofun rfl
  exact ⟨msg, Exec.bind_eq_panic_iff.2 (.inl hpanic)⟩

end Frostsnap.NonceStreamSegment
