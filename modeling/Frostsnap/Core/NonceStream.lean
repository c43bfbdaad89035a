import Frostsnap.Lib.Exec

/-!
# Nonce stream segments

A device gives the coordinator its public nonces in contiguous runs, the
`NonceStreamSegment`s of a stream. This module embeds `nonce_stream.rs`: how a segment is
cut for a signing request, consumed from the front, and extended with a later one.

Lengths and indices are `u32` or `usize` in the source and `ℕ` here. The arithmetic the
source leaves unchecked is written with `addU32` and `subU32`, which panic in a build with
overflow checks and wrap in one without.
-/

namespace Frostsnap

/-- `u32::MAX`. -/
abbrev u32Max : ℕ := 4294967295

/-- `n as u32`. -/
def asU32 (n : ℕ) : ℕ := n % (u32Max + 1)

/-- Unchecked `u32` addition. -/
def addU32 [Build] (a b : ℕ) : Exec ℕ :=
  if a + b ≤ u32Max then .ret (a + b)
  else if Build.checks then .panic "attempt to add with overflow"
  else .ret (asU32 (a + b))

/-- Unchecked `u32` subtraction. -/
def subU32 [Build] (a b : ℕ) : Exec ℕ :=
  if b ≤ a then .ret (a - b)
  else if Build.checks then .panic "attempt to subtract with overflow"
  else .ret (asU32 (a + (u32Max + 1) - b))

theorem asU32_of_le {n : ℕ} (h : n ≤ u32Max) : asU32 n = n := Nat.mod_eq_of_lt (by omega)

theorem addU32_of_le [Build] {a b : ℕ} (h : a + b ≤ u32Max) : addU32 a b = .ret (a + b) := if_pos h

theorem subU32_of_le [Build] {a b : ℕ} (h : b ≤ a) : subU32 a b = .ret (a - b) := if_pos h

/-- The sixteen bytes that name a nonce stream. -/
abbrev NonceStreamId := BitVec 128

/-- The hash that names a signing session. -/
abbrev SignSessionId := BitVec 256

/-- What the coordinator believes about a nonce stream. -/
structure CoordNonceStreamState where
  streamId : NonceStreamId
  index : ℕ
  remaining : ℕ
  deriving DecidableEq

/-- A contiguous run of public nonces of one stream, starting at `index`. -/
structure NonceStreamSegment (Nonce : Type) where
  streamId : NonceStreamId
  nonces : List Nonce
  index : ℕ
  deriving DecidableEq

/-- The prefix of a segment that a signing request uses, and how many nonces it leaves. -/
structure SigningReqSubSegment (Nonce : Type) where
  segment : NonceStreamSegment Nonce
  remaining : ℕ
  deriving DecidableEq

/-- Why two segments cannot be joined. -/
inductive NonceSegmentIncompatible where
  | streamIdDontMatch
  | overflows
  deriving DecidableEq

variable {Nonce : Type}

/-- The request state a device is sent for a sub segment. -/
def SigningReqSubSegment.coordNonceState (s : SigningReqSubSegment Nonce) :
    CoordNonceStreamState where
  streamId := s.segment.streamId
  index := s.segment.index
  remaining := s.remaining

namespace NonceStreamSegment

/-- When a coordinator makes a signing request it takes a prefix of nonces from the segment,
and tells the device how many remain. -/
def signingReqSubSegment (s : NonceStreamSegment Nonce) (length : ℕ) :
    Option (SigningReqSubSegment Nonce) :=
  if length ≤ s.nonces.length ∧ s.nonces.length - length ≤ u32Max then
    some
      { segment := { streamId := s.streamId, nonces := s.nonces.take length, index := s.index }
        remaining := s.nonces.length - length }
  else none

/-- One past the last index, when it is a `u32`. -/
def indexAfterLast (s : NonceStreamSegment Nonce) : Option ℕ :=
  if s.nonces.length ≤ u32Max ∧ s.index + s.nonces.length ≤ u32Max then
    some (s.index + s.nonces.length)
  else none

/-- The loop of `deleteUpTo`. -/
def popFront : ℕ → NonceStreamSegment Nonce → Bool → NonceStreamSegment Nonce × Bool
  | 0, s, changed => (s, changed)
  | n + 1, s, _ => popFront n { s with nonces := s.nonces.tail, index := s.index + 1 } true

/-- Drop the nonces below an index, and say whether any were dropped. -/
def deleteUpTo [Build] (s : NonceStreamSegment Nonce) (upToButNotIncluding : ℕ) :
    Exec (NonceStreamSegment Nonce × Bool) := do
  let toDelete := upToButNotIncluding - s.index
  Exec.debugAssert (toDelete ≤ s.nonces.length)
    "assertion failed: to_delete as usize <= self.nonces.len()"
  Exec.debugAssert (toDelete + s.index < u32Max)
    "assertion failed: (to_delete as usize + self.index as usize) < u32::MAX as usize"
  return popFront toDelete s false

/-- The nonce at an index. -/
def getNonce (s : NonceStreamSegment Nonce) (index : ℕ) : Option Nonce :=
  if s.index ≤ index then s.nonces[index - s.index]? else none

/-- The first loop of `_extend`: the nonces `other` has below `curr`. -/
def extendFront (other : NonceStreamSegment Nonce) :
    ℕ → NonceStreamSegment Nonce → Exec (NonceStreamSegment Nonce)
  | 0, curr => .ret curr
  | n + 1, curr => do
      let otherNonce ← Exec.expect (other.getNonce (curr.index - 1)) "must exist"
      extendFront other n
        { curr with index := curr.index - 1, nonces := otherNonce :: curr.nonces }

/-- The second loop of `_extend`: the nonces `other` has above `currEnd`. -/
def extendBack (other : NonceStreamSegment Nonce) :
    ℕ → ℕ → NonceStreamSegment Nonce → Exec (NonceStreamSegment Nonce)
  | 0, _, curr => .ret curr
  | n + 1, currEnd, curr => do
      let otherNonce ← Exec.expect (other.getNonce (currEnd + 1)) "must exist"
      extendBack other n (currEnd + 1) { curr with nonces := curr.nonces ++ [otherNonce] }

/-- Whether two segments of one stream touch or overlap. -/
def connects [Build] (self other : NonceStreamSegment Nonce) : Exec Bool :=
  if self.index < other.index then do
    let currEnd ← addU32 self.index (asU32 self.nonces.length)
    return decide (other.index ≤ currEnd)
  else do
    let otherEnd ← addU32 other.index (asU32 other.nonces.length)
    return decide (self.index ≤ otherEnd)

/-- Join a segment with a later one of the same stream. Where they touch or overlap the
result covers both; where they do not, the new one replaces the old. -/
def _extend [Build] (self other : NonceStreamSegment Nonce) :
    Exec (Except NonceSegmentIncompatible (NonceStreamSegment Nonce)) :=
  if self.streamId ≠ other.streamId then .ret (.error .streamIdDontMatch)
  else match other.indexAfterLast with
    | none => .ret (.error .overflows)
    | some otherAfterLast => do
        let connect ← connects self other
        if connect = false ∨ self.nonces = [] then
          -- a shorter segment that touches nothing is a bug of the sender
          if self.nonces.length > other.nonces.length then do
            Exec.debugAssert False "was unable to extend update"
            return .ok self
          else return .ok other
        else
          let newStart := min self.index other.index
          let currAfterLast ← Exec.expect self.indexAfterLast "invariant"
          let currEnd ← subU32 currAfterLast 1
          let otherEnd ← subU32 otherAfterLast 1
          let newEnd := max currEnd otherEnd
          let curr ← extendFront other (self.index - newStart) self
          let curr ← extendBack other (newEnd - currEnd) currEnd curr
          Exec.assert (curr.index = newStart) "should start at the right place now"
          let afterLast ← Exec.expect curr.indexAfterLast
            "called `Option::unwrap()` on a `None` value"
          let last ← subU32 afterLast 1
          Exec.assert (last = newEnd) "should end at the right place now"
          return .ok curr

/-- Extend a segment in place, and say whether it changed. -/
def extend [Build] [DecidableEq Nonce] (self other : NonceStreamSegment Nonce) :
    Exec (Except NonceSegmentIncompatible (NonceStreamSegment Nonce × Bool)) := do
  match ← _extend self other with
  | .error e => return .error e
  | .ok new => return .ok (new, decide (new ≠ self))

/-- Whether `extend` would succeed. -/
def checkCanExtend [Build] (self other : NonceStreamSegment Nonce) :
    Exec (Except NonceSegmentIncompatible Unit) := do
  match ← _extend self other with
  | .error e => return .error e
  | .ok _ => return .ok ()

/-- What `extend` gives: the joined segment, and whether it is another one. -/
theorem extend_eq_ok_iff [Build] [DecidableEq Nonce] {s other new : NonceStreamSegment Nonce}
    {changed : Bool} :
    s.extend other = .ret (.ok (new, changed)) ↔
      _extend s other = .ret (.ok new) ∧ changed = decide (new ≠ s) := by
  simp only [extend, Exec.bind_eq_ret_iff]
  constructor
  · rintro ⟨r, hr, h⟩
    cases r with
    | error e => simp at h
    | ok new' =>
        obtain ⟨rfl, rfl⟩ : new' = new ∧ decide (new' ≠ s) = changed := by simpa using h
        exact ⟨hr, rfl⟩
  · rintro ⟨hr, rfl⟩
    exact ⟨.ok new, hr, rfl⟩

theorem extend_eq_error_iff [Build] [DecidableEq Nonce] {s other : NonceStreamSegment Nonce}
    {e : NonceSegmentIncompatible} :
    s.extend other = .ret (.error e) ↔ _extend s other = .ret (.error e) := by
  simp only [extend, Exec.bind_eq_ret_iff]
  constructor
  · rintro ⟨r, hr, h⟩
    cases r with
    | error e' =>
        obtain rfl : e' = e := by simpa using h
        exact hr
    | ok new => simp at h
  · intro hr
    exact ⟨.error e, hr, rfl⟩

theorem checkCanExtend_eq_ok_iff [Build] {s other : NonceStreamSegment Nonce} :
    s.checkCanExtend other = .ret (.ok ()) ↔ ∃ new, _extend s other = .ret (.ok new) := by
  simp only [checkCanExtend, Exec.bind_eq_ret_iff]
  constructor
  · rintro ⟨r, hr, h⟩
    cases r with
    | error e => simp at h
    | ok new => exact ⟨new, hr⟩
  · rintro ⟨new, hr⟩
    exact ⟨.ok new, hr, rfl⟩

theorem indexAfterLast_eq_some_iff {s : NonceStreamSegment Nonce} {i : ℕ} :
    s.indexAfterLast = some i ↔
      s.index + s.nonces.length ≤ u32Max ∧ i = s.index + s.nonces.length := by
  unfold indexAfterLast
  split
  · rename_i h
    simp only [Option.some.injEq]
    omega
  · simp only [reduceCtorEq, false_iff]
    omega

/-- A segment has only nonces of two others, each at the index it has there. -/
def JoinOf (new s other : NonceStreamSegment Nonce) : Prop :=
  ∀ index nonce, new.getNonce index = some nonce →
    s.getNonce index = some nonce ∨ other.getNonce index = some nonce

theorem JoinOf.refl (s other : NonceStreamSegment Nonce) : JoinOf s s other :=
  fun _ _ => .inl

theorem JoinOf.trans {new mid s other : NonceStreamSegment Nonce} (h : JoinOf new mid other)
    (hmid : JoinOf mid s other) : JoinOf new s other := by
  intro index nonce hnonce
  obtain hnonce | hnonce := h index nonce hnonce
  · exact hmid index nonce hnonce
  · exact .inr hnonce

theorem getNonce_of_index {s : NonceStreamSegment Nonce} {index i : ℕ} (h : index = s.index + i) :
    s.getNonce index = s.nonces[i]? := by
  rw [getNonce, if_pos (by omega), h, Nat.add_sub_cancel_left]

theorem extendFront_spec {other : NonceStreamSegment Nonce} {n : ℕ}
    {curr new : NonceStreamSegment Nonce} (h : extendFront other n curr = .ret new)
    (hn : n ≤ curr.index) :
    new.streamId = curr.streamId ∧ new.index = curr.index - n ∧
      new.index + new.nonces.length = curr.index + curr.nonces.length ∧ JoinOf new curr other := by
  induction n generalizing curr with
  | zero =>
      obtain rfl := Exec.ret.inj h
      exact ⟨rfl, rfl, rfl, .refl _ _⟩
  | succ n ih =>
      obtain ⟨otherNonce, hnonce, h⟩ := Exec.bind_eq_ret_iff.1 h
      rw [Exec.expect_eq_ret_iff] at hnonce
      obtain ⟨hid, hindex, hlast, hjoin⟩ := ih h (by simp only; omega)
      simp only [List.length_cons] at hid hindex hlast
      refine ⟨hid, by omega, by omega, hjoin.trans fun index nonce hget => ?_⟩
      obtain ⟨hle, hget⟩ : curr.index - 1 ≤ index ∧
          (otherNonce :: curr.nonces)[index - (curr.index - 1)]? = some nonce := by
        simpa [getNonce] using hget
      by_cases hfirst : index = curr.index - 1
      · subst hfirst
        obtain rfl : otherNonce = nonce := by simpa using hget
        exact .inr hnonce
      · refine .inl ?_
        rw [getNonce_of_index (i := index - curr.index) (by omega), ← hget,
          ← List.getElem?_cons_succ]
        congr 1
        omega

theorem extendBack_spec {other : NonceStreamSegment Nonce} {n currEnd : ℕ}
    {curr new : NonceStreamSegment Nonce} (h : extendBack other n currEnd curr = .ret new)
    (hend : currEnd + 1 = curr.index + curr.nonces.length) :
    new.streamId = curr.streamId ∧ new.index = curr.index ∧ JoinOf new curr other := by
  induction n generalizing curr currEnd with
  | zero =>
      obtain rfl := Exec.ret.inj h
      exact ⟨rfl, rfl, .refl _ _⟩
  | succ n ih =>
      obtain ⟨otherNonce, hnonce, h⟩ := Exec.bind_eq_ret_iff.1 h
      rw [Exec.expect_eq_ret_iff] at hnonce
      obtain ⟨hid, hindex, hjoin⟩ := ih h (by
        simp only [List.length_append, List.length_singleton]
        omega)
      refine ⟨hid, hindex, hjoin.trans fun index nonce hget => ?_⟩
      obtain ⟨hle, hget⟩ : curr.index ≤ index ∧
          (curr.nonces ++ [otherNonce])[index - curr.index]? = some nonce := by
        simpa [getNonce] using hget
      by_cases hlast : index - curr.index < curr.nonces.length
      · rw [List.getElem?_append_left hlast] at hget
        exact .inl (by rw [getNonce, if_pos hle, hget])
      · rw [List.getElem?_append_right (by omega), List.getElem?_singleton] at hget
        obtain ⟨hzero, rfl⟩ : index - curr.index - curr.nonces.length = 0 ∧ otherNonce = nonce := by
          simpa using hget
        obtain rfl : index = currEnd + 1 := by omega
        exact .inr hnonce

/-- What a segment is joined with another one to. -/
theorem _extend_spec [Build] {s other new : NonceStreamSegment Nonce}
    (h : _extend s other = .ret (.ok new)) :
    new.streamId = s.streamId ∧ (new.index = s.index ∨ new.index = other.index) ∧
      JoinOf new s other := by
  unfold _extend at h
  split at h
  · simp at h
  · rename_i hid
    rw [not_not] at hid
    cases hlast : other.indexAfterLast with
    | none => simp [hlast] at h
    | some otherAfterLast =>
        simp only [hlast] at h
        obtain ⟨connect, -, h⟩ := Exec.bind_eq_ret_iff.1 h
        split at h
        · split at h
          · obtain ⟨-, -, h⟩ := Exec.bind_eq_ret_iff.1 h
            obtain rfl : s = new := by simpa using h
            exact ⟨rfl, .inl rfl, .refl _ _⟩
          · obtain rfl : other = new := by simpa using h
            exact ⟨hid.symm, .inr rfl, fun _ _ => .inr⟩
        · rename_i hconnects
          obtain ⟨currAfterLast, hafter, h⟩ := Exec.bind_eq_ret_iff.1 h
          rw [Exec.expect_eq_ret_iff, indexAfterLast_eq_some_iff] at hafter
          obtain ⟨currEnd, hcurrEnd, h⟩ := Exec.bind_eq_ret_iff.1 h
          obtain ⟨otherEnd, -, h⟩ := Exec.bind_eq_ret_iff.1 h
          obtain ⟨front, hfront, h⟩ := Exec.bind_eq_ret_iff.1 h
          obtain ⟨back, hback, h⟩ := Exec.bind_eq_ret_iff.1 h
          obtain ⟨-, -, h⟩ := Exec.bind_eq_ret_iff.1 h
          obtain ⟨afterLast, hafterLast, h⟩ := Exec.bind_eq_ret_iff.1 h
          obtain ⟨last, -, h⟩ := Exec.bind_eq_ret_iff.1 h
          obtain ⟨-, -, h⟩ := Exec.bind_eq_ret_iff.1 h
          obtain rfl : back = new := by simpa using h
          have hnonempty : 0 < s.nonces.length := by
            rw [List.length_pos_iff]
            exact fun hempty => hconnects (.inr hempty)
          rw [subU32_of_le (by omega)] at hcurrEnd
          have hcurrEnd := Exec.ret.inj hcurrEnd
          obtain ⟨hfrontId, hfrontIndex, hfrontLast, hfrontJoin⟩ :=
            extendFront_spec hfront (by omega)
          obtain ⟨hbackId, hbackIndex, hbackJoin⟩ := extendBack_spec hback (by omega)
          refine ⟨hbackId.trans hfrontId, ?_, hbackJoin.trans hfrontJoin⟩
          omega

theorem popFront_fst (n : ℕ) (s : NonceStreamSegment Nonce) (changed : Bool) :
    (popFront n s changed).1 = { s with nonces := s.nonces.drop n, index := s.index + n } := by
  induction n generalizing s changed with
  | zero => rfl
  | succ n ih => simp only [popFront, ih, List.drop_tail, Nat.add_assoc, Nat.add_comm 1 n]

/-- The nonces below an index are dropped. -/
theorem deleteUpTo_spec [Build] {s new : NonceStreamSegment Nonce} {upTo : ℕ} {changed : Bool}
    (h : s.deleteUpTo upTo = .ret (new, changed)) (hle : s.index ≤ upTo) :
    new = { s with nonces := s.nonces.drop (upTo - s.index), index := upTo } := by
  obtain ⟨-, -, h⟩ := Exec.bind_eq_ret_iff.1 h
  obtain ⟨-, -, h⟩ := Exec.bind_eq_ret_iff.1 h
  have hnew := congrArg Prod.fst (Exec.ret.inj h)
  rw [popFront_fst, Nat.add_sub_cancel' hle] at hnew
  exact hnew.symm

/-- The nonces below an index can be dropped, unless a debug build asserts that it is reached. -/
theorem deleteUpTo_returns_iff [Build] {s : NonceStreamSegment Nonce}
    {upTo : ℕ} (hle : s.index ≤ upTo) :
    (s.deleteUpTo upTo).Returns ↔
      (Build.checks = true → upTo - s.index ≤ s.nonces.length ∧ upTo < u32Max) := by
  rw [deleteUpTo, Exec.returns_debugAssert_bind, Exec.returns_debugAssert_bind,
    Nat.sub_add_cancel hle]
  constructor
  · rintro ⟨hlength, hmax, -⟩ hchecks
    exact ⟨hlength hchecks, hmax hchecks⟩
  · intro h
    exact ⟨fun hchecks => (h hchecks).1, fun hchecks => (h hchecks).2, Exec.returns_ret _⟩

end NonceStreamSegment

end Frostsnap
