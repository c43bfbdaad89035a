import Mathlib.Algebra.Ring.Parity
import Mathlib.Data.List.Basic
import Mathlib.Data.List.Infix

/-!
# Matching with a progress counter

A stream is searched for a pattern with nothing but the number of its symbols that the last ones
were (`step`). A symbol that does not go on with the pattern puts the counter to zero, also when
the pattern could begin with it. What is found is an occurrence of the
pattern, but not each occurrence is found: one that comes right after a
beginning of the pattern is passed over, together with that beginning, unless that one was passed
over already.

The pattern is a `body` whose first symbol is not in the rest of it, and a last symbol of a kind
that the first one is.

## Main results

* `exists_occurs_of_reported`: what is reported is an occurrence that has just been read.
* `reported_le_iff`: the first occurrence is reported exactly when an even number of beginnings of
  the pattern comes right before it.
-/

namespace Frostsnap

/-- A pattern: `first`, `rest`, and then a symbol that it `accepts`. -/
structure Pattern (α : Type) where
  first : α
  rest : List α
  accepts : α → Bool
  first_not_mem : first ∉ rest
  accepts_first : accepts first

namespace Pattern

variable {α : Type} (P : Pattern α)

def body : List α := P.first :: P.rest

@[simp] theorem length_body : P.body.length = P.rest.length + 1 := rfl

/-- The pattern occurs in a stream right after `before`. -/
def Occurs (stream before : List α) : Prop :=
  ∃ a after, P.accepts a ∧ stream = before ++ P.body ++ a :: after

/-- No occurrence comes before this one. -/
structure OccursFirst (stream before : List α) : Prop where
  occurs : P.Occurs stream before
  first : ∀ before', P.Occurs stream before' → before.length ≤ before'.length

/-! ### Beginnings of the pattern -/

/-- A beginning of the pattern. -/
def IsPartial (x : List α) : Prop := x ≠ [] ∧ x <+: P.body

/-- A stream ends in so many beginnings of the pattern, one right after the other. -/
inductive Partials : ℕ → List α → Prop
  | none {s : List α} (h : ∀ x, P.IsPartial x → ¬ x <:+ s) : Partials 0 s
  | more {n : ℕ} {s x : List α} (h : Partials n s) (hx : P.IsPartial x) :
      Partials (n + 1) (s ++ x)

variable {P}

theorem IsPartial.exists_cons {x : List α} (h : P.IsPartial x) :
    ∃ y, x = P.first :: y ∧ y <+: P.rest := by
  obtain ⟨hne, hpre⟩ := h
  cases x with
  | nil => exact absurd rfl hne
  | cons a y =>
      obtain ⟨rfl, hy⟩ := List.cons_prefix_cons.1 hpre
      exact ⟨y, rfl, hy⟩

theorem isPartial_first : P.IsPartial [P.first] :=
  ⟨List.cons_ne_nil _ _, ⟨P.rest, rfl⟩⟩

/-- A beginning of the pattern does not end in another. -/
theorem IsPartial.eq_of_suffix {x y : List α} (hx : P.IsPartial x) (hy : P.IsPartial y)
    (h : x <:+ y) : x = y := by
  obtain ⟨x', rfl, -⟩ := hx.exists_cons
  obtain ⟨y', rfl, hpre⟩ := hy.exists_cons
  obtain ⟨z, hz⟩ := h
  cases z with
  | nil => exact hz
  | cons b z =>
      obtain ⟨-, rfl⟩ := List.cons.inj hz
      have hmem : P.first ∈ z ++ P.first :: x' :=
        List.mem_append_right z (List.mem_cons_self ..)
      exact absurd (hpre.subset hmem) P.first_not_mem

/-- Only one beginning of the pattern is at the end of a stream. -/
theorem IsPartial.unique {x y s : List α} (hx : P.IsPartial x) (hy : P.IsPartial y)
    (hxs : x <:+ s) (hys : y <:+ s) : x = y := by
  rcases List.suffix_or_suffix_of_suffix hxs hys with h | h
  · exact hx.eq_of_suffix hy h
  · exact (hy.eq_of_suffix hx h).symm

/-- The number of beginnings is determined. -/
theorem Partials.unique {n m : ℕ} {s : List α} (hn : P.Partials n s) (hm : P.Partials m s) :
    n = m := by
  induction hn generalizing m with
  | none h =>
      cases hm with
      | none => rfl
      | more _ hx => exact absurd (List.suffix_append _ _) (h _ hx)
  | @more n s x h hx ih =>
      generalize ht : s ++ x = t at hm
      cases hm with
      | none h' => exact absurd (ht ▸ List.suffix_append s x) (h' x hx)
      | @more m s' y h' hy =>
          have hxy : x = y :=
            hx.unique hy (List.suffix_append s x) (ht ▸ List.suffix_append s' y)
          subst hxy
          obtain rfl := List.append_cancel_right ht
          rw [ih h']

/-- A beginning of the pattern that a symbol goes on with. -/
theorem IsPartial.append {x : List α} {a : α} (h : P.IsPartial x)
    (ha : P.body[x.length]? = some a) : P.IsPartial (x ++ [a]) := by
  refine ⟨List.append_ne_nil_of_right_ne_nil _ (List.cons_ne_nil _ _), ?_⟩
  obtain ⟨z, hz⟩ := h.2
  rw [← hz, List.getElem?_append_right le_rfl, Nat.sub_self] at ha
  cases z with
  | nil => cases ha
  | cons b z =>
      obtain rfl := Option.some.inj ha
      exact ⟨z, by rw [← hz, List.append_assoc]; rfl⟩

/-- After a symbol that goes on with no beginning of the pattern and is none, there is none. -/
theorem partials_zero_of_ne {s : List α} {a : α} (hne : a ≠ P.first)
    (h : ∀ x, P.IsPartial x → x <:+ s → P.body[x.length]? ≠ some a) :
    P.Partials 0 (s ++ [a]) := by
  refine .none fun x hx hsuf => ?_
  obtain ⟨y, rfl, -⟩ := hx.exists_cons
  obtain ⟨z, b, hz⟩ : ∃ z b, P.first :: y = z ++ [b] :=
    ⟨_, _, (List.dropLast_append_getLast (List.cons_ne_nil _ _)).symm⟩
  rw [hz] at hx hsuf
  obtain ⟨t, ht⟩ := hsuf
  rw [← List.append_assoc] at ht
  obtain ⟨hts, hb⟩ := List.append_inj' ht rfl
  obtain rfl := List.head_eq_of_cons_eq hb
  cases z with
  | nil =>
      obtain ⟨rfl, -⟩ := List.cons.inj hz
      exact hne rfl
  | cons c z =>
      have hpre : P.IsPartial (c :: z) :=
        ⟨List.cons_ne_nil _ _, (List.prefix_append _ _).trans hx.2⟩
      refine h _ hpre ⟨t, hts⟩ ?_
      obtain ⟨w, hw⟩ := hx.2
      rw [← hw, List.append_assoc, List.getElem?_append_right le_rfl, Nat.sub_self]
      rfl

/-! ### The counter -/

variable (P)

/-- What the counter is after `read`. Of the beginnings of the pattern that `read` ends in, those
at the odd places are followed and the others are passed over. -/
def Follows (read : List α) (progress : ℕ) : Prop :=
  (∃ n, Even n ∧ P.Partials n read ∧ progress = 0) ∨
    ∃ n s x, Even n ∧ P.Partials n s ∧ P.IsPartial x ∧ read = s ++ x ∧ progress = x.length

variable {P}

theorem follows_nil : P.Follows [] 0 := by
  refine .inl ⟨0, Even.zero, .none fun x hx hsuf => ?_, rfl⟩
  exact hx.1 (List.suffix_nil.1 hsuf)

variable (P) [DecidableEq α]

/-- One symbol; nothing when it completes the pattern. -/
def step (progress : ℕ) (a : α) : Option ℕ :=
  if progress = P.body.length then if P.accepts a then none else some 0
  else if P.body[progress]? = some a then some (progress + 1) else some 0

/-- A stream, up to the symbol that completes the pattern, and what is left of it then. -/
def scan : ℕ → List α → Option ℕ × List α
  | progress, [] => (some progress, [])
  | progress, a :: s =>
      match P.step progress a with
      | none => (none, s)
      | some progress => scan progress s

variable {P}

/-- A symbol that completes the pattern does so. -/
theorem Follows.of_step_none {read : List α} {progress : ℕ} {a : α}
    (h : P.Follows read progress) (hstep : P.step progress a = none) :
    P.accepts a ∧ ∃ before, read = before ++ P.body := by
  rw [step] at hstep
  split at hstep
  · rename_i hlen
    split at hstep
    · rename_i ha
      refine ⟨ha, ?_⟩
      rcases h with ⟨_, -, -, rfl⟩ | ⟨_, s, x, -, -, hx, rfl, rfl⟩
      · cases hlen
      · exact ⟨s, by rw [hx.2.eq_of_length hlen]⟩
    · cases hstep
  · split at hstep <;> cases hstep

/-- The step lemma. -/
theorem Follows.of_step {read : List α} {progress progress' : ℕ} {a : α}
    (h : P.Follows read progress) (hstep : P.step progress a = some progress') :
    P.Follows (read ++ [a]) progress' := by
  rcases h with ⟨n, hn, hpart, rfl⟩ | ⟨n, s, x, hn, hpart, hx, rfl, rfl⟩
  · -- Nothing is followed: a beginning of the pattern is followed from here on.
    rw [step, if_neg (by simp)] at hstep
    by_cases ha : a = P.first
    · subst ha
      obtain rfl : 1 = progress' := by simpa [body] using hstep
      exact .inr ⟨n, read, [P.first], hn, hpart, isPartial_first, rfl, rfl⟩
    · obtain rfl : 0 = progress' := by simpa [body, Ne.symm ha] using hstep
      by_cases hgo : ∃ x, P.IsPartial x ∧ x <:+ read ∧ P.body[x.length]? = some a
      · -- The beginning that is passed over goes on.
        obtain ⟨x, hx, hsuf, hxa⟩ := hgo
        refine .inl ⟨n, hn, ?_, rfl⟩
        cases hpart with
        | none h => exact absurd hsuf (h x hx)
        | @more m s y hm hy =>
            obtain rfl := hx.unique hy hsuf (List.suffix_append s y)
            rw [List.append_assoc]
            exact .more hm (hx.append hxa)
      · push Not at hgo
        exact .inl ⟨0, Even.zero, partials_zero_of_ne ha hgo, rfl⟩
  · have hnext : P.Partials (n + 1) (s ++ x) := hpart.more hx
    have heven : Even (n + 1 + 1) := hn.add_one.add_one
    have hother : ∀ y, P.IsPartial y → y <:+ s ++ x → y = x := fun y hy hsuf =>
      hy.unique hx hsuf (List.suffix_append s x)
    have hover : ∀ (hxa : P.body[x.length]? ≠ some a), P.Follows (s ++ x ++ [a]) 0 := by
      intro hxa
      by_cases ha : a = P.first
      · -- The beginning that was followed ends here, and the next one is passed over.
        subst ha
        exact .inl ⟨n + 1 + 1, heven, hnext.more isPartial_first, rfl⟩
      · refine .inl ⟨0, Even.zero, partials_zero_of_ne ha fun y hy hsuf => ?_, rfl⟩
        rwa [hother y hy hsuf]
    rw [step] at hstep
    split at hstep
    · rename_i hlen
      split at hstep
      · cases hstep
      · obtain rfl := Option.some.inj hstep
        refine hover ?_
        rw [hlen, List.getElem?_eq_none le_rfl]
        exact nofun
    · split at hstep
      · rename_i hxa
        obtain rfl := Option.some.inj hstep
        refine .inr ⟨n, s, x ++ [a], hn, hpart, hx.append hxa, List.append_assoc .., ?_⟩
        rw [List.length_append, List.length_singleton]
      · rename_i hxa
        obtain rfl := Option.some.inj hstep
        exact hover hxa

/-- The run lemma. -/
theorem Follows.of_scan {read s t : List α} {progress progress' : ℕ}
    (h : P.Follows read progress) (hscan : P.scan progress s = (some progress', t)) :
    t = [] ∧ P.Follows (read ++ s) progress' := by
  induction s generalizing read progress with
  | nil =>
      obtain ⟨hp, rfl⟩ := Prod.mk.inj hscan
      obtain rfl := Option.some.inj hp
      exact ⟨rfl, by rwa [List.append_nil]⟩
  | cons a s ih =>
      rw [scan] at hscan
      split at hscan
      · cases hscan
      · rename_i p hstep
        obtain ⟨ht, hfollows⟩ := ih (h.of_step hstep) hscan
        rw [List.append_assoc] at hfollows
        exact ⟨ht, hfollows⟩

/-- **Nothing else is found.** When the pattern is reported, it has just been read. -/
theorem Follows.of_scan_none {read s t : List α} {progress : ℕ}
    (h : P.Follows read progress) (hscan : P.scan progress s = (none, t)) :
    ∃ before a, P.accepts a ∧ read ++ s = before ++ P.body ++ a :: t := by
  induction s generalizing read progress with
  | nil => cases hscan
  | cons a s ih =>
      rw [scan] at hscan
      split at hscan
      · rename_i hstep
        obtain ⟨-, rfl⟩ := Prod.mk.inj hscan
        obtain ⟨ha, before, rfl⟩ := h.of_step_none hstep
        exact ⟨before, a, ha, rfl⟩
      · rename_i p hstep
        obtain ⟨before, b, hb, heq⟩ := ih (h.of_step hstep) hscan
        rw [List.append_assoc] at heq
        exact ⟨before, b, hb, heq⟩

/-- A stream that nothing is reported in, and then more. -/
theorem scan_append {s t : List α} {progress progress' : ℕ}
    (h : P.scan progress s = (some progress', [])) :
    P.scan progress (s ++ t) = P.scan progress' t := by
  induction s generalizing progress with
  | nil =>
      obtain ⟨hp, -⟩ := Prod.mk.inj h
      obtain rfl := Option.some.inj hp
      rfl
  | cons a s ih =>
      rw [List.cons_append, scan]
      rw [scan] at h
      split at h
      · cases h
      · exact ih h

/-- A stream that it is reported in, and then more. -/
theorem scan_append_of_none {s t u : List α} {progress : ℕ}
    (h : P.scan progress s = (none, u)) : P.scan progress (s ++ t) = (none, u ++ t) := by
  induction s generalizing progress with
  | nil => cases h
  | cons a s ih =>
      rw [List.cons_append, scan]
      rw [scan] at h
      split at h
      · obtain ⟨-, rfl⟩ := Prod.mk.inj h
        rfl
      · exact ih h

/-- From nothing on, the body is followed. -/
theorem scan_body : P.scan 0 P.body = (some P.body.length, []) := by
  suffices hfrom : ∀ x y, P.body = x ++ y → P.scan x.length y = (some P.body.length, []) from
    hfrom [] P.body rfl
  intro x y
  induction y generalizing x with
  | nil =>
      intro h
      rw [h, List.append_nil]
      rfl
  | cons a y ih =>
      intro h
      have hget : P.body[x.length]? = some a := by
        rw [h, List.getElem?_append_right le_rfl, Nat.sub_self]
        rfl
      have hne : x.length ≠ P.body.length := by
        rw [h, List.length_append, List.length_cons]
        omega
      have hih := ih (x ++ [a]) (by rw [h, List.append_assoc]; rfl)
      rw [List.length_append, List.length_singleton] at hih
      rw [scan, step, if_neg hne, if_pos hget]
      exact hih

/-- Without the first symbol nothing is followed. -/
theorem scan_of_not_mem {s : List α} (h : P.first ∉ s) : P.scan 0 s = (some 0, []) := by
  induction s with
  | nil => rfl
  | cons a s ih =>
      obtain ⟨hne, hs⟩ := not_or.1 (mt List.mem_cons.2 h)
      have hstep : P.step 0 a = some 0 := by
        rw [step, if_neg (by simp), if_neg]
        simpa [body] using hne
      rw [scan, hstep]
      exact ih hs

/-! ### The first occurrence -/

/-- Before the first occurrence nothing is reported. -/
theorem OccursFirst.exists_scan {stream before : List α} (h : P.OccursFirst stream before) :
    ∃ progress, P.scan 0 before = (some progress, []) ∧ P.Follows before progress := by
  obtain ⟨a, after, -, rfl⟩ := h.occurs
  generalize hscan : P.scan 0 before = result
  obtain ⟨progress, t⟩ := result
  cases progress with
  | none =>
      obtain ⟨before', b, hb, heq⟩ := follows_nil.of_scan_none hscan
      rw [List.nil_append] at heq
      subst heq
      have hle := h.first before' ⟨b, t ++ (P.body ++ a :: after), hb, by simp⟩
      simp only [List.length_append, List.length_cons, length_body] at hle
      omega
  | some progress =>
      obtain ⟨rfl, hfollows⟩ := follows_nil.of_scan hscan
      rw [List.nil_append] at hfollows
      exact ⟨progress, rfl, hfollows⟩

/-- **The first occurrence is found** when its last symbol is read exactly when the stream before it
ends in an even number of beginnings of the pattern, one right after the other. -/
theorem scan_reports_iff {before after : List α} {a : α} (ha : P.accepts a)
    (h : P.OccursFirst (before ++ P.body ++ a :: after) before) :
    (∃ t, P.scan 0 (before ++ P.body ++ [a]) = (none, t)) ↔
      ∃ n, Even n ∧ P.Partials n before := by
  obtain ⟨progress, hscan, hfollows⟩ := h.exists_scan
  rw [List.append_assoc, scan_append hscan]
  rcases hfollows with ⟨n, hn, hpart, rfl⟩ | ⟨n, s, x, hn, hpart, hx, rfl, rfl⟩
  · refine iff_of_true ⟨[], ?_⟩ ⟨n, hn, hpart⟩
    rw [scan_append scan_body, scan, step, if_pos rfl, if_pos ha]
  · refine iff_of_false ?_ ?_
    · -- The first symbol puts an end to the beginning that is followed, and is lost.
      have hfirst : P.step x.length P.first = some 0 := by
        rw [step]
        split
        · rename_i hlen
          -- It would complete a pattern that occurs earlier.
          have hbody : x = P.body := hx.2.eq_of_length hlen
          have hle := h.first s ⟨P.first, P.rest ++ a :: after, P.accepts_first, by
            rw [hbody]; simp [body]⟩
          rw [List.length_append, hlen, length_body] at hle
          omega
        · rw [if_neg]
          intro hget
          obtain ⟨y, rfl, -⟩ := hx.exists_cons
          rw [body, List.length_cons, List.getElem?_cons_succ] at hget
          exact P.first_not_mem (List.mem_of_getElem? hget)
      have hlast : ∃ q, P.step 0 a = some q := by
        rw [step, if_neg (by simp)]
        split
        · exact ⟨_, rfl⟩
        · exact ⟨_, rfl⟩
      obtain ⟨q, hq⟩ := hlast
      have hrest : P.scan x.length (P.body ++ [a]) = (some q, []) := by
        rw [body, List.cons_append, scan, hfirst]
        simp only
        rw [scan_append (scan_of_not_mem P.first_not_mem), scan, hq]
        rfl
      rw [hrest]
      rintro ⟨t, ⟨⟩⟩
    · rintro ⟨m, hm, hpart'⟩
      obtain rfl := hpart'.unique (hpart.more hx)
      exact Nat.not_even_iff_odd.2 (Even.add_one hn) hm

/-! ### What is reported -/

variable (P)

/-- How many symbols of a stream have been read when the pattern is reported. -/
def reportedFrom (progress : ℕ) (stream : List α) : Option ℕ :=
  match P.scan progress stream with
  | (none, t) => some (stream.length - t.length)
  | (some _, _) => none

/-- `reportedFrom`, from the start. -/
def reported (stream : List α) : Option ℕ := P.reportedFrom 0 stream

variable {P}

theorem reportedFrom_of_scan_none {s t : List α} {progress : ℕ}
    (h : P.scan progress s = (none, t)) :
    P.reportedFrom progress s = some (s.length - t.length) := by
  rw [reportedFrom, h]

theorem reportedFrom_of_scan {s t : List α} {progress progress' : ℕ}
    (h : P.scan progress s = (some progress', t)) : P.reportedFrom progress s = none := by
  rw [reportedFrom, h]

theorem mem_reported {stream : List α} {m : ℕ} :
    m ∈ P.reported stream ↔
      ∃ t, P.scan 0 stream = (none, t) ∧ stream.length - t.length = m := by
  rw [reported, reportedFrom]
  split
  · rename_i t hscan
    rw [hscan, Option.mem_some_iff]
    exact ⟨fun h => ⟨t, rfl, h⟩, fun ⟨_, ht, h⟩ => by cases ht; exact h⟩
  · rename_i p t hscan
    rw [hscan]
    exact iff_of_false nofun nofun

/-- What is reported has just been read. -/
theorem exists_occurs_of_reported {stream : List α} {m : ℕ} (h : m ∈ P.reported stream) :
    ∃ before, P.Occurs stream before ∧ m = before.length + P.body.length + 1 := by
  obtain ⟨t, hscan, rfl⟩ := mem_reported.1 h
  obtain ⟨before, a, ha, heq⟩ := follows_nil.of_scan_none hscan
  rw [List.nil_append] at heq
  subst heq
  refine ⟨before, ⟨a, t, ha, rfl⟩, ?_⟩
  simp only [List.length_append, List.length_cons]
  omega

theorem length_lt_of_scan_none {s t : List α} {progress : ℕ}
    (h : P.scan progress s = (none, t)) : t.length < s.length := by
  induction s generalizing progress with
  | nil => cases h
  | cons a s ih =>
      rw [scan] at h
      rw [List.length_cons]
      split at h
      · obtain ⟨-, rfl⟩ := Prod.mk.inj h
        exact Nat.lt_succ_self _
      · exact (ih h).trans (Nat.lt_succ_self _)

/-- The first occurrence is reported no later than when it has been read exactly when the stream
before it ends in an even number of beginnings of the pattern, one right after the other. -/
theorem reported_le_iff {stream before : List α} (h : P.OccursFirst stream before) :
    (∃ m ∈ P.reported stream, m ≤ before.length + P.body.length + 1) ↔
      ∃ n, Even n ∧ P.Partials n before := by
  obtain ⟨a, after, ha, rfl⟩ := h.occurs
  rw [← scan_reports_iff ha h]
  have hstream : before ++ P.body ++ a :: after = before ++ P.body ++ [a] ++ after := by simp
  have hlen : (before ++ P.body ++ [a]).length = before.length + P.body.length + 1 := by
    simp only [List.length_append, List.length_singleton]
  rw [← hlen, hstream]
  generalize hread : before ++ P.body ++ [a] = read
  constructor
  · rintro ⟨m, hm, hle⟩
    obtain ⟨t, hscan, rfl⟩ := mem_reported.1 hm
    generalize hfirst : P.scan 0 read = result
    obtain ⟨progress, u⟩ := result
    cases progress with
    | none => exact ⟨u, rfl⟩
    | some progress =>
        -- It would be reported later.
        obtain ⟨rfl, -⟩ := follows_nil.of_scan hfirst
        rw [scan_append hfirst] at hscan
        have hlt := length_lt_of_scan_none hscan
        rw [List.length_append] at hle
        omega
  · rintro ⟨u, hscan⟩
    refine ⟨_, mem_reported.2 ⟨u ++ after, scan_append_of_none hscan, rfl⟩, ?_⟩
    rw [List.length_append, List.length_append]
    omega

end Pattern

end Frostsnap
