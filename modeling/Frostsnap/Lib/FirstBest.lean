import Mathlib.Data.List.Basic
import Mathlib.Order.Basic
import Mathlib.Tactic.Common

/-!
# The first of the best

A loop that keeps the best candidate it has seen, replaces it by a better one only, and stops when
one is good enough. What it ends with is the first candidate of the highest score, where all that
is enough scores the same (`firstBest_eq_some_iff`). The lemmas on `IsFirstBest` say which changes
of the list of candidates keep it.
-/

namespace Frostsnap

variable {α κ : Type}

/-- The loop over candidates: `check` counts the bits of one, or refuses it. -/
def firstBest (check : κ → Option ℕ) (enough : ℕ) : Option (κ × ℕ) → List κ → Option (κ × ℕ)
  | best, [] => best
  | best, key :: l =>
      match check key with
      | none => firstBest check enough best l
      | some bits =>
          if best.all fun (_, prevBits) => prevBits < bits then
            if enough ≤ bits then some (key, bits)
            else firstBest check enough (some (key, bits)) l
          else firstBest check enough best l

/-- The bits of a candidate, counted up to what is enough; zero if it is refused. -/
def score (enough : ℕ) : Option ℕ → ℕ
  | none => 0
  | some bits => min bits enough + 1

@[simp] theorem score_none (enough : ℕ) : score enough none = 0 := rfl

@[simp] theorem score_some (enough bits : ℕ) : score enough (some bits) = min bits enough + 1 := rfl

theorem score_eq_zero_iff {enough : ℕ} {bits : Option ℕ} : score enough bits = 0 ↔ bits = none := by
  cases bits with
  | none => exact ⟨fun _ => rfl, fun _ => rfl⟩
  | some bits => exact ⟨fun h => absurd h (Nat.succ_ne_zero _), fun h => nomatch h⟩

theorem score_le (enough : ℕ) (bits : Option ℕ) : score enough bits ≤ enough + 1 := by
  cases bits with
  | none => exact Nat.zero_le _
  | some bits => exact Nat.succ_le_succ (Nat.min_le_right _ _)

section

variable {check : κ → Option ℕ} {enough : ℕ}

/-- The first candidate in the list with the highest score, which is not refused. -/
structure IsFirstBest (check : κ → Option ℕ) (enough : ℕ) (l : List κ) (key : κ) : Prop where
  checked : (check key).isSome
  best : ∀ k ∈ l, score enough (check k) ≤ score enough (check key)
  first : l.find? (fun k => score enough (check k) == score enough (check key)) = some key

/-- What the loop ends with when it is at `l` with the best candidate so far: that one, if nothing
in `l` is better, or the first of the highest score in `l`. -/
def Scanned (check : κ → Option ℕ) (enough : ℕ) (best : Option (κ × ℕ)) (l : List κ)
    (r : Option (κ × ℕ)) : Prop :=
  (r = best ∧ ∀ k ∈ l, score enough (check k) ≤ score enough (best.map Prod.snd)) ∨
    ∃ key bits, r = some (key, bits) ∧ check key = some bits ∧
      score enough (best.map Prod.snd) < score enough (check key) ∧
      (∀ k ∈ l, score enough (check k) ≤ score enough (check key)) ∧
      l.find? (fun k => score enough (check k) == score enough (check key)) = some key

/-- A candidate that is not better is passed over. -/
theorem Scanned.pass {best r : Option (κ × ℕ)} {k : κ} {l : List κ}
    (h : Scanned check enough best l r)
    (hk : score enough (check k) ≤ score enough (best.map Prod.snd)) :
    Scanned check enough best (k :: l) r := by
  rcases h with ⟨hr, hle⟩ | ⟨key, bits, hr, hbits, hlt, hle, hfind⟩
  · exact .inl ⟨hr, List.forall_mem_cons.2 ⟨hk, hle⟩⟩
  · refine .inr ⟨key, bits, hr, hbits, hlt,
      List.forall_mem_cons.2 ⟨Nat.le_trans hk (Nat.le_of_lt hlt), hle⟩, ?_⟩
    rw [List.find?_cons_of_neg, hfind]
    rw [beq_iff_eq]
    omega

/-- A better candidate is the one to beat. -/
theorem Scanned.take {best r : Option (κ × ℕ)} {k : κ} {bits : ℕ} {l : List κ}
    (h : Scanned check enough (some (k, bits)) l r) (hk : check k = some bits)
    (hlt : score enough (best.map Prod.snd) < score enough (check k)) :
    Scanned check enough best (k :: l) r := by
  rw [Scanned, Option.map_some, ← hk] at h
  rcases h with ⟨hr, hle⟩ | ⟨key, bits', hr, hbits, hlt', hle, hfind⟩
  · exact .inr ⟨k, bits, hr, hk, hlt, List.forall_mem_cons.2 ⟨Nat.le_refl _, hle⟩,
      List.find?_cons_of_pos (beq_self_eq_true (score enough (check k)))⟩
  · refine .inr ⟨key, bits', hr, hbits, Nat.lt_trans hlt hlt',
      List.forall_mem_cons.2 ⟨Nat.le_of_lt hlt', hle⟩, ?_⟩
    rw [List.find?_cons_of_neg, hfind]
    rw [beq_iff_eq]
    omega

/-- Nothing is better than a candidate that is enough. -/
theorem Scanned.stop {best : Option (κ × ℕ)} (l : List κ) {k : κ} {bits : ℕ}
    (hk : check k = some bits) (henough : enough ≤ bits)
    (hlt : score enough (best.map Prod.snd) < score enough (check k)) :
    Scanned check enough best (k :: l) (some (k, bits)) := by
  have hscore : score enough (check k) = enough + 1 := by
    rw [hk, score_some, Nat.min_eq_right henough]
  exact .inr ⟨k, bits, rfl, hk, hlt, fun x _ => hscore ▸ score_le enough _,
    List.find?_cons_of_pos (beq_self_eq_true (score enough (check k)))⟩

theorem scanned_firstBest {best : Option (κ × ℕ)} (hbest : ∀ b ∈ best, b.2 < enough)
    (l : List κ) : Scanned check enough best l (firstBest check enough best l) := by
  induction l generalizing best with
  | nil => exact .inl ⟨rfl, nofun⟩
  | cons k l ih =>
      rw [firstBest]
      cases hk : check k with
      | none => exact (ih hbest).pass (by rw [hk, score_none]; exact Nat.zero_le _)
      | some bits =>
          simp only
          split
          · rename_i hall
            have hlt : score enough (best.map Prod.snd) < score enough (check k) := by
              rw [hk, score_some]
              cases best with
              | none => exact Nat.succ_pos _
              | some b =>
                  have hb : b.2 < enough := hbest b rfl
                  have hbits : b.2 < bits := by simpa using hall
                  rw [Option.map_some, score_some]
                  omega
            split
            · rename_i henough
              exact .stop l hk henough hlt
            · rename_i henough
              refine .take (ih ?_) hk hlt
              rintro b ⟨⟩
              exact Nat.lt_of_not_le henough
          · rename_i hall
            refine (ih hbest).pass ?_
            cases best with
            | none => exact absurd rfl hall
            | some b =>
                have hle : bits ≤ b.2 := by simpa using hall
                rw [hk, Option.map_some, score_some, score_some]
                omega

/-- The loop finds nothing exactly when every candidate is refused. -/
theorem firstBest_eq_none_iff {l : List κ} :
    firstBest check enough none l = none ↔ ∀ k ∈ l, check k = none := by
  constructor
  · intro h k hk
    have hscan : Scanned check enough none l (firstBest check enough none l) :=
      scanned_firstBest (fun b h => absurd h (Option.not_mem_none b)) l
    rw [h] at hscan
    rcases hscan with ⟨-, hle⟩ | ⟨key, bits, hr, -⟩
    · exact score_eq_zero_iff.1 (Nat.le_zero.1 (hle k hk))
    · cases hr
  · intro h
    induction l with
    | nil => rfl
    | cons k l ih =>
        obtain ⟨hk, hl⟩ := List.forall_mem_cons.1 h
        rw [firstBest, hk]
        exact ih hl

namespace IsFirstBest

theorem mem {l : List κ} {key : κ} (h : IsFirstBest check enough l key) : key ∈ l :=
  List.mem_of_find?_eq_some h.first

/-- A list has one first best. -/
theorem unique {l : List κ} {key key' : κ} (h : IsFirstBest check enough l key)
    (h' : IsFirstBest check enough l key') : key = key' := by
  have hscore : score enough (check key) = score enough (check key') :=
    Nat.le_antisymm (h'.best key h.mem) (h.best key' h'.mem)
  have hfirst := h.first
  rw [hscore, h'.first] at hfirst
  exact (Option.some.inj hfirst).symm

end IsFirstBest

/-- **What the loop finds** is the first of the best. -/
theorem firstBest_eq_some_iff {l : List κ} {key : κ} :
    (firstBest check enough none l).map Prod.fst = some key ↔ IsFirstBest check enough l key := by
  have hfound : ∀ key bits, firstBest check enough none l = some (key, bits) →
      IsFirstBest check enough l key := by
    intro key bits h
    have hscan : Scanned check enough none l (firstBest check enough none l) :=
      scanned_firstBest (fun b h => absurd h (Option.not_mem_none b)) l
    rw [h] at hscan
    rcases hscan with ⟨hnone, -⟩ | ⟨k, b, hr, hb, -, hle, hfind⟩
    · cases hnone
    · cases hr
      exact ⟨hb ▸ rfl, hle, hfind⟩
  constructor
  · intro h
    obtain ⟨⟨k, bits⟩, hr, rfl⟩ := Option.map_eq_some_iff.1 h
    exact hfound k bits hr
  · intro h
    cases hr : firstBest check enough none l with
    | none =>
        have hchecked := h.checked
        rw [firstBest_eq_none_iff.1 hr key h.mem] at hchecked
        cases hchecked
    | some e =>
        obtain ⟨k, bits⟩ := e
        rw [Option.map_some, (hfound k bits hr).unique h]

namespace IsFirstBest

theorem exists_find? (check : κ → Option ℕ) (enough : ℕ) {l : List κ} {key : κ} (h : key ∈ l) :
    ∃ b, l.find? (fun k => score enough (check k) == score enough (check key)) = some b :=
  Option.isSome_iff_exists.1 (List.find?_isSome.2 ⟨key, h, by rw [beq_self_eq_true]⟩)

/-- A candidate that is better than all others is the first best. -/
theorem of_dominates {l : List κ} {key : κ} (hchecked : (check key).isSome) (hmem : key ∈ l)
    (hdom : ∀ k ∈ l, k ≠ key → score enough (check k) < score enough (check key)) :
    IsFirstBest check enough l key := by
  have hbest : ∀ k ∈ l, score enough (check k) ≤ score enough (check key) := by
    intro k hk
    by_cases heq : k = key
    · exact Nat.le_of_eq (by rw [heq])
    · exact Nat.le_of_lt (hdom k hk heq)
  refine ⟨hchecked, hbest, ?_⟩
  obtain ⟨b, hb⟩ := exists_find? check enough hmem
  have hscore : score enough (check b) = score enough (check key) :=
    beq_iff_eq.1 (by simpa using List.find?_some hb)
  have heq : b = key := by
    by_contra hne
    exact absurd hscore (Nat.ne_of_lt (hdom b (List.mem_of_find?_eq_some hb) hne))
  rw [hb, heq]

/-- The first best of a list is the first best of a part of it that has it and that it does not
come before, also when other candidates are refused. -/
theorem part {check' : κ → Option ℕ} {pre m post : List κ} {key : κ}
    (h : IsFirstBest check enough (pre ++ m ++ post) key) (hpre : key ∉ pre) (hm : key ∈ m)
    (hsame : check' key = check key) (hless : ∀ k, check' k = check k ∨ check' k = none) :
    IsFirstBest check' enough m key := by
  have hle : ∀ k, score enough (check' k) ≤ score enough (check k) := by
    intro k
    rcases hless k with heq | hnone
    · exact Nat.le_of_eq (by rw [heq])
    · rw [hnone, score_none]
      exact Nat.zero_le _
  have hpos : score enough (check key) ≠ 0 := fun h0 => by
    have hchecked := h.checked
    rw [score_eq_zero_iff.1 h0] at hchecked
    cases hchecked
  refine ⟨hsame ▸ h.checked, fun k hk => ?_, ?_⟩
  · rw [hsame]
    exact Nat.le_trans (hle k) (h.best k (by simp [hk]))
  · -- The first of the score is not in `pre`, so it is the first in `m`.
    have hfirst := h.first
    rw [List.append_assoc, List.find?_append, List.find?_append] at hfirst
    have hnone : pre.find? (fun k => score enough (check k) == score enough (check key)) =
        none := by
      cases hp : pre.find? fun k => score enough (check k) == score enough (check key) with
      | none => rfl
      | some k =>
          rw [hp, Option.some_or, Option.some.injEq] at hfirst
          exact absurd (hfirst ▸ List.mem_of_find?_eq_some hp) hpre
    obtain ⟨b, hb⟩ := exists_find? check enough hm
    rw [hnone, Option.none_or, hb, Option.some_or, Option.some.injEq] at hfirst
    subst hfirst
    obtain ⟨hscore, l₁, l₂, hl, hl₁⟩ := List.find?_eq_some_iff_append.1 hb
    refine List.find?_eq_some_iff_append.2 ⟨beq_self_eq_true _, l₁, l₂, hl, fun k hk => ?_⟩
    have hne := hl₁ k hk
    simp only [Bool.not_eq_true', beq_eq_false_iff_ne] at hne ⊢
    rcases hless k with heq | hnone'
    · rwa [heq, hsame]
    · rw [hnone', hsame, score_none]
      exact Ne.symm hpos

/-- The first best stays when candidates are left out, if what is left out is none of those that
`p` keeps and the first best is only among these. -/
theorem sublist {f : α → κ} {p : α → Bool} {l l' : List α} {key : κ}
    (h : IsFirstBest check enough (l.map f) key) (hsub : l'.Sublist l)
    (hfilter : l'.filter p = l.filter p) (hp : ∀ x ∈ l, f x = key → p x) :
    IsFirstBest check enough (l'.map f) key := by
  refine ⟨h.checked, fun k hk => h.best k ((hsub.map f).subset hk), ?_⟩
  have hfirst := h.first
  have hlen : (l.filter p).length ≤ (l'.filter p).length := Nat.le_of_eq (by rw [hfilter])
  clear h hfilter
  induction hsub with
  | slnil => exact hfirst
  | @cons l' l x hsub ih =>
      obtain ⟨-, hp'⟩ := List.forall_mem_cons.1 hp
      -- What was left out is not kept by `p`, so it is not the first.
      have hx : ¬ p x := by
        intro hx
        rw [List.filter_cons_of_pos hx, List.length_cons] at hlen
        exact absurd (hsub.filter p).length_le (Nat.not_le_of_lt hlen)
      rw [List.filter_cons_of_neg hx] at hlen
      refine ih hp' ?_ hlen
      rw [List.map_cons, List.find?_cons] at hfirst
      split at hfirst
      · exact absurd (hp x (List.mem_cons_self ..) (Option.some.inj hfirst)) hx
      · exact hfirst
  | @cons_cons l' l x hsub ih =>
      obtain ⟨-, hp'⟩ := List.forall_mem_cons.1 hp
      rw [List.map_cons, List.find?_cons] at hfirst ⊢
      split at hfirst
      · exact hfirst
      · refine ih hp' hfirst ?_
        by_cases hx : p x
        · rw [List.filter_cons_of_pos hx, List.filter_cons_of_pos hx] at hlen
          exact Nat.le_of_succ_le_succ hlen
        · rwa [List.filter_cons_of_neg hx, List.filter_cons_of_neg hx] at hlen

end IsFirstBest

end

end Frostsnap
