import Mathlib.Tactic.Common

/-!
# Calls that may panic

The result of calling a Rust function is modelled in `Exec α`: the call returns a value, or
it panics. A function that returns a `Result` is modelled in `Exec (Except ε α)`, so an error
the program handles and a panic that ends it stay apart. The firmware is built with
`panic = "abort"`, so a panic is the last thing a run of the device does.

The two lemmas that later proofs peel calls apart with are `Exec.bind_eq_ret_iff` and
`Exec.bind_eq_panic_iff`.
-/

namespace Frostsnap

/-- The outcome of a call: it returns `a`, or panics with the message of the `assert`,
`expect` or `panic!` that fired. -/
inductive Exec (α : Type*) where
  | ret (a : α)
  | panic (msg : String)
  deriving DecidableEq

namespace Exec

variable {α β : Type*}

/-- Sequencing: a panic of the first call is a panic of the whole. -/
def bind (x : Exec α) (f : α → Exec β) : Exec β :=
  match x with
  | ret a => f a
  | panic msg => panic msg

instance : Monad Exec where
  pure := ret
  bind := bind

/-- `pure`, in its simple form. -/
@[simp] theorem pure_eq (a : α) : (pure a : Exec α) = ret a := rfl

/-- The rest goes on with what was returned. -/
@[simp] theorem ret_bind {α β : Type} (a : α) (f : α → Exec β) : (ret a >>= f) = f a := rfl

/-- The rest is never reached. -/
@[simp] theorem panic_bind {α β : Type} (msg : String) (f : α → Exec β) :
    (panic msg >>= f) = panic msg := rfl

instance : LawfulMonad Exec :=
  LawfulMonad.mk' Exec (fun x => by cases x <;> rfl) (fun _ _ => rfl)
    (fun x _ _ => by cases x <;> rfl)

/-- A list of calls that all return. -/
theorem mapM_eq_ret {α β : Type} {f : α → Exec β} {g : α → β} {l : List α}
    (h : ∀ a ∈ l, f a = ret (g a)) : l.mapM f = ret (l.map g) := by
  induction l with
  | nil => rfl
  | cons a l ih =>
      rw [List.mapM_cons, h a (List.mem_cons_self ..), ret_bind,
        ih fun b hb => h b (List.mem_cons_of_mem a hb), ret_bind, pure_eq, List.map_cons]

/-- A loop whose every call returns. -/
theorem foldlM_eq_ret {α β : Type} {f : β → α → Exec β} {g : β → α → β} {l : List α}
    (h : ∀ a ∈ l, ∀ b, f b a = ret (g b a)) (b : β) : l.foldlM f b = ret (l.foldl g b) := by
  induction l generalizing b with
  | nil => rfl
  | cons a l ih =>
      rw [List.foldlM_cons, h a (List.mem_cons_self ..), ret_bind, List.foldl_cons]
      exact ih (fun c hc => h c (List.mem_cons_of_mem a hc)) (g b a)

/-- Inversion of a sequence that returns. -/
theorem bind_eq_ret_iff {α β : Type} {x : Exec α} {f : α → Exec β} {b : β} :
    (x >>= f) = ret b ↔ ∃ a, x = ret a ∧ f a = ret b := by
  cases x with
  | ret a => simp
  | panic msg => simp

/-- Inversion of a sequence that panics. -/
theorem bind_eq_panic_iff {α β : Type} {x : Exec α} {f : α → Exec β} {msg : String} :
    (x >>= f) = panic msg ↔ x = panic msg ∨ ∃ a, x = ret a ∧ f a = panic msg := by
  cases x with
  | ret a => simp
  | panic m => simp

/-- What is returned, if something is. -/
def toOption : Exec α → Option α
  | ret a => some a
  | panic _ => none

/-- What is there was returned. -/
theorem toOption_eq_some_iff {x : Exec α} {a : α} : x.toOption = some a ↔ x = ret a := by
  cases x with
  | ret b => simp [toOption]
  | panic msg => simp [toOption]

/-- The call returns. -/
def Returns (x : Exec α) : Prop := ∃ a, x = ret a

/-- A value was returned. -/
@[simp] theorem returns_ret (a : α) : (ret a).Returns := ⟨a, rfl⟩

/-- A panic returns none. -/
@[simp] theorem not_returns_panic (msg : String) : ¬ (panic msg : Exec α).Returns := by
  rintro ⟨a, h⟩
  cases h

/-- A sequence returns when its first call does and the rest returns on what it gave. -/
theorem returns_bind {α β : Type} {x : Exec α} {f : α → Exec β} :
    (x >>= f).Returns ↔ ∃ a, x = ret a ∧ (f a).Returns := by
  cases x with
  | ret a => simp
  | panic msg => simp

/-- A list of calls returns when each does. -/
theorem returns_mapM_iff {α β : Type} {f : α → Exec β} {l : List α} :
    (l.mapM f).Returns ↔ ∀ a ∈ l, (f a).Returns := by
  induction l with
  | nil => exact iff_of_true (returns_ret _) fun _ h => absurd h List.not_mem_nil
  | cons a l ih =>
      rw [List.mapM_cons, List.forall_mem_cons, ← ih]
      cases f a with
      | panic msg => simp
      | ret b =>
          cases l.mapM f with
          | panic msg => simp
          | ret bs => simp

/-- A list of calls gives as many values. -/
theorem length_of_mapM {α β : Type} {f : α → Exec β} {l : List α} {bs : List β}
    (h : l.mapM f = .ret bs) : bs.length = l.length := by
  induction l generalizing bs with
  | nil =>
      cases h
      rfl
  | cons a l ih =>
      rw [List.mapM_cons] at h
      obtain ⟨b, -, h⟩ := bind_eq_ret_iff.1 h
      obtain ⟨bs', hbs', h⟩ := bind_eq_ret_iff.1 h
      cases h
      rw [List.length_cons, List.length_cons, ih hbs']

/-- A list of calls gives the values of its calls. -/
theorem getElem?_of_mapM {α β : Type} {f : α → Exec β} {l : List α} {bs : List β}
    (h : l.mapM f = .ret bs) {i : ℕ} {a : α} {b : β} (ha : l[i]? = some a)
    (hb : bs[i]? = some b) : f a = .ret b := by
  induction l generalizing bs i with
  | nil => cases ha
  | cons a' l ih =>
      rw [List.mapM_cons] at h
      obtain ⟨b', hb', h⟩ := bind_eq_ret_iff.1 h
      obtain ⟨bs', hbs', h⟩ := bind_eq_ret_iff.1 h
      obtain rfl := Exec.ret.inj h
      cases i with
      | zero =>
          obtain rfl := Option.some.inj ha
          obtain rfl := Option.some.inj hb
          exact hb'
      | succ i => exact ih hbs' ha hb

/-- `Option::expect`. -/
def expect (o : Option α) (msg : String) : Exec α :=
  match o with
  | some a => ret a
  | none => panic msg

/-- What is there is returned. -/
@[simp] theorem expect_some (a : α) (msg : String) : expect (some a) msg = ret a := rfl

/-- What is not there is a panic. -/
@[simp] theorem expect_none (msg : String) : expect (none : Option α) msg = panic msg := rfl

/-- Inversion of `expect`. -/
theorem expect_eq_ret_iff {o : Option α} {msg : String} {a : α} :
    expect o msg = ret a ↔ o = some a := by
  cases o with
  | none => simp
  | some b => simp

/-- `assert!`. -/
def assert (p : Prop) [Decidable p] (msg : String) : Exec Unit :=
  if p then ret () else panic msg

/-- Inversion of `assert`. -/
theorem assert_eq_ret_iff {p : Prop} [Decidable p] {msg : String} {u : Unit} :
    assert p msg = ret u ↔ p := by
  by_cases h : p <;> simp [assert, h]

/-- An assertion that holds. -/
@[simp] theorem assert_of {p : Prop} [Decidable p] (msg : String) (h : p) :
    assert p msg = ret () := if_pos h

/-- An assertion passes exactly when what it asserts holds. -/
theorem returns_assert_bind {β : Type} {p : Prop} [Decidable p] {msg : String}
    {f : Unit → Exec β} : (assert p msg >>= f).Returns ↔ p ∧ (f ()).Returns := by
  rw [returns_bind]
  constructor
  · rintro ⟨u, hassert, hreturns⟩
    exact ⟨assert_eq_ret_iff.1 hassert, hreturns⟩
  · rintro ⟨hp, hreturns⟩
    exact ⟨(), assert_of msg hp, hreturns⟩

/-! ### What holds of every value that is returned -/

/-- If the call returns, then with a value that satisfies `P`. -/
def Always (P : α → Prop) (x : Exec α) : Prop := ∀ a, x = ret a → P a

/-- A value that is returned. -/
theorem always_ret {P : α → Prop} {a : α} (h : P a) : (ret a).Always P := by
  rintro b ⟨⟩
  exact h

/-- Nothing is returned. -/
theorem always_panic {P : α → Prop} (msg : String) : (panic msg : Exec α).Always P := nofun

/-- A sequence is what its first call gives, and then the rest. -/
theorem always_bind {α β : Type} {P : α → Prop} {Q : β → Prop} {x : Exec α} {f : α → Exec β}
    (hx : x.Always P) (hf : ∀ a, P a → (f a).Always Q) : (x >>= f).Always Q := by
  intro b h
  obtain ⟨a, ha, hb⟩ := bind_eq_ret_iff.1 h
  exact hf a (hx a ha) b hb

/-- `always_bind`, when nothing needs to be known of the first value but where it is from. -/
theorem always_bind' {α β : Type} {Q : β → Prop} {x : Exec α} {f : α → Exec β}
    (hf : ∀ a, x = ret a → (f a).Always Q) : (x >>= f).Always Q :=
  always_bind (P := fun a => x = ret a) (fun _ h => h) hf

/-- What holds may be weakened. -/
theorem Always.mono {P Q : α → Prop} {x : Exec α} (h : x.Always P) (hpq : ∀ a, P a → Q a) :
    x.Always Q := fun a ha => hpq a (h a ha)

end Exec

/-- How a program is built: whether `debug_assert!` and the checks for arithmetic overflow are
compiled in. A debug build has them, a release build does not. -/
class Build where
  checks : Bool

/-- A release build. -/
@[reducible]
def Build.release : Build where
  checks := false

namespace Exec

variable {α : Type*} [Build]

/-- `debug_assert!`. -/
def debugAssert (p : Prop) [Decidable p] (msg : String) : Exec Unit :=
  if Build.checks then assert p msg else ret ()

/-- An assertion that holds, compiled in or not. -/
@[simp] theorem debugAssert_of {p : Prop} [Decidable p] (msg : String) (h : p) :
    debugAssert p msg = ret () := by
  cases hb : (Build.checks) with
  | true => rw [debugAssert, hb, if_pos rfl, assert_of msg h]
  | false => rw [debugAssert, hb, if_neg nofun]

/-- A debug assertion passes exactly when it is not compiled in, or what it asserts holds. -/
theorem returns_debugAssert_bind {β : Type} {p : Prop} [Decidable p] {msg : String}
    {f : Unit → Exec β} :
    (debugAssert p msg >>= f).Returns ↔ (Build.checks = true → p) ∧ (f ()).Returns := by
  rw [debugAssert]
  split
  · rename_i hchecks
    rw [returns_assert_bind, imp_iff_right hchecks]
  · rename_i hchecks
    rw [ret_bind]
    exact (and_iff_right fun h => absurd h hchecks).symm

end Exec

end Frostsnap
