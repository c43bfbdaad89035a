import Frostsnap.Lib.NorFlash

/-!
# Calls on a NOR flash

A call that works on a flash reads it and issues operations, and each operation takes effect
before the next step of the call. `FlashM α` is such a call: from the flash it starts with,
the operations it issues, in order, and how it ends. Keeping the operations, rather than only
the flash they lead to, is what lets a theorem speak of a crash inside a call.
-/

namespace Frostsnap

/-- The flash operations a call issues, and how it ends. -/
structure FlashTrace (α : Type) where
  ops : List FlashOp
  result : Exec α

/-- A call that reads a flash and issues operations on it. -/
def FlashM (α : Type) := Flash → FlashTrace α

namespace FlashM

variable {α β : Type} {f : Flash}

/-- The second call starts with the flash the first one leaves. -/
def bind (m : FlashM α) (k : α → FlashM β) : FlashM β := fun f =>
  match m f with
  | ⟨ops, .ret a⟩ =>
      let t := k a (f.exec ops)
      ⟨ops ++ t.ops, t.result⟩
  | ⟨ops, .panic msg⟩ => ⟨ops, .panic msg⟩

instance : Monad FlashM where
  pure a := fun _ => ⟨[], .ret a⟩
  bind := bind

/-- Read the flash. -/
def get : FlashM Flash := fun f => ⟨[], .ret f⟩

/-- Issue one operation. -/
def issue (op : FlashOp) : FlashM Unit := fun _ => ⟨[op], .ret ()⟩

/-- Issue operations in order. -/
def issueAll (ops : List FlashOp) : FlashM Unit := fun _ => ⟨ops, .ret ()⟩

/-- A call that does not touch the flash. -/
def lift (x : Exec α) : FlashM α := fun _ => ⟨[], x⟩

/-- The flash a call leaves when it is not interrupted. -/
def after (m : FlashM α) (f : Flash) : Flash := f.exec (m f).ops

/-- The flash that power loss inside a call leaves. -/
def crash (g : FlashGeometry) (m : FlashM α) (f : Flash) (n k : ℕ) : Flash :=
  f.crashAt g (m f).ops n k

/-- Nothing is issued. -/
@[simp] theorem pure_apply (a : α) : (pure a : FlashM α) f = ⟨[], .ret a⟩ := rfl

/-- Nor by what does not use the flash. -/
@[simp] theorem lift_apply (x : Exec α) : lift x f = ⟨[], x⟩ := rfl

/-- One operation. -/
@[simp] theorem issue_apply (op : FlashOp) : issue op f = ⟨[op], .ret ()⟩ := rfl

/-- Several operations. -/
@[simp] theorem issueAll_apply (ops : List FlashOp) : issueAll ops f = ⟨ops, .ret ()⟩ := rfl

/-- Reading issues none. -/
@[simp] theorem get_apply : get f = ⟨[], .ret f⟩ := rfl

/-- Running a sequence whose first call returns. -/
theorem bind_of_ret {m : FlashM α} {k : α → FlashM β} {ops : List FlashOp} {a : α}
    (h : m f = ⟨ops, .ret a⟩) :
    (m >>= k) f = ⟨ops ++ (k a (f.exec ops)).ops, (k a (f.exec ops)).result⟩ := by
  show bind m k f = _
  rw [bind, h]

/-- Running a sequence whose first call panics. -/
theorem bind_of_panic {m : FlashM α} {k : α → FlashM β} {ops : List FlashOp} {msg : String}
    (h : m f = ⟨ops, .panic msg⟩) : (m >>= k) f = ⟨ops, .panic msg⟩ := by
  show bind m k f = _
  rw [bind, h]

/-- Running a sequence whose first call returns without touching the flash. -/
theorem bind_of_pure {m : FlashM α} {k : α → FlashM β} {a : α} (h : m f = ⟨[], .ret a⟩) :
    (m >>= k) f = k a f := by
  rw [bind_of_ret h]
  rfl

/-- What follows starts from the same flash. -/
@[simp] theorem pure_bind_apply (a : α) (k : α → FlashM β) : (pure a >>= k) f = k a f := rfl

/-- It may use what was read. -/
@[simp] theorem get_bind_apply (k : Flash → FlashM β) : (get >>= k) f = k f f := rfl

/-- It goes on with what was returned. -/
@[simp] theorem lift_ret_bind_apply (a : α) (k : α → FlashM β) :
    (lift (.ret a) >>= k) f = k a f := rfl

/-- It is not reached after a panic. -/
@[simp] theorem lift_panic_bind_apply (msg : String) (k : α → FlashM β) :
    (lift (.panic msg) >>= k) f = ⟨[], .panic msg⟩ := rfl

/-- The flash is as it was. -/
@[simp] theorem after_lift (x : Exec α) : (lift x).after f = f := rfl

/-- Reading changes nothing. -/
@[simp] theorem after_get : get.after f = f := rfl

/-- A sequence that returns comes from two calls that return, one after the other. -/
theorem bind_result_eq_ret {m : FlashM α} {k : α → FlashM β} {b : β}
    (h : ((m >>= k) f).result = .ret b) :
    ∃ ops a, m f = ⟨ops, .ret a⟩ ∧ (k a (f.exec ops)).result = .ret b := by
  cases hm : m f with
  | mk ops result =>
      cases result with
      | ret a =>
          rw [bind_of_ret hm] at h
          exact ⟨ops, a, rfl, h⟩
      | panic msg =>
          rw [bind_of_panic hm] at h
          cases h

/-- The flash a sequence leaves. -/
theorem after_bind_of_ret {m : FlashM α} {k : α → FlashM β} {ops : List FlashOp} {a : α}
    (h : m f = ⟨ops, .ret a⟩) : (m >>= k).after f = (k a).after (m.after f) := by
  simp only [after, bind_of_ret h, h, Flash.exec_append]

/-- A sequence that returns: the rest of it returns, from the flash that the first call leaves,
and leaves what the whole leaves. -/
theorem bind_returns {m : FlashM α} {k : α → FlashM β} {b : β}
    (h : ((m >>= k) f).result = .ret b) :
    ∃ a, (m f).result = .ret a ∧ (k a (m.after f)).result = .ret b ∧
      (m >>= k).after f = (k a).after (m.after f) := by
  obtain ⟨ops, a, hm, hk⟩ := bind_result_eq_ret h
  have hafter : m.after f = f.exec ops := by rw [after, hm]
  refine ⟨a, by rw [hm], ?_, after_bind_of_ret hm⟩
  rw [hafter]
  exact hk

/-- A second call that issues nothing adds nothing. -/
theorem ops_bind {m : FlashM α} {k : α → FlashM β} (h : ∀ a f', (k a f').ops = []) :
    ((m >>= k) f).ops = (m f).ops := by
  cases hm : m f with
  | mk ops result =>
      cases result with
      | ret a => simp only [bind_of_ret hm, h, List.append_nil]
      | panic msg => simp only [bind_of_panic hm]

/-- A crash inside a sequence is inside its first call, or after it inside the second. -/
theorem crash_bind_of_ret {g : FlashGeometry} {m : FlashM α} {k : α → FlashM β}
    {ops : List FlashOp} {a : α} (h : m f = ⟨ops, .ret a⟩) (n j : ℕ) :
    (m >>= k).crash g f n j =
      if n < ops.length then m.crash g f n j
      else (k a).crash g (f.exec ops) (n - ops.length) j := by
  simp only [crash, bind_of_ret h, h, Flash.crashAt_append]

/-! ### Calls that stay inside a region -/

/-- Whatever the flash holds, the call changes nothing outside a region. -/
def Confined (start stop : ℕ) (m : FlashM α) : Prop :=
  ∀ f : Flash, ∀ op ∈ (m f).ops, op.Within start stop

variable {start stop : ℕ}

/-- What issues nothing stays in any region. -/
theorem confined_of_nil {m : FlashM α} (h : ∀ f, (m f).ops = []) : m.Confined start stop := by
  intro f op hmem
  rw [h f] at hmem
  cases hmem

/-- A value. -/
theorem confined_pure (a : α) : (pure a : FlashM α).Confined start stop :=
  confined_of_nil fun _ => rfl

/-- What does not use the flash. -/
theorem confined_lift (x : Exec α) : (lift x).Confined start stop := confined_of_nil fun _ => rfl

/-- Reading. -/
theorem confined_get : get.Confined start stop := confined_of_nil fun _ => rfl

/-- An operation of the region. -/
theorem confined_issue {op : FlashOp} (h : op.Within start stop) :
    (issue op).Confined start stop := by
  intro f op' hmem
  obtain rfl := List.mem_singleton.mp hmem
  exact h

/-- A sequence stays inside when its first call does, and the rest on what it gives. -/
theorem Confined.bind {m : FlashM α} {k : α → FlashM β} (hm : m.Confined start stop)
    (hk : ∀ f ops a, m f = ⟨ops, .ret a⟩ → (k a).Confined start stop) :
    (m >>= k).Confined start stop := by
  intro f op hmem
  rcases hrun : m f with ⟨ops, a | msg⟩
  · rw [bind_of_ret hrun] at hmem
    rcases List.mem_append.mp hmem with hmem | hmem
    · exact hm f op (by rw [hrun]; exact hmem)
    · exact hk f ops a hrun _ op hmem
  · rw [bind_of_panic hrun] at hmem
    exact hm f op (by rw [hrun]; exact hmem)

/-- `Confined.bind`, when nothing needs to be known of the value but its type. -/
theorem Confined.bind' {m : FlashM α} {k : α → FlashM β} (hm : m.Confined start stop)
    (hk : ∀ a, (k a).Confined start stop) : (m >>= k).Confined start stop :=
  hm.bind fun _ _ a _ => hk a

/-! ### Calls that may be interrupted -/

/-- The flash after a call that may be interrupted: after how many operations, and how many
units of the next. -/
def flashAfter (g : FlashGeometry) (m : FlashM α) (f : Flash) : Option (ℕ × ℕ) → Flash
  | none => m.after f
  | some (n, k) => m.crash g f n k

variable {g : FlashGeometry}

/-- What issues nothing cannot be interrupted. -/
theorem flashAfter_of_nil {m : FlashM α} (h : (m f).ops = []) (crash : Option (ℕ × ℕ)) :
    m.flashAfter g f crash = f := by
  cases crash with
  | none => simp only [flashAfter, after, h, Flash.exec_nil]
  | some p => simp only [flashAfter, FlashM.crash, h, Flash.crashAt_nil]

/-- What is left is about the operations alone. -/
theorem flashAfter_congr {m : FlashM α} {m' : FlashM β} (h : (m f).ops = (m' f).ops)
    (crash : Option (ℕ × ℕ)) : m.flashAfter g f crash = m'.flashAfter g f crash := by
  cases crash with
  | none => simp only [flashAfter, after, h]
  | some p => simp only [flashAfter, FlashM.crash, h]

/-- What a call that stays inside a region does not reach, interrupted or not. -/
theorem Confined.flashAfter_outside {m : FlashM α} (h : m.Confined start stop)
    (crash : Option (ℕ × ℕ)) {i : ℕ} (hi : i < start ∨ stop ≤ i) :
    m.flashAfter g f crash i = f i := by
  cases crash with
  | none => exact Flash.exec_outside (h f) hi
  | some p => exact Flash.crashAt_outside (h f) hi p.1 p.2

/-- An interruption of a sequence is one of its first call, or one of the second. -/
theorem flashAfter_bind_of_ret {m : FlashM α} {k : α → FlashM β} {ops : List FlashOp} {a : α}
    (h : m f = ⟨ops, .ret a⟩) (crash : Option (ℕ × ℕ)) :
    (∃ crash', (m >>= k).flashAfter g f crash = m.flashAfter g f crash') ∨
      ∃ crash', (m >>= k).flashAfter g f crash = (k a).flashAfter g (m.after f) crash' := by
  cases crash with
  | none => exact .inr ⟨none, after_bind_of_ret h⟩
  | some p =>
      by_cases hp : p.1 < ops.length
      · refine .inl ⟨some p, ?_⟩
        simp only [flashAfter, crash_bind_of_ret h, if_pos hp]
      · refine .inr ⟨some (p.1 - ops.length, p.2), ?_⟩
        simp only [flashAfter, crash_bind_of_ret h, if_neg hp, after, h]

/-- A sequence whose first call does not return is its first call. -/
theorem flashAfter_bind_of_panic {m : FlashM α} {k : α → FlashM β} {ops : List FlashOp}
    {msg : String} (h : m f = ⟨ops, .panic msg⟩) (crash : Option (ℕ × ℕ)) :
    (m >>= k).flashAfter g f crash = m.flashAfter g f crash := by
  cases crash with
  | none => simp only [flashAfter, after, bind_of_panic h, h]
  | some p => simp only [flashAfter, FlashM.crash, bind_of_panic h, h]

/-- An interruption is a crash at some point, the end being one of them. -/
theorem flashAfter_eq_crash {m : FlashM α} {m' : FlashM β} (h : (m f).ops = (m' f).ops)
    (crash : Option (ℕ × ℕ)) : ∃ n k, m.flashAfter g f crash = m'.crash g f n k := by
  cases crash with
  | none =>
      refine ⟨(m' f).ops.length, 0, ?_⟩
      rw [flashAfter, after, FlashM.crash, h, Flash.crashAt_of_length_le (le_refl _)]
  | some p => exact ⟨p.1, p.2, by simp only [flashAfter, FlashM.crash, h]⟩

end FlashM

end Frostsnap
