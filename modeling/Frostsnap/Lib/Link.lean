import Mathlib.Data.List.Basic
import Mathlib.Tactic.Common

/-!
# Links that keep the order

A link from a sender to a receiver. What is sent is on the way until it is delivered, and waits at
the receiver until it is read. Nothing is lost and nothing overtakes.

## Main results

* `Link.sent_deliver`, `Link.sent_read`: what was sent only changes by sending.
* `Link.progress_le`: how far the messages of a link come.
-/

namespace Frostsnap

/-- A link, by where its messages are. -/
@[ext]
structure Link (α : Type*) where
  inFlight : List α
  arrived : List α
  /-- what was read so far -/
  taken : List α

namespace Link

variable {α : Type*} {l : Link α} {m : α} {ms : List α}

/-- Nothing was sent. -/
def empty : Link α := ⟨[], [], []⟩

/-- Messages go on the way behind those that are. -/
def send (ms : List α) (l : Link α) : Link α := { l with inFlight := l.inFlight ++ ms }

/-- The first message on the way arrives. -/
def deliver (l : Link α) : Link α :=
  match l.inFlight with
  | [] => l
  | m :: ms => { l with inFlight := ms, arrived := l.arrived ++ [m] }

/-- The first message that has arrived is read. -/
def read (l : Link α) : Link α :=
  match l.arrived with
  | [] => l
  | m :: ms => { l with arrived := ms, taken := l.taken ++ [m] }

/-- Everything that was sent. -/
def sent (l : Link α) : List α := l.taken ++ l.arrived ++ l.inFlight

/-- How far the messages of a link have come. -/
def progress (l : Link α) : ℕ := l.arrived.length + 2 * l.taken.length

/-- Nothing was sent on an empty link. -/
@[simp] theorem sent_empty : (empty : Link α).sent = [] := rfl

/-- And nothing was read from it. -/
@[simp] theorem taken_empty : (empty : Link α).taken = [] := rfl

/-- Sending adds to what was sent. -/
@[simp] theorem sent_send (ms : List α) (l : Link α) : (l.send ms).sent = l.sent ++ ms := by
  simp only [sent, send, List.append_assoc]

/-- What is sent is not read at once. -/
@[simp] theorem taken_send (ms : List α) (l : Link α) : (l.send ms).taken = l.taken := rfl

/-- Sending moves no message. -/
@[simp] theorem progress_send (ms : List α) (l : Link α) : (l.send ms).progress = l.progress := rfl

/-- A delivery moves a message and loses none. -/
@[simp] theorem sent_deliver (l : Link α) : l.deliver.sent = l.sent := by
  rw [deliver]
  rcases h : l.inFlight with - | ⟨m, ms⟩
  · rfl
  · simp [sent, h]

/-- A message that has arrived is not read yet. -/
@[simp] theorem taken_deliver (l : Link α) : l.deliver.taken = l.taken := by
  rw [deliver]
  split <;> rfl

/-- Reading moves a message and loses none. -/
@[simp] theorem sent_read (l : Link α) : l.read.sent = l.sent := by
  rw [read]
  rcases h : l.arrived with - | ⟨m, ms⟩
  · rfl
  · simp [sent, h]

/-- What is read is the first message that has arrived. -/
theorem taken_read (h : l.arrived = m :: ms) : l.read.taken = l.taken ++ [m] := by
  rw [read, h]

/-- Messages are read in the order in which they were sent. -/
theorem taken_prefix (l : Link α) : l.taken <+: l.sent := by
  rw [sent, List.append_assoc]
  exact List.prefix_append _ _

/-- Nothing is on the way and nothing waits: everything was read. -/
theorem taken_of_drained (hinFlight : l.inFlight = []) (harrived : l.arrived = []) :
    l.taken = l.sent := by
  rw [sent, hinFlight, harrived, List.append_nil, List.append_nil]

/-- A link comes no further than all of its messages being read. -/
theorem progress_le (l : Link α) : l.progress ≤ 2 * l.sent.length := by
  rw [progress, sent, List.length_append, List.length_append]
  omega

/-- A delivery is a step further. -/
theorem progress_deliver (h : l.inFlight = m :: ms) : l.deliver.progress = l.progress + 1 := by
  rw [deliver, h]
  simp only [progress, List.length_append, List.length_singleton]
  omega

/-- Reading a message is a step further. -/
theorem progress_read (h : l.arrived = m :: ms) : l.read.progress = l.progress + 1 := by
  rw [read, h, progress, progress, h]
  simp only [List.length_append, List.length_cons, List.length_nil]
  omega

/-- A delivery never goes back, whether there was a message or not. -/
theorem le_progress_deliver (l : Link α) : l.progress ≤ l.deliver.progress := by
  rcases h : l.inFlight with - | ⟨m, ms⟩
  · have hsame : l.deliver = l := by rw [deliver, h]
    exact Nat.le_of_eq (congrArg progress hsame.symm)
  · rw [progress_deliver h]
    exact Nat.le_succ _

/-- Nor does reading. -/
theorem le_progress_read (l : Link α) : l.progress ≤ l.read.progress := by
  rcases h : l.arrived with - | ⟨m, ms⟩
  · have hsame : l.read = l := by rw [read, h]
    exact Nat.le_of_eq (congrArg progress hsame.symm)
  · rw [progress_read h]
    exact Nat.le_succ _

end Link

end Frostsnap
