import Mathlib.Tactic.Common
import Mathlib.Data.List.Basic
import Mathlib.Data.List.Forall2
import Mathlib.Logic.Relation

/-!
# Pipelines of queues

Stages in a row, each with a queue of its own. While a stage is live it takes the first message that
waits for it, changes its state, and sends messages to the next stage; what the last stage sends is
lost. Stages take turns in any order, and messages enter the first queue at any time.

The order does not matter: what a stage makes of the messages that entered is a function of them,
and whatever has happened so far is on the way there.

## Main definitions

* `Pipeline.Step`, `Pipeline.Reach`: one stage takes a message, and what is reached.
* `Pipeline.consume`, `Pipeline.settle`: what one stage, and all of them, make of a stream.

## Main results

* `Pipeline.Reach.on_the_way`: every stage is on the way to where it settles.
* `Pipeline.Reach.settled`: once nothing can be taken, every stage has settled.
* `Pipeline.exists_quiescent`: when no message becomes more than one, all stages settle.
-/

namespace Frostsnap.Pipeline

variable {κ σ M : Type*}

/-- A stage: what it is, its state, and what waits for it. -/
structure Stage (κ σ M : Type*) where
  kind : κ
  state : σ
  incoming : List M

/-- Messages are sent to the first stage of a row, if there is one. -/
def feed (ms : List M) : List (Stage κ σ M) → List (Stage κ σ M)
  | [] => []
  | stage :: rest => { stage with incoming := stage.incoming ++ ms } :: rest

section

variable (live : κ → σ → Bool) (process : κ → σ → M → σ × List M)

/-- Some live stage takes a message. -/
inductive Step : List (Stage κ σ M) → List (Stage κ σ M) → Prop
  | take {kind : κ} {state : σ} {m : M} {waiting : List M} {rest : List (Stage κ σ M)}
      (hlive : live kind state = true) :
      Step ({ kind := kind, state := state, incoming := m :: waiting } :: rest)
        ({ kind := kind, state := (process kind state m).1, incoming := waiting } ::
          feed (process kind state m).2 rest)
  | later {stage : Stage κ σ M} {rest rest' : List (Stage κ σ M)} (h : Step rest rest') :
      Step (stage :: rest) (stage :: rest')

/-- What is reached from a row when some messages have entered. -/
inductive Reach (start : List (Stage κ σ M)) : List M → List (Stage κ σ M) → Prop
  | start : Reach start [] start
  | enter {ms : List M} {stages : List (Stage κ σ M)} (h : Reach start ms stages) (m : M) :
      Reach start (ms ++ [m]) (feed [m] stages)
  | step {ms : List M} {stages stages' : List (Stage κ σ M)} (h : Reach start ms stages)
      (hstep : Step live process stages stages') : Reach start ms stages'

/-- Nothing can be taken. -/
def Quiescent (stages : List (Stage κ σ M)) : Prop :=
  ∀ stage ∈ stages, stage.incoming = [] ∨ live stage.kind stage.state = false

/-- What a stage makes of a stream, and what it sends. -/
def consume (kind : κ) : σ → List M → σ × List M
  | state, [] => (state, [])
  | state, m :: ms =>
      if live kind state then
        ((consume kind (process kind state m).1 ms).1,
          (process kind state m).2 ++ (consume kind (process kind state m).1 ms).2)
      else (state, [])

/-- What all stages make of a stream. -/
def settle : List (κ × σ) → List M → List σ
  | [], _ => []
  | (kind, state) :: rest, ms =>
      (consume live process kind state ms).1 :: settle rest (consume live process kind state ms).2

/-- A row that has not been sent anything. -/
def fresh (starts : List (κ × σ)) : List (Stage κ σ M) :=
  starts.map fun start => { kind := start.1, state := start.2, incoming := [] }

end

variable {live : κ → σ → Bool} {process : κ → σ → M → σ × List M}

/-! ### Streams -/

theorem consume_of_not_live {kind : κ} {state : σ} (h : live kind state = false) (ms : List M) :
    consume live process kind state ms = (state, []) := by
  cases ms with
  | nil => rfl
  | cons m ms => rw [consume, h, if_neg Bool.false_ne_true]

/-- A stream may be consumed in two parts. -/
theorem consume_append (kind : κ) (state : σ) (ms ms' : List M) :
    consume live process kind state (ms ++ ms') =
      ((consume live process kind (consume live process kind state ms).1 ms').1,
        (consume live process kind state ms).2 ++
          (consume live process kind (consume live process kind state ms).1 ms').2) := by
  induction ms generalizing state with
  | nil => rfl
  | cons m ms ih =>
      rw [List.cons_append, consume, consume]
      cases hlive : live kind state with
      | true => simp only [if_true, ih, List.append_assoc]
      | false =>
          rw [if_neg Bool.false_ne_true, if_neg Bool.false_ne_true, consume_of_not_live hlive]
          rfl

/-- One more message is taken. -/
theorem consume_concat {kind : κ} {start state : σ} {ms sent : List M}
    (h : consume live process kind start ms = (state, sent)) (hlive : live kind state = true)
    (m : M) :
    consume live process kind start (ms ++ [m]) =
      ((process kind state m).1, sent ++ (process kind state m).2) := by
  rw [consume_append, h]
  dsimp only [consume]
  rw [if_pos hlive, List.append_nil]

/-! ### What is reached -/

/-- Each stage has consumed a part of what it was sent, and the rest waits. -/
inductive Tracks (live : κ → σ → Bool) (process : κ → σ → M → σ × List M) :
    List (κ × σ) → List M → List (Stage κ σ M) → Prop
  | nil (ms : List M) : Tracks live process [] ms []
  | cons {kind : κ} {start state : σ} {starts : List (κ × σ)} {ms taken waiting sent : List M}
      {rest : List (Stage κ σ M)} (hms : ms = taken ++ waiting)
      (hconsume : consume live process kind start taken = (state, sent))
      (hrest : Tracks live process starts sent rest) :
      Tracks live process ((kind, start) :: starts) ms
        ({ kind := kind, state := state, incoming := waiting } :: rest)

theorem Tracks.fresh (starts : List (κ × σ)) : Tracks live process starts [] (fresh starts) := by
  induction starts with
  | nil => exact .nil []
  | cons start starts ih => exact .cons (List.append_nil []).symm rfl ih

theorem Tracks.feed {starts : List (κ × σ)} {ms : List M} {stages : List (Stage κ σ M)}
    (h : Tracks live process starts ms stages) (ms' : List M) :
    Tracks live process starts (ms ++ ms') (feed ms' stages) := by
  cases h with
  | nil => exact .nil _
  | cons hms hconsume hrest => exact .cons (by rw [hms, List.append_assoc]) hconsume hrest

/-- **The step rule.** -/
theorem Tracks.step {starts : List (κ × σ)} {ms : List M} {stages stages' : List (Stage κ σ M)}
    (h : Tracks live process starts ms stages) (hstep : Step live process stages stages') :
    Tracks live process starts ms stages' := by
  induction hstep generalizing starts ms with
  | take hlive =>
      cases h with
      | cons hms hconsume hrest =>
          refine .cons ?_ (consume_concat hconsume hlive _) (hrest.feed _)
          rw [hms, List.append_assoc, List.singleton_append]
  | later _ ih =>
      cases h with
      | cons hms hconsume hrest => exact .cons hms hconsume (ih hrest)

theorem Reach.tracks {starts : List (κ × σ)} {ms : List M} {stages : List (Stage κ σ M)}
    (h : Reach live process (Pipeline.fresh starts) ms stages) :
    Tracks live process starts ms stages := by
  induction h with
  | start => exact .fresh starts
  | enter _ m ih => exact ih.feed [m]
  | step _ hstep ih => exact ih.step hstep

/-- A stage is on the way to a state when consuming some more messages leads there. -/
def OnTheWay (live : κ → σ → Bool) (process : κ → σ → M → σ × List M) (stage : Stage κ σ M)
    (state : σ) : Prop :=
  ∃ ms : List M, state = (consume live process stage.kind stage.state ms).1

theorem Tracks.on_the_way {starts : List (κ × σ)} {ms : List M} {stages : List (Stage κ σ M)}
    (h : Tracks live process starts ms stages) (more : List M) :
    List.Forall₂ (OnTheWay live process) stages (settle live process starts (ms ++ more)) := by
  induction h generalizing more with
  | nil => exact .nil
  | @cons kind start state starts ms taken waiting sent rest hms hconsume _ ih =>
      have happend := @consume_append κ σ M live process kind start taken (waiting ++ more)
      rw [hconsume, ← List.append_assoc, ← hms] at happend
      rw [settle, happend]
      exact .cons ⟨waiting ++ more, rfl⟩ (ih _)

/-- **On the way.** Whatever was taken when, every stage is on the way to where it settles. -/
theorem Reach.on_the_way {starts : List (κ × σ)} {ms : List M} {stages : List (Stage κ σ M)}
    (h : Reach live process (Pipeline.fresh starts) ms stages) :
    List.Forall₂ (OnTheWay live process) stages (settle live process starts ms) := by
  have hway := h.tracks.on_the_way []
  rwa [List.append_nil] at hway

theorem Tracks.settled {starts : List (κ × σ)} {ms : List M} {stages : List (Stage κ σ M)}
    (h : Tracks live process starts ms stages) (hquiet : Quiescent live stages) :
    stages.map Stage.state = settle live process starts ms := by
  induction h with
  | nil => rfl
  | @cons kind start state starts ms taken waiting sent rest hms hconsume _ ih =>
      obtain ⟨hhere, hrest⟩ := List.forall_mem_cons.1 hquiet
      have hall : consume live process kind start ms = (state, sent) := by
        rcases hhere with hnone | hdead
        · obtain rfl : waiting = [] := hnone
          rw [hms, List.append_nil, hconsume]
        · rw [hms, consume_append, hconsume, consume_of_not_live hdead, List.append_nil]
      rw [List.map_cons, settle, hall, ih hrest]

/-- **Settled.** Once nothing can be taken, every stage has settled. -/
theorem Reach.settled {starts : List (κ × σ)} {ms : List M} {stages : List (Stage κ σ M)}
    (h : Reach live process (Pipeline.fresh starts) ms stages) (hquiet : Quiescent live stages) :
    stages.map Stage.state = settle live process starts ms :=
  h.tracks.settled hquiet

/-- One stage of what is reached. -/
theorem Reach.getElem?_of_settle {starts : List (κ × σ)} {ms : List M}
    {stages : List (Stage κ σ M)} (h : Reach live process (Pipeline.fresh starts) ms stages)
    {i : ℕ} {final : σ} (hfinal : (settle live process starts ms)[i]? = some final) :
    ∃ stage, stages[i]? = some stage ∧ OnTheWay live process stage final ∧
      (Quiescent live stages → stage.state = final) := by
  have hway := h.on_the_way
  obtain ⟨hi, hget⟩ := List.getElem?_eq_some_iff.1 hfinal
  have hi' : i < stages.length := by rw [hway.length_eq]; exact hi
  refine ⟨stages[i], List.getElem?_eq_getElem hi', ?_, fun hquiet => ?_⟩
  · have hget' := hway.get hi' hi
    rwa [List.get_eq_getElem, List.get_eq_getElem, hget] at hget'
  · have hmap := congrArg (·[i]?) (h.settled hquiet)
    simp only [List.getElem?_map, List.getElem?_eq_getElem hi', hfinal, Option.map_some] at hmap
    exact Option.some.inj hmap

/-! ### Settling -/

/-- How many times the messages that wait can be taken, when none becomes more than one. -/
def weight : List (Stage κ σ M) → ℕ
  | [] => 0
  | stage :: rest => stage.incoming.length * (rest.length + 1) + weight rest

theorem length_feed (ms : List M) (stages : List (Stage κ σ M)) :
    (feed ms stages).length = stages.length := by
  cases stages <;> rfl

theorem weight_feed_le (ms : List M) (stages : List (Stage κ σ M)) :
    weight (feed ms stages) ≤ weight stages + ms.length * stages.length := by
  cases stages with
  | nil => exact Nat.zero_le _
  | cons stage rest =>
      simp only [feed, weight, List.length_append, List.length_cons, Nat.add_mul]
      omega

theorem Step.length_eq {stages stages' : List (Stage κ σ M)}
    (h : Step live process stages stages') :
    stages'.length = stages.length := by
  induction h with
  | take => rw [List.length_cons, List.length_cons, length_feed]
  | later _ ih => rw [List.length_cons, List.length_cons, ih]

/-- Taking a message lessens the weight. -/
theorem Step.weight_lt (hone : ∀ kind state m, (process kind state m).2.length ≤ 1)
    {stages stages' : List (Stage κ σ M)} (h : Step live process stages stages') :
    weight stages' < weight stages := by
  induction h with
  | @take kind state m waiting rest _ =>
      have hfeed := weight_feed_le (process kind state m).2 rest
      have hsent : (process kind state m).2.length * rest.length ≤ 1 * rest.length :=
        Nat.mul_le_mul_right _ (hone kind state m)
      simp only [weight, List.length_cons, length_feed, Nat.add_mul]
      omega
  | later h ih =>
      simp only [weight, h.length_eq]
      omega

/-- Unless nothing can be taken, some stage can take a message. -/
theorem exists_step {stages : List (Stage κ σ M)} (h : ¬ Quiescent live stages) :
    ∃ stages', Step live process stages stages' := by
  induction stages with
  | nil => exact absurd (fun _ hmem => absurd hmem List.not_mem_nil) h
  | cons stage rest ih =>
      by_cases hrest : Quiescent live rest
      · obtain ⟨kind, state, incoming⟩ := stage
        have hhere : ¬ (incoming = [] ∨ live kind state = false) :=
          fun hhere => h (List.forall_mem_cons.2 ⟨hhere, hrest⟩)
        rw [not_or, Bool.not_eq_false] at hhere
        cases incoming with
        | nil => exact absurd rfl hhere.1
        | cons m waiting => exact ⟨_, .take hhere.2⟩
      · obtain ⟨rest', hstep⟩ := ih hrest
        exact ⟨_, .later hstep⟩

/-- **Settling.** When no message becomes more than one, the stages come to rest. -/
theorem exists_quiescent (hone : ∀ kind state m, (process kind state m).2.length ≤ 1)
    (stages : List (Stage κ σ M)) :
    ∃ stages', Relation.ReflTransGen (Step live process) stages stages' ∧
      Quiescent live stages' := by
  induction hweight : weight stages using Nat.strongRecOn generalizing stages with
  | _ n ih =>
      by_cases hquiet : Quiescent live stages
      · exact ⟨stages, .refl, hquiet⟩
      · obtain ⟨next, hstep⟩ := @exists_step κ σ M live process stages hquiet
        obtain ⟨stages', hsteps, hquiet'⟩ := ih _ (hweight ▸ hstep.weight_lt hone) next rfl
        exact ⟨stages', .head hstep hsteps, hquiet'⟩

end Frostsnap.Pipeline
