import Frostsnap.Core.SlotChoice
import Frostsnap.Lib.Lowest
import Mathlib.Data.Nat.Find

/-!
# Opening nonce streams

`OpenNonceStreams` asks a device for the nonces of some streams. The device takes the streams it
already has first, gets or creates the slot of each, and returns a nonce job for every slot that
the coordinator's view of the stream leaves short of nonces. The jobs are run later, after every
stream of the request has been dealt with.

A slot that is found is not stamped again, so a stream that was already there can be evicted by a
new stream of its own request, after its job was made. When the clock wraps, a new stream can evict
another new one.

## Main results

* `AbSlots.openOrdered_spec`: the streams that a request creates are put in slots that are given
  away one after another (`gifts`), whatever the request asks of them.
* `opened_streams_survive`: the streams that nonce jobs were returned for are still there after
  the request exactly when it spares them (`SparesOwn`), in every store.
* `Ordinary.sparesOwn_iff` and `Ordinary.sparesOwn_iff_rank`: what that means for the slots of a
  device, and when the clock does not wrap.
-/

namespace Frostsnap

variable {Seed SecretNonce Nonce Share Item : Type} {S : Type} [NonceStreamSlot S Seed Share]

/-! ### The request -/

/-- Jobs whose nonces are sent in one response. -/
structure NonceJobBatch (Seed Nonce : Type) where
  tasks : List (NonceJob Seed Nonce)
  currentTaskIndex : ℕ

def NonceJobBatch.new (tasks : List (NonceJob Seed Nonce)) : NonceJobBatch Seed Nonce where
  tasks := tasks
  currentTaskIndex := 0

/-- What becomes of a request: an answer at once, or jobs for the loop of the device. -/
inductive OpenReply (Seed Nonce : Type) where
  | nonceResponse (segments : List (NonceStreamSegment Nonce))
  | nonceJobs (batch : NonceJobBatch Seed Nonce)

/-- The jobs a request was answered with. -/
def OpenReply.tasks : OpenReply Seed Nonce → List (NonceJob Seed Nonce)
  | .nonceResponse _ => []
  | .nonceJobs batch => batch.tasks

namespace AbSlots

/-- One turn of the loop over the streams of a request. -/
def openStream (ab : AbSlots S) (state : CoordNonceStreamState) (nonceBatchSize : ℕ) (seed : Seed) :
    Exec (AbSlots S × Option (NonceJob Seed Nonce)) := do
  let (ab, i) ← ab.getOrCreate state.streamId seed
  match ab.slots[i]? with
  | none => .panic "index out of bounds"
  | some slot => do
      let task ← reconcileSlot slot state nonceBatchSize
      return (ab, task)

/-- The loop over the streams of a request, `rng` being the seeds that would be drawn. -/
def openOrdered (nonceBatchSize : ℕ) :
    List CoordNonceStreamState → (ℕ → Seed) → AbSlots S →
      Exec (AbSlots S × List (NonceJob Seed Nonce))
  | [], _, ab => .ret (ab, [])
  | state :: rest, rng, ab => do
      let (ab, task) ← ab.openStream state nonceBatchSize (rng 0)
      let (ab, tasks) ← openOrdered nonceBatchSize rest (fun n => rng (n + 1)) ab
      return (ab, task.toList ++ tasks)

/-- The device has the stream. -/
def isOpen (ab : AbSlots S) (state : CoordNonceStreamState) : Bool :=
  (ab.get state.streamId).isSome

/-- `OpenNonceStreams`: the streams that already exist come first. -/
def recvOpenNonceStreams (ab : AbSlots S) (streams : List CoordNonceStreamState)
    (nonceBatchSize : ℕ) (rng : ℕ → Seed) : Exec (AbSlots S × OpenReply Seed Nonce) := do
  let (existing, new) := streams.partition ab.isOpen
  -- taking more than there are slots would overwrite slots
  let orderedStreams := (existing ++ new).take ab.slots.length
  let (ab, tasks) ← openOrdered nonceBatchSize orderedStreams rng ab
  return (ab, if tasks.isEmpty then .nonceResponse [] else .nonceJobs (.new tasks))

end AbSlots

/-! ### The jobs of a request -/

/-- The coordinator's view of a stream leaves it short of nonces. -/
def SecretNonceSlot.NeedsNonces (v : SecretNonceSlot Seed Share) (state : CoordNonceStreamState)
    (nonceBatchSize : ℕ) : Prop :=
  state.index < v.index ∨ state.remaining < nonceBatchSize ∨ v.index ≠ state.index

instance (v : SecretNonceSlot Seed Share) (state : CoordNonceStreamState) (nonceBatchSize : ℕ) :
    Decidable (v.NeedsNonces state nonceBatchSize) :=
  inferInstanceAs (Decidable (_ ∨ _ ∨ _))

/-- The job generates the nonces of a slot that holds this value. -/
structure NonceJob.IsOf (job : NonceJob Seed Nonce) (v : SecretNonceSlot Seed Share) : Prop where
  streamId : v.nonceStreamId = job.streamId
  seedMaterial : v.ratchetPrgSeedMaterial = job.seedMaterial
  index : v.index = job.index

namespace SecretNonceSlot

/-- A job starts where the slot is. -/
theorem nonceTask_isOf {v : SecretNonceSlot Seed Share} {start : Option ℕ} {length : ℕ}
    {job : NonceJob Seed Nonce} (h : v.nonceTask start length = .ret job) : job.IsOf v := by
  simp only [nonceTask] at h
  split at h
  · cases h
  split at h
  · cases h
  split at h
  · cases h
  · cases h
    exact ⟨rfl, rfl, rfl⟩

/-- Reconciling makes a job of the slot exactly when nonces are needed. -/
theorem reconcile_spec {v : SecretNonceSlot Seed Share} {state : CoordNonceStreamState}
    {nonceBatchSize : ℕ} {task : Option (NonceJob Seed Nonce)}
    (h : v.reconcileCoordNonceStreamState state nonceBatchSize = .ret task) :
    (v.NeedsNonces state nonceBatchSize ∧ ∃ job, task = some job ∧ job.IsOf v) ∨
      (¬ v.NeedsNonces state nonceBatchSize ∧ task = none) := by
  simp only [reconcileCoordNonceStreamState] at h
  split at h
  · rename_i hshort
    obtain ⟨job, hjob, h⟩ := Exec.bind_eq_ret_iff.mp h
    cases h
    exact .inl ⟨hshort.imp_right .inl, job, rfl, nonceTask_isOf hjob⟩
  · rename_i hshort
    split at h
    · rename_i heq
      cases h
      refine .inr ⟨fun hneeds => ?_, rfl⟩
      rcases hneeds with hlt | hlt | hne
      · exact hshort (.inl hlt)
      · exact hshort (.inr hlt)
      · exact hne heq
    · rename_i hne
      obtain ⟨job, hjob, h⟩ := Exec.bind_eq_ret_iff.mp h
      cases h
      exact .inl ⟨.inr (.inr hne), job, rfl, nonceTask_isOf hjob⟩

end SecretNonceSlot

namespace AbSlots

/-- What a turn of the loop does, once it is known where the stream is. -/
theorem openStream_spec {ab ab₁ ab' : AbSlots S} {state : CoordNonceStreamState}
    {nonceBatchSize i : ℕ} {seed : Seed} {task : Option (NonceJob Seed Nonce)}
    {v : SecretNonceSlot Seed Share} (hget : ab.getOrCreate state.streamId seed = .ret (ab₁, i))
    (hv : ab₁.value i = some v)
    (h : ab.openStream state nonceBatchSize seed = .ret (ab', task)) :
    ab' = ab₁ ∧ v.reconcileCoordNonceStreamState state nonceBatchSize = .ret task := by
  obtain ⟨slot, hslot, hread⟩ := Option.bind_eq_some_iff.mp hv
  simp only [openStream, hget, Exec.ret_bind, hslot, reconcileSlot, hread] at h
  obtain ⟨task', htask, h⟩ := Exec.bind_eq_ret_iff.mp h
  cases h
  exact ⟨rfl, htask⟩

/-- A step of the loop and the rest of it. -/
theorem openOrdered_cons {ab ab' : AbSlots S} {state : CoordNonceStreamState}
    {rest : List CoordNonceStreamState} {nonceBatchSize : ℕ} {rng : ℕ → Seed}
    {tasks : List (NonceJob Seed Nonce)}
    (h : openOrdered nonceBatchSize (state :: rest) rng ab = .ret (ab', tasks)) :
    ∃ ab₁ task later, ab.openStream state nonceBatchSize (rng 0) = .ret (ab₁, task) ∧
      openOrdered nonceBatchSize rest (fun n => rng (n + 1)) ab₁ = .ret (ab', later) ∧
      tasks = task.toList ++ later := by
  obtain ⟨⟨ab₁, task⟩, hopen, h⟩ := Exec.bind_eq_ret_iff.mp h
  obtain ⟨⟨ab₂, later⟩, hrest, h⟩ := Exec.bind_eq_ret_iff.mp h
  cases h
  exact ⟨ab₁, task, later, hopen, hrest, rfl⟩

end AbSlots

/-! ### The slots that a request takes -/

/-- A stream that a request creates, with the stamp of its turn and the seed that is drawn. -/
structure Creation (Seed : Type) where
  state : CoordNonceStreamState
  stamp : ℕ
  seed : Seed

/-- What its slot is initialised to. -/
def Creation.value (c : Creation Seed) : SecretNonceSlot Seed Share :=
  .initial c.state.streamId c.stamp c.seed

/-- The stream that is created. -/
def Creation.streamId (c : Creation Seed) : NonceStreamId := c.state.streamId

namespace AbSlots

/-- The empty slots. -/
def emptySlots (ab : AbSlots S) : Finset ℕ := ab.positions.filter fun i => ab.age i = 0

/-- The empty slots before a position. -/
def emptyBefore (ab : AbSlots S) (i : ℕ) : Finset ℕ := ab.emptySlots.filter fun j => j < i

/-- The stream is still found in its slot after `count` streams were created: they took the empty
slots before it. -/
def finds (ab : AbSlots S) (streamId : NonceStreamId) (count : ℕ) : Bool :=
  match ab.get streamId with
  | some i => decide ((ab.emptyBefore i).card ≤ count)
  | none => false

/-- The streams of a list that are created, after `count` were, with the clock at `lastUsed`. Every
turn sets the clock, also one that finds its stream. -/
def creations (ab : AbSlots S) :
    List CoordNonceStreamState → ℕ → ℕ → (ℕ → Seed) → List (Creation Seed)
  | [], _, _, _ => []
  | state :: rest, lastUsed, count, rng =>
      let stamp := asU32 (lastUsed + 1)
      if ab.finds state.streamId count then
        ab.creations rest stamp count fun n => rng (n + 1)
      else
        { state := state, stamp := stamp, seed := rng 0 } ::
          ab.creations rest stamp (count + 1) fun n => rng (n + 1)

/-- The streams that the loop creates. -/
def creates (ab : AbSlots S) (streams : List CoordNonceStreamState) (rng : ℕ → Seed) :
    List (Creation Seed) :=
  ab.creations streams ab.lastUsed 0 rng

/-- The slots that the loop gives away, one after another, each with the stream that is put there.
A slot it has given away can be given away again, by the stamp that it has then. -/
def gifts (ab : AbSlots S) (streams : List CoordNonceStreamState) (rng : ℕ → Seed) :
    List (ℕ × Creation Seed) :=
  handOut ab.slots.length (fun c => c.stamp + 1) ab.key (ab.creates streams rng)

theorem mem_emptySlots {ab : AbSlots S} {i : ℕ} :
    i ∈ ab.emptySlots ↔ i ∈ ab.positions ∧ ab.value i = none := by
  rw [emptySlots, Finset.mem_filter, age_eq_zero_iff]

theorem mem_emptyBefore {ab : AbSlots S} {i j : ℕ} :
    j ∈ ab.emptyBefore i ↔ (j < ab.slots.length ∧ ab.value j = none) ∧ j < i := by
  rw [emptyBefore, Finset.mem_filter, mem_emptySlots, positions, Finset.mem_range]

theorem isOpen_of_finds {ab : AbSlots S} {state : CoordNonceStreamState} {count : ℕ}
    (h : ab.finds state.streamId count) : ab.isOpen state := by
  unfold finds at h
  unfold isOpen
  cases hget : ab.get state.streamId with
  | none =>
      rw [hget] at h
      cases h
  | some i => rfl

/-- Which streams are created depends on the slots only through which are found. -/
theorem creations_congr {ab ab₁ : AbSlots S} {streams : List CoordNonceStreamState} {count k : ℕ}
    (h : ∀ state ∈ streams, ∀ count,
      ab₁.finds state.streamId count = ab.finds state.streamId (count + k))
    (lastUsed : ℕ) (rng : ℕ → Seed) :
    ab₁.creations streams lastUsed count rng = ab.creations streams lastUsed (count + k) rng := by
  induction streams generalizing lastUsed count rng with
  | nil => rfl
  | cons state rest ih =>
      have hrest := fun state hstate => h state (List.mem_cons_of_mem _ hstate)
      rw [creations, creations, h state List.mem_cons_self, ih hrest, ih hrest,
        Nat.add_right_comm]

/-- A stream that is found is not created, and its turn sets the clock. -/
theorem creates_cons_found {ab : AbSlots S} {state : CoordNonceStreamState}
    (h : ab.finds state.streamId 0) (rest : List CoordNonceStreamState) (rng : ℕ → Seed) :
    ab.tick.creates rest (fun n => rng (n + 1)) = ab.creates (state :: rest) rng := by
  have hfinds : ∀ later ∈ rest, ∀ count,
      ab.tick.finds later.streamId count = ab.finds later.streamId (count + 0) :=
    fun _ _ _ => rfl
  rw [creates, creates, creations, if_pos h]
  exact creations_congr hfinds _ _

/-- A stream that is not found is created, and the slots after that find one empty slot less. -/
theorem creates_cons_created {ab ab₁ : AbSlots S} {state : CoordNonceStreamState}
    {rest : List CoordNonceStreamState} {rng : ℕ → Seed} (h : ab.finds state.streamId 0 = false)
    (hclock : ab₁.lastUsed = ab.nextLastUsed)
    (hfinds : ∀ later ∈ rest, ∀ count,
      ab₁.finds later.streamId count = ab.finds later.streamId (count + 1)) :
    ab.creates (state :: rest) rng =
      { state := state, stamp := ab.nextLastUsed, seed := rng 0 } ::
        ab₁.creates rest fun n => rng (n + 1) := by
  rw [creates, creates, creations, if_neg (by rw [h]; exact Bool.false_ne_true), hclock]
  exact congrArg _ (creations_congr hfinds _ _).symm

/-- A stream that is created is one of the list. -/
theorem state_mem_of_creations {ab : AbSlots S} {streams : List CoordNonceStreamState}
    {lastUsed count : ℕ} {rng : ℕ → Seed} {c : Creation Seed}
    (h : c ∈ ab.creations streams lastUsed count rng) : c.state ∈ streams := by
  induction streams generalizing lastUsed count rng with
  | nil => cases h
  | cons state rest ih =>
      rw [creations] at h
      split at h
      · exact List.mem_cons_of_mem _ (ih h)
      · rcases List.mem_cons.mp h with rfl | h
        · exact List.mem_cons_self
        · exact List.mem_cons_of_mem _ (ih h)

/-- The streams are created in the order of the list. -/
theorem creations_sublist (ab : AbSlots S) (streams : List CoordNonceStreamState)
    (lastUsed count : ℕ) (rng : ℕ → Seed) :
    ((ab.creations streams lastUsed count rng).map Creation.state).Sublist streams := by
  induction streams generalizing lastUsed count rng with
  | nil => exact List.Sublist.refl _
  | cons state rest ih =>
      rw [creations]
      split
      · exact (ih _ _ _).cons state
      · exact (ih _ _ _).cons_cons state

/-! ### One turn -/

/-- A stream that is found is found at its target, and nothing changes but the clock. -/
theorem getOrCreate_of_finds {ab : AbSlots S} {streamId : NonceStreamId}
    (h : ab.finds streamId 0) (seed : Seed) :
    ∃ p v, ab.target streamId = some (p, v) ∧ ab.getOrCreate streamId seed = .ret (ab.tick, p) := by
  unfold finds at h
  cases hget : ab.get streamId with
  | none =>
      rw [hget] at h
      cases h
  | some p =>
      rw [hget] at h
      have hempty : ab.emptyBefore p = ∅ :=
        Finset.card_eq_zero.mp (Nat.le_zero.mp (of_decide_eq_true h))
      obtain ⟨_, v, -, -, htarget⟩ := target_of_get hget
      obtain ⟨-, hv, hid⟩ := target_eq_some htarget
      obtain ⟨-, -, -, hfirst⟩ := get_eq_some hget
      have hpos := mem_positions_of_value hv
      refine ⟨p, v, htarget, getOrCreate_found hpos hv hid (fun j hj => ?_) seed⟩
      cases hu : ab.value j with
      | none =>
          have hlt := hj.trans (Finset.mem_range.mp hpos)
          have hmem : j ∈ ab.emptyBefore p := mem_emptyBefore.mpr ⟨⟨hlt, hu⟩, hj⟩
          rw [hempty] at hmem
          exact absurd hmem (Finset.notMem_empty j)
      | some u => exact ⟨u, rfl, hfirst j hj u hu⟩

/-- **A stream that is not found** is created in the slot that is given away next. That slot is the
first empty one, or there is no slot of the stream. -/
theorem getOrCreate_of_not_finds {ab : AbSlots S} {streamId : NonceStreamId}
    (hslots : 0 < ab.slots.length) (h : ab.finds streamId 0 = false) (seed : Seed) :
    ab.getOrCreate streamId seed =
        .ret (ab.tick.initializeAt ab.nextSlot streamId ab.nextLastUsed seed, ab.nextSlot) ∧
      (ab.value ab.nextSlot = none ∧ (∀ j < ab.nextSlot, ab.value j ≠ none) ∨
        ab.get streamId = none) := by
  unfold finds at h
  cases hget : ab.get streamId with
  | none => exact ⟨getOrCreate_absent (absent_of_get hget) hslots seed, .inr rfl⟩
  | some p =>
      rw [hget] at h
      have hcard : 0 < (ab.emptyBefore p).card := Nat.lt_of_not_le (of_decide_eq_false h)
      obtain ⟨-, -, -, hfirst⟩ := get_eq_some hget
      -- the first of the empty slots before the stream
      have hexists : ∃ j, ab.value j = none ∧ j < p := by
        obtain ⟨j, hj⟩ := Finset.card_pos.mp hcard
        exact ⟨j, (mem_emptyBefore.mp hj).1.2, (mem_emptyBefore.mp hj).2⟩
      classical
      obtain ⟨hempty, hp⟩ := Nat.find_spec hexists
      have hfull : ∀ j < Nat.find hexists, ab.value j ≠ none := fun j hj hnone =>
        Nat.find_min hexists hj ⟨hnone, hj.trans hp⟩
      have hlt : Nat.find hexists < ab.slots.length := by
        obtain ⟨v, hv, -, -⟩ := get_eq_some hget
        exact hp.trans (Finset.mem_range.mp (mem_positions_of_value hv))
      have hnext := eq_nextSlot_of_empty hlt hempty hfull
      rw [← hnext]
      refine ⟨getOrCreate_empty (Finset.mem_range.mpr hlt) hempty (fun j hj => ?_) seed,
        .inl ⟨hempty, hfull⟩⟩
      obtain ⟨u, hu⟩ := Option.ne_none_iff_exists'.mp (hfull j hj)
      exact ⟨u, hu, hfirst j (hj.trans hp) u hu⟩

/-- The slots after a stream was created. -/
theorem value_created {ab : AbSlots S} (hslots : 0 < ab.slots.length) (streamId : NonceStreamId)
    (stamp : ℕ) (seed : Seed) :
    (ab.tick.initializeAt ab.nextSlot streamId stamp seed).value =
      Function.update ab.value ab.nextSlot (some (.initial streamId stamp seed)) := by
  funext j
  rw [value_initializeAt]
  by_cases hj : ab.nextSlot = j
  · subst hj
    rw [if_pos rfl, tick_slots, List.getElem?_eq_getElem (nextSlot_lt hslots), Option.map_some,
      Function.update_self]
  · rw [if_neg hj, tick_value, Function.update_of_ne (Ne.symm hj)]

/-- What the slots are given away by after a stream was created. -/
theorem key_created {ab : AbSlots S} (hslots : 0 < ab.slots.length) (streamId : NonceStreamId)
    {stamp : ℕ} (hstamp : stamp ≤ u32Max) (seed : Seed) :
    (ab.tick.initializeAt ab.nextSlot streamId stamp seed).key =
      Function.update ab.key ab.nextSlot (stamp + 1) := by
  funext j
  rw [key, age, value_created hslots]
  by_cases hj : j = ab.nextSlot
  · subst hj
    rw [Function.update_self, Function.update_self]
    exact min_eq_left (Nat.succ_le_succ hstamp)
  · rw [Function.update_of_ne hj, Function.update_of_ne hj]
    rfl

/-- Where a stream is depends on the slots that hold it. -/
theorem target_congr {ab ab₁ : AbSlots S} {streamId : NonceStreamId}
    (h : ∀ i v, v.nonceStreamId = streamId → (ab₁.value i = some v ↔ ab.value i = some v)) :
    ab₁.target streamId = ab.target streamId := by
  have hsub : ∀ {ab ab₁ : AbSlots S},
      (∀ i v, v.nonceStreamId = streamId → (ab₁.value i = some v ↔ ab.value i = some v)) →
      ∀ {i v}, ab.target streamId = some (i, v) → ab₁.target streamId = some (i, v) := by
    intro ab ab₁ h i v htarget
    obtain ⟨hget, hv, hid⟩ := target_eq_some htarget
    have hv₁ := (h i v hid).mpr hv
    cases hget₁ : ab₁.get streamId with
    | none => exact absurd hid (absent_of_get hget₁ i v hv₁)
    | some p =>
        obtain ⟨_, u, -, -, htarget₁⟩ := target_of_get hget₁
        obtain ⟨-, hu, huid⟩ := target_eq_some htarget₁
        obtain ⟨-, -, -, hfirst₁⟩ := get_eq_some hget₁
        obtain ⟨-, -, -, hfirst⟩ := get_eq_some hget
        -- the first slot of the stream is the same
        have hpi : p = i := by
          rcases Nat.lt_trichotomy p i with hlt | heq | hlt
          · exact absurd huid (hfirst p hlt u ((h p u huid).mp hu))
          · exact heq
          · exact absurd hid (hfirst₁ i hlt v hv₁)
        subst hpi
        rw [hv₁] at hu
        cases hu
        exact htarget₁
  refine Option.ext fun ⟨i, v⟩ => ?_
  exact ⟨hsub fun i v hid => (h i v hid).symm, hsub h⟩

theorem get_eq_target (ab : AbSlots S) (streamId : NonceStreamId) :
    ab.get streamId = (ab.target streamId).map Prod.fst := by
  cases hget : ab.get streamId with
  | none => rw [target, hget, Option.bind_none, Option.map_none]
  | some i =>
      obtain ⟨_, v, -, -, htarget⟩ := target_of_get hget
      rw [htarget, Option.map_some]

section

variable {ab : AbSlots S} {streamId other : NonceStreamId}

/-- **Creating a stream** does not move another one, unless its slot was taken. -/
theorem target_created (hslots : 0 < ab.slots.length) (hne : other ≠ streamId)
    (hother : ab.value ab.nextSlot = none ∨ ab.get other = none) (stamp : ℕ) (seed : Seed) :
    (ab.tick.initializeAt ab.nextSlot streamId stamp seed).target other = ab.target other := by
  refine target_congr fun i v hid => ?_
  rw [value_created hslots]
  by_cases hi : i = ab.nextSlot
  · subst hi
    rw [Function.update_self]
    refine iff_of_false (fun hnew => ?_) fun hold => ?_
    · cases hnew
      exact hne hid.symm
    · rcases hother with hempty | hget
      · rw [hempty] at hold
        cases hold
      · exact absent_of_get hget _ v hold hid
  · rw [Function.update_of_ne hi]

theorem isOpen_created (hslots : 0 < ab.slots.length) {state : CoordNonceStreamState}
    (hne : state.streamId ≠ streamId)
    (hother : ab.value ab.nextSlot = none ∨ ab.get state.streamId = none) (stamp : ℕ)
    (seed : Seed) :
    (ab.tick.initializeAt ab.nextSlot streamId stamp seed).isOpen state = ab.isOpen state := by
  rw [isOpen, isOpen, get_eq_target, get_eq_target ab, target_created hslots hne hother]

/-- A stream that was created in the first empty slot uses it up for those that come later. -/
theorem finds_created (hslots : 0 < ab.slots.length) (hne : other ≠ streamId)
    (hother : ab.value ab.nextSlot = none ∧ (∀ j < ab.nextSlot, ab.value j ≠ none) ∨
      ab.get other = none) (stamp : ℕ) (seed : Seed) (count : ℕ) :
    (ab.tick.initializeAt ab.nextSlot streamId stamp seed).finds other count =
      ab.finds other (count + 1) := by
  have hget : (ab.tick.initializeAt ab.nextSlot streamId stamp seed).get other = ab.get other := by
    rw [get_eq_target, get_eq_target ab, target_created hslots hne (hother.imp_left And.left)]
  unfold finds
  rw [hget]
  cases hp : ab.get other with
  | none => rfl
  | some p =>
      obtain ⟨hempty, hfull⟩ := hother.resolve_right (by rw [hp]; exact nofun)
      have hbefore : (ab.tick.initializeAt ab.nextSlot streamId stamp seed).emptyBefore p =
          (ab.emptyBefore p).erase ab.nextSlot := by
        ext j
        rw [Finset.mem_erase, mem_emptyBefore, mem_emptyBefore, initializeAt_length, tick_slots,
          value_created hslots]
        by_cases hj : j = ab.nextSlot
        · subst hj
          rw [Function.update_self]
          exact iff_of_false (fun h => by cases h.1.2) fun h => h.1 rfl
        · rw [Function.update_of_ne hj]
          exact ⟨fun h => ⟨hj, h⟩, And.right⟩
      dsimp only
      rw [hbefore, decide_eq_decide]
      by_cases hlt : ab.nextSlot < p
      · have hmem : ab.nextSlot ∈ ab.emptyBefore p :=
          mem_emptyBefore.mpr ⟨⟨nextSlot_lt hslots, hempty⟩, hlt⟩
        rw [Finset.card_erase_of_mem hmem, Nat.sub_le_iff_le_add]
      · -- no slot before that of the stream is empty
        have hnone : ab.emptyBefore p = ∅ := by
          refine Finset.eq_empty_of_forall_notMem fun j hj => ?_
          obtain ⟨⟨-, hj⟩, hjp⟩ := mem_emptyBefore.mp hj
          exact hfull j (by omega) hj
        rw [hnone, Finset.erase_empty, Finset.card_empty]
        exact iff_of_true (Nat.zero_le _) (Nat.zero_le _)

end

/-! ### The jobs of the whole loop -/

/-- A nonce job is made of this value: that of a stream which is found short of nonces, or of one
that is created short of them. -/
inductive Asked (ab : AbSlots S) (streams : List CoordNonceStreamState) (nonceBatchSize : ℕ)
    (created : List (Creation Seed)) : SecretNonceSlot Seed Share → Prop where
  | found {state : CoordNonceStreamState} {p : ℕ} {v : SecretNonceSlot Seed Share}
      (hstate : state ∈ streams) (hnot : state.streamId ∉ created.map Creation.streamId)
      (htarget : ab.target state.streamId = some (p, v))
      (hneeds : v.NeedsNonces state nonceBatchSize) : Asked ab streams nonceBatchSize created v
  | created {c : Creation Seed} (hc : c ∈ created)
      (hneeds : (c.value : SecretNonceSlot Seed Share).NeedsNonces c.state nonceBatchSize) :
      Asked ab streams nonceBatchSize created c.value

/-- The jobs are those of the values that satisfy `asked`. -/
structure JobsOf (tasks : List (NonceJob Seed Nonce)) (asked : SecretNonceSlot Seed Share → Prop) :
    Prop where
  sound : ∀ job ∈ tasks, ∃ v, asked v ∧ job.IsOf v
  complete : ∀ v, asked v → ∃ job ∈ tasks, job.IsOf v

/-- The job of one turn, before those of the turns after it. -/
theorem JobsOf.cons {task : Option (NonceJob Seed Nonce)} {later : List (NonceJob Seed Nonce)}
    {asked : SecretNonceSlot Seed Share → Prop} (h : JobsOf later asked)
    {u : SecretNonceSlot Seed Share} {state : CoordNonceStreamState} {nonceBatchSize : ℕ}
    (htask : u.reconcileCoordNonceStreamState state nonceBatchSize = .ret task) :
    JobsOf (task.toList ++ later)
      fun v => (v = u ∧ u.NeedsNonces state nonceBatchSize) ∨ asked v := by
  rcases SecretNonceSlot.reconcile_spec htask with ⟨hneeds, job, rfl, hof⟩ | ⟨hnot, rfl⟩
  · constructor
    · intro job' hjob'
      rcases List.mem_cons.mp hjob' with rfl | hlater
      · exact ⟨u, .inl ⟨rfl, hneeds⟩, hof⟩
      · obtain ⟨v, hv, hofv⟩ := h.sound job' hlater
        exact ⟨v, .inr hv, hofv⟩
    · rintro v (⟨rfl, -⟩ | hv)
      · exact ⟨job, List.mem_cons_self, hof⟩
      · obtain ⟨job', hjob', hofv⟩ := h.complete v hv
        exact ⟨job', List.mem_cons_of_mem _ hjob', hofv⟩
  · constructor
    · intro job hjob
      obtain ⟨v, hv, hofv⟩ := h.sound job hjob
      exact ⟨v, .inr hv, hofv⟩
    · rintro v (⟨-, hneeds⟩ | hv)
      · exact absurd hneeds hnot
      · exact h.complete v hv

theorem JobsOf.congr {tasks : List (NonceJob Seed Nonce)}
    {asked asked' : SecretNonceSlot Seed Share → Prop} (h : JobsOf tasks asked)
    (hiff : ∀ v, asked v ↔ asked' v) : JobsOf tasks asked' := by
  obtain rfl : asked = asked' := funext fun v => propext (hiff v)
  exact h

/-- What is asked depends on the slots through where the streams are. -/
theorem Asked.congr {ab ab₁ : AbSlots S} {streams : List CoordNonceStreamState}
    {nonceBatchSize : ℕ} {created : List (Creation Seed)} {v : SecretNonceSlot Seed Share}
    (h : Asked ab streams nonceBatchSize created v)
    (hsame : ∀ state ∈ streams, ab₁.target state.streamId = ab.target state.streamId) :
    Asked ab₁ streams nonceBatchSize created v := by
  cases h with
  | found hstate hnot htarget hneeds =>
      exact .found hstate hnot ((hsame _ hstate).trans htarget) hneeds
  | created hc hneeds => exact .created hc hneeds

/-- What is asked of a stream that is found, and of those after it. -/
theorem asked_cons_found {ab : AbSlots S} {nonceBatchSize p : ℕ} {state : CoordNonceStreamState}
    {rest : List CoordNonceStreamState} {created : List (Creation Seed)}
    {u v : SecretNonceSlot Seed Share} (htarget : ab.target state.streamId = some (p, u))
    (hnot : state.streamId ∉ created.map Creation.streamId) :
    (v = u ∧ u.NeedsNonces state nonceBatchSize) ∨ Asked ab rest nonceBatchSize created v ↔
      Asked ab (state :: rest) nonceBatchSize created v := by
  constructor
  · rintro (⟨rfl, hneeds⟩ | h)
    · exact .found List.mem_cons_self hnot htarget hneeds
    · cases h with
      | found hstate hnot htarget hneeds =>
          exact .found (List.mem_cons_of_mem _ hstate) hnot htarget hneeds
      | created hc hneeds => exact .created hc hneeds
  · intro h
    cases h with
    | found hstate hnot' htarget' hneeds =>
        rcases List.mem_cons.mp hstate with rfl | hstate
        · rw [htarget] at htarget'
          cases htarget'
          exact .inl ⟨rfl, hneeds⟩
        · exact .inr (.found hstate hnot' htarget' hneeds)
    | created hc hneeds => exact .inr (.created hc hneeds)

/-- What is asked of a stream that is created, and of those after it. -/
theorem asked_cons_created {ab : AbSlots S} {nonceBatchSize : ℕ} {c : Creation Seed}
    {rest : List CoordNonceStreamState} {created : List (Creation Seed)}
    {v : SecretNonceSlot Seed Share}
    (hrest : c.streamId ∉ rest.map CoordNonceStreamState.streamId) :
    (v = c.value ∧ (c.value : SecretNonceSlot Seed Share).NeedsNonces c.state nonceBatchSize) ∨
        Asked ab rest nonceBatchSize created v ↔
      Asked ab (c.state :: rest) nonceBatchSize (c :: created) v := by
  constructor
  · rintro (⟨rfl, hneeds⟩ | h)
    · exact .created List.mem_cons_self hneeds
    · cases h with
      | @found state p v hstate hnot htarget hneeds =>
          refine .found (List.mem_cons_of_mem _ hstate) (fun hmem => ?_) htarget hneeds
          rcases List.mem_cons.mp hmem with hid | hmem
          · exact hrest (hid ▸ List.mem_map_of_mem hstate)
          · exact hnot hmem
      | created hc hneeds => exact .created (List.mem_cons_of_mem c hc) hneeds
  · intro h
    cases h with
    | found hstate hnot htarget hneeds =>
        rw [List.map_cons, List.mem_cons, not_or] at hnot
        rcases List.mem_cons.mp hstate with rfl | hstate
        · exact absurd rfl hnot.1
        · exact .inr (.found hstate hnot.2 htarget hneeds)
    | created hc hneeds =>
        rcases List.mem_cons.mp hc with rfl | hc
        · exact .inl ⟨rfl, hneeds⟩
        · exact .inr (.created hc hneeds)

/-- **The whole loop**, existing streams first: every stream that it creates is put in the slot that
is given away next, and its jobs are of what it is asked for. -/
theorem openOrdered_spec {ab ab' : AbSlots S} {nonceBatchSize : ℕ}
    {streams : List CoordNonceStreamState} {rng : ℕ → Seed} {tasks : List (NonceJob Seed Nonce)}
    (hlen : streams.length ≤ ab.slots.length)
    (hnodup : (streams.map CoordNonceStreamState.streamId).Nodup)
    (hfirst : streams.Pairwise fun a b => ab.isOpen b → ab.isOpen a)
    (h : openOrdered nonceBatchSize streams rng ab = .ret (ab', tasks)) :
    ab'.value = afterGifts (fun c => some c.value) ab.value (ab.gifts streams rng) ∧
      JobsOf tasks (Asked ab streams nonceBatchSize (ab.creates streams rng)) := by
  induction streams generalizing rng ab tasks with
  | nil =>
      cases h
      refine ⟨rfl, fun _ hjob => (by cases hjob), fun v hv => ?_⟩
      cases hv with
      | found hstate => cases hstate
      | created hc => cases hc
  | cons state rest ih =>
      obtain ⟨ab₁, task, later, hstream, hrest, rfl⟩ := openOrdered_cons h
      have hslots : 0 < ab.slots.length := Nat.zero_lt_of_lt hlen
      obtain ⟨hheadFirst, hfirst⟩ := List.pairwise_cons.mp hfirst
      obtain ⟨hnew, hnodup⟩ := List.nodup_cons.mp (List.map_cons ▸ hnodup)
      have hids : ∀ later ∈ rest, later.streamId ≠ state.streamId := fun later hlater hid =>
        hnew (hid ▸ List.mem_map_of_mem hlater)
      cases hfinds : ab.finds state.streamId 0 with
      | true =>
          obtain ⟨p, v, htarget, hget⟩ := getOrCreate_of_finds hfinds (rng 0)
          have hv : ab.tick.value p = some v := (target_eq_some htarget).2.1
          obtain ⟨rfl, htask⟩ := openStream_spec hget hv hstream
          have hlen : rest.length ≤ ab.tick.slots.length := Nat.le_of_succ_le hlen
          obtain ⟨hvalue, hjobs⟩ := ih hlen hnodup hfirst hrest
          have hcreates := creates_cons_found hfinds rest rng
          have hnot : state.streamId ∉
              (ab.creates (state :: rest) rng).map Creation.streamId := by
            rw [← hcreates]
            intro hmem
            obtain ⟨c, hc, hid⟩ := List.mem_map.mp hmem
            exact hids c.state (state_mem_of_creations hc) hid
          refine ⟨?_, (hjobs.cons htask).congr fun u => ?_⟩
          · rw [hvalue, gifts, gifts, hcreates]
            rfl
          · rw [hcreates, ← asked_cons_found htarget hnot]
            exact or_congr_right
              ⟨fun hu => hu.congr fun _ _ => rfl, fun hu => hu.congr fun _ _ => rfl⟩
      | false =>
          obtain ⟨hget, hwhere⟩ := getOrCreate_of_not_finds hslots hfinds (rng 0)
          -- a later stream is not in the slot that was taken
          have hother : ∀ later ∈ rest,
              ab.value ab.nextSlot = none ∧ (∀ j < ab.nextSlot, ab.value j ≠ none) ∨
                ab.get later.streamId = none := by
            intro later hlater
            refine hwhere.imp_right fun hnone => ?_
            have hclosed := mt (hheadFirst later hlater) (by rw [isOpen, hnone]; exact nofun)
            exact Option.not_isSome_iff_eq_none.mp hclosed
          have hvalue₁ := value_created hslots state.streamId ab.nextLastUsed (rng 0)
          obtain ⟨rfl, htask⟩ := openStream_spec hget
            ((congrFun hvalue₁ _).trans (Function.update_self ..)) hstream
          have htarget : ∀ later ∈ rest, _ = ab.target later.streamId := fun later hlater =>
            target_created hslots (hids later hlater) ((hother later hlater).imp_left And.left)
              ab.nextLastUsed (rng 0)
          obtain ⟨hvalue, hjobs⟩ := ih
            (by rw [initializeAt_length, tick_slots]; exact Nat.le_of_succ_le hlen) hnodup
            (hfirst.imp_of_mem fun {a b} ha hb hab hopen => by
              have ha' := isOpen_created hslots (hids a ha)
                ((hother a ha).imp_left And.left) ab.nextLastUsed (rng 0)
              have hb' := isOpen_created hslots (hids b hb)
                ((hother b hb).imp_left And.left) ab.nextLastUsed (rng 0)
              rw [ha']
              rw [hb'] at hopen
              exact hab hopen) hrest
          -- the list of what is created, and then of what is given away
          have hcreates : ab.creates (state :: rest) rng =
              { state := state, stamp := ab.nextLastUsed, seed := rng 0 } ::
                (ab.tick.initializeAt ab.nextSlot state.streamId ab.nextLastUsed
                  (rng 0)).creates rest fun n => rng (n + 1) :=
            creates_cons_created hfinds rfl fun later hlater count =>
              finds_created hslots (hids later hlater) (hother later hlater) _ _ count
          have hstamp : ab.nextLastUsed ≤ u32Max := Nat.le_of_lt_succ (Nat.mod_lt _ (by decide))
          refine ⟨?_, (hjobs.cons htask).congr fun u => ?_⟩
          · rw [hvalue, hvalue₁, gifts, gifts, hcreates, handOut, afterGifts, afterGifts,
              List.foldl_cons,
              key_created hslots _ hstamp, initializeAt_length]
            rfl
          · rw [hcreates, ← asked_cons_created (c := { state, stamp := _, seed := _ }) hnew]
            exact or_congr_right
              ⟨fun hu => hu.congr fun later hlater => (htarget later hlater).symm,
                fun hu => hu.congr htarget⟩

/-! ### Whether the opened streams survive -/

/-- The streams that jobs were returned for are in the slots, with the seed and the index that the
jobs start from, and no two slots hold one stream. -/
structure Survives (ab : AbSlots S) (tasks : List (NonceJob Seed Nonce)) : Prop where
  present : ∀ job ∈ tasks, ∃ i v, ab.value i = some v ∧ job.IsOf v
  distinct : ab.Distinct

/-- The streams of a request in the order in which they are dealt with. -/
def ordered (ab : AbSlots S) (streams : List CoordNonceStreamState) : List CoordNonceStreamState :=
  streams.filter ab.isOpen ++ streams.filter fun state => !ab.isOpen state

/-- The slot is not one of those that a request gives away. -/
def Spares (ab : AbSlots S) (streams : List CoordNonceStreamState) (rng : ℕ → Seed) (i : ℕ) :
    Prop :=
  i ∉ (ab.gifts (ab.ordered streams) rng).map Prod.fst

/-- The slot that the stream is created in is not given away again. -/
def Lasts (ab : AbSlots S) (streams : List CoordNonceStreamState) (rng : ℕ → Seed)
    (c : Creation Seed) : Prop :=
  ∃ i, (i, c) ∈ lasting (ab.gifts (ab.ordered streams) rng)

/-- A slot that is not given away holds the nonces of this value. -/
def SparesNonces (ab : AbSlots S) (streams : List CoordNonceStreamState) (rng : ℕ → Seed)
    (v : SecretNonceSlot Seed Share) : Prop :=
  ∃ i u, ab.value i = some u ∧ ab.Spares streams rng i ∧ u.nonceStreamId = v.nonceStreamId ∧
    u.ratchetPrgSeedMaterial = v.ratchetPrgSeedMaterial ∧ u.index = v.index

/-- **When a request spares its own streams**: the slots that it does not give away hold no stream
twice and none that is created for good, a stream that was found and is short of nonces is in one of
them, and a stream that is created short of nonces is created for good. -/
structure SparesOwn (ab : AbSlots S) (streams : List CoordNonceStreamState) (nonceBatchSize : ℕ)
    (rng : ℕ → Seed) : Prop where
  distinct : ∀ i j v w, ab.value i = some v → ab.value j = some w → ab.Spares streams rng i →
    ab.Spares streams rng j → v.nonceStreamId = w.nonceStreamId → i = j
  created : ∀ i v, ab.value i = some v → ab.Spares streams rng i →
    ∀ c, ab.Lasts streams rng c → v.nonceStreamId ≠ c.streamId
  found : ∀ state ∈ streams,
    state.streamId ∉ (ab.creates (ab.ordered streams) rng).map Creation.streamId →
    ∀ i v, ab.target state.streamId = some (i, v) → v.NeedsNonces state nonceBatchSize →
    ab.SparesNonces streams rng v
  fresh : ∀ c ∈ ab.creates (ab.ordered streams) rng,
    (c.value : SecretNonceSlot Seed Share).NeedsNonces c.state nonceBatchSize →
    ab.Lasts streams rng c ∨ ab.SparesNonces streams rng c.value

theorem mem_ordered {ab : AbSlots S} {streams : List CoordNonceStreamState}
    {state : CoordNonceStreamState} : state ∈ ab.ordered streams ↔ state ∈ streams := by
  simp only [ordered, List.mem_append, List.mem_filter]
  cases ab.isOpen state <;> simp

theorem ordered_perm (ab : AbSlots S) (streams : List CoordNonceStreamState) :
    (ab.ordered streams).Perm streams :=
  List.filter_append_perm ab.isOpen streams

/-- The streams of a request that exist come first. -/
theorem ordered_pairwise (ab : AbSlots S) (streams : List CoordNonceStreamState) :
    (ab.ordered streams).Pairwise fun a b => ab.isOpen b → ab.isOpen a := by
  refine List.pairwise_append.mpr ⟨?_, ?_, fun a ha b _ _ => (List.mem_filter.mp ha).2⟩
  · exact List.Pairwise.imp_of_mem (fun ha _ _ _ => (List.mem_filter.mp ha).2)
      (List.pairwise_of_forall fun _ _ => trivial)
  · refine List.Pairwise.imp_of_mem (fun _ hb _ hopen => ?_)
      (List.pairwise_of_forall fun _ _ => trivial)
    have := (List.mem_filter.mp hb).2
    simp [hopen] at this

/-- What a request leaves of the slots, and which jobs it returns. -/
structure Outcome (ab : AbSlots S) (streams : List CoordNonceStreamState) (nonceBatchSize : ℕ)
    (rng : ℕ → Seed) (ab' : AbSlots S) (tasks : List (NonceJob Seed Nonce)) : Prop where
  spared : ∀ i, ab.Spares streams rng i → ab'.value i = ab.value i
  given : ∀ i c, (i, c) ∈ lasting (ab.gifts (ab.ordered streams) rng) → ab'.value i = some c.value
  jobs : JobsOf tasks
    (Asked ab (ab.ordered streams) nonceBatchSize (ab.creates (ab.ordered streams) rng))

theorem recvOpenNonceStreams_outcome {ab ab' : AbSlots S} {streams : List CoordNonceStreamState}
    {nonceBatchSize : ℕ} {rng : ℕ → Seed} {reply : OpenReply Seed Nonce}
    (hids : (streams.map CoordNonceStreamState.streamId).Nodup)
    (hlen : streams.length ≤ ab.slots.length)
    (h : ab.recvOpenNonceStreams streams nonceBatchSize rng = .ret (ab', reply)) :
    Outcome ab streams nonceBatchSize rng ab' reply.tasks := by
  have hperm := ab.ordered_perm streams
  rw [← hperm.length_eq] at hlen
  simp only [recvOpenNonceStreams, List.partition_eq_filter_filter] at h
  obtain ⟨⟨ab₁, tasks⟩, hopen, h⟩ := Exec.bind_eq_ret_iff.mp h
  change openOrdered nonceBatchSize ((ab.ordered streams).take ab.slots.length) rng ab
    = .ret (ab₁, tasks) at hopen
  rw [List.take_of_length_le hlen] at hopen
  cases h
  have htasks : (if tasks.isEmpty then OpenReply.nonceResponse []
      else .nonceJobs (.new tasks)).tasks = tasks := by
    cases tasks <;> rfl
  rw [htasks]
  obtain ⟨hvalue, hjobs⟩ := openOrdered_spec hlen ((hperm.map _).nodup_iff.mpr hids)
    (ab.ordered_pairwise streams) hopen
  constructor
  case spared => exact fun i hi => by rw [hvalue, afterGifts_of_notMem _ _ hi]
  case given => exact fun i c hc => by rw [hvalue, afterGifts_of_lasting _ _ hc]
  case jobs => exact hjobs

/-- A slot is spared, or given to a stream for good. -/
theorem spares_or_given (ab : AbSlots S) (streams : List CoordNonceStreamState)
    (rng : ℕ → Seed) (i : ℕ) :
    ab.Spares streams rng i ∨ ∃ c, (i, c) ∈ lasting (ab.gifts (ab.ordered streams) rng) := by
  by_cases hi : i ∈ (ab.gifts (ab.ordered streams) rng).map Prod.fst
  · obtain ⟨⟨_, c⟩, hc, rfl⟩ := List.mem_map.mp (mem_lasting_fst.mpr hi)
    exact .inr ⟨c, hc⟩
  · exact .inl hi

theorem not_spares_of_given {ab : AbSlots S} {streams : List CoordNonceStreamState}
    {rng : ℕ → Seed} {i : ℕ} {c : Creation Seed}
    (h : (i, c) ∈ lasting (ab.gifts (ab.ordered streams) rng)) : ¬ ab.Spares streams rng i :=
  fun hi => hi (List.mem_map_of_mem (lasting_subset _ h))

/-- A request of distinct streams creates each once. -/
theorem creates_nodup (ab : AbSlots S) {streams : List CoordNonceStreamState}
    (hids : (streams.map CoordNonceStreamState.streamId).Nodup) (rng : ℕ → Seed) :
    ((ab.creates (ab.ordered streams) rng).map Creation.streamId).Nodup := by
  have hsub := (ab.creations_sublist (ab.ordered streams) ab.lastUsed 0 rng).map
    CoordNonceStreamState.streamId
  rw [List.map_map] at hsub
  exact hsub.nodup (((ab.ordered_perm streams).map _).nodup_iff.mpr hids)

/-- One stream is given one slot. -/
theorem given_unique {ab : AbSlots S} {streams : List CoordNonceStreamState}
    (hids : (streams.map CoordNonceStreamState.streamId).Nodup) {rng : ℕ → Seed} {i j : ℕ}
    {c c' : Creation Seed} (hc : (i, c) ∈ lasting (ab.gifts (ab.ordered streams) rng))
    (hc' : (j, c') ∈ lasting (ab.gifts (ab.ordered streams) rng))
    (hid : c.streamId = c'.streamId) : i = j ∧ c = c' := by
  have hnodup : ((ab.gifts (ab.ordered streams) rng).map (Creation.streamId ∘ Prod.snd)).Nodup := by
    rw [← List.map_map, gifts, handOut_map_snd]
    exact ab.creates_nodup hids rng
  exact Prod.mk.inj (List.inj_on_of_nodup_map hnodup (lasting_subset _ hc) (lasting_subset _ hc')
    hid)

theorem creates_of_given {ab : AbSlots S} {streams : List CoordNonceStreamState} {rng : ℕ → Seed}
    {i : ℕ} {c : Creation Seed} (h : (i, c) ∈ lasting (ab.gifts (ab.ordered streams) rng)) :
    c ∈ ab.creates (ab.ordered streams) rng := by
  have hmem := List.mem_map_of_mem (f := Prod.snd) (lasting_subset _ h)
  rwa [gifts, handOut_map_snd] at hmem

namespace Outcome

variable {ab ab' : AbSlots S} {streams : List CoordNonceStreamState} {nonceBatchSize : ℕ}
  {rng : ℕ → Seed} {tasks : List (NonceJob Seed Nonce)}

theorem kept (hout : Outcome ab streams nonceBatchSize rng ab' tasks) {i : ℕ}
    {v : SecretNonceSlot Seed Share} (hv : ab.value i = some v) (hi : ab.Spares streams rng i) :
    ab'.value i = some v :=
  (hout.spared i hi).trans hv

/-- When the opened streams are still there the request has spared them. -/
theorem sparesOwn (hout : Outcome ab streams nonceBatchSize rng ab' tasks)
    (hids : (streams.map CoordNonceStreamState.streamId).Nodup) (hsurvives : ab'.Survives tasks) :
    ab.SparesOwn streams nonceBatchSize rng := by
  constructor
  case distinct =>
    intro i j v w hv hw hi hj hid
    exact hsurvives.distinct i j v w (hout.kept hv hi) (hout.kept hw hj) hid
  case created =>
    rintro i v hv hi c ⟨j, hc⟩ hid
    obtain rfl := hsurvives.distinct i j v c.value (hout.kept hv hi) (hout.given j c hc) hid
    exact not_spares_of_given hc hi
  case found =>
    intro state hstate hnot i v htarget hneeds
    obtain ⟨job, hjob, hof⟩ := hout.jobs.complete v
      (.found (mem_ordered.mpr hstate) hnot htarget hneeds)
    obtain ⟨j, u, hu, hofu⟩ := hsurvives.present job hjob
    rcases ab.spares_or_given streams rng j with hj | ⟨c, hc⟩
    · exact ⟨j, u, (hout.spared j hj).symm.trans hu, hj, hofu.streamId.trans hof.streamId.symm,
        hofu.seedMaterial.trans hof.seedMaterial.symm, hofu.index.trans hof.index.symm⟩
    · -- a stream that is found is not created
      rw [hout.given j c hc] at hu
      cases hu
      have hid : c.streamId = state.streamId :=
        (hofu.streamId.trans hof.streamId.symm).trans (target_eq_some htarget).2.2
      exact absurd (hid ▸ List.mem_map_of_mem (creates_of_given hc)) hnot
  case fresh =>
    intro c hc hneeds
    obtain ⟨job, hjob, hof⟩ := hout.jobs.complete c.value (.created hc hneeds)
    obtain ⟨j, u, hu, hofu⟩ := hsurvives.present job hjob
    rcases ab.spares_or_given streams rng j with hj | ⟨c', hc'⟩
    · exact .inr ⟨j, u, (hout.spared j hj).symm.trans hu, hj,
        hofu.streamId.trans hof.streamId.symm, hofu.seedMaterial.trans hof.seedMaterial.symm,
        hofu.index.trans hof.index.symm⟩
    · rw [hout.given j c' hc'] at hu
      cases hu
      have hid : c'.streamId = c.streamId := hofu.streamId.trans hof.streamId.symm
      obtain rfl := List.inj_on_of_nodup_map (ab.creates_nodup hids rng)
        (creates_of_given hc') hc hid
      exact .inl ⟨j, hc'⟩

/-- When a request spares its own streams they are still there. -/
theorem survives (hout : Outcome ab streams nonceBatchSize rng ab' tasks)
    (hids : (streams.map CoordNonceStreamState.streamId).Nodup)
    (hspared : ab.SparesOwn streams nonceBatchSize rng) : ab'.Survives tasks := by
  have hspares : ∀ job : NonceJob Seed Nonce, ∀ v, job.IsOf v → ab.SparesNonces streams rng v →
      ∃ i u, ab'.value i = some u ∧ job.IsOf u := by
    rintro job v hof ⟨j, u, hu, hj, hid, hseed, hindex⟩
    exact ⟨j, u, hout.kept hu hj, hid.trans hof.streamId, hseed.trans hof.seedMaterial,
      hindex.trans hof.index⟩
  constructor
  case present =>
    intro job hjob
    obtain ⟨v, hasked, hof⟩ := hout.jobs.sound job hjob
    cases hasked with
    | found hstate hnot htarget hneeds =>
        exact hspares job _ hof
          (hspared.found _ (mem_ordered.mp hstate) hnot _ _ htarget hneeds)
    | created hc hneeds =>
        rcases hspared.fresh _ hc hneeds with ⟨i, hgiven⟩ | hkeeps
        · exact ⟨i, _, hout.given i _ hgiven, hof⟩
        · exact hspares job _ hof hkeeps
  case distinct =>
    intro i j v w hv hw hid
    rcases ab.spares_or_given streams rng i with hi | ⟨c, hc⟩ <;>
      rcases ab.spares_or_given streams rng j with hj | ⟨c', hc'⟩
    · rw [hout.spared i hi] at hv
      rw [hout.spared j hj] at hw
      exact hspared.distinct i j v w hv hw hi hj hid
    · rw [hout.spared i hi] at hv
      rw [hout.given j c' hc'] at hw
      cases hw
      exact absurd hid (hspared.created i v hv hi c' ⟨j, hc'⟩)
    · rw [hout.given i c hc] at hv
      rw [hout.spared j hj] at hw
      cases hv
      exact absurd hid.symm (hspared.created j w hw hj c ⟨i, hc⟩)
    · rw [hout.given i c hc] at hv
      rw [hout.given j c' hc'] at hw
      cases hv
      cases hw
      exact (given_unique hids hc hc' hid).1

end Outcome

/-! ### Ordinary stores -/

/-- In an ordinary store a stream that a slot holds is found. -/
theorem Ordinary.finds_eq {ab : AbSlots S} (hord : ab.Ordinary) (state : CoordNonceStreamState)
    (count : ℕ) : ab.finds state.streamId count = ab.isOpen state := by
  cases hget : ab.get state.streamId with
  | none => simp only [finds, isOpen, hget, Option.isSome_none]
  | some p =>
      obtain ⟨v, hv, -, -⟩ := get_eq_some hget
      have hempty : ab.emptyBefore p = ∅ := by
        refine Finset.eq_empty_of_forall_notMem fun e he => ?_
        obtain ⟨⟨-, he⟩, hlt⟩ := mem_emptyBefore.mp he
        rw [hord.packed e p hlt he] at hv
        cases hv
      simp only [finds, isOpen, hget, hempty, Finset.card_empty, Nat.zero_le, decide_true,
        Option.isSome_some]

/-- In an ordinary store a request creates the streams that no slot holds. -/
theorem Ordinary.creates_eq {ab : AbSlots S} (hord : ab.Ordinary)
    (streams : List CoordNonceStreamState) (rng : ℕ → Seed) :
    (ab.creates (ab.ordered streams) rng).map Creation.state =
      streams.filter fun state => !ab.isOpen state := by
  have hcreated : ∀ (l : List CoordNonceStreamState) lastUsed count (rng : ℕ → Seed),
      (ab.creations l lastUsed count rng).map Creation.state =
        l.filter fun state => !ab.isOpen state := by
    intro l
    induction l with
    | nil => exact fun _ _ _ => rfl
    | cons state rest ih =>
        intro lastUsed count rng
        rw [creations, hord.finds_eq]
        cases hopen : ab.isOpen state <;> simp [hopen, ih]
  rw [creates, hcreated, ordered, List.filter_append, List.filter_filter, List.filter_filter]
  simp

/-- In an ordinary store the streams that a request creates are in no slot. -/
theorem Ordinary.absent_of_creates {ab : AbSlots S} (hord : ab.Ordinary)
    {streams : List CoordNonceStreamState} {rng : ℕ → Seed} {c : Creation Seed}
    (hc : c ∈ ab.creates (ab.ordered streams) rng) : ab.Absent c.streamId := by
  have hmem := List.mem_map_of_mem (f := Creation.state) hc
  rw [hord.creates_eq] at hmem
  have hnot := (List.mem_filter.mp hmem).2
  simp only [isOpen, Bool.not_eq_true', Option.isSome_eq_false_iff, Option.isNone_iff_eq_none]
    at hnot
  exact absent_of_get hnot

/-- **In an ordinary store** a request spares its own streams when it gives away no slot of a stream
that it finds short of nonces, and none twice to a stream that it creates short of nonces. -/
theorem Ordinary.sparesOwn_iff {ab : AbSlots S} (hord : ab.Ordinary)
    (streams : List CoordNonceStreamState) (nonceBatchSize : ℕ) (rng : ℕ → Seed) :
    ab.SparesOwn streams nonceBatchSize rng ↔
      (∀ state ∈ streams, ∀ i v, ab.target state.streamId = some (i, v) →
        v.NeedsNonces state nonceBatchSize → ab.Spares streams rng i) ∧
      ∀ c ∈ ab.creates (ab.ordered streams) rng,
        (c.value : SecretNonceSlot Seed Share).NeedsNonces c.state nonceBatchSize →
        ab.Lasts streams rng c := by
  constructor
  · intro hspared
    constructor
    · intro state hstate i v htarget hneeds
      obtain ⟨-, hv, hid⟩ := target_eq_some htarget
      have hnot : state.streamId ∉
          (ab.creates (ab.ordered streams) rng).map Creation.streamId := by
        intro hmem
        obtain ⟨c, hc, hcid⟩ := List.mem_map.mp hmem
        exact hord.absent_of_creates hc i v hv (hid.trans hcid.symm)
      obtain ⟨j, u, hu, hj, huid, -, -⟩ := hspared.found state hstate hnot i v htarget hneeds
      obtain rfl := hord.distinct j i u v hu hv huid
      exact hj
    · intro c hc hneeds
      refine (hspared.fresh c hc hneeds).resolve_right ?_
      rintro ⟨j, u, hu, -, huid, -, -⟩
      exact hord.absent_of_creates hc j u hu huid
  · rintro ⟨hfound, hfresh⟩
    constructor
    case distinct => exact fun i j v w hv hw _ _ hid => hord.distinct i j v w hv hw hid
    case created =>
      rintro i v hv - c ⟨j, hc⟩
      exact hord.absent_of_creates (creates_of_given hc) i v hv
    case found =>
      intro state hstate _ i v htarget hneeds
      exact ⟨i, v, (target_eq_some htarget).2.1, hfound state hstate i v htarget hneeds, rfl, rfl,
        rfl⟩
    case fresh => exact fun c hc hneeds => .inl (hfresh c hc hneeds)

/-! ### Room for what is created -/

/-- A request has room: for every stream that it creates, there are as many slots that are given
away before one with the stamp of that stream. -/
def HasRoom (ab : AbSlots S) (streams : List CoordNonceStreamState) (rng : ℕ → Seed) : Prop :=
  ∀ c ∈ ab.creates (ab.ordered streams) rng,
    (ab.creates (ab.ordered streams) rng).length ≤
      placesBelow ab.slots.length ab.key (c.stamp + 1)

/-- With an empty slot for each stream that is created there is room. -/
theorem HasRoom.of_emptySlots {ab : AbSlots S} {streams : List CoordNonceStreamState}
    {rng : ℕ → Seed}
    (h : (ab.creates (ab.ordered streams) rng).length ≤ ab.emptySlots.card) :
    ab.HasRoom streams rng := by
  intro c _
  refine h.trans (Finset.card_le_card fun i hi => ?_)
  obtain ⟨hpos, hage⟩ := Finset.mem_filter.mp hi
  refine Finset.mem_filter.mpr ⟨hpos, ?_⟩
  rw [key, hage]
  omega

/-- The clock is ahead of every stamp, and `n` ticks do not wrap it. -/
structure ClockAhead (ab : AbSlots S) (n : ℕ) : Prop where
  stamped : ∀ i v, ab.value i = some v → v.lastUsed ≤ ab.lastUsed
  fits : ab.lastUsed + n ≤ u32Max

/-- While the clock does not wrap, what is created is stamped later than before. -/
theorem lt_stamp_of_creations {ab : AbSlots S} {streams : List CoordNonceStreamState}
    {lastUsed count : ℕ} {rng : ℕ → Seed} {c : Creation Seed}
    (hfits : lastUsed + streams.length ≤ u32Max)
    (hc : c ∈ ab.creations streams lastUsed count rng) : lastUsed < c.stamp := by
  induction streams generalizing lastUsed count rng with
  | nil => cases hc
  | cons state rest ih =>
      rw [List.length_cons] at hfits
      have hstamp : asU32 (lastUsed + 1) = lastUsed + 1 := asU32_of_le (by omega)
      rw [creations, hstamp] at hc
      split at hc
      · exact Nat.lt_of_succ_lt (ih (by omega) hc)
      · rcases List.mem_cons.mp hc with rfl | hc
        · exact Nat.lt_succ_self lastUsed
        · exact Nat.lt_of_succ_lt (ih (by omega) hc)

/-- With the clock ahead for the whole request there is room. -/
theorem ClockAhead.hasRoom {ab : AbSlots S} {streams : List CoordNonceStreamState}
    (h : ab.ClockAhead streams.length) (hlen : streams.length ≤ ab.slots.length)
    (rng : ℕ → Seed) : ab.HasRoom streams rng := by
  intro c hc
  have hperm := ab.ordered_perm streams
  have hcreated : (ab.creates (ab.ordered streams) rng).length ≤ ab.slots.length := by
    have hle := (ab.creations_sublist (ab.ordered streams) ab.lastUsed 0 rng).length_le
    rw [List.length_map, hperm.length_eq] at hle
    exact hle.trans hlen
  have hstamp := lt_stamp_of_creations (by rw [hperm.length_eq]; exact h.fits) hc
  -- every slot has an older stamp
  have hall : (Finset.range ab.slots.length).filter (ab.key · < c.stamp + 1) =
      Finset.range ab.slots.length := by
    refine Finset.filter_true_of_mem fun i _ => ?_
    rw [key]
    cases hv : ab.value i with
    | none =>
        rw [age_eq_zero_iff.mpr hv]
        omega
    | some v =>
        have hold := h.stamped i v hv
        rw [age_of_value hv]
        omega
  rw [placesBelow, hall, Finset.card_range]
  exact hcreated

/-- Slots that have just been loaded are stamped before the clock. -/
theorem ClockAhead.new (slots : List S) {n : ℕ} (h : (AbSlots.new slots).lastUsed + n ≤ u32Max) :
    (AbSlots.new slots).ClockAhead n where
  stamped _ _ hv := new_stamped slots hv
  fits := h

/-- **In an ordinary store with room** a request spares its own streams when it creates no more
streams than there are slots that are given away before each of those that it finds short of
nonces. -/
theorem Ordinary.sparesOwn_iff_rank {ab : AbSlots S} (hord : ab.Ordinary)
    {streams : List CoordNonceStreamState} {rng : ℕ → Seed} (hroom : ab.HasRoom streams rng)
    (nonceBatchSize : ℕ) :
    ab.SparesOwn streams nonceBatchSize rng ↔
      ∀ state ∈ streams, ∀ i v, ab.target state.streamId = some (i, v) →
        v.NeedsNonces state nonceBatchSize →
        (streams.filter fun state => !ab.isOpen state).length ≤
          rankIn (KeyBefore ab.key) ab.positions i := by
  obtain ⟨hnodup, hlowest⟩ := handOut_lowest hroom
  rw [hord.sparesOwn_iff, and_iff_left]
  · refine forall₂_congr fun state hstate => forall₃_congr fun i v htarget => ?_
    refine forall_congr' fun hneeds => ?_
    have hpos := mem_positions_of_value (target_eq_some htarget).2.1
    have hiff := hlowest.mem_iff hpos
    rw [List.mem_toFinset, List.toFinset_card_of_nodup hnodup, List.length_map] at hiff
    have hlength := congrArg List.length
      (handOut_map_snd ab.slots.length (fun c : Creation Seed => c.stamp + 1) ab.key
        (ab.creates (ab.ordered streams) rng))
    rw [List.length_map] at hlength
    rw [← hord.creates_eq streams rng, List.length_map, ← hlength, ← not_lt]
    exact not_congr hiff
  · -- no slot is given away twice
    intro c hc _
    rw [← handOut_map_snd ab.slots.length (fun c : Creation Seed => c.stamp + 1) ab.key
      (ab.creates (ab.ordered streams) rng)] at hc
    obtain ⟨⟨i, _⟩, hgift, rfl⟩ := List.mem_map.mp hc
    refine ⟨i, ?_⟩
    rw [gifts, lasting_of_nodup hnodup]
    exact hgift

end AbSlots

/-- **Opened streams survive their own request** exactly when the request spares them, in every
store. -/
theorem opened_streams_survive {ab ab' : AbSlots S} {streams : List CoordNonceStreamState}
    {nonceBatchSize : ℕ} {rng : ℕ → Seed} {reply : OpenReply Seed Nonce}
    (hids : (streams.map CoordNonceStreamState.streamId).Nodup)
    (hlen : streams.length ≤ ab.slots.length)
    (h : ab.recvOpenNonceStreams streams nonceBatchSize rng = .ret (ab', reply)) :
    ab'.Survives reply.tasks ↔ ab.SparesOwn streams nonceBatchSize rng := by
  have hout := AbSlots.recvOpenNonceStreams_outcome hids hlen h
  exact ⟨hout.sparesOwn hids, hout.survives hids⟩

/-- Two streams, opened one after the other. -/
def twoStreams : AbSlots (MemoryNonceSlot ℕ ℕ) where
  slots := [⟨some (.initial 1 1 10)⟩, ⟨some (.initial 2 2 20)⟩]
  lastUsed := 2

/-- The older of two streams is opened again together with a third one. -/
def oldAndNew : List CoordNonceStreamState := [⟨1, 0, 0⟩, ⟨3, 0, 0⟩]

/-- The request that opens the third stream evicts the first, whose job it returns. -/
theorem opened_streams_survive_of_twoStreams :
    ∃ ab', ∃ reply : OpenReply ℕ ℕ,
      twoStreams.recvOpenNonceStreams oldAndNew 2 (30 + ·) = .ret (ab', reply) ∧
        (ab'.Survives reply.tasks ↔ twoStreams.SparesOwn oldAndNew 2 (30 + ·)) :=
  ⟨_, _, rfl, opened_streams_survive (by decide) (by decide) rfl⟩

/-- Two streams, the second opened right before the clock wraps and the first at its end. -/
example :
    let wrapping : AbSlots (MemoryNonceSlot ℕ ℕ) :=
      { slots := [⟨some (.initial 1 u32Max 10)⟩, ⟨some (.initial 2 (u32Max - 1) 20)⟩]
        lastUsed := u32Max }
    ((wrapping.gifts (wrapping.ordered [⟨3, 0, 0⟩, ⟨4, 0, 0⟩]) (30 + ·)).map fun gift =>
      (gift.1, gift.2.streamId)) = [(1, 3), (1, 4)] := by
  decide

/-- The first stream was opened again, and is in no slot afterwards. -/
theorem third_stream_evicts_first :
    (oldAndNew.map CoordNonceStreamState.streamId).Nodup ∧
      oldAndNew.length ≤ twoStreams.slots.length ∧
      ∃ ab', ∃ reply : OpenReply ℕ ℕ,
        twoStreams.recvOpenNonceStreams oldAndNew 2 (30 + ·) = .ret (ab', reply) ∧
          ¬ ab'.Survives reply.tasks := by
  refine ⟨by decide, by decide, _, _, rfl, fun h => ?_⟩
  obtain ⟨i, v, hv, hof⟩ := h.present _ List.mem_cons_self
  have hid := hof.streamId
  match i with
  | 0 | 1 =>
      cases hv
      revert hid
      decide
  | i + 2 => cases hv

end Frostsnap
