import Frostsnap.Device.Signing

/-!
# Nonce requests that can be answered

Which requests for nonces and signatures the slots of a device can answer, for every index that
the coordinator sends. No index is checked before it is added to, so that a request near the end of
the `u32`s panics.

## Main results

* `NonceJobBatch.runUntilFinished_done`: a batch of jobs is done when its loop ends.
* `AbSlots.openOrdered_returns_iff`: the loop over the streams of a request returns exactly when
  the index of each leaves room for the nonces that it needs.
* `AbSlots.signSessions_returns_iff`: the same of a signature.
-/

namespace Frostsnap

variable {Seed SecretNonce Nonce Share Item : Type}

/-! ### Jobs -/

namespace NonceJob

/-- No nonce is missing. -/
def Done (job : NonceJob Seed Nonce) : Prop := job.targetIndex ≤ job.index

theorem intoSegment_returns_iff {job : NonceJob Seed Nonce} :
    job.intoSegment.Returns ↔ job.Done := by
  rw [intoSegment, Done]
  split
  · exact iff_of_true (Exec.returns_ret _) ‹_›
  · exact iff_of_false (Exec.not_returns_panic _) ‹_›

variable (d : NonceDerivation Seed SecretNonce Nonce) (job : NonceJob Seed Nonce)

/-- A unit of work says whether the job is done, and moves it on if it was not. -/
theorem doWork_spec :
    (job.doWork d).1.targetIndex = job.targetIndex ∧
      ((job.doWork d).2 = true ↔ (job.doWork d).1.Done) ∧
      (job.Done → (job.doWork d).1 = job) ∧
      (¬ job.Done → (job.doWork d).1.index = job.index + 1) := by
  rw [doWork]
  split
  · rename_i hdone
    exact ⟨rfl, iff_of_true rfl hdone, fun _ => rfl, fun hnot => absurd hdone hnot⟩
  · rename_i hdone
    exact ⟨rfl, decide_eq_true_iff, fun h => absurd h hdone, fun _ => rfl⟩

theorem runFor_done {fuel : ℕ} (h : job.targetIndex - job.index < fuel) :
    (job.runFor d fuel).Done := by
  induction fuel generalizing job with
  | zero => exact absurd h (Nat.not_lt_zero _)
  | succ fuel ih =>
      obtain ⟨htarget, hfinished, hstays, hmoves⟩ := job.doWork_spec d
      rw [runFor]
      split
      · rename_i hflag
        exact hfinished.1 hflag
      · rename_i hflag
        have hnot : ¬ job.Done := by
          intro hdone
          refine hflag (hfinished.2 ?_)
          rw [hstays hdone]
          exact hdone
        refine ih _ ?_
        rw [htarget, hmoves hnot]
        rw [Done] at hnot
        omega

theorem runUntilFinished_done : (job.runUntilFinished d).Done :=
  job.runFor_done d (Nat.lt_succ_self _)

end NonceJob

namespace NonceJobBatch

variable (d : NonceDerivation Seed SecretNonce Nonce)

/-- The jobs before the current one are done. -/
def Sound (batch : NonceJobBatch Seed Nonce) : Prop :=
  ∀ i < batch.currentTaskIndex, ∀ job, batch.tasks[i]? = some job → job.Done

/-- The work that is left is that on the current job and on those after it. -/
theorem workLeft_eq {batch : NonceJobBatch Seed Nonce} {job : NonceJob Seed Nonce}
    (h : batch.tasks[batch.currentTaskIndex]? = some job) :
    batch.workLeft = job.targetIndex - job.index + 1 +
      (NonceJobBatch.mk batch.tasks (batch.currentTaskIndex + 1)).workLeft := by
  obtain ⟨hlt, rfl⟩ := List.getElem?_eq_some_iff.1 h
  rw [workLeft, workLeft, List.drop_eq_getElem_cons hlt, List.map_cons, List.sum_cons]

/-- A unit of work on a batch. -/
theorem doWork_spec {batch : NonceJobBatch Seed Nonce} (h : batch.Sound) :
    (batch.doWork d).1.Sound ∧
      ((batch.doWork d).2 = true ↔
        (batch.doWork d).1.tasks.length ≤ (batch.doWork d).1.currentTaskIndex) ∧
      ((batch.doWork d).2 = false → (batch.doWork d).1.workLeft < batch.workLeft) := by
  cases hjob : batch.tasks[batch.currentTaskIndex]? with
  | none =>
      have hwork : batch.doWork d =
          (batch, decide (batch.tasks.length ≤ batch.currentTaskIndex)) := by
        rw [doWork, hjob]
      rw [hwork]
      refine ⟨h, decide_eq_true_iff, fun hflag => ?_⟩
      exact absurd (List.getElem?_eq_none_iff.1 hjob) (of_decide_eq_false hflag)
  | some job =>
      obtain ⟨htarget, hfinished, hstays, hmoves⟩ := job.doWork_spec d
      obtain ⟨hlt, -⟩ := List.getElem?_eq_some_iff.1 hjob
      have hset : (batch.tasks.set batch.currentTaskIndex (job.doWork d).1)[
          batch.currentTaskIndex]? = some (job.doWork d).1 := List.getElem?_set_self hlt
      have hrest : (NonceJobBatch.mk (batch.tasks.set batch.currentTaskIndex (job.doWork d).1)
          (batch.currentTaskIndex + 1)).workLeft =
            (NonceJobBatch.mk batch.tasks (batch.currentTaskIndex + 1)).workLeft := by
        simp only [workLeft, List.drop_set_of_lt (Nat.lt_succ_self _)]
      have hsound : ∀ i < batch.currentTaskIndex, ∀ other,
          (batch.tasks.set batch.currentTaskIndex (job.doWork d).1)[i]? = some other →
            other.Done := by
        intro i hi other hother
        rw [List.getElem?_set_ne (Nat.ne_of_gt hi)] at hother
        exact h i hi other hother
      rw [workLeft_eq hjob]
      cases hflag : (job.doWork d).2 with
      | true =>
          have hwork : batch.doWork d =
              (⟨batch.tasks.set batch.currentTaskIndex (job.doWork d).1,
                batch.currentTaskIndex + 1⟩,
                decide ((batch.tasks.set batch.currentTaskIndex (job.doWork d).1).length ≤
                  batch.currentTaskIndex + 1)) := by
            simp only [doWork, hjob, hflag, if_true]
          rw [hwork]
          refine ⟨fun i hi other hother => ?_, decide_eq_true_iff, fun _ => ?_⟩
          · rcases Nat.lt_succ_iff_lt_or_eq.1 hi with hi | rfl
            · exact hsound i hi other hother
            · rw [hset] at hother
              obtain rfl := Option.some.inj hother
              exact hfinished.1 hflag
          · rw [hrest]
            omega
      | false =>
          have hwork : batch.doWork d =
              (⟨batch.tasks.set batch.currentTaskIndex (job.doWork d).1,
                batch.currentTaskIndex⟩,
                decide ((batch.tasks.set batch.currentTaskIndex (job.doWork d).1).length ≤
                  batch.currentTaskIndex)) := by
            simp only [doWork, hjob, hflag, Bool.false_eq_true, if_false]
          have hnot : ¬ job.Done := by
            intro hdone
            have hdone' : (job.doWork d).1.Done := by
              rw [hstays hdone]
              exact hdone
            rw [hfinished.2 hdone'] at hflag
            cases hflag
          rw [hwork]
          refine ⟨hsound, decide_eq_true_iff, fun _ => ?_⟩
          rw [workLeft_eq hset, hrest, htarget, hmoves hnot]
          rw [NonceJob.Done] at hnot
          omega

theorem runFor_done {batch : NonceJobBatch Seed Nonce} (h : batch.Sound) {fuel : ℕ}
    (hfuel : batch.workLeft < fuel) :
    (batch.runFor d fuel).Sound ∧
      (batch.runFor d fuel).tasks.length ≤ (batch.runFor d fuel).currentTaskIndex := by
  induction fuel generalizing batch with
  | zero => exact absurd hfuel (Nat.not_lt_zero _)
  | succ fuel ih =>
      obtain ⟨hsound, hfinished, hless⟩ := doWork_spec d h
      rw [runFor]
      split
      · rename_i hflag
        exact ⟨hsound, hfinished.1 hflag⟩
      · rename_i hflag
        have hless := hless (Bool.eq_false_iff.2 hflag)
        exact ih hsound (by omega)

/-- **A batch of jobs is done** when its loop ends, and gives the segments. -/
theorem runUntilFinished_done (tasks : List (NonceJob Seed Nonce)) :
    ((NonceJobBatch.new tasks).runUntilFinished d).intoSegments.Returns := by
  have hsound : (NonceJobBatch.new tasks).Sound := fun i hi => absurd hi (Nat.not_lt_zero i)
  obtain ⟨hdone, hend⟩ := runFor_done d hsound (Nat.lt_add_one _)
  rw [runUntilFinished, intoSegments, Exec.assert_of _ hend]
  refine Exec.returns_mapM_iff.2 fun job hjob => ?_
  obtain ⟨i, hi⟩ := List.getElem?_of_mem hjob
  obtain ⟨hlt, -⟩ := List.getElem?_eq_some_iff.1 hi
  exact NonceJob.intoSegment_returns_iff.2 (hdone i (by omega) job hi)

end NonceJobBatch

/-! ### Reconciling -/

/-- There is room for the nonces that reconciling makes a job for: a whole batch from the index of
the slot when the coordinator is short of nonces, and else those up to the index that the
coordinator sends. -/
def ReconcileFits (index : ℕ) (state : CoordNonceStreamState) (nonceBatchSize : ℕ) : Prop :=
  if state.index < index ∨ state.remaining < nonceBatchSize then index + nonceBatchSize < u32Max
  else index = state.index ∨ state.index < u32Max

instance (index : ℕ) (state : CoordNonceStreamState) (nonceBatchSize : ℕ) :
    Decidable (ReconcileFits index state nonceBatchSize) :=
  inferInstanceAs (Decidable (if state.index < index ∨ state.remaining < nonceBatchSize then
    index + nonceBatchSize < u32Max else index = state.index ∨ state.index < u32Max))

namespace SecretNonceSlot

theorem nonceTask_returns_iff (v : SecretNonceSlot Seed Share) (length : ℕ) :
    (v.nonceTask none length : Exec (NonceJob Seed Nonce)).Returns ↔
      v.index + length < u32Max := by
  rw [nonceTask]
  simp only [Option.getD_none, Nat.lt_irrefl, if_false]
  split
  · exact iff_of_false (Exec.not_returns_panic _) (by omega)
  · split
    · exact iff_of_false (Exec.not_returns_panic _) (by omega)
    · exact iff_of_true (Exec.returns_ret _) (by omega)

theorem reconcile_returns_iff (v : SecretNonceSlot Seed Share) (state : CoordNonceStreamState)
    (nonceBatchSize : ℕ) :
    (v.reconcileCoordNonceStreamState state nonceBatchSize :
      Exec (Option (NonceJob Seed Nonce))).Returns ↔
      ReconcileFits v.index state nonceBatchSize := by
  rw [reconcileCoordNonceStreamState, ReconcileFits]
  have hsome (length : ℕ) : ((do return some (← v.nonceTask none length) :
      Exec (Option (NonceJob Seed Nonce)))).Returns ↔ v.index + length < u32Max := by
    rw [← v.nonceTask_returns_iff length, Exec.returns_bind]
    constructor
    · rintro ⟨job, hjob, -⟩
      exact ⟨job, hjob⟩
    · rintro ⟨job, hjob⟩
      exact ⟨job, hjob, Exec.returns_ret _⟩
  split
  · exact hsome nonceBatchSize
  · rename_i hshort
    split
    · rename_i heq
      exact iff_of_true (Exec.returns_ret _) (.inl heq)
    · rename_i hne
      rw [hsome]
      omega

end SecretNonceSlot

/-! ### Signing with a slot -/

/-- Where skipping ends: the iterator does not go past the last index. -/
theorem SecretNonceIter.skip_index (d : NonceDerivation Seed SecretNonce Nonce)
    (streamId : NonceStreamId) (n : ℕ) (it : SecretNonceIter Seed) :
    (it.skip d streamId n).index = max it.index (min (it.index + n) u32Max) := by
  induction n generalizing it with
  | zero => rw [SecretNonceIter.skip]; omega
  | succ n ih =>
      rw [SecretNonceIter.skip, SecretNonceIter.next]
      by_cases hend : u32Max ≤ it.index
      · rw [if_pos hend]
        dsimp only
        omega
      · rw [if_neg hend]
        dsimp only
        rw [ih]
        dsimp only
        omega

/-- The loop is out of range when the nonces end before the sessions do. -/
theorem signLoop_outOfRange (d : NonceDerivation Seed SecretNonce Nonce)
    (sign : Item → SecretNonce → Share) (streamId : NonceStreamId) (items : List Item)
    (it : SecretNonceIter Seed) (shares : List Share) (next : Option (ℕ × Seed)) :
    (signLoop d sign streamId items it shares next).outOfRange = false ↔
      items = [] ∨ it.index + items.length ≤ u32Max := by
  induction items generalizing it shares next with
  | nil => exact iff_of_true rfl (.inl rfl)
  | cons item items ih =>
      rw [signLoop, SecretNonceIter.next]
      by_cases hend : u32Max ≤ it.index
      · rw [if_pos hend]
        refine iff_of_false Bool.false_ne_true.symm ?_
        rw [List.length_cons]
        rintro (h | h)
        · cases h
        · omega
      · rw [if_neg hend]
        dsimp only
        rw [ih, List.length_cons]
        cases items with
        | nil => simp; omega
        | cons other items => simp; omega

/-- The state after the last nonce that was used. -/
theorem signLoop_nextPrgState (d : NonceDerivation Seed SecretNonce Nonce)
    (sign : Item → SecretNonce → Share) (streamId : NonceStreamId) (items : List Item)
    (it : SecretNonceIter Seed) (shares : List Share) (next : Option (ℕ × Seed))
    (hrange : it.index + items.length ≤ u32Max) :
    (items = [] ∧ (signLoop d sign streamId items it shares next).nextPrgState = next) ∨
      ∃ seed, (signLoop d sign streamId items it shares next).nextPrgState =
        some (it.index + items.length, seed) := by
  induction items generalizing it shares next with
  | nil => exact .inl ⟨rfl, rfl⟩
  | cons item items ih =>
      rw [List.length_cons] at hrange
      have hnot : ¬ u32Max ≤ it.index := by omega
      rw [signLoop, SecretNonceIter.next, if_neg hnot]
      dsimp only
      right
      rcases ih { seedMaterial := (d.ratchetStep streamId it.index it.seedMaterial).1
                  index := it.index + 1 } (shares ++ [sign item (d.ratchetStep streamId it.index
                    it.seedMaterial).2]) (some (it.index + 1,
                      (d.ratchetStep streamId it.index it.seedMaterial).1)) (by
                        dsimp only
                        omega) with ⟨rfl, hnext⟩ | ⟨seed, hnext⟩
      · exact ⟨_, hnext⟩
      · refine ⟨seed, hnext.trans ?_⟩
        rw [List.length_cons, Nat.add_right_comm, Nat.add_assoc]

/-- A signature of `nItems` can be made and replenished: the shares that are cached are sent again,
used nonces are refused, and otherwise there is a session for each item and room for the nonces of
the items and for those that they are replenished with. -/
def SignatureFits (v : SecretNonceSlot Seed Share) (sessionId : SignSessionId)
    (state : CoordNonceStreamState) (nItems nSessions nonceBatchSize : ℕ) : Prop :=
  if v.IsCached sessionId then ReconcileFits v.index state nonceBatchSize
  else
    state.index < v.index ∨
      nItems ≤ nSessions ∧ state.index + nItems + nonceBatchSize < u32Max

instance (v : SecretNonceSlot Seed Share) (sessionId : SignSessionId)
    (state : CoordNonceStreamState) (nItems nSessions nonceBatchSize : ℕ) :
    Decidable (SignatureFits v sessionId state nItems nSessions nonceBatchSize) :=
  inferInstanceAs (Decidable (if v.IsCached sessionId then
    ReconcileFits v.index state nonceBatchSize else _ ∨ _))

namespace SecretNonceSlot

/-- A slot that signs anew is past the nonces that it used. -/
theorem withSignatures_fresh {d : NonceDerivation Seed SecretNonce Nonce}
    {sign : Item → SecretNonce → Share} {v : SecretNonceSlot Seed Share}
    {sessionId : SignSessionId} {state : CoordNonceStreamState} {lastUsed : ℕ}
    {items : List Item} (hcached : ¬ v.IsCached sessionId) (hindex : v.index ≤ state.index) :
    (0 < items.length ∧ state.index + items.length ≤ u32Max ∧
        ∃ w, v.withSignatures d sign sessionId state lastUsed items = .ret (.ok w) ∧
          w.index = state.index + items.length ∧ w.signingState.isSome) ∨
      (¬ (0 < items.length ∧ state.index + items.length ≤ u32Max) ∧
        ∃ msg, v.withSignatures d sign sessionId state lastUsed items = .panic msg) := by
  have hskip := SecretNonceIter.skip_index d v.nonceStreamId (state.index - v.index)
    v.iterSecretNonces
  have hiter : v.iterSecretNonces.index = v.index := rfl
  rw [withSignatures, if_neg hcached, if_neg (Nat.not_lt.2 hindex)]
  dsimp only
  generalize v.iterSecretNonces.skip d v.nonceStreamId (state.index - v.index) = it at hskip ⊢
  have hrange := signLoop_outOfRange d sign v.nonceStreamId items it [] none
  by_cases hfits : 0 < items.length ∧ state.index + items.length ≤ u32Max
  · obtain ⟨hsome, hle⟩ := hfits
    have hat : it.index = state.index := by
      rw [hskip, hiter]
      omega
    rw [← hat] at hle
    rw [hrange.2 (.inr hle), if_neg Bool.false_ne_true]
    left
    refine ⟨hsome, hat ▸ hle, ?_⟩
    rcases signLoop_nextPrgState d sign v.nonceStreamId items it [] none hle with
      ⟨rfl, -⟩ | ⟨seed, hnext⟩
    · exact absurd hsome (Nat.lt_irrefl 0)
    · rw [hnext, hat]
      exact ⟨_, rfl, rfl, rfl⟩
  · right
    refine ⟨hfits, ?_⟩
    split
    · exact ⟨_, rfl⟩
    · rename_i hin
      rw [Bool.not_eq_true, hrange] at hin
      rcases hin with rfl | hin
      · exact ⟨_, rfl⟩
      · have hzero : items.length = 0 := by
          rw [hskip, hiter] at hin
          omega
        rw [List.eq_nil_of_length_eq_zero hzero]
        exact ⟨_, rfl⟩

end SecretNonceSlot

/-! ### Opening streams -/

section Slots

variable {S : Type} [NonceStreamSlot S Seed Share]

namespace AbSlots

/-- The index that a stream is at: that of its slot, or where it would start. -/
def indexOf (ab : AbSlots S) (streamId : NonceStreamId) : ℕ :=
  match ab.target streamId with
  | some (_, v) => v.index
  | none => 0

/-- Every slot is where its stream was. -/
def KeepsIndices (ab₀ ab : AbSlots S) : Prop :=
  ∀ i v, ab.value i = some v → v.index = ab₀.indexOf v.nonceStreamId

theorem Ordinary.target_of_value {ab : AbSlots S} (h : ab.Ordinary) {i : ℕ}
    {v : SecretNonceSlot Seed Share} (hv : ab.value i = some v) :
    ab.target v.nonceStreamId = some (i, v) := by
  cases ht : ab.target v.nonceStreamId with
  | none =>
      exact absurd rfl (absent_of_get (get_eq_none ht) i v hv)
  | some p =>
      obtain ⟨j, w⟩ := p
      obtain ⟨-, hw, hid⟩ := target_eq_some ht
      obtain rfl := h.distinct i j v w hv hw hid.symm
      rw [hv] at hw
      rw [Option.some.inj hw]

theorem Ordinary.keepsIndices {ab : AbSlots S} (h : ab.Ordinary) : ab.KeepsIndices ab := by
  intro i v hv
  rw [indexOf, h.target_of_value hv]

/-- A stream is open when a slot holds it. -/
theorem isOpen_iff {ab : AbSlots S} {state : CoordNonceStreamState} :
    ab.isOpen state ↔ ∃ i v, ab.value i = some v ∧ v.nonceStreamId = state.streamId := by
  rw [isOpen]
  cases hget : ab.get state.streamId with
  | some i =>
      obtain ⟨v, hv, hid, -⟩ := get_eq_some hget
      exact iff_of_true rfl ⟨i, v, hv, hid⟩
  | none =>
      refine iff_of_false Bool.false_ne_true ?_
      rintro ⟨i, v, hv, hid⟩
      exact absent_of_get hget i v hv hid

theorem indexOf_of_get_eq_none {ab : AbSlots S} {streamId : NonceStreamId}
    (h : ab.get streamId = none) : ab.indexOf streamId = 0 := by
  rw [indexOf, target, h, Option.bind_none]

/-- What a turn of the loop comes to, for a stream that is in a slot or was in none when the loop
started. -/
structure Turn (ab₀ ab : AbSlots S) (state : CoordNonceStreamState) (seed : Seed)
    (ab₁ : AbSlots S) (i : ℕ) (v : SecretNonceSlot Seed Share) : Prop where
  getOrCreate : ab.getOrCreate state.streamId seed = .ret (ab₁, i)
  value : ab₁.value i = some v
  index : v.index = ab₀.indexOf state.streamId
  length : ab₁.slots.length = ab.slots.length
  keeps : ab₀.KeepsIndices ab₁
  stays : ab.isOpen state → ∀ j, ab₁.value j = ab.value j

theorem openStream_turn {ab₀ ab : AbSlots S} (hord : ab.Ordinary) (hkeeps : ab₀.KeepsIndices ab)
    (hslots : 0 < ab.slots.length) {state : CoordNonceStreamState}
    (hopen : ab.isOpen state ∨ ¬ ab₀.isOpen state) (seed : Seed) :
    ∃ ab₁ i v, Turn ab₀ ab state seed ab₁ i v := by
  cases hget : ab.get state.streamId with
  | some p =>
      obtain ⟨v, hv, hid, hfirst⟩ := get_eq_some hget
      have hbefore : ∀ j < p, ∃ u, ab.value j = some u ∧ u.nonceStreamId ≠ state.streamId := by
        intro j hj
        cases hu : ab.value j with
        | none =>
            rw [hord.packed j p hj hu] at hv
            cases hv
        | some u => exact ⟨u, rfl, hfirst j hj u hu⟩
      exact ⟨ab.tick, p, v,
        { getOrCreate := getOrCreate_found (mem_positions_of_value hv) hv hid hbefore seed
          value := hv
          index := hid ▸ hkeeps p v hv
          length := rfl
          keeps := hkeeps
          stays := fun _ _ => rfl }⟩
  | none =>
      have hnot : ab.isOpen state = false := by rw [isOpen, hget]; rfl
      have hnot₀ : ab₀.get state.streamId = none := by
        rcases hopen with hopen | hopen
        · rw [hnot] at hopen
          cases hopen
        · exact Option.not_isSome_iff_eq_none.1 hopen
      have hcreate := getOrCreate_absent (absent_of_get hget) hslots seed
      have hvalue := value_created hslots state.streamId ab.nextLastUsed seed
      refine ⟨_, ab.nextSlot, .initial state.streamId ab.nextLastUsed seed,
        { getOrCreate := hcreate
          value := (congrFun hvalue _).trans (Function.update_self ..)
          index := (indexOf_of_get_eq_none hnot₀).symm
          length := initializeAt_length _ _ _ _ _
          keeps := fun j v hv => ?_
          stays := fun h => absurd h (by rw [hnot]; exact Bool.false_ne_true) }⟩
      rw [hvalue] at hv
      by_cases hj : j = ab.nextSlot
      · rw [hj, Function.update_self] at hv
        obtain rfl := Option.some.inj hv
        exact (indexOf_of_get_eq_none hnot₀).symm
      · rw [Function.update_of_ne hj] at hv
        exact hkeeps j v hv

/-- The loop returns when the turn does and the rest of the loop does. -/
theorem openOrdered_cons_returns_iff {ab₀ ab ab₁ : AbSlots S} {state : CoordNonceStreamState}
    {rest : List CoordNonceStreamState} {rng : ℕ → Seed} {nonceBatchSize i : ℕ}
    {v : SecretNonceSlot Seed Share} (h : Turn ab₀ ab state (rng 0) ab₁ i v) :
    (openOrdered nonceBatchSize (state :: rest) rng ab :
      Exec (AbSlots S × List (NonceJob Seed Nonce))).Returns ↔
      ReconcileFits (ab₀.indexOf state.streamId) state nonceBatchSize ∧
        (openOrdered nonceBatchSize rest (fun n => rng (n + 1)) ab₁ :
          Exec (AbSlots S × List (NonceJob Seed Nonce))).Returns := by
  obtain ⟨slot, hslot, hread⟩ := Option.bind_eq_some_iff.1 h.value
  have hturn : (ab.openStream state nonceBatchSize (rng 0) :
      Exec (AbSlots S × Option (NonceJob Seed Nonce))) = (do
        let task ← v.reconcileCoordNonceStreamState state nonceBatchSize
        return (ab₁, task)) := by
    simp only [openStream, h.getOrCreate, Exec.ret_bind, hslot, reconcileSlot, hread]
  rw [← h.index, ← v.reconcile_returns_iff state nonceBatchSize]
  constructor
  · rintro ⟨⟨ab', tasks⟩, hreturns⟩
    obtain ⟨ab₂, task, later, hopen, hrest, -⟩ := openOrdered_cons hreturns
    rw [hturn] at hopen
    obtain ⟨task', htask, heq⟩ := Exec.bind_eq_ret_iff.1 hopen
    cases heq
    exact ⟨⟨_, htask⟩, _, hrest⟩
  · rintro ⟨⟨task, htask⟩, ⟨ab', later⟩, hrest⟩
    refine ⟨(ab', task.toList ++ later), ?_⟩
    rw [openOrdered, hturn, htask, Exec.ret_bind, Exec.pure_eq, Exec.ret_bind]
    dsimp only
    rw [hrest, Exec.ret_bind]
    rfl

/-- **The loop over the streams of a request** returns exactly when there is room for the nonces
of each. Those that are in a slot come first, so that none of them has been evicted. -/
theorem openOrdered_returns_iff {ab₀ ab : AbSlots S} (hord : ab.Ordinary)
    (hkeeps : ab₀.KeepsIndices ab) (hslots : 0 < ab.slots.length) {nonceBatchSize : ℕ}
    {existing new : List CoordNonceStreamState} {rng : ℕ → Seed}
    (hexisting : ∀ state ∈ existing, ab.isOpen state) (hnew : ∀ state ∈ new, ¬ ab₀.isOpen state) :
    (openOrdered nonceBatchSize (existing ++ new) rng ab :
      Exec (AbSlots S × List (NonceJob Seed Nonce))).Returns ↔
      ∀ state ∈ existing ++ new,
        ReconcileFits (ab₀.indexOf state.streamId) state nonceBatchSize := by
  induction existing generalizing ab rng with
  | cons state existing ih =>
      obtain ⟨hopen, hexisting⟩ := List.forall_mem_cons.1 hexisting
      obtain ⟨ab₁, i, v, hturn⟩ := openStream_turn hord hkeeps hslots (.inl hopen) (rng 0)
      have hsame := hturn.stays hopen
      have hstill : ∀ state ∈ existing, ab₁.isOpen state := by
        intro other hother
        obtain ⟨j, w, hw, hid⟩ := isOpen_iff.1 (hexisting other hother)
        exact isOpen_iff.2 ⟨j, w, (hsame j).trans hw, hid⟩
      rw [List.cons_append, openOrdered_cons_returns_iff hturn, List.forall_mem_cons,
        ih (hord.congr hsame) hturn.keeps (hturn.length ▸ hslots) hstill]
  | nil =>
      rw [List.nil_append]
      induction new generalizing ab rng with
      | nil => exact iff_of_true (Exec.returns_ret _) fun _ h => absurd h List.not_mem_nil
      | cons state new ih =>
          obtain ⟨hnot, hnew⟩ := List.forall_mem_cons.1 hnew
          obtain ⟨ab₁, i, v, hturn⟩ := openStream_turn hord hkeeps hslots (.inr hnot) (rng 0)
          rw [openOrdered_cons_returns_iff hturn, List.forall_mem_cons,
            ih hnew (hord.getOrCreate hturn.getOrCreate) hturn.keeps (hturn.length ▸ hslots)
              fun _ h => absurd h List.not_mem_nil]

/-- The streams that a request is about: those that are open first, and no more than there are
slots. -/
def orderedStreams (ab : AbSlots S) (streams : List CoordNonceStreamState) :
    List CoordNonceStreamState :=
  (streams.filter ab.isOpen ++ streams.filter fun state => !ab.isOpen state).take ab.slots.length

/-- There is room for the nonces of each. -/
def OpenFits (ab : AbSlots S) (streams : List CoordNonceStreamState) (nonceBatchSize : ℕ) : Prop :=
  ∀ state ∈ ab.orderedStreams streams,
    ReconcileFits (ab.indexOf state.streamId) state nonceBatchSize

theorem recvOpenNonceStreams_eq (ab : AbSlots S) (streams : List CoordNonceStreamState)
    (nonceBatchSize : ℕ) (rng : ℕ → Seed) :
    (ab.recvOpenNonceStreams streams nonceBatchSize rng :
      Exec (AbSlots S × OpenReply Seed Nonce)) = (do
        let (ab, tasks) ← openOrdered nonceBatchSize (ab.orderedStreams streams) rng ab
        return (ab, if tasks.isEmpty then .nonceResponse [] else .nonceJobs (.new tasks))) := by
  rw [recvOpenNonceStreams, List.partition_eq_filter_filter]
  rfl

theorem recvOpenNonceStreams_returns_iff {ab : AbSlots S} (hord : ab.Ordinary)
    {streams : List CoordNonceStreamState} {nonceBatchSize : ℕ} {rng : ℕ → Seed} :
    (ab.recvOpenNonceStreams streams nonceBatchSize rng :
      Exec (AbSlots S × OpenReply Seed Nonce)).Returns ↔ ab.OpenFits streams nonceBatchSize := by
  have hloop : (ab.recvOpenNonceStreams streams nonceBatchSize rng :
      Exec (AbSlots S × OpenReply Seed Nonce)).Returns ↔
      (openOrdered nonceBatchSize (ab.orderedStreams streams) rng ab :
        Exec (AbSlots S × List (NonceJob Seed Nonce))).Returns := by
    rw [recvOpenNonceStreams_eq, Exec.returns_bind]
    exact ⟨fun ⟨out, hout, _⟩ => ⟨out, hout⟩,
      fun ⟨out, hout⟩ => ⟨out, hout, Exec.returns_ret _⟩⟩
  rw [hloop, OpenFits]
  rcases Nat.eq_zero_or_pos ab.slots.length with hzero | hpos
  · have hnone : ab.orderedStreams streams = [] := by
      rw [orderedStreams, hzero, List.take_zero]
    rw [hnone]
    exact iff_of_true (Exec.returns_ret _) fun _ h => absurd h List.not_mem_nil
  · rw [orderedStreams, List.take_append]
    refine openOrdered_returns_iff hord hord.keepsIndices hpos ?_ ?_
    · exact fun state hstate => (List.mem_filter.1 (List.mem_of_mem_take hstate)).2
    · intro state hstate
      have hnot := (List.mem_filter.1 (List.mem_of_mem_take hstate)).2
      rw [Bool.not_eq_true'] at hnot
      rw [hnot]
      exact Bool.false_ne_true

/-- **The jobs of a request** all come to an end. -/
theorem recvOpenNonceStreams_done {ab ab' : AbSlots S} {streams : List CoordNonceStreamState}
    {nonceBatchSize : ℕ} {rng : ℕ → Seed} {batch : NonceJobBatch Seed Nonce}
    (h : ab.recvOpenNonceStreams streams nonceBatchSize rng = .ret (ab', .nonceJobs batch))
    (d : NonceDerivation Seed SecretNonce Nonce) :
    (batch.runUntilFinished d).intoSegments.Returns := by
  rw [recvOpenNonceStreams_eq] at h
  obtain ⟨⟨ab₁, tasks⟩, -, h⟩ := Exec.bind_eq_ret_iff.1 h
  obtain ⟨-, hreply⟩ := Prod.mk.inj (Exec.ret.inj h)
  split at hreply
  · cases hreply
  · obtain rfl := OpenReply.nonceJobs.inj hreply
    exact NonceJobBatch.runUntilFinished_done d tasks

omit [NonceStreamSlot S Seed Share] in
/-- What is left to do once a slot has signed. -/
theorem finish_sign_returns_iff {w : SecretNonceSlot Seed Share} {state : CoordNonceStreamState}
    {nonceBatchSize : ℕ} (hstate : w.signingState.isSome) (ab : AbSlots S) :
    ((do
      let signingState ← Exec.expect w.signingState "guaranteed"
      let job ← w.reconcileCoordNonceStreamState state nonceBatchSize
      return .ok ((signingState.signatureShares, job), ab)) :
        Exec (Except NoncesUnavailable (SignOutput Seed Nonce Share × AbSlots S))).Returns ↔
      ReconcileFits w.index state nonceBatchSize := by
  obtain ⟨signingState, hstate⟩ := Option.isSome_iff_exists.1 hstate
  rw [hstate, Exec.expect_some, Exec.ret_bind, ← w.reconcile_returns_iff state nonceBatchSize,
    Exec.returns_bind]
  exact ⟨fun ⟨job, hjob, _⟩ => ⟨job, hjob⟩, fun ⟨job, hjob⟩ => ⟨job, hjob, Exec.returns_ret _⟩⟩

variable [DecidableEq Seed] [DecidableEq Share]

/-- **A signature** of at least one item returns exactly when it fits, whatever slot it is for. -/
theorem signSessions_returns_iff {d : NonceDerivation Seed SecretNonce Nonce}
    {sign : Item → SecretNonce → Share} {ab : AbSlots S} {sessionId : SignSessionId}
    {state : CoordNonceStreamState} {sessions : List (Exec Item)} {nonceBatchSize nSessions : ℕ}
    (hpos : 0 < sessions.length)
    (hsessions : (∀ session ∈ sessions, session.Returns) ↔ sessions.length ≤ nSessions) :
    (ab.signSessions d sign sessionId state sessions nonceBatchSize).Returns ↔
      ∀ i v, ab.target state.streamId = some (i, v) →
        SignatureFits v sessionId state sessions.length nSessions nonceBatchSize := by
  cases ht : ab.target state.streamId with
  | none =>
      have hget := get_eq_none ht
      refine iff_of_true ?_ nofun
      rw [signSessions, hget, Option.bind_none, signGuaranteeingNoncesDestroyed, hget]
      exact Exec.returns_ret _
  | some p =>
      obtain ⟨i, v⟩ := p
      obtain ⟨hget, hvalue, -⟩ := target_eq_some ht
      have hforall : (∀ i' v', some (i, v) = some (i', v') →
          SignatureFits v' sessionId state sessions.length nSessions nonceBatchSize) ↔
            SignatureFits v sessionId state sessions.length nSessions nonceBatchSize :=
        ⟨fun h => h i v rfl, fun h _ _ heq => by cases heq; exact h⟩
      rw [hforall, signSessions, hget, Option.bind_some, hvalue]
      dsimp only
      by_cases hcached : v.IsCached sessionId
      · have hstate : v.signingState.isSome := by
          rw [SecretNonceSlot.IsCached, Option.map_eq_some_iff] at hcached
          obtain ⟨signingState, hstate, -⟩ := hcached
          rw [hstate]
          rfl
        rw [if_pos (.inl hcached), sign_eq ht, SignatureFits, if_pos hcached,
          SecretNonceSlot.withSignatures, if_pos hcached, Exec.ret_bind]
        exact finish_sign_returns_iff hstate _
      · by_cases hused : state.index < v.index
        · rw [if_pos (.inr hused), sign_eq ht, SignatureFits, if_neg hcached,
            SecretNonceSlot.withSignatures, if_neg hcached, if_pos hused, Exec.ret_bind]
          exact iff_of_true (Exec.returns_ret _) (.inl hused)
        · rw [if_neg (not_or.2 ⟨hcached, hused⟩), SignatureFits, if_neg hcached, ← hsessions]
          have hindex := Nat.le_of_not_lt hused
          by_cases hall : ∀ session ∈ sessions, (id session).Returns
          · obtain ⟨items, hitems⟩ := Exec.returns_mapM_iff.2 hall
            rw [hitems, Exec.ret_bind, sign_eq ht, ← Exec.length_of_mapM hitems]
            rcases SecretNonceSlot.withSignatures_fresh hcached hindex with
              ⟨hsome, hle, w, hw, hwindex, hwstate⟩ | ⟨hnot, msg, hw⟩
            · rw [hw, Exec.ret_bind]
              refine (finish_sign_returns_iff hwstate _).trans ?_
              rw [ReconcileFits, if_pos (.inl (by omega)), hwindex]
              constructor
              · exact fun h => .inr ⟨hall, h⟩
              · rintro (h | ⟨-, h⟩)
                · exact absurd h hused
                · exact h
            · rw [hw, Exec.panic_bind]
              refine iff_of_false (Exec.not_returns_panic _) ?_
              rintro (h | ⟨-, h⟩)
              · exact hused h
              · rw [← Exec.length_of_mapM hitems] at hpos
                exact hnot ⟨hpos, by omega⟩
          · refine iff_of_false ?_ ?_
            · rw [Exec.returns_bind]
              rintro ⟨items, hitems, -⟩
              exact hall (Exec.returns_mapM_iff.1 ⟨items, hitems⟩)
            · rintro (h | ⟨h, -⟩)
              · exact hused h
              · exact hall h

end AbSlots

end Slots

end Frostsnap
