import Frostsnap.Device.NonceWork

/-!
# Nonce jobs and signing agree

A nonce job steps the ratchet from where its slot stands, one index for each unit of work, and
lists public nonces from the index it was asked for. Signing skips from where the slot stands then,
which may be further on, to the index of the request. Both go through the same seeds: `seedFor` is
the seed material that a slot value leads to at an index, and `nonceFor` the secret nonce there.

## Main results

* `Ratchets.nonceFor_eq`: a slot that signatures have moved on leads to the same nonces.
* `nonceTask_agrees`: a job that has been finished, in whatever portions, lists the public halves of
  the nonces that are signed with.
-/

namespace Frostsnap

variable {Seed SecretNonce Nonce Share Item : Type}

/-! ### Seeds from a slot onwards -/

namespace NonceDerivation

variable (d : NonceDerivation Seed SecretNonce Nonce)

/-- The seed material some steps after that of an index. -/
def seedAfter (streamId : NonceStreamId) (index : ℕ) (seed : Seed) : ℕ → Seed
  | 0 => seed
  | n + 1 => (d.ratchetStep streamId (index + n) (seedAfter streamId index seed n)).1

theorem seedAfter_add (streamId : NonceStreamId) (index : ℕ) (seed : Seed) (m n : ℕ) :
    d.seedAfter streamId index seed (m + n) =
      d.seedAfter streamId (index + m) (d.seedAfter streamId index seed m) n := by
  induction n with
  | zero => rfl
  | succ n ih => rw [← Nat.add_assoc, seedAfter, ih, seedAfter, Nat.add_assoc]

end NonceDerivation

namespace SecretNonceSlot

variable (d : NonceDerivation Seed SecretNonce Nonce) (v : SecretNonceSlot Seed Share)

/-- The seed material that the slot leads to at an index. -/
def seedFor (k : ℕ) : Seed :=
  d.seedAfter v.nonceStreamId v.index v.ratchetPrgSeedMaterial (k - v.index)

/-- The secret nonce that the slot leads to at an index. -/
def nonceFor (k : ℕ) : SecretNonce := (d.ratchetStep v.nonceStreamId k (v.seedFor d k)).2

theorem seedFor_index : v.seedFor d v.index = v.ratchetPrgSeedMaterial := by
  rw [seedFor, Nat.sub_self, NonceDerivation.seedAfter]

/-- One step of the ratchet. -/
theorem seedFor_succ {k : ℕ} (h : v.index ≤ k) :
    v.seedFor d (k + 1) = (d.ratchetStep v.nonceStreamId k (v.seedFor d k)).1 := by
  rw [seedFor, seedFor, Nat.sub_add_comm h, NonceDerivation.seedAfter, Nat.add_sub_cancel' h]

/-- The slot stands further on in what another one leads to. -/
structure Follows (w : SecretNonceSlot Seed Share) : Prop where
  streamId : w.nonceStreamId = v.nonceStreamId
  index : v.index ≤ w.index
  seedMaterial : w.ratchetPrgSeedMaterial = v.seedFor d w.index

variable {d v}

theorem Follows.refl : v.Follows d v := ⟨rfl, Nat.le_refl _, (v.seedFor_index d).symm⟩

theorem Follows.seedFor_eq {w : SecretNonceSlot Seed Share} (h : v.Follows d w) {k : ℕ}
    (hk : w.index ≤ k) : w.seedFor d k = v.seedFor d k := by
  have hle := h.index
  have hsum : k - v.index = (w.index - v.index) + (k - w.index) := by omega
  rw [seedFor, seedFor, hsum, NonceDerivation.seedAfter_add, Nat.add_sub_cancel' hle, h.streamId,
    h.seedMaterial, seedFor]

theorem Follows.nonceFor_eq {w : SecretNonceSlot Seed Share} (h : v.Follows d w) {k : ℕ}
    (hk : w.index ≤ k) : w.nonceFor d k = v.nonceFor d k := by
  rw [nonceFor, nonceFor, h.seedFor_eq hk, h.streamId]

theorem Follows.trans {w w' : SecretNonceSlot Seed Share} (h : v.Follows d w)
    (h' : w.Follows d w') : v.Follows d w' where
  streamId := h'.streamId.trans h.streamId
  index := h.index.trans h'.index
  seedMaterial := h'.seedMaterial.trans (h.seedFor_eq h'.index)

end SecretNonceSlot

/-! ### Jobs -/

/-- The job after some units of work. -/
def NonceJob.work (d : NonceDerivation Seed SecretNonce Nonce) :
    ℕ → NonceJob Seed Nonce → NonceJob Seed Nonce
  | 0, job => job
  | n + 1, job => (job.doWork d).1.work d n

/-- The batch after some units of work. -/
def NonceJobBatch.work (d : NonceDerivation Seed SecretNonce Nonce) :
    ℕ → NonceJobBatch Seed Nonce → NonceJobBatch Seed Nonce
  | 0, batch => batch
  | n + 1, batch => (batch.doWork d).1.work d n

/-- What a job has of a slot: the public nonces from the index it was asked for up to its own. -/
structure NonceJob.WorksOn (d : NonceDerivation Seed SecretNonce Nonce)
    (v : SecretNonceSlot Seed Share) (start length : ℕ) (job : NonceJob Seed Nonce) : Prop where
  streamId : job.streamId = v.nonceStreamId
  skipTo : job.skipTo = start
  targetIndex : job.targetIndex = start + length
  le_index : v.index ≤ job.index
  index_le : job.index ≤ start + length
  seedMaterial : job.seedMaterial = v.seedFor d job.index
  nonces : job.nonces =
    (List.range' start (job.index - start)).map fun k => d.publicNonce (v.nonceFor d k)

section Job

variable {d : NonceDerivation Seed SecretNonce Nonce} {v : SecretNonceSlot Seed Share}
  {start length : ℕ} {job : NonceJob Seed Nonce}

/-- A unit of work generates the next nonce, and keeps it unless it is skipped. -/
theorem NonceJob.WorksOn.doWork (h : job.WorksOn d v start length) :
    (job.doWork d).1.WorksOn d v start length := by
  obtain ⟨hid, hskip, htarget, hle, hle', hseed, hnonces⟩ := h
  rw [NonceJob.doWork]
  split
  · exact ⟨hid, hskip, htarget, hle, hle', hseed, hnonces⟩
  · rename_i hnot
    have hnonce : (d.ratchetStep job.streamId job.index job.seedMaterial).2 =
        v.nonceFor d job.index := by
      rw [hid, hseed, SecretNonceSlot.nonceFor]
    refine ⟨hid, hskip, htarget, by dsimp only; omega, by dsimp only; omega, ?_, ?_⟩
    · dsimp only
      rw [v.seedFor_succ d hle, hid, hseed]
    · dsimp only
      split
      · rename_i hkeep
        have hcount : job.index + 1 - start = (job.index - start) + 1 := by omega
        have hlast : start + (job.index - start) = job.index := by omega
        rw [hcount, List.range'_concat, List.map_append, hnonces, hnonce, Nat.one_mul, hlast]
        rfl
      · rename_i hdrop
        have hcount : job.index + 1 - start = job.index - start := by omega
        rw [hcount, hnonces]

/-- Work in any number of units. -/
theorem NonceJob.WorksOn.work (h : job.WorksOn d v start length) (n : ℕ) :
    (job.work d n).WorksOn d v start length := by
  induction n generalizing job with
  | zero => exact h
  | succ n ih => exact ih h.doWork

/-- The work is done when there was a unit for every nonce, those that are skipped included. -/
theorem NonceJob.work_done (n : ℕ) (h : job.targetIndex ≤ job.index + n) :
    (job.work d n).Done := by
  induction n generalizing job with
  | zero => exact h
  | succ n ih =>
      obtain ⟨htarget, -, hstays, hmoves⟩ := job.doWork_spec d
      refine ih ?_
      rw [htarget]
      by_cases hdone : job.Done
      · rw [hstays hdone]
        rw [NonceJob.Done] at hdone
        omega
      · rw [hmoves hdone]
        omega

/-- A new job of a slot. -/
theorem worksOn_of_nonceTask {start : Option ℕ}
    (h : v.nonceTask start length = .ret job) :
    job.WorksOn d v (start.getD v.index) length ∧ start.getD v.index + length < u32Max := by
  simp only [SecretNonceSlot.nonceTask] at h
  split at h
  · cases h
  split at h
  · cases h
  split at h
  · cases h
  · obtain rfl := Exec.ret.inj h
    have hmin : min (start.getD v.index + length) u32Max = start.getD v.index + length := by omega
    refine ⟨⟨rfl, rfl, hmin, Nat.le_refl _, by dsimp only; omega, (v.seedFor_index d).symm, ?_⟩,
      by omega⟩
    have hzero : v.index - start.getD v.index = 0 := by omega
    dsimp only
    rw [hzero]
    rfl

/-- The segment of a job that is done. -/
theorem NonceJob.WorksOn.segment (h : job.WorksOn d v start length)
    {segment : NonceStreamSegment Nonce} (hsegment : job.intoSegment = .ret segment) :
    segment.streamId = v.nonceStreamId ∧ segment.index = start ∧
      segment.nonces.length = length ∧ ∀ k, start ≤ k → k < start + length →
        segment.getNonce k = some (d.publicNonce (v.nonceFor d k)) := by
  rw [NonceJob.intoSegment] at hsegment
  split at hsegment
  · rename_i hdone
    obtain rfl := Exec.ret.inj hsegment
    have hle := h.index_le
    have hcount : job.index - start = length := by
      have htarget := h.targetIndex
      omega
    refine ⟨h.streamId, h.skipTo, ?_, fun k hk hk' => ?_⟩
    · dsimp only
      rw [h.nonces, hcount, List.length_map, List.length_range']
    · have hat : k = job.skipTo + (k - start) := by
        rw [h.skipTo]
        omega
      rw [NonceStreamSegment.getNonce_of_index hat]
      dsimp only
      rw [h.nonces, hcount, List.getElem?_map, List.getElem?_range' (by omega)]
      simp only [Option.map_some, Nat.one_mul]
      congr 3
      omega
  · cases hsegment

/-- The jobs of a batch are worked on one unit at a time. -/
theorem NonceJobBatch.work_tasks (n : ℕ) (batch : NonceJobBatch Seed Nonce) :
    (batch.work d n).tasks.length = batch.tasks.length ∧
      ∀ (i : ℕ) (job : NonceJob Seed Nonce), batch.tasks[i]? = some job →
        ∃ m, (batch.work d n).tasks[i]? = some (job.work d m) := by
  induction n generalizing batch with
  | zero => exact ⟨rfl, fun i job hjob => ⟨0, hjob⟩⟩
  | succ n ih =>
      obtain ⟨hlength, htasks⟩ := ih (batch.doWork d).1
      cases hcurrent : batch.tasks[batch.currentTaskIndex]? with
      | none =>
          have hsame : (batch.doWork d).1 = batch := by rw [NonceJobBatch.doWork, hcurrent]
          rw [hsame] at hlength htasks
          rw [NonceJobBatch.work, hsame]
          exact ⟨hlength, htasks⟩
      | some task =>
          have hset : (batch.doWork d).1.tasks =
              batch.tasks.set batch.currentTaskIndex (task.doWork d).1 := by
            rw [NonceJobBatch.doWork, hcurrent]
          rw [hset, List.length_set] at hlength
          refine ⟨hlength, fun i job hjob => ?_⟩
          by_cases hi : batch.currentTaskIndex = i
          · subst hi
            obtain ⟨hlt, -⟩ := List.getElem?_eq_some_iff.1 hjob
            obtain rfl : task = job := Option.some.inj (hcurrent.symm.trans hjob)
            obtain ⟨m, hm⟩ := htasks _ (task.doWork d).1 (by rw [hset, List.getElem?_set_self hlt])
            exact ⟨m + 1, hm⟩
          · obtain ⟨m, hm⟩ := htasks i job (by rw [hset, List.getElem?_set_ne hi, hjob])
            exact ⟨m, hm⟩

end Job

/-! ### Signing -/

section Signing

variable {d : NonceDerivation Seed SecretNonce Nonce} {v w : SecretNonceSlot Seed Share}

/-- Where skipping ends, and with which seed. -/
theorem SecretNonceIter.skip_eq (streamId : NonceStreamId) (n : ℕ) (it : SecretNonceIter Seed)
    (h : it.index + n ≤ u32Max) :
    it.skip d streamId n =
      { seedMaterial := d.seedAfter streamId it.index it.seedMaterial n,
        index := it.index + n } := by
  induction n generalizing it with
  | zero => rfl
  | succ n ih =>
      rw [SecretNonceIter.skip, SecretNonceIter.next, if_neg (by omega)]
      dsimp only
      rw [ih _ (by dsimp only; omega), Nat.add_comm n 1, NonceDerivation.seedAfter_add,
        ← Nat.add_assoc]
      rfl

/-- The loop signs each item with the next nonce. -/
theorem signLoop_shares (sign : Item → SecretNonce → Share) (streamId : NonceStreamId)
    (items : List Item) (it : SecretNonceIter Seed) (shares : List Share)
    (next : Option (ℕ × Seed)) (h : it.index + items.length ≤ u32Max) :
    (signLoop d sign streamId items it shares next).signatureShares =
      shares ++ items.mapIdx fun j item => sign item (d.ratchetStep streamId (it.index + j)
        (d.seedAfter streamId it.index it.seedMaterial j)).2 := by
  induction items generalizing it shares next with
  | nil => exact (List.append_nil _).symm
  | cons item items ih =>
      rw [List.length_cons] at h
      rw [signLoop, SecretNonceIter.next, if_neg (by omega)]
      dsimp only
      rw [ih _ _ _ (by dsimp only; omega), List.mapIdx_cons, List.append_assoc,
        List.singleton_append]
      refine congrArg (shares ++ ·) (congrArg₂ List.cons rfl ?_)
      refine congrArg (List.mapIdx · items) (funext fun j => funext fun item' => ?_)
      dsimp only
      rw [Nat.add_comm j 1, NonceDerivation.seedAfter_add, ← Nat.add_assoc]
      rfl

/-- The state after the last nonce that was used has the next seed. -/
theorem signLoop_seed (sign : Item → SecretNonce → Share) (streamId : NonceStreamId)
    (items : List Item) (it : SecretNonceIter Seed) (shares : List Share)
    (next : Option (ℕ × Seed)) (h : it.index + items.length ≤ u32Max) :
    (signLoop d sign streamId items it shares next).nextPrgState =
      if items = [] then next
      else some (it.index + items.length,
        d.seedAfter streamId it.index it.seedMaterial items.length) := by
  induction items generalizing it shares next with
  | nil => rfl
  | cons item items ih =>
      rw [List.length_cons] at h
      rw [signLoop, SecretNonceIter.next, if_neg (by omega)]
      dsimp only
      rw [ih _ _ _ (by dsimp only; omega), if_neg (List.cons_ne_nil _ _), List.length_cons,
        Nat.add_comm items.length 1, NonceDerivation.seedAfter_add, ← Nat.add_assoc]
      split
      · rename_i hnil
        subst hnil
        rfl
      · rfl

/-- **What a slot signs with**: the nonces that it leads to at the index of the request and from
there on. The value that it leaves behind follows it. -/
theorem SecretNonceSlot.withSignatures_nonces {sign : Item → SecretNonce → Share}
    {sessionId : SignSessionId} {coord : CoordNonceStreamState} {lastUsed : ℕ}
    {sessions : List Item} (hcached : ¬ v.IsCached sessionId)
    (h : v.withSignatures d sign sessionId coord lastUsed sessions = .ret (.ok w)) :
    v.index ≤ coord.index ∧ coord.index + sessions.length ≤ u32Max ∧ v.Follows d w ∧
      w.signingState = some
        { sessionId := sessionId
          signatureShares := sessions.mapIdx fun j item =>
            sign item (v.nonceFor d (coord.index + j)) } := by
  have hindex : v.index ≤ coord.index := by
    by_contra hlt
    rw [withSignatures, if_neg hcached, if_pos (by omega)] at h
    cases h
  obtain ⟨hpos, hmax, -⟩ | ⟨-, msg, hpanic⟩ :=
    @withSignatures_fresh _ _ _ _ _ d sign v sessionId coord lastUsed sessions hcached hindex
  · have hskip := @SecretNonceIter.skip_eq _ _ _ d v.nonceStreamId (coord.index - v.index)
      v.iterSecretNonces (show v.index + (coord.index - v.index) ≤ u32Max by omega)
    have hstart : v.index + (coord.index - v.index) = coord.index := by omega
    have hit : v.iterSecretNonces.skip d v.nonceStreamId (coord.index - v.index) =
        { seedMaterial := v.seedFor d coord.index, index := coord.index } := by
      rw [hskip, SecretNonceSlot.seedFor]
      exact congrArg (SecretNonceIter.mk _) hstart
    have hseeds : ∀ j, d.seedAfter v.nonceStreamId coord.index (v.seedFor d coord.index) j =
        v.seedFor d (coord.index + j) := by
      intro j
      have hsum : coord.index + j - v.index = (coord.index - v.index) + j := by omega
      rw [seedFor, seedFor, hsum, NonceDerivation.seedAfter_add, hstart]
    have hnil : sessions ≠ [] := List.length_pos_iff.1 hpos
    have hrange := (signLoop_outOfRange d sign v.nonceStreamId sessions
      { seedMaterial := v.seedFor d coord.index, index := coord.index } [] none).2 (.inr hmax)
    have hshares := signLoop_shares (d := d) sign v.nonceStreamId sessions
      { seedMaterial := v.seedFor d coord.index, index := coord.index } [] none hmax
    have hnext := signLoop_seed (d := d) sign v.nonceStreamId sessions
      { seedMaterial := v.seedFor d coord.index, index := coord.index } [] none hmax
    rw [withSignatures, if_neg hcached, if_neg (Nat.not_lt.2 hindex)] at h
    dsimp only at h
    rw [hit, hrange, if_neg Bool.false_ne_true, hnext, if_neg hnil] at h
    dsimp only at h
    obtain rfl := Except.ok.inj (Exec.ret.inj h)
    refine ⟨hindex, hmax, ⟨rfl, by dsimp only; omega, hseeds _⟩, ?_⟩
    dsimp only
    rw [hshares, List.nil_append]
    simp only [hseeds]
    rfl
  · cases hpanic.symm.trans h

/-- The values that signing requests leave in a slot, one after the other. -/
inductive Ratchets (d : NonceDerivation Seed SecretNonce Nonce) (v : SecretNonceSlot Seed Share) :
    SecretNonceSlot Seed Share → Prop
  | here : Ratchets d v v
  | sign {w w' : SecretNonceSlot Seed Share} {Item : Type} {sign : Item → SecretNonce → Share}
      {sessionId : SignSessionId} {coord : CoordNonceStreamState} {lastUsed : ℕ}
      {sessions : List Item} (hw : Ratchets d v w)
      (h : w.withSignatures d sign sessionId coord lastUsed sessions = .ret (.ok w')) :
      Ratchets d v w'

/-- What signatures leave in a slot follows what was there. -/
theorem Ratchets.follows (h : Ratchets d v w) : v.Follows d w := by
  induction h with
  | here => exact .refl
  | @sign w w' _ _ sessionId _ _ _ _ hsigned ih =>
      by_cases hcached : w.IsCached sessionId
      · rw [SecretNonceSlot.withSignatures, if_pos hcached] at hsigned
        obtain rfl := Except.ok.inj (Exec.ret.inj hsigned)
        exact ih
      · exact ih.trans (SecretNonceSlot.withSignatures_nonces hcached hsigned).2.2.1

/-- A slot that signatures have moved on leads to the same nonces. -/
theorem Ratchets.nonceFor_eq (h : Ratchets d v w) {k : ℕ} (hk : w.index ≤ k) :
    w.nonceFor d k = v.nonceFor d k := h.follows.nonceFor_eq hk

end Signing

/-! ### Agreement -/

section Agreement

variable (d : NonceDerivation Seed SecretNonce Nonce) (v : SecretNonceSlot Seed Share)

/-- The secret nonce that signing derives at an index: the iterator of the slot skips to it. -/
def SecretNonceSlot.derivedNonce (k : ℕ) : Option SecretNonce :=
  ((v.iterSecretNonces.skip d v.nonceStreamId (k - v.index)).next d v.nonceStreamId).map
    fun p => p.1.2.1

/-- The iterator reaches the nonce that the slot leads to. -/
theorem SecretNonceSlot.derivedNonce_eq {k : ℕ} (hk : v.index ≤ k) (hmax : k < u32Max) :
    v.derivedNonce d k = some (v.nonceFor d k) := by
  have hiter : v.iterSecretNonces.index = v.index := rfl
  rw [derivedNonce, SecretNonceIter.skip_eq _ _ _ (by rw [hiter]; omega), SecretNonceIter.next,
    if_neg (by dsimp only; rw [hiter]; omega)]
  dsimp only
  rw [hiter, Nat.add_sub_cancel' hk]
  rfl

/-- A segment lists the public nonces of a slot from an index on: those of the secret nonces that
signing derives, and those of the nonces that signature shares are made with. The slot may have been
moved on by signatures in between. -/
structure Lists (start length : ℕ) (segment : NonceStreamSegment Nonce) : Prop where
  streamId : segment.streamId = v.nonceStreamId
  index : segment.index = start
  nonces_length : segment.nonces.length = length
  derives : ∀ w, Ratchets d v w → ∀ k, w.index ≤ k → start ≤ k → k < start + length →
    ∃ secretNonce, w.derivedNonce d k = some secretNonce ∧
      segment.getNonce k = some (d.publicNonce secretNonce)
  signs : ∀ w w' (Item : Type) (sign : Item → SecretNonce → Share) sessionId coord lastUsed
    (sessions : List Item), Ratchets d v w → ¬ w.IsCached sessionId →
    w.withSignatures d sign sessionId coord lastUsed sessions = .ret (.ok w') →
    ∃ shares, w'.signingState = some ⟨sessionId, shares⟩ ∧
      ∀ j item, sessions[j]? = some item → start ≤ coord.index + j →
        coord.index + j < start + length →
        ∃ secretNonce, shares[j]? = some (sign item secretNonce) ∧
          segment.getNonce (coord.index + j) = some (d.publicNonce secretNonce)

/-- The segment of a job that was polled, alone or in a batch with others, until it was done. -/
inductive NonceJob.FinishesWith (job : NonceJob Seed Nonce) (segment : NonceStreamSegment Nonce) :
    Prop
  | alone (n : ℕ) (h : (job.work d n).intoSegment = .ret segment)
  | inBatch (tasks : List (NonceJob Seed Nonce)) (i n : ℕ)
      (segments : List (NonceStreamSegment Nonce)) (hjob : tasks[i]? = some job)
      (h : ((NonceJobBatch.new tasks).work d n).intoSegments = .ret segments)
      (hsegment : segments[i]? = some segment)

variable {d v}

/-- A job that is finished in a batch is one that is finished alone. -/
theorem NonceJob.FinishesWith.exists_work {job : NonceJob Seed Nonce}
    {segment : NonceStreamSegment Nonce} (h : job.FinishesWith d segment) :
    ∃ n, (job.work d n).intoSegment = .ret segment := by
  cases h with
  | alone n h => exact ⟨n, h⟩
  | inBatch tasks i n segments hjob h hsegment =>
      obtain ⟨-, htasks⟩ := NonceJobBatch.work_tasks (d := d) n (NonceJobBatch.new tasks)
      obtain ⟨m, hm⟩ := htasks i job hjob
      rw [NonceJobBatch.intoSegments] at h
      obtain ⟨-, -, h⟩ := Exec.bind_eq_ret_iff.1 h
      exact ⟨m, Exec.getElem?_of_mapM h hm hsegment⟩

/-- **A nonce job agrees with signing.** Whatever number of units it is worked on in, and whatever
other jobs are worked on in its batch, a job is finished once there was a unit for every nonce, and
its segment lists the nonces of its slot. -/
theorem nonceTask_agrees {start : Option ℕ} {length : ℕ} {job : NonceJob Seed Nonce}
    (h : v.nonceTask start length = .ret job) :
    (∀ n, start.getD v.index + length ≤ v.index + n → (job.work d n).intoSegment.Returns) ∧
      ∀ segment, job.FinishesWith d segment → Lists d v (start.getD v.index) length segment := by
  obtain ⟨hworks, hmax⟩ := @worksOn_of_nonceTask _ _ _ _ d v length job start h
  constructor
  · intro n hn
    refine NonceJob.intoSegment_returns_iff.2 (NonceJob.work_done n ?_)
    rw [hworks.targetIndex, ← (SecretNonceSlot.nonceTask_isOf h).index]
    exact hn
  · intro segment hfinishes
    obtain ⟨n, hn⟩ := hfinishes.exists_work
    obtain ⟨hid, hindex, hlength, hget⟩ := (hworks.work n).segment hn
    refine ⟨hid, hindex, hlength, ?_, ?_⟩
    · intro w hw k hk hstart hstop
      refine ⟨w.nonceFor d k, w.derivedNonce_eq d hk (by omega), ?_⟩
      rw [hget k hstart hstop, hw.nonceFor_eq hk]
    · intro w w' Item sign sessionId coord lastUsed sessions hw hcached hsigned
      obtain ⟨hle, -, -, hstate⟩ := SecretNonceSlot.withSignatures_nonces hcached hsigned
      refine ⟨_, hstate, fun j item hitem hstart hstop => ?_⟩
      refine ⟨w.nonceFor d (coord.index + j), ?_, ?_⟩
      · rw [List.getElem?_mapIdx, hitem]
        rfl
      · rw [hget _ hstart hstop, hw.nonceFor_eq (by omega)]

/-- A slot that stands at `2`, asked for three nonces from `4`, in as many units of work as it
takes. -/
theorem nonceTask_agrees_counting :
    ∃ segment, Lists countingDerivation
      (SecretNonceSlot.mk 2 1 5 0 none : SecretNonceSlot ℕ ℕ) 4 3 segment := by
  have hagrees := @nonceTask_agrees _ _ _ _ countingDerivation
    (SecretNonceSlot.mk 2 1 5 0 none : SecretNonceSlot ℕ ℕ) (some 4) 3
    { streamId := 1, seedMaterial := 5, index := 2, targetIndex := 7, nonces := [],
      skipTo := 4 } rfl
  obtain ⟨segment, hsegment⟩ := hagrees.1 5 (Nat.le_refl 7)
  exact ⟨segment, hagrees.2 segment (.alone 5 hsegment)⟩

end Agreement

end Frostsnap
