import Frostsnap.Coordinator.Steps
import Frostsnap.Coordinator.PlainLib

/-!
# Replaying mutations

A mutation that changes nothing is not staged, and a mutation that is staged does the same when
it is applied again. So the staged mutations of a run, applied to a fresh coordinator, lead to the
persistent state of the run. The exception is a nonce segment that makes a stream known without
counting as a change.

## Main results

* `none_unchanged_iff`: which mutations are ignored and change something nevertheless.
* `replay_exact`: replay reproduces the persistent state of every run that opens no stream
  silently.
-/

namespace Frostsnap.Coordinator

section

variable {L : FrostLib} [Build]

namespace Persistent

variable {fingerprint : Fingerprint} {p p' : Persistent L} {m : Mutation L}

theorem applyMutation_eq_none_iff :
    p.applyMutation fingerprint m = .ret (none, p') ↔
      p.change fingerprint m = .ret (false, p') := by
  simp only [applyMutation, Exec.pure_eq, Exec.bind_eq_ret_iff]
  constructor
  · rintro ⟨⟨changed, q⟩, hq, h⟩
    cases changed with
    | true => cases (Prod.mk.inj (Exec.ret.inj h)).1
    | false =>
        obtain ⟨-, rfl⟩ := Prod.mk.inj (Exec.ret.inj h)
        exact hq
  · intro h
    exact ⟨(false, p'), h, rfl⟩

theorem applyMutation_eq_some_iff {m' : Mutation L} :
    p.applyMutation fingerprint m = .ret (some m', p') ↔
      p.change fingerprint m = .ret (true, p') ∧ p.reduced m = m' := by
  simp only [applyMutation, Exec.pure_eq, Exec.bind_eq_ret_iff]
  constructor
  · rintro ⟨⟨changed, q⟩, hq, h⟩
    cases changed with
    | false => cases (Prod.mk.inj (Exec.ret.inj h)).1
    | true =>
        obtain ⟨hm, rfl⟩ := Prod.mk.inj (Exec.ret.inj h)
        exact ⟨hq, Option.some.inj hm⟩
  · rintro ⟨h, rfl⟩
    exact ⟨(true, p'), h, rfl⟩

/-- A mutation and what it is recorded as do the same. -/
theorem change_reduced : p.change fingerprint (p.reduced m) = p.change fingerprint m := by
  rcases m with _ | _ | m
  · rfl
  · rfl
  · cases m <;> rfl

omit [Build] in
theorem reduced_reduced : p.reduced (p.reduced m) = p.reduced m := by
  rcases m with _ | _ | m
  · rfl
  · rfl
  · cases m <;> rfl

/-- A mutation that was recorded does the same again, and is recorded as itself. -/
theorem applyMutation_recorded {m' : Mutation L}
    (h : p.applyMutation fingerprint m = .ret (some m', p')) :
    p.applyMutation fingerprint m' = .ret (some m', p') := by
  obtain ⟨hchange, rfl⟩ := applyMutation_eq_some_iff.1 h
  exact applyMutation_eq_some_iff.2 ⟨by rw [change_reduced, hchange], reduced_reduced⟩

/-- Nonces of a stream that the cache knows, and that are not taken for a change, are none. -/
theorem newNonces_known {deviceId : DeviceId} {segment own : NonceSegment}
    (hown : p.nonceCache.segment? deviceId segment.streamId = some own)
    (h : p.newNonces deviceId segment = .ret (false, p')) : p' = p := by
  have hself : p.nonceCache.ownSegment deviceId segment.streamId = own := by
    rw [NonceCache.ownSegment, hown, Option.getD_some]
  rw [newNonces_false h, hself, NonceCache.setSegment_of_segment? hown]

/-- A stream that the cache does not know is known after a segment of it. -/
theorem newNonces_unknown {deviceId : DeviceId} {segment : NonceSegment}
    (hunknown : p.nonceCache.segment? deviceId segment.streamId = none)
    (h : p.newNonces deviceId segment = .ret (false, p')) : p' ≠ p := by
  intro hsame
  have hcache : p'.nonceCache.segment? deviceId segment.streamId = none := by
    rw [hsame, hunknown]
  rw [newNonces_false h, NonceCache.segment?_setSegment, if_pos ⟨rfl, rfl⟩] at hcache
  cases hcache

/-- A segment of a stream that the cache does not know is taken for a change, unless it opens the
stream silently. -/
theorem newNonces_unknown_iff {deviceId : DeviceId} {segment : NonceSegment}
    (hunknown : p.nonceCache.segment? deviceId segment.streamId = none) :
    (∃ p', p.newNonces deviceId segment = .ret (false, p')) ↔
      segment = NonceCache.emptySegment segment.streamId ∨
        Build.checks = false ∧ segment.indexAfterLast = none := by
  have hself : p.nonceCache.ownSegment deviceId segment.streamId =
      NonceCache.emptySegment segment.streamId := by
    rw [NonceCache.ownSegment, hunknown, Option.getD_none]
  have hextend := NonceCache.emptySegment_extend segment
  cases hlast : segment.indexAfterLast with
  | none =>
      rw [if_pos hlast] at hextend
      have hextended : p.nonceCache.extendSegment deviceId segment =
          .ret (.error .overflows, p.nonceCache.setSegment deviceId segment.streamId
            (NonceCache.emptySegment segment.streamId)) := by
        rw [NonceCache.extendSegment, hself,
          NonceStreamSegment.extend_eq_error_iff.2 hextend]
        rfl
      have hne : segment ≠ NonceCache.emptySegment segment.streamId := by
        intro heq
        rw [heq] at hlast
        cases hlast
      simp only [newNonces, hextended, hne, false_or, and_true]
      cases hb : (Build.checks) with
      | true => simp [fail, Exec.debugAssert, hb, Exec.assert]
      | false => simp [fail, Exec.debugAssert, hb]
  | some last =>
      rw [if_neg (by rw [hlast]; exact Option.some_ne_none last)] at hextend
      have hextended : p.nonceCache.extendSegment deviceId segment =
          .ret (.ok (decide (segment ≠ NonceCache.emptySegment segment.streamId)),
            p.nonceCache.setSegment deviceId segment.streamId segment) := by
        rw [NonceCache.extendSegment, hself,
          NonceStreamSegment.extend_eq_ok_iff.2 ⟨hextend, rfl⟩]
        rfl
      simp [newNonces, hextended]

/-- A mutation that is ignored changed nothing, unless it opens a stream silently. -/
theorem ignored_unchanged (h : p.applyMutation fingerprint m = .ret (none, p'))
    (hloud : ∀ deviceId segment, m = .signing (.newNonces deviceId segment) →
      ¬ p.nonceCache.OpensSilently deviceId segment) : p' = p := by
  have hchange := applyMutation_eq_none_iff.1 h
  obtain hsame | ⟨deviceId, segment, rfl⟩ := change_false hchange
  · exact hsame
  · cases hown : p.nonceCache.segment? deviceId segment.streamId with
    | some own => exact newNonces_known hown hchange
    | none =>
        have hsilent := (newNonces_unknown_iff hown).1 ⟨p', hchange⟩
        exact absurd ⟨hown, hsilent⟩ (hloud deviceId segment rfl)

/-- The mutation opens a nonce stream and is ignored. -/
def OpensSilently (p : Persistent L) : Mutation L → Prop
  | .signing (.newNonces deviceId segment) => p.nonceCache.OpensSilently deviceId segment
  | _ => False

/-- Exactly the mutations that open a stream silently are ignored and change something. -/
theorem none_unchanged_iff (fingerprint : Fingerprint) (p : Persistent L) (m : Mutation L) :
    (∀ p', p.applyMutation fingerprint m = .ret (none, p') → p' = p) ↔ ¬ p.OpensSilently m := by
  constructor
  · intro h hsilent
    cases m with
    | keygen m => exact hsilent
    | restoration m => exact hsilent
    | signing m =>
        cases m with
        | newNonces deviceId segment =>
            obtain ⟨hunknown, hsilent⟩ := hsilent
            obtain ⟨p', hp'⟩ := (newNonces_unknown_iff hunknown).2 hsilent
            exact newNonces_unknown hunknown hp' (h p' (applyMutation_eq_none_iff.2 hp'))
        | _ => exact hsilent
  · intro hloud p' h
    refine ignored_unchanged h fun deviceId segment hm => ?_
    subst hm
    exact hloud

end Persistent

/-! ### Runs -/

/-- No segment opens a stream silently. -/
def loud : Assumptions L where
  segment cache deviceId segment := ¬ cache.OpensSilently deviceId segment
  session _ _ := True
  share _ _ _ := True
  key _ _ := True

/-- The states of a run, with all mutations that it has staged, those that were taken among
them. -/
inductive Staged (A : Assumptions L) : List (Mutation L) → FrostCoordinator L → Prop where
  | new : Staged A [] (.new L)
  | perform {ms : List (Mutation L)} {s s' : FrostCoordinator L} {op : Op L} {failed : Bool}
      (h : Staged A ms s) (hA : op.Satisfies A s) (hop : s.perform op = .ret (failed, s')) :
      Staged A (ms ++ s'.mutations.drop s.mutations.length) s'
  | takeStagedMutations {ms : List (Mutation L)} {s : FrostCoordinator L} (h : Staged A ms s) :
      Staged A ms { s with mutations := [] }

/-- A run is one chain of mutations from an empty state. -/
theorem Staged.chain {A : Assumptions L} {ms : List (Mutation L)} {s : FrostCoordinator L}
    (h : Staged A ms s) :
    Chain A L.defaultFingerprint (.empty L) ms s.toPersistent ∧
      s.keygenFingerprint = L.defaultFingerprint := by
  induction h with
  | new => exact ⟨.nil _, rfl⟩
  | perform h hA hop ih =>
      obtain ⟨hchain, hfingerprint⟩ := ih
      obtain ⟨ms', hmutated⟩ := FrostCoordinator.perform_mutates hA _ hop
      have hrest := hmutated.chain
      rw [hfingerprint] at hrest
      rw [hmutated.staged, List.drop_left]
      exact ⟨hchain.trans hrest, hmutated.fingerprint.trans hfingerprint⟩
  | takeStagedMutations h ih => exact ih

/-- Replaying the mutations that a chain recorded leads where the chain leads. -/
theorem Chain.replay {fingerprint : Fingerprint} {p q : Persistent L} {ms : List (Mutation L)}
    (h : Chain loud fingerprint p ms q) {s : FrostCoordinator L} (hp : s.toPersistent = p)
    (hfingerprint : s.keygenFingerprint = fingerprint) :
    ∃ s', s.mutateAll ms = .ret s' ∧ s'.toPersistent = q ∧ s'.mutations = s.mutations ++ ms := by
  induction h generalizing s with
  | nil p => exact ⟨s, rfl, hp, (List.append_nil _).symm⟩
  | @recorded p p' q m m' ms permitted applied rest ih =>
      have happly := Persistent.applyMutation_recorded applied
      rw [← hp, ← hfingerprint] at happly
      obtain ⟨t, ht⟩ := FrostCoordinator.mutate_returns happly
      obtain ⟨reduced, happly', hstaged, -, -, hf⟩ := FrostCoordinator.mutate_eq ht
      obtain ⟨rfl, hpt⟩ := Prod.mk.inj (Exec.ret.inj (happly'.symm.trans happly))
      obtain ⟨u, hu, hq, hms⟩ := ih hpt (hf.trans hfingerprint)
      refine ⟨u, ?_, hq, ?_⟩
      · rw [FrostCoordinator.mutateAll, ht, Exec.ret_bind, hu]
      · rw [hms, hstaged, Option.toList_some, List.append_assoc, List.singleton_append]
  | ignored permitted applied rest ih =>
      have hsame := Persistent.ignored_unchanged applied fun deviceId segment hm => by
        subst hm
        exact permitted
      exact ih (hp.trans hsame.symm) hfingerprint

/-- **Mutation replay.** A mutation that is ignored leaves the persistent state as it is, unless
it opens a stream silently. The mutations that a run has staged, when none was of that kind, lead
a fresh coordinator to the persistent state of the run, and it stages the same mutations. -/
theorem replay_exact (L : FrostLib) :
    (∀ (fingerprint : Fingerprint) (p : Persistent L) (m : Mutation L),
      (∀ p', p.applyMutation fingerprint m = .ret (none, p') → p' = p) ↔ ¬ p.OpensSilently m) ∧
    ∀ (ms : List (Mutation L)) (s : FrostCoordinator L), Staged loud ms s →
      ∃ s', (FrostCoordinator.new L).mutateAll ms = .ret s' ∧ s'.toPersistent = s.toPersistent ∧
        s'.mutations = ms := by
  refine ⟨Persistent.none_unchanged_iff, fun ms s h => ?_⟩
  obtain ⟨s', hs', hp, hms⟩ := h.chain.1.replay (s := .new L) rfl rfl
  exact ⟨s', hs', hp, hms.trans (List.nil_append _)⟩

end

section

attribute [local instance] Build.release

/-- A stream with one nonce. -/
def oneNonce : NonceSegment where
  streamId := 1
  nonces := [5]
  index := 0

theorem replay_exact_of_one_nonce :
    ∃ s s' : FrostCoordinator plainLib,
      (FrostCoordinator.new plainLib).perform
        (.recvDeviceMessage 1 (.signing (.nonceResponse [oneNonce]))) = .ret (false, s) ∧
      (FrostCoordinator.new plainLib).mutateAll [.signing (.newNonces 1 oneNonce)] = .ret s' ∧
      s'.toPersistent = s.toPersistent ∧ s'.mutations = [.signing (.newNonces 1 oneNonce)] := by
  let s : FrostCoordinator plainLib :=
    match (FrostCoordinator.new plainLib).perform
      (.recvDeviceMessage 1 (.signing (.nonceResponse [oneNonce]))) with
    | .ret (_, s) => s
    | .panic _ => .new plainLib
  have hop : (FrostCoordinator.new plainLib).perform
      (.recvDeviceMessage 1 (.signing (.nonceResponse [oneNonce]))) = .ret (false, s) := rfl
  have hloud : ¬ (FrostCoordinator.new plainLib).nonceCache.OpensSilently 1 oneNonce := by
    rintro ⟨-, hempty | ⟨-, hoverflow⟩⟩
    · exact absurd hempty (by decide)
    · exact absurd hoverflow (by decide)
  have hsegments : (Op.recvDeviceMessage 1 (.signing (.nonceResponse [oneNonce]))).Satisfies
      loud (FrostCoordinator.new plainLib) := ⟨hloud, fun _ _ _ => trivial⟩
  have hrun : Staged loud [.signing (.newNonces 1 oneNonce)] s := .perform .new hsegments hop
  obtain ⟨s', hs', hp, hms⟩ := (replay_exact plainLib).2 _ _ hrun
  exact ⟨s, s', hop, hs', hp, hms⟩

/-- A segment without nonces is ignored, and the cache has another stream. -/
theorem ignored_segment_opens_stream :
    ¬ ∀ (s s' : FrostCoordinator plainLib) (m : Mutation plainLib), Reachable s →
      s.applyMutation m = .ret (none, s') → s'.toPersistent = s.toPersistent := by
  intro h
  have hsame := h (.new plainLib) _ (.signing (.newNonces 1 (NonceCache.emptySegment 1))) .new rfl
  have hsegment := congrArg (fun p => (p.nonceCache.segment? 1 1).isSome) hsame
  exact absurd hsegment (by decide +kernel)

end

end Frostsnap.Coordinator
