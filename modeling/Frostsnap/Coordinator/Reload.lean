import Frostsnap.Coordinator.Database
import Frostsnap.Coordinator.Replay

/-!
# Reloading the coordinator

The rows of the database are a log of mutations that leads to the persistent state of the
coordinator, and rows that are deleted are left out of it. A log without the rows of a key leads
to the state without the key, when nothing else depends on them: no device was asked to sign in a
session of the key that is in the log.

## Main results

* `reload_exact`: loading leads to the persistent state of every run that deletes no key with a
  session that is finished or was asked for, and opens no stream silently.
-/

namespace Frostsnap.Coordinator

section

variable {L : FrostLib} [Build]

/-! ### Rows -/

namespace Persistent

variable {fingerprint : Fingerprint} {p p' : Persistent L}

/-- What a mutation does to the sessions. A session that is active after it is a new one, or was
active with the same key, and a device is asked by `SentSignReq` only. -/
theorem active_of_change {m : Mutation L} {changed : Bool}
    (hm : ∀ keyId, m ≠ .keygen (.deleteKey keyId))
    (h : p.change fingerprint m = .ret (changed, p')) {sessionId : SignSessionId}
    {session' : ActiveSignSession L}
    (hsession' : p'.activeSigningSessions[sessionId]? = some session') :
    (m = .signing (.newSigningSession session') ∧ session'.sessionId = sessionId) ∨
      ∃ session, p.activeSigningSessions[sessionId]? = some session ∧
        session'.keyId = session.keyId ∧
        (session'.sentReqToDevice = session.sentReqToDevice ∨
          ∃ deviceId, m = .signing (.sentSignReq sessionId deviceId)) := by
  have hsame : p'.activeSigningSessions = p.activeSigningSessions →
      ∃ session, p.activeSigningSessions[sessionId]? = some session ∧
        session'.keyId = session.keyId ∧
        (session'.sentReqToDevice = session.sentReqToDevice ∨
          ∃ deviceId, m = .signing (.sentSignReq sessionId deviceId)) := by
    intro heq
    exact ⟨session', heq ▸ hsession', rfl, .inl rfl⟩
  cases m with
  | keygen m =>
      refine .inr (hsame ?_)
      rw [change_keygen (fun keyId heq => hm keyId (congrArg _ heq)) h]
  | restoration m => exact .inr (hsame (by rw [change_restoration h]))
  | signing m =>
      cases m with
      | newNonces => exact .inr (hsame (by rw [(change_newNonces h).1]))
      | newSigningSession session =>
          rw [← (Prod.mk.inj (Exec.ret.inj h)).2, newSigningSession,
            BTreeMap.getElem?_insert] at hsession'
          split at hsession'
          · rename_i hid
            obtain rfl := Option.some.inj hsession'
            exact .inl ⟨rfl, hid⟩
          · exact .inr ⟨session', hsession', rfl, .inl rfl⟩
      | sentSignReq id deviceId =>
          simp only [change, sentSignReq] at h
          split at h
          · exact .inr (hsame (by rw [← (Prod.mk.inj (Exec.ret.inj h)).2]))
          · rename_i session hsession
            rw [← (Prod.mk.inj (Exec.ret.inj h)).2, BTreeMap.getElem?_insert] at hsession'
            split at hsession'
            · rename_i hid
              subst hid
              obtain rfl := Option.some.inj hsession'
              exact .inr ⟨session, hsession, rfl, .inr ⟨deviceId, rfl⟩⟩
            · exact .inr ⟨session', hsession', rfl, .inl rfl⟩
      | gotSignatureSharesFromDevice id deviceId shares =>
          rw [← (Prod.mk.inj (Exec.ret.inj h)).2, gotSignatureShares] at hsession'
          split at hsession'
          · exact .inr ⟨session', hsession', rfl, .inl rfl⟩
          · rename_i session hsession
            rw [BTreeMap.getElem?_insert] at hsession'
            split at hsession'
            · rename_i hid
              subst hid
              obtain rfl := Option.some.inj hsession'
              exact .inr ⟨session, hsession, rfl, .inl rfl⟩
            · exact .inr ⟨session', hsession', rfl, .inl rfl⟩
      | closeSignSession id finished =>
          have hclose : p.closeSignSession id finished = .ret (changed, p') := h
          obtain ⟨-, -, rfl⟩ | ⟨-, -, session, nonceCache, hsession, -, rfl⟩ :=
            closeSignSession_eq hclose
          · exact .inr (hsame rfl)
          · rw [BTreeMap.getElem?_erase] at hsession'
            split at hsession'
            · cases hsession'
            · exact .inr ⟨session', hsession', rfl, .inl rfl⟩
      | forgetFinishedSignSession =>
          exact .inr (hsame (by rw [← (Prod.mk.inj (Exec.ret.inj h)).2]))

/-- A session that is finished after a mutation was finished before, or was active with the same
key. -/
theorem finished_of_change {m : Mutation L} {changed : Bool}
    (hm : ∀ keyId, m ≠ .keygen (.deleteKey keyId))
    (h : p.change fingerprint m = .ret (changed, p')) {sessionId : SignSessionId}
    {session' : FinishedSignSession L}
    (hsession' : p'.finishedSigningSessions[sessionId]? = some session') :
    p.finishedSigningSessions[sessionId]? = some session' ∨
      ∃ session, p.activeSigningSessions[sessionId]? = some session ∧
        session'.keyId = session.keyId := by
  have hsame : p'.finishedSigningSessions = p.finishedSigningSessions →
      p.finishedSigningSessions[sessionId]? = some session' := fun heq => heq ▸ hsession'
  cases m with
  | keygen m =>
      refine .inl (hsame ?_)
      rw [change_keygen (fun keyId heq => hm keyId (congrArg _ heq)) h]
  | restoration m => exact .inl (hsame (by rw [change_restoration h]))
  | signing m =>
      cases m with
      | newNonces => exact .inl (hsame (by rw [(change_newNonces h).1]))
      | newSigningSession => exact .inl (hsame (by rw [← (Prod.mk.inj (Exec.ret.inj h)).2]; rfl))
      | sentSignReq =>
          simp only [change, sentSignReq] at h
          split at h
          · exact .inl (hsame (by rw [← (Prod.mk.inj (Exec.ret.inj h)).2]))
          · exact .inl (hsame (by rw [← (Prod.mk.inj (Exec.ret.inj h)).2]))
      | gotSignatureSharesFromDevice =>
          rw [← (Prod.mk.inj (Exec.ret.inj h)).2, gotSignatureShares] at hsession'
          split at hsession'
          · exact .inl hsession'
          · exact .inl hsession'
      | closeSignSession id finished =>
          have hclose : p.closeSignSession id finished = .ret (changed, p') := h
          obtain ⟨-, -, rfl⟩ | ⟨-, -, session, nonceCache, hsession, -, rfl⟩ :=
            closeSignSession_eq hclose
          · exact .inl hsession'
          · cases finished with
            | none => exact .inl hsession'
            | some signatures =>
                dsimp only [Option.elim_some] at hsession'
                rw [BTreeMap.getElem?_insert] at hsession'
                split at hsession'
                · rename_i hid
                  subst hid
                  obtain rfl := Option.some.inj hsession'
                  exact .inr ⟨session, hsession, rfl⟩
                · exact .inl hsession'
      | forgetFinishedSignSession id =>
          rw [← (Prod.mk.inj (Exec.ret.inj h)).2, BTreeMap.getElem?_erase] at hsession'
          split at hsession'
          · cases hsession'
          · exact .inl hsession'

/-- The key of a session after a mutation that starts none was its key before. -/
theorem sessionKeyId_of_change (hsound : p.SessionsSound) {m : Mutation L} {changed : Bool}
    (hm : ∀ keyId, m ≠ .keygen (.deleteKey keyId))
    (hnew : ∀ session, m ≠ .signing (.newSigningSession session))
    (h : p.change fingerprint m = .ret (changed, p')) {sessionId : SignSessionId} {keyId : KeyId}
    (hkey : p'.sessionKeyId sessionId = some keyId) : p.sessionKeyId sessionId = some keyId := by
  have hactive : ∀ session, p.activeSigningSessions[sessionId]? = some session →
      session.keyId = keyId → p.sessionKeyId sessionId = some keyId := by
    intro session hsession heq
    simp only [sessionKeyId, hsession, heq]
  obtain ⟨session', hsession', rfl⟩ | ⟨-, session', hsession', rfl⟩ := sessionKeyId_eq_some hkey
  · obtain ⟨heq, -⟩ | ⟨session, hsession, heq, -⟩ := active_of_change hm h hsession'
    · exact absurd heq (hnew session')
    · exact hactive session hsession heq.symm
  · obtain hsession | ⟨session, hsession, heq⟩ := finished_of_change hm h hsession'
    · have hnone : p.activeSigningSessions[sessionId]? = none := by
        rw [← BTreeMap.not_mem_iff_getElem?]
        exact fun hmem => hsound.not_both sessionId hmem (BTreeMap.mem_iff_getElem?.2 ⟨_, hsession⟩)
      simp only [sessionKeyId, hnone, hsession, Option.map_some]
    · exact hactive session hsession heq.symm

omit [Build] in
/-- A session of another key has its key without a key. -/
theorem sessionKeyId_without {keyId other : KeyId} (hne : other ≠ keyId) {sessionId : SignSessionId}
    (h : p.sessionKeyId sessionId = some other) :
    (p.without keyId).sessionKeyId sessionId = some other := by
  obtain ⟨session, hsession, rfl⟩ | ⟨hnone, session, hsession, rfl⟩ := sessionKeyId_eq_some h
  · simp only [sessionKeyId, getElem?_without_active_of_ne hsession hne]
  · have hgone : (p.without keyId).activeSigningSessions[sessionId]? = none := by
      rw [getElem?_without_active, hnone]
      rfl
    have hfinished : (p.without keyId).finishedSigningSessions[sessionId]? = some session := by
      rw [without, BTreeMap.getElem?_filter, hsession, Option.filter_some, if_pos (by simp [hne])]
    simp only [sessionKeyId, hgone, hfinished, Option.map_some]

omit [Build] in
/-- What a mutation is tied to depends on the keys of the sessions only. -/
theorem tiedToKey_of_sessionKeyId {keyId : KeyId} {m : Mutation L}
    (h : ∀ sessionId, p.sessionKeyId sessionId = some keyId →
      p'.sessionKeyId sessionId = some keyId)
    (htied : m.tiedToKey p = some keyId) : m.tiedToKey p' = some keyId := by
  cases m with
  | keygen m => cases m <;> exact htied
  | restoration m => exact htied
  | signing m =>
      cases m with
      | newNonces | newSigningSession => exact htied
      | sentSignReq | gotSignatureSharesFromDevice | closeSignSession
      | forgetFinishedSignSession => exact h _ htied

omit [Build] in
theorem CanStart.without {session : ActiveSignSession L} (h : p.CanStart session) (keyId : KeyId) :
    (p.without keyId).CanStart session where
  fresh := by
    obtain ⟨hactive, hfinished⟩ := h.fresh
    constructor
    · rw [BTreeMap.not_mem_iff_getElem?] at hactive ⊢
      rw [getElem?_without_active, hactive]
      rfl
    · rw [BTreeMap.not_mem_iff_getElem?] at hfinished ⊢
      rw [Persistent.without, BTreeMap.getElem?_filter, hfinished]
      rfl
  unused deviceId nonces hnonces hused := by
    obtain ⟨sessionId, other, otherDevice, otherNonces, hother, hget, hid⟩ :=
      mem_allUsedNonceStreams.1 hused
    rw [getElem?_without_active, Option.filter_eq_some_iff] at hother
    exact h.unused deviceId nonces hnonces (mem_allUsedNonceStreams.2
      ⟨sessionId, other, otherDevice, otherNonces, hother.1, hget, hid⟩)

/-- What deleting a key leaves when nothing else depends on it: no session of it is finished, and
no device was asked in an active one. -/
theorem deleteKey_eq_without (hsound : p.SessionsSound) {keyId : KeyId}
    (hunasked : p.Unasked keyId)
    (hfinished : ∀ (sessionId : SignSessionId) (session : FinishedSignSession L),
      p.finishedSigningSessions[sessionId]? = some session → session.keyId ≠ keyId)
    (hmem : keyId ∈ p.keys) {changed : Bool} (h : p.deleteKey keyId = .ret (changed, p')) :
    p' = p.without keyId := by
  obtain ⟨hnot, -⟩ | ⟨-, -, -, -, nonceCache, rfl, hcache⟩ := hsound.deleteKey h
  · exact absurd hmem hnot
  · rw [hcache hunasked]
    refine Persistent.ext rfl rfl rfl ?_ ?_ ?_ rfl ?_
    · refine Std.ExtTreeMap.ext_getElem? fun {id} => ?_
      rw [without, BTreeMap.getElem?_filter, BTreeMap.getElem?_filter]
      cases hsession : p.activeSigningSessions[id]? with
      | none => rfl
      | some session => simp [Option.filter_some, mem_sessionsOfKey, hsession]
    · refine List.filter_congr fun id _ => ?_
      cases hsession : p.activeSigningSessions[id]? with
      | none => simp [mem_sessionsOfKey, hsession]
      | some session => simp [mem_sessionsOfKey, hsession]
    · refine Std.ExtTreeMap.ext_getElem? fun {id} => ?_
      rw [without, BTreeMap.getElem?_filter]
      cases hsession : p.finishedSigningSessions[id]? with
      | none => rfl
      | some session => simp [Option.filter_some, hfinished id session hsession]
    · refine BTreeSet.ext_mem fun c => ?_
      simp [without]

end Persistent

/-! ### The log in the database -/

variable (codec : MutationCodec L)

omit [Build] in
/-- The row of a mutation that is applied in a state. A row that is tied to a key is of a mutation
that is tied to it; where the mutation is tied to a key in every state, so is the row. -/
structure Row.IsOf (row : Row codec.Blob) (m : Mutation L) (p : Persistent L) : Prop where
  decode : codec.decode row.mutation = some m
  tied : ∀ keyId, row.tiedToKey = some keyId → m.tiedToKey p = some keyId
  own : ∀ keyId, m.ownKey = some keyId → row.tiedToKey = some keyId
  restoration : row.tiedToRestoration = m.tiedToRestoration
  notDelete : ∀ keyId, m ≠ .keygen (.deleteKey keyId)
  start : ∀ session, m = .signing (.newSigningSession session) →
    p.CanStart session ∧ session.sentReqToDevice = ∅

/-- A row is applied. -/
def Row.Step (fingerprint : Fingerprint) (p : Persistent L) (row : Row codec.Blob)
    (p' : Persistent L) : Prop :=
  ∃ m changed, row.IsOf codec m p ∧ p.change fingerprint m = .ret (changed, p')

/-- The rows of a database that lead from an empty state to a state. -/
def Log : List (Row codec.Blob) → Persistent L → Prop :=
  Replays (Row.Step codec L.defaultFingerprint) (.empty L)

omit [Build] in
/-- A row of a mutation is in the database. -/
def Logs (rows : List (Row codec.Blob)) (m : Mutation L) : Prop :=
  ∃ row ∈ rows, codec.decode row.mutation = some m

omit [Build] in
/-- The database has a session of a key with a device that was asked to sign. -/
def Asked (rows : List (Row codec.Blob)) (keyId : KeyId) : Prop :=
  ∃ session deviceId, Logs codec rows (.signing (.newSigningSession session)) ∧
    session.keyId = keyId ∧
    Logs codec rows (.signing (.sentSignReq session.sessionId deviceId))

variable {codec}

omit [Build] in
theorem Logs.append {rows : List (Row codec.Blob)} {m : Mutation L} (h : Logs codec rows m)
    (rows' : List (Row codec.Blob)) : Logs codec (rows ++ rows') m := by
  obtain ⟨row, hmem, hrow⟩ := h
  exact ⟨row, List.mem_append_left _ hmem, hrow⟩

omit [Build] in
theorem Asked.append {rows : List (Row codec.Blob)} {keyId : KeyId} (h : Asked codec rows keyId)
    (rows' : List (Row codec.Blob)) : Asked codec (rows ++ rows') keyId := by
  obtain ⟨session, deviceId, hnew, hkey, hsent⟩ := h
  exact ⟨session, deviceId, hnew.append rows', hkey, hsent.append rows'⟩

omit [Build] in
/-- The row of a mutation, without a key that is another. -/
theorem Row.IsOf.without {row : Row codec.Blob} {m : Mutation L} {p : Persistent L} {keyId : KeyId}
    (h : row.IsOf codec m p) (hkeep : row.tiedToKey ≠ some keyId) :
    row.IsOf codec m (p.without keyId) where
  decode := h.decode
  tied other hother := by
    refine Persistent.tiedToKey_of_sessionKeyId (fun _ => Persistent.sessionKeyId_without ?_)
      (h.tied other hother)
    rintro rfl
    exact hkeep hother
  own := h.own
  restoration := h.restoration
  notDelete := h.notDelete
  start session hm := ⟨(h.start session hm).1.without keyId, (h.start session hm).2⟩

omit [Build] in
theorem Row.IsOf.withoutRestoration {row : Row codec.Blob} {m : Mutation L} {p : Persistent L}
    (h : row.IsOf codec m p) (restorationId : RestorationId) :
    row.IsOf codec m (p.withoutRestoration restorationId) where
  decode := h.decode
  tied := h.tied
  own := h.own
  restoration := h.restoration
  notDelete := h.notDelete
  start session hm := ⟨⟨(h.start session hm).1.fresh, (h.start session hm).1.unused⟩,
    (h.start session hm).2⟩

namespace Log

variable {rows : List (Row codec.Blob)} {p p' : Persistent L}

theorem empty : Log codec [] (.empty L) := .nil

theorem snoc (h : Log codec rows p) {row : Row codec.Blob} {m : Mutation L} {changed : Bool}
    (hrow : row.IsOf codec m p) (hchange : p.change L.defaultFingerprint m = .ret (changed, p')) :
    Log codec (rows ++ [row]) p' := Replays.snoc h ⟨m, changed, hrow, hchange⟩

theorem sound (h : Log codec rows p) : p.SessionsSound := by
  refine h.invariant .empty fun q row q' hsound hstep => ?_
  obtain ⟨m, changed, hrow, hchange⟩ := hstep
  exact hsound.change (fun session hm => (hrow.start session hm).1) hchange

/-- The rows of the active sessions are in the log: of the start of the session, and of a request
when a device was asked. -/
theorem recorded (h : Log codec rows p) {sessionId : SignSessionId} {session : ActiveSignSession L}
    (hsession : p.activeSigningSessions[sessionId]? = some session) :
    (∃ started, Logs codec rows (.signing (.newSigningSession started)) ∧
      started.sessionId = sessionId ∧ started.keyId = session.keyId) ∧
      (session.sentReqToDevice ≠ ∅ →
        ∃ deviceId, Logs codec rows (.signing (.sentSignReq sessionId deviceId))) := by
  induction h generalizing session with
  | nil => simp [Persistent.empty] at hsession
  | @snoc rows row q q' h hstep ih =>
      obtain ⟨m, changed, hrow, hchange⟩ := hstep
      have hlast : Logs codec (rows ++ [row]) m :=
        ⟨row, List.mem_append_right _ List.mem_cons_self, hrow.decode⟩
      obtain ⟨rfl, hid⟩ | ⟨before, hbefore, hkey, hsent⟩ :=
        Persistent.active_of_change hrow.notDelete hchange hsession
      · exact ⟨⟨session, hlast, hid, rfl⟩, fun hasked => absurd (hrow.start session rfl).2 hasked⟩
      · obtain ⟨⟨started, hstarted, hid, hstartedKey⟩, hsentBefore⟩ := ih hbefore
        refine ⟨⟨started, hstarted.append _, hid, hstartedKey.trans hkey.symm⟩, fun hasked => ?_⟩
        obtain hsame | ⟨deviceId, rfl⟩ := hsent
        · obtain ⟨deviceId, hlogs⟩ := hsentBefore (hsame ▸ hasked)
          exact ⟨deviceId, hlogs.append _⟩
        · exact ⟨deviceId, hlast⟩

theorem unasked (h : Log codec rows p) {keyId : KeyId} (hasked : ¬ Asked codec rows keyId) :
    p.Unasked keyId := by
  intro sessionId session hsession hkey
  obtain ⟨⟨started, hstarted, rfl, hstartedKey⟩, hsent⟩ := h.recorded hsession
  by_contra hne
  obtain ⟨deviceId, hlogs⟩ := hsent hne
  exact hasked ⟨started, deviceId, hstarted, hstartedKey.trans hkey, hlogs⟩

/-- The log without the rows of a key leads to the state without it. -/
theorem without (h : Log codec rows p) {keyId : KeyId} (hasked : ¬ Asked codec rows keyId) :
    Log codec (rows.filter fun row => row.tiedToKey ≠ some keyId) (p.without keyId) := by
  refine Replays.prune (fun rows => ¬ Asked codec rows keyId) (fun p => p.without keyId)
    (fun row => row.tiedToKey ≠ some keyId) (Persistent.without_empty keyId)
    (fun rows row hok hbefore => hok (hbefore.append [row])) ?_ ?_ h hasked
  · intro rows q row q' hok hlog hstep hdrop
    obtain ⟨m, changed, hrow, hchange⟩ := hstep
    have htied : row.tiedToKey = some keyId := by simpa using hdrop
    refine Persistent.without_of_tied (sound hlog)
      (unasked hlog fun hbefore => hok (hbefore.append [row]))
      (fun session hm => (hrow.start session hm).1) (hrow.tied keyId htied) (hrow.notDelete keyId)
      hchange
  · intro rows q row q' hok hlog hstep hkeep
    obtain ⟨m, changed, hrow, hchange⟩ := hstep
    have htied : row.tiedToKey ≠ some keyId := by simpa using hkeep
    obtain ⟨changed', hchange'⟩ := Persistent.change_without (sound hlog)
      (unasked hlog fun hbefore => hok (hbefore.append [row]))
      (fun session hm => (hrow.start session hm).1)
      (fun hown => htied (hrow.own keyId hown)) hrow.notDelete hchange
    exact ⟨m, changed', hrow.without htied, hchange'⟩

/-- The log without the rows of a restoration leads to the state without it. -/
theorem withoutRestoration (h : Log codec rows p) (restorationId : RestorationId) :
    Log codec (rows.filter fun row => row.tiedToRestoration ≠ some restorationId)
      (p.withoutRestoration restorationId) := by
  refine Replays.prune (fun _ => True) (fun p => p.withoutRestoration restorationId)
    (fun row => row.tiedToRestoration ≠ some restorationId) ?_ (fun _ _ _ => trivial) ?_ ?_ h
    trivial
  · refine Persistent.ext rfl rfl rfl rfl rfl rfl ?_ rfl
    exact BTreeMap.erase_of_getElem? (by simp [Persistent.empty])
  · intro rows q row q' _ hlog hstep hdrop
    obtain ⟨m, changed, hrow, hchange⟩ := hstep
    have htied : row.tiedToRestoration = some restorationId := by simpa using hdrop
    exact Persistent.withoutRestoration_of_tied (hrow.restoration ▸ htied) hchange
  · intro rows q row q' _ hlog hstep hkeep
    obtain ⟨m, changed, hrow, hchange⟩ := hstep
    have htied : row.tiedToRestoration ≠ some restorationId := by simpa using hkeep
    exact ⟨m, changed, hrow.withoutRestoration restorationId,
      Persistent.change_withoutRestoration (hrow.restoration ▸ htied) hrow.notDelete hchange⟩

/-- Loading leads where the log leads. -/
theorem loads (h : Log codec rows p) :
    ∃ s, FrostCoordinator.load codec rows = .ret (some s) ∧ s.toPersistent = p ∧
      s.mutations = [] ∧ s.keygenFingerprint = L.defaultFingerprint := by
  induction h with
  | nil => exact ⟨.new L, rfl, rfl, rfl, rfl⟩
  | @snoc rows row q q' h hstep ih =>
      obtain ⟨s, hload, rfl, hmutations, hfingerprint⟩ := ih
      obtain ⟨m, changed, hrow, hchange⟩ := hstep
      rw [← hfingerprint] at hchange
      obtain ⟨reduced, s', happly, hq', hmutations', hfingerprint'⟩ :=
        FrostCoordinator.applyMutation_of_change hchange
      refine ⟨s', ?_, hq', hmutations'.trans hmutations, hfingerprint'.trans hfingerprint⟩
      rw [FrostCoordinator.load, FrostCoordinator.applyRows_append hload]
      simp only [FrostCoordinator.applyRows, hrow.decode, happly, Exec.ret_bind]

end Log

/-! ### Operations -/

omit [Build] in
theorem tiedToKey_of_ownKey {m : Mutation L} {keyId : KeyId} (h : m.ownKey = some keyId)
    (p : Persistent L) : m.tiedToKey p = some keyId := by
  cases m with
  | keygen m => cases m <;> exact h
  | restoration m => exact h
  | signing m =>
      cases m with
      | newSigningSession => exact h
      | newNonces | sentSignReq | gotSignatureSharesFromDevice | closeSignSession
      | forgetFinishedSignSession => cases h

/-- No session is started, no key is deleted, and no segment opens a stream silently. -/
def quiet : Assumptions L where
  segment cache deviceId segment := ¬ cache.OpensSilently deviceId segment
  session _ _ := False
  share _ _ _ := True
  key _ _ := False

/-- What a mutation of such an operation is recorded as. -/
theorem reduced_quiet {p : Persistent L} {m : Mutation L} (h : Permitted quiet p m) :
    (∀ keyId, p.reduced m ≠ .keygen (.deleteKey keyId)) ∧
      ∀ session, p.reduced m ≠ .signing (.newSigningSession session) := by
  cases m with
  | keygen m =>
      cases m with
      | deleteKey => exact absurd h.2 id
      | newKey | newAccessStructure | newShare | deleteShare => exact ⟨nofun, nofun⟩
  | signing m =>
      cases m with
      | newSigningSession => exact absurd h.2 id
      | newNonces | sentSignReq | gotSignatureSharesFromDevice | closeSignSession
      | forgetFinishedSignSession => exact ⟨nofun, nofun⟩
  | restoration m => cases m <;> exact ⟨nofun, nofun⟩

section

variable {fingerprint : Fingerprint} {p p' q : Persistent L} {ms : List (Mutation L)}

/-- A mutation that is recorded does what it is recorded as. -/
theorem Persistent.change_of_recorded {m m' : Mutation L}
    (h : p.applyMutation fingerprint m = .ret (some m', p')) :
    p.reduced m = m' ∧ p.change fingerprint m' = .ret (true, p') := by
  obtain ⟨hchange, rfl⟩ := applyMutation_eq_some_iff.1 h
  exact ⟨rfl, by rw [change_reduced, hchange]⟩

theorem Persistent.ignored_quiet {m : Mutation L} (hpermitted : Permitted quiet p m)
    (h : p.applyMutation fingerprint m = .ret (none, p')) : p' = p := by
  refine ignored_unchanged h fun deviceId segment hm => ?_
  subst hm
  exact hpermitted

/-- The sessions of such an operation had their keys before it. -/
theorem Chain.sessionKeyId (h : Chain quiet fingerprint p ms q) (hsound : p.SessionsSound)
    {sessionId : SignSessionId} {keyId : KeyId} (hkey : q.sessionKeyId sessionId = some keyId) :
    p.sessionKeyId sessionId = some keyId := by
  induction h with
  | nil p => exact hkey
  | recorded permitted applied rest ih =>
      obtain ⟨rfl, hchange⟩ := Persistent.change_of_recorded applied
      obtain ⟨hdelete, hnew⟩ := reduced_quiet permitted
      have hsound' := hsound.change (fun session hm => absurd hm (hnew session)) hchange
      exact Persistent.sessionKeyId_of_change hsound hdelete hnew hchange (ih hsound' hkey)
  | ignored permitted applied rest ih =>
      obtain rfl := Persistent.ignored_quiet permitted applied
      exact ih hsound hkey

namespace Log

variable {rows : List (Row codec.Blob)} {s : FrostCoordinator L}

/-- The row of a mutation that is tied to what it is tied to after the operation. -/
theorem insert (h : Log codec rows p) {m : Mutation L} {changed : Bool}
    (hdelete : ∀ keyId, m ≠ .keygen (.deleteKey keyId))
    (htied : ∀ keyId, m.tiedToKey s.toPersistent = some keyId → m.tiedToKey p = some keyId)
    (hstart : ∀ session, m = .signing (.newSigningSession session) →
      p.CanStart session ∧ session.sentReqToDevice = ∅)
    (hchange : p.change L.defaultFingerprint m = .ret (changed, p')) :
    Log codec (rows ++ [s.newRow codec m]) p' :=
  h.snoc
    { decode := codec.decode_encode m
      tied := htied
      own := fun _ hown => tiedToKey_of_ownKey hown s.toPersistent
      restoration := rfl
      notDelete := hdelete
      start := hstart } hchange

/-- The mutations of an operation are written to the log one after the other. -/
theorem chain {ms' : List (Mutation L)} (hchain : Chain quiet L.defaultFingerprint p ms q)
    (hafter : Chain quiet L.defaultFingerprint q ms' s.toPersistent) (h : Log codec rows p) :
    Log codec (s.persistUpdate codec rows ms) q := by
  induction hchain generalizing rows with
  | nil p => exact h
  | @recorded p p' q m m' ms permitted applied rest ih =>
      obtain ⟨rfl, hchange⟩ := Persistent.change_of_recorded applied
      obtain ⟨hdelete, hnew⟩ := reduced_quiet permitted
      refine ih hafter ?_
      by_cases hrestoration : ∃ restorationId,
          p.reduced m = .restoration (.deleteRestoration restorationId)
      · obtain ⟨restorationId, hm⟩ := hrestoration
        rw [hm] at hchange ⊢
        obtain ⟨-, rfl⟩ := Prod.mk.inj (Exec.ret.inj hchange)
        exact h.withoutRestoration restorationId
      · rw [FrostCoordinator.persistMutation_insert hdelete
          fun restorationId hm => hrestoration ⟨restorationId, hm⟩]
        refine h.insert hdelete ?_ (fun session hm => absurd hm (hnew session)) hchange
        intro keyId
        refine Persistent.tiedToKey_of_sessionKeyId fun sessionId hkey => ?_
        refine Persistent.sessionKeyId_of_change h.sound hdelete hnew hchange ?_
        exact (rest.trans hafter).sessionKeyId
          (h.sound.change (fun session hm => absurd hm (hnew session)) hchange) hkey
  | ignored permitted applied rest ih =>
      obtain rfl := Persistent.ignored_quiet permitted applied
      exact ih hafter h

end Log

end

/-! ### Runs -/

/-- No segment opens a stream silently, every session is a new one, and no key is deleted that has
a finished session. -/
def restorable : Assumptions L where
  segment cache deviceId segment := ¬ cache.OpensSilently deviceId segment
  session := Persistent.IsFresh
  share _ _ _ := True
  key p keyId := keyId ∈ p.keys →
    ∀ (sessionId : SignSessionId) (session : FinishedSignSession L),
      p.finishedSigningSessions[sessionId]? = some session → session.keyId ≠ keyId

/-- An operation after which the rows of the database lead to the state of the coordinator: it
meets the assumptions, and it deletes no key with a session in the database that asked a device. -/
def Op.KeepsLog (codec : MutationCodec L) (rows : List (Row codec.Blob)) (s : FrostCoordinator L)
    (op : Op L) : Prop :=
  op.Satisfies restorable s ∧
    ∀ keyId, op = .deleteKey keyId → keyId ∈ s.keys → ¬ Asked codec rows keyId

/-- The rows and the coordinator of a run. What an operation staged is written after it. The
coordinator may be loaded again at any time, and it is when the process stops after some of the
statements that write what an operation staged. -/
inductive Stored (codec : MutationCodec L)
    (Meets : List (Row codec.Blob) → FrostCoordinator L → Op L → Prop) :
    List (Row codec.Blob) → FrostCoordinator L → Prop where
  | new : Stored codec Meets [] (.new L)
  | perform {rows : List (Row codec.Blob)} {s s' : FrostCoordinator L} {op : Op L} {failed : Bool}
      (h : Stored codec Meets rows s) (hmeets : Meets rows s op)
      (hop : s.perform op = .ret (failed, s')) :
      Stored codec Meets (s'.persistUpdate codec rows s'.mutations) { s' with mutations := [] }
  | load {rows : List (Row codec.Blob)} {s s' : FrostCoordinator L}
      (h : Stored codec Meets rows s)
      (hload : FrostCoordinator.load codec rows = .ret (some s')) : Stored codec Meets rows s'
  | crash {rows : List (Row codec.Blob)} {s s' t : FrostCoordinator L} {op : Op L} {failed : Bool}
      (h : Stored codec Meets rows s) (hmeets : Meets rows s op)
      (hop : s.perform op = .ret (failed, s')) (k : ℕ)
      (hload : FrostCoordinator.load codec
        (s'.persistUpdate codec rows (s'.mutations.take k)) = .ret (some t)) :
      Stored codec Meets (s'.persistUpdate codec rows (s'.mutations.take k)) t

variable {rows : List (Row codec.Blob)} {s s' : FrostCoordinator L}

/-- Every operation but those that start a session or delete a key. -/
theorem Op.satisfies_quiet {op : Op L} (h : op.Satisfies restorable s)
    (hstart : ∀ ref signTask signingDevices rng, op ≠ .startSign ref signTask signingDevices rng)
    (hdelete : ∀ keyId, op ≠ .deleteKey keyId) : op.Satisfies quiet s := by
  unfold Op.Satisfies at h ⊢
  split
  · refine SegmentsSatisfy.mono ?_ h
    exact fun _ _ _ hloud => hloud
  · exact h
  · exact absurd rfl (hstart _ _ _ _)
  · trivial
  · exact absurd rfl (hdelete _)
  · trivial

namespace Log

/-- A session is started. -/
theorem startSign (h : Log codec rows s.toPersistent) (hmutations : s.mutations = [])
    {ref : AccessStructureRef} {signTask : L.SignTask} {signingDevices : BTreeSet DeviceId}
    {rng : ℕ → L.Rng}
    {result : Except (StartSignError L) SignSessionId}
    (hfresh : ∀ session, s.signSession ref signTask signingDevices rng = .ret (.ok session) →
      s.IsFresh session)
    (hop : s.startSign ref signTask signingDevices rng = .ret (result, s')) :
    Log codec (s'.persistUpdate codec rows s'.mutations) s'.toPersistent ∧
      s'.mutations.length ≤ 1 := by
  cases result with
  | error e =>
      obtain rfl := FrostCoordinator.checked_error hop
      rw [hmutations]
      exact ⟨h, by simp⟩
  | ok sessionId =>
      obtain ⟨session, hsession, hact⟩ := FrostCoordinator.checked_ok hop
      obtain ⟨t, hmutate, hret⟩ := Exec.bind_eq_ret_iff.1 hact
      obtain ⟨-, rfl⟩ := Prod.mk.inj (Exec.ret.inj hret)
      obtain ⟨reduced, happly, hstaged, -⟩ := FrostCoordinator.mutate_eq hmutate
      obtain ⟨rfl, hp⟩ := Prod.mk.inj (Exec.ret.inj happly)
      rw [hmutations, List.nil_append] at hstaged
      rw [hstaged]
      have hstart : s.CanStart session := by
        refine Assumptions.StartsFresh.canStart (A := restorable) (fun _ _ hnew => hnew)
          h.sound.wellNamed ⟨⟨_, _, _, _, hsession⟩, hfresh session hsession⟩
      have hsent := (Persistent.signSession_eq_ok hsession).2.1
      refine ⟨?_, by simp⟩
      have hchange : s.toPersistent.change L.defaultFingerprint
          (.signing (.newSigningSession session)) = .ret (true, t.toPersistent) := by
        rw [← hp]
        rfl
      refine h.insert (fun _ hm => by cases hm) (fun _ htied => htied) (fun session' hm => ?_)
        hchange
      obtain rfl := SigningMutation.newSigningSession.inj (Mutation.signing.inj hm)
      exact ⟨hstart, hsent⟩

/-- A key is deleted. -/
theorem deleteKey (h : Log codec rows s.toPersistent) (hmutations : s.mutations = [])
    {keyId : KeyId} (hasked : keyId ∈ s.keys → ¬ Asked codec rows keyId)
    (hfinished : restorable.key s.toPersistent keyId)
    (hop : s.deleteKey keyId = .ret s') :
    Log codec (s'.persistUpdate codec rows s'.mutations) s'.toPersistent ∧
      s'.mutations.length ≤ 1 := by
  unfold FrostCoordinator.deleteKey at hop
  split at hop
  · rename_i hmem
    obtain ⟨reduced, happly, hstaged, -⟩ := FrostCoordinator.mutate_eq hop
    obtain ⟨⟨changed, p'⟩, hchange, hret⟩ := Exec.bind_eq_ret_iff.1 happly
    obtain ⟨rfl, rfl⟩ := Prod.mk.inj (Exec.ret.inj hret)
    have hdelete : s.toPersistent.deleteKey keyId = .ret (changed, s'.toPersistent) := hchange
    have hchanged : changed = true := by
      obtain ⟨hnot, -⟩ | ⟨-, hchanged, -⟩ := h.sound.deleteKey hdelete
      · exact absurd hmem hnot
      · exact hchanged
    subst hchanged
    rw [hmutations, List.nil_append] at hstaged
    rw [hstaged, Persistent.deleteKey_eq_without h.sound (h.unasked (hasked hmem))
      (hfinished hmem) hmem hdelete]
    exact ⟨h.without (hasked hmem), by simp⟩
  · obtain rfl := Exec.ret.inj hop
    rw [hmutations]
    exact ⟨h, by simp⟩

/-- What is staged by one mutation is written or not. -/
theorem take_of_length_le_one (h : Log codec rows s.toPersistent)
    (hlength : s'.mutations.length ≤ 1)
    (hall : Log codec (s'.persistUpdate codec rows s'.mutations) s'.toPersistent) (k : ℕ) :
    Log codec (s'.persistUpdate codec rows (s'.mutations.take k)) s.toPersistent ∨
      Log codec (s'.persistUpdate codec rows (s'.mutations.take k)) s'.toPersistent := by
  cases k with
  | zero => exact .inl h
  | succ k =>
      rw [List.take_of_length_le (by omega)]
      exact .inr hall

/-- An operation, with what it staged written after it, and with a part of it. -/
theorem perform (h : Log codec rows s.toPersistent) (hmutations : s.mutations = [])
    (hfingerprint : s.keygenFingerprint = L.defaultFingerprint) {op : Op L} {failed : Bool}
    (hkeeps : op.KeepsLog codec rows s) (hop : s.perform op = .ret (failed, s')) :
    Log codec (s'.persistUpdate codec rows s'.mutations) s'.toPersistent ∧
      ∀ k, ∃ q, Log codec (s'.persistUpdate codec rows (s'.mutations.take k)) q := by
  obtain ⟨hsatisfies, hasked⟩ := hkeeps
  have hone : Log codec (s'.persistUpdate codec rows s'.mutations) s'.toPersistent ∧
      s'.mutations.length ≤ 1 →
      Log codec (s'.persistUpdate codec rows s'.mutations) s'.toPersistent ∧
        ∀ k, ∃ q, Log codec (s'.persistUpdate codec rows (s'.mutations.take k)) q := by
    rintro ⟨hall, hlength⟩
    refine ⟨hall, fun k => ?_⟩
    obtain hbefore | hafter := h.take_of_length_le_one hlength hall k
    · exact ⟨_, hbefore⟩
    · exact ⟨_, hafter⟩
  by_cases hstart : ∃ ref signTask signingDevices rng, op =
      .startSign ref signTask signingDevices rng
  · obtain ⟨ref, signTask, signingDevices, rng, rfl⟩ := hstart
    obtain ⟨e, hx, -⟩ | ⟨a, hx, -⟩ := FrostCoordinator.outcome_eq hop
    · exact hone (h.startSign hmutations hsatisfies hx)
    · exact hone (h.startSign hmutations hsatisfies hx)
  · by_cases hdelete : ∃ keyId, op = .deleteKey keyId
    · obtain ⟨keyId, rfl⟩ := hdelete
      exact hone
        (h.deleteKey hmutations (hasked keyId rfl) hsatisfies (FrostCoordinator.done'_eq hop).2)
    · have hquiet := Op.satisfies_quiet hsatisfies
        (fun _ _ _ _ heq => hstart ⟨_, _, _, _, heq⟩) fun keyId heq => hdelete ⟨keyId, heq⟩
      obtain ⟨ms, hmutated⟩ := FrostCoordinator.perform_mutates hquiet _ hop
      have hchain := hmutated.chain
      rw [hfingerprint] at hchain
      rw [hmutated.staged, hmutations, List.nil_append]
      refine ⟨h.chain hchain (.nil _), fun k => ?_⟩
      rw [← List.take_append_drop k ms] at hchain
      obtain ⟨q, hbefore, hafter⟩ := hchain.split
      exact ⟨q, h.chain hbefore hafter⟩

end Log

/-- The rows of a run that keeps the log lead to its state. -/
theorem Stored.log (h : Stored codec (Op.KeepsLog codec) rows s) :
    Log codec rows s.toPersistent ∧ s.mutations = [] ∧
      s.keygenFingerprint = L.defaultFingerprint := by
  have hloaded : ∀ {rows : List (Row codec.Blob)} {p : Persistent L} {t : FrostCoordinator L},
      Log codec rows p → FrostCoordinator.load codec rows = .ret (some t) →
      Log codec rows t.toPersistent ∧ t.mutations = [] ∧
        t.keygenFingerprint = L.defaultFingerprint := by
    intro rows p t hlog hload
    obtain ⟨t', ht', rfl, hmutations, hfingerprint⟩ := hlog.loads
    obtain rfl := Option.some.inj (Exec.ret.inj (ht'.symm.trans hload))
    exact ⟨hlog, hmutations, hfingerprint⟩
  induction h with
  | new => exact ⟨.empty, rfl, rfl⟩
  | perform h hmeets hop ih =>
      obtain ⟨hlog, hmutations, hfingerprint⟩ := ih
      obtain ⟨ms, hmutated⟩ := FrostCoordinator.perform_mutates (Op.satisfies_none _ _) _ hop
      exact ⟨(hlog.perform hmutations hfingerprint hmeets hop).1, rfl,
        hmutated.fingerprint.trans hfingerprint⟩
  | load h hload ih => exact hloaded ih.1 hload
  | crash h hmeets hop k hload ih =>
      obtain ⟨hlog, hmutations, hfingerprint⟩ := ih
      obtain ⟨q, hq⟩ := (hlog.perform hmutations hfingerprint hmeets hop).2 k
      exact hloaded hq hload

/-- **Reload.** In every run that starts only new sessions, that opens no nonce stream silently,
and that deletes no key with a session that is finished or for which a device was asked, loading
the database leads to the persistent state of the coordinator. -/
theorem reload_exact (codec : MutationCodec L) (rows : List (Row codec.Blob))
    (s : FrostCoordinator L) (h : Stored codec (Op.KeepsLog codec) rows s) :
    ∃ s', FrostCoordinator.load codec rows = .ret (some s') ∧
      s'.toPersistent = s.toPersistent := by
  obtain ⟨s', hload, hp, -⟩ := h.log.1.loads
  exact ⟨s', hload, hp⟩

end

section

attribute [local instance] Build.release

/-- Mutations that are stored as they are. -/
def plainCodec : MutationCodec plainLib where
  Blob := Mutation plainLib
  encode := id
  decode := some
  decode_encode _ := rfl

/-- The rows and the coordinator after an operation. -/
def saved (r : List (Row (Mutation plainLib)) × FrostCoordinator plainLib) (op : Op plainLib) :
    List (Row (Mutation plainLib)) × FrostCoordinator plainLib :=
  match r.2.perform op with
  | .ret (_, s) => (s.persistUpdate plainCodec r.1 s.mutations, { s with mutations := [] })
  | .panic _ => r

theorem Stored.saved
    {Meets : List (Row (Mutation plainLib)) → FrostCoordinator plainLib → Op plainLib → Prop}
    {r : List (Row (Mutation plainLib)) × FrostCoordinator plainLib}
    (h : Stored plainCodec Meets r.1 r.2) (op : Op plainLib) (hmeets : Meets r.1 r.2 op) :
    Stored plainCodec Meets (saved r op).1 (saved r op).2 := by
  unfold Coordinator.saved
  split
  · rename_i failed s hop
    exact .perform h hmeets hop
  · exact h

/-- An empty database and a new coordinator. -/
def nothingSaved : List (Row (Mutation plainLib)) × FrostCoordinator plainLib := ([], .new plainLib)

/-- A coordinator that has restored a key and has the nonces of its device. -/
def oneShareSaved : List (Row (Mutation plainLib)) × FrostCoordinator plainLib :=
  saved (saved (saved nothingSaved (.startRestoringKeyFromRecoverShare oneShare 1))
    (.finishRestoring 1 0 (0 : ℕ))) sendNonces

/-- The same, after it asked the device to sign. -/
def oneShareAsked : List (Row (Mutation plainLib)) × FrostCoordinator plainLib :=
  saved (saved oneShareSaved (startOneShare 0)) (.requestDeviceSign 452 1 0)

theorem restorable_sendNonces (s : FrostCoordinator plainLib) :
    sendNonces.Satisfies restorable s := by
  refine ⟨?_, fun _ _ _ => trivial⟩
  rintro ⟨-, hempty | ⟨-, hoverflow⟩⟩
  · exact absurd hempty (by decide)
  · exact absurd hoverflow (by decide)

theorem stored_oneShareAsked
    {Meets : List (Row (Mutation plainLib)) → FrostCoordinator plainLib → Op plainLib → Prop}
    (hmeets : ∀ rows s op, (∀ keyId, op ≠ .deleteKey keyId) → op.Satisfies restorable s →
      Meets rows s op) : Stored plainCodec Meets oneShareAsked.1 oneShareAsked.2 := by
  have hnew : Stored plainCodec Meets nothingSaved.1 nothingSaved.2 := .new
  have hrestoring := hnew.saved (.startRestoringKeyFromRecoverShare oneShare 1)
    (hmeets _ _ _ (fun _ hop => by cases hop) trivial)
  have hrestored := hrestoring.saved (.finishRestoring 1 0 (0 : ℕ))
    (hmeets _ _ _ (fun _ hop => by cases hop) trivial)
  have hsaved : Stored plainCodec Meets oneShareSaved.1 oneShareSaved.2 :=
    hrestored.saved sendNonces (hmeets _ _ _ (fun _ hop => by cases hop) (restorable_sendNonces _))
  have hstarted := hsaved.saved (startOneShare 0) (hmeets _ _ _ (fun _ hop => by cases hop)
    fun _ _ => isFresh_of_keys_eq_nil (by decide +kernel) (by decide +kernel))
  exact hstarted.saved (.requestDeviceSign 452 1 0)
    (hmeets _ _ _ (fun _ hop => by cases hop) trivial)

/-- The nonces of a session that was asked for are consumed when it is cancelled, and are still
consumed after loading. -/
theorem reload_exact_of_oneShare :
    ∃ s', FrostCoordinator.load plainCodec (saved oneShareAsked (.cancelSignSession 452)).1 =
        .ret (some s') ∧
      s'.toPersistent = (saved oneShareAsked (.cancelSignSession 452)).2.toPersistent := by
  refine reload_exact plainCodec _ _
    (Stored.saved (stored_oneShareAsked ?_) _ ⟨trivial, fun _ hop => by cases hop⟩)
  exact fun rows s op hdelete hsatisfies =>
    ⟨hsatisfies, fun keyId hop => absurd hop (hdelete keyId)⟩

/-- The nonces that a session of a deleted key consumed are there again after loading. -/
theorem deleted_key_restores_nonces :
    ¬ ∀ (rows : List (Row plainCodec.Blob)) (s : FrostCoordinator plainLib),
      Stored plainCodec (fun _ s op => op.Satisfies restorable s) rows s →
      ∃ s', FrostCoordinator.load plainCodec rows = .ret (some s') ∧
        s'.toPersistent = s.toPersistent := by
  intro hall
  have hasked := stored_oneShareAsked fun _ _ _ _ hsatisfies => hsatisfies
  have hfinished : (Op.deleteKey 237).Satisfies restorable oneShareAsked.2 := by
    intro _ sessionId session hsession
    have hnone : oneShareAsked.2.finishedSigningSessions.keys = [] := by decide +kernel
    have hmem := Std.ExtTreeMap.mem_keys.2 (BTreeMap.mem_iff_getElem?.2 ⟨session, hsession⟩)
    rw [hnone] at hmem
    exact absurd hmem List.not_mem_nil
  obtain ⟨s', hload, hp⟩ := hall _ _ (hasked.saved (.deleteKey 237) hfinished)
  let index (p : Persistent plainLib) : Option ℕ := (p.nonceCache.segment? 1 1).map (·.index)
  have hindex : Option.map (fun s => index s.toPersistent) <$>
      FrostCoordinator.load plainCodec (saved oneShareAsked (.deleteKey 237)).1 =
        .ret (some (index (saved oneShareAsked (.deleteKey 237)).2.toPersistent)) := by
    rw [hload, ← hp]
    rfl
  exact absurd hindex (by decide +kernel)

end

end Frostsnap.Coordinator
