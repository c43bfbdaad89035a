import Frostsnap.Coordinator.Sessions
import Frostsnap.Lib.Replay

/-!
# The database of the coordinator

The coordinator is stored as the mutations it staged, one row each. This module embeds
`frostsnap_persist.rs`. A row has the key and the restoration that its mutation is tied to when it
is written, after the operation; deleting a key deletes the rows that are tied to it, where other
mutations insert one. Loading applies the rows in order to a new coordinator.

## Main results

* `Persistent.without_of_tied`, `Persistent.change_without`: a row that is tied to a key changes
  nothing but what is deleted with the key, and the others do the same without it.
-/

namespace Frostsnap.Coordinator

variable {L : FrostLib}

/-- The encoding of mutations. -/
structure MutationCodec (L : FrostLib) where
  Blob : Type
  encode : Mutation L → Blob
  decode : Blob → Option (Mutation L)
  decode_encode : ∀ m, decode (encode m) = some m

/-- A row of `fs_coordinator_mutations`. The table is in the order of the ids. -/
structure Row (Blob : Type) where
  mutation : Blob
  tiedToKey : Option KeyId
  tiedToRestoration : Option RestorationId
  version : ℕ

namespace FrostCoordinator

variable (codec : MutationCodec L)

/-- The row of a mutation that is inserted. -/
def newRow (s : FrostCoordinator L) (m : Mutation L) : Row codec.Blob where
  mutation := codec.encode m
  tiedToKey := m.tiedToKey s.toPersistent
  tiedToRestoration := m.tiedToRestoration
  version := 0

/-- The statement of `persist_update` for one mutation. -/
def persistMutation (s : FrostCoordinator L) (rows : List (Row codec.Blob)) :
    Mutation L → List (Row codec.Blob)
  | .keygen (.deleteKey keyId) => rows.filter fun row => row.tiedToKey ≠ some keyId
  | .restoration (.deleteRestoration restorationId) =>
      rows.filter fun row => row.tiedToRestoration ≠ some restorationId
  | m => rows ++ [s.newRow codec m]

/-- `persist_update`. -/
def persistUpdate (s : FrostCoordinator L) (rows : List (Row codec.Blob))
    (update : List (Mutation L)) : List (Row codec.Blob) :=
  update.foldl (s.persistMutation codec) rows

/-- The loop of `load`. A version that is not known is only logged. -/
def applyRows [Build] (s : FrostCoordinator L) :
    List (Row codec.Blob) → Exec (Option (FrostCoordinator L))
  | [] => .ret (some s)
  | row :: rest =>
      match codec.decode row.mutation with
      | none => .ret none
      | some m => do
          let (_, s) ← s.applyMutation m
          s.applyRows rest

/-- `load`: `none` when a row does not decode. -/
def load [Build] (rows : List (Row codec.Blob)) : Exec (Option (FrostCoordinator L)) :=
  (FrostCoordinator.new L).applyRows codec rows

end FrostCoordinator

namespace FrostCoordinator

variable {codec : MutationCodec L}

theorem persistMutation_insert {s : FrostCoordinator L} {rows : List (Row codec.Blob)}
    {m : Mutation L} (hkey : ∀ keyId, m ≠ .keygen (.deleteKey keyId))
    (hrestoration : ∀ restorationId, m ≠ .restoration (.deleteRestoration restorationId)) :
    s.persistMutation codec rows m = rows ++ [s.newRow codec m] := by
  unfold persistMutation
  split
  · exact absurd rfl (hkey _)
  · exact absurd rfl (hrestoration _)
  · rfl

theorem applyRows_append [Build] {s t : FrostCoordinator L} {rows : List (Row codec.Blob)}
    (h : s.applyRows codec rows = .ret (some t)) (rows' : List (Row codec.Blob)) :
    s.applyRows codec (rows ++ rows') = t.applyRows codec rows' := by
  induction rows generalizing s with
  | nil =>
      obtain rfl := Option.some.inj (Exec.ret.inj h)
      rfl
  | cons row rest ih =>
      simp only [List.cons_append, applyRows] at h ⊢
      cases hrow : codec.decode row.mutation with
      | none =>
          rw [hrow] at h
          cases Exec.ret.inj h
      | some m =>
          simp only [hrow] at h ⊢
          obtain ⟨⟨reduced, u⟩, happly, hrest⟩ := Exec.bind_eq_ret_iff.1 h
          rw [happly, Exec.ret_bind]
          exact ih hrest

/-- A mutation is applied to what is persistent. -/
theorem applyMutation_of_change [Build] {s : FrostCoordinator L} {m : Mutation L} {changed : Bool}
    {p' : Persistent L}
    (h : s.toPersistent.change s.keygenFingerprint m = .ret (changed, p')) :
    ∃ reduced s', s.applyMutation m = .ret (reduced, s') ∧ s'.toPersistent = p' ∧
      s'.mutations = s.mutations ∧ s'.keygenFingerprint = s.keygenFingerprint := by
  have happly : s.toPersistent.applyMutation s.keygenFingerprint m =
      .ret (if changed then some (s.reduced m) else none, p') := by
    rw [Persistent.applyMutation, h]
    rfl
  rw [applyMutation, happly, Exec.ret_bind]
  dsimp only
  split
  · exact ⟨_, _, rfl, rfl, rfl, rfl⟩
  · exact ⟨_, _, rfl, rfl, rfl, rfl⟩

end FrostCoordinator

/-! ### A state without a key -/

namespace Persistent

/-- A state without a key, its sessions and its consolidations. -/
def without (p : Persistent L) (keyId : KeyId) : Persistent L :=
  { p with
    keys := p.keys.erase keyId
    keyOrder := p.keyOrder.filter (· ≠ keyId)
    activeSigningSessions := p.activeSigningSessions.filter fun _ session =>
      session.keyId ≠ keyId
    activeSignSessionOrder := p.activeSignSessionOrder.filter fun sessionId =>
      p.activeSigningSessions[sessionId]?.all fun session => session.keyId ≠ keyId
    finishedSigningSessions := p.finishedSigningSessions.filter fun _ session =>
      session.keyId ≠ keyId
    pendingPhysicalConsolidations := p.pendingPhysicalConsolidations.filter
      fun consolidation => consolidation.accessStructureRef.keyId ≠ keyId }

variable {p p' : Persistent L} {keyId : KeyId}

theorem without_empty (keyId : KeyId) : (empty L).without keyId = empty L := by
  refine Persistent.ext ?_ rfl rfl ?_ rfl ?_ rfl ?_
  · exact BTreeMap.erase_of_getElem? (by simp [empty])
  · exact Std.ExtTreeMap.ext_getElem? fun {id} => by simp [without, empty]
  · exact Std.ExtTreeMap.ext_getElem? fun {id} => by simp [without, empty]
  · exact BTreeSet.ext_mem fun c => by simp [without, empty]

theorem getElem?_without_keys {other : KeyId} (h : other ≠ keyId) :
    (p.without keyId).keys[other]? = p.keys[other]? := by
  rw [without, BTreeMap.getElem?_erase, if_neg (Ne.symm h)]

theorem getElem?_without_active (sessionId : SignSessionId) :
    (p.without keyId).activeSigningSessions[sessionId]? =
      p.activeSigningSessions[sessionId]?.filter fun session => session.keyId ≠ keyId := by
  rw [without, BTreeMap.getElem?_filter]

/-- A session of the key is not there without it. -/
theorem getElem?_without_active_of_key {sessionId : SignSessionId} {session : ActiveSignSession L}
    (hsession : p.activeSigningSessions[sessionId]? = some session) (hkey : session.keyId = keyId) :
    (p.without keyId).activeSigningSessions[sessionId]? = none := by
  rw [getElem?_without_active, hsession, Option.filter_some, if_neg (by simp [hkey])]

/-- A session of another key is there without it. -/
theorem getElem?_without_active_of_ne {sessionId : SignSessionId} {session : ActiveSignSession L}
    (hsession : p.activeSigningSessions[sessionId]? = some session) (hkey : session.keyId ≠ keyId) :
    (p.without keyId).activeSigningSessions[sessionId]? = some session := by
  rw [getElem?_without_active, hsession, Option.filter_some, if_pos (by simp [hkey])]

theorem mem_without_order {sessionId : SignSessionId} :
    sessionId ∈ (p.without keyId).activeSignSessionOrder ↔
      sessionId ∈ p.activeSignSessionOrder ∧
        ∀ session, p.activeSigningSessions[sessionId]? = some session → session.keyId ≠ keyId := by
  rw [without, List.mem_filter]
  cases p.activeSigningSessions[sessionId]? <;> simp

/-- The order of the sessions of other keys depends on the keys of the sessions only. -/
theorem without_order_congr {order : List SignSessionId}
    {active active' : BTreeMap SignSessionId (ActiveSignSession L)}
    (h : ∀ sessionId ∈ order, active'[sessionId]?.map ActiveSignSession.keyId =
      active[sessionId]?.map ActiveSignSession.keyId) :
    (order.filter fun sessionId => active'[sessionId]?.all fun session =>
        session.keyId ≠ keyId) =
      order.filter fun sessionId => active[sessionId]?.all fun session =>
        session.keyId ≠ keyId := by
  refine List.filter_congr fun sessionId hmem => ?_
  have hall : ∀ o : Option (ActiveSignSession L),
      (o.all fun session => session.keyId ≠ keyId) =
        (o.map ActiveSignSession.keyId).all fun key => key ≠ keyId := by
    intro o
    cases o <;> rfl
  rw [hall, hall, h sessionId hmem]

/-! Keys. -/

theorem without_setAccessStructure_of_key {key : CoordFrostKey} {id : AccessStructureId}
    {a : CoordAccessStructure} :
    (p.setAccessStructure key keyId id a).without keyId = p.without keyId := by
  refine Persistent.ext ?_ rfl rfl rfl rfl rfl rfl rfl
  refine Std.ExtTreeMap.ext_getElem? fun {other} => ?_
  simp only [without, setAccessStructure, BTreeMap.getElem?_erase, BTreeMap.getElem?_insert]
  split <;> rfl

theorem without_setAccessStructure {key : CoordFrostKey} {other : KeyId} {id : AccessStructureId}
    {a : CoordAccessStructure} (h : other ≠ keyId) :
    (p.setAccessStructure key other id a).without keyId =
      (p.without keyId).setAccessStructure key other id a := by
  refine Persistent.ext ?_ rfl rfl rfl rfl rfl rfl rfl
  refine Std.ExtTreeMap.ext_getElem? fun {k} => ?_
  simp only [without, setAccessStructure, BTreeMap.getElem?_erase, BTreeMap.getElem?_insert]
  grind

theorem without_ensureKey_of_key {completeKey : CompleteKey} {keyName : String}
    {purpose : KeyPurpose} (h : L.keyIdOfMasterAppkey completeKey.masterAppkey = keyId) :
    (p.ensureKey completeKey keyName purpose).without keyId = p.without keyId := by
  unfold ensureKey
  dsimp only
  split
  · rfl
  · refine Persistent.ext ?_ ?_ rfl rfl rfl rfl rfl rfl
    · refine Std.ExtTreeMap.ext_getElem? fun {other} => ?_
      simp only [without, h, BTreeMap.getElem?_erase, BTreeMap.getElem?_insert]
      split <;> rfl
    · simp [without, h]

theorem without_ensureKey {completeKey : CompleteKey} {keyName : String} {purpose : KeyPurpose}
    (h : L.keyIdOfMasterAppkey completeKey.masterAppkey ≠ keyId) :
    (p.ensureKey completeKey keyName purpose).without keyId =
      (p.without keyId).ensureKey completeKey keyName purpose := by
  have hmem : L.keyIdOfMasterAppkey completeKey.masterAppkey ∈ (p.without keyId).keys ↔
      L.keyIdOfMasterAppkey completeKey.masterAppkey ∈ p.keys := by
    rw [without, BTreeMap.mem_erase]
    exact and_iff_right h
  unfold ensureKey
  dsimp only
  simp only [hmem]
  split
  · rfl
  · refine Persistent.ext ?_ ?_ rfl rfl rfl rfl rfl rfl
    · refine Std.ExtTreeMap.ext_getElem? fun {other} => ?_
      simp only [without, BTreeMap.getElem?_erase, BTreeMap.getElem?_insert]
      grind
    · simp [without, h]

/-! Sessions. -/

/-- Progress of a session of the key is not seen without it. -/
theorem without_update_of_key {sessionId : SignSessionId} {session session' : ActiveSignSession L}
    (hsession : p.activeSigningSessions[sessionId]? = some session) (hkey : session.keyId = keyId)
    (hkey' : session'.keyId = session.keyId) :
    without { p with
      activeSigningSessions := p.activeSigningSessions.insert sessionId session' } keyId =
      p.without keyId := by
  refine Persistent.ext rfl rfl rfl ?_ ?_ rfl rfl rfl
  · refine Std.ExtTreeMap.ext_getElem? fun {id} => ?_
    simp only [without, BTreeMap.getElem?_filter, BTreeMap.getElem?_insert]
    split
    · rename_i hid
      subst hid
      simp [hsession, Option.filter_some, hkey, hkey']
    · rfl
  · refine without_order_congr fun id _ => ?_
    rw [BTreeMap.getElem?_insert]
    split
    · rename_i hid
      subst hid
      simp [hsession, hkey']
    · rfl

/-- Progress of a session of another key is the same without the key. -/
theorem without_update {sessionId : SignSessionId} {session session' : ActiveSignSession L}
    (hsession : p.activeSigningSessions[sessionId]? = some session) (hkey : session.keyId ≠ keyId)
    (hkey' : session'.keyId = session.keyId) :
    without { p with
      activeSigningSessions := p.activeSigningSessions.insert sessionId session' } keyId =
      { p.without keyId with
        activeSigningSessions :=
          (p.without keyId).activeSigningSessions.insert sessionId session' } := by
  refine Persistent.ext rfl rfl rfl ?_ ?_ rfl rfl rfl
  · refine Std.ExtTreeMap.ext_getElem? fun {id} => ?_
    simp only [without, BTreeMap.getElem?_filter, BTreeMap.getElem?_insert]
    split
    · simp [hkey, hkey']
    · rfl
  · refine without_order_congr fun id _ => ?_
    rw [BTreeMap.getElem?_insert]
    split
    · rename_i hid
      subst hid
      simp [hsession, hkey']
    · rfl

theorem without_newSigningSession_of_key (hsound : p.SessionsSound)
    {session : ActiveSignSession L} (hfresh : session.sessionId ∉ p.activeSigningSessions)
    (hkey : session.keyId = keyId) : (p.newSigningSession session).without keyId =
      p.without keyId := by
  refine Persistent.ext rfl rfl rfl ?_ ?_ rfl rfl rfl
  · refine Std.ExtTreeMap.ext_getElem? fun {id} => ?_
    simp only [without, newSigningSession, BTreeMap.getElem?_filter, BTreeMap.getElem?_insert]
    split
    · rename_i hid
      subst hid
      rw [BTreeMap.not_mem_iff_getElem?] at hfresh
      simp [hfresh, hkey]
    · rfl
  · simp only [without, newSigningSession, List.filter_append]
    rw [List.filter_cons_of_neg (by simp [hkey]), List.filter_nil,
      List.append_nil]
    refine without_order_congr fun id hid => ?_
    rw [BTreeMap.getElem?_insert, if_neg]
    rintro rfl
    exact hfresh ((hsound.mem_order _).1 hid)

theorem without_newSigningSession (hsound : p.SessionsSound) {session : ActiveSignSession L}
    (hfresh : session.sessionId ∉ p.activeSigningSessions) (hkey : session.keyId ≠ keyId) :
    (p.newSigningSession session).without keyId =
      (p.without keyId).newSigningSession session := by
  refine Persistent.ext rfl rfl rfl ?_ ?_ rfl rfl rfl
  · refine Std.ExtTreeMap.ext_getElem? fun {id} => ?_
    simp only [without, newSigningSession, BTreeMap.getElem?_filter, BTreeMap.getElem?_insert]
    split
    · simp [hkey]
    · rfl
  · simp only [without, newSigningSession, List.filter_append]
    rw [List.filter_cons_of_pos (by simp [hkey]), List.filter_nil]
    congr 1
    refine without_order_congr fun id hid => ?_
    rw [BTreeMap.getElem?_insert, if_neg]
    rintro rfl
    exact hfresh ((hsound.mem_order _).1 hid)

/-- A session of the key is closed. -/
theorem without_close_of_key (hsound : p.SessionsSound) {sessionId : SignSessionId}
    {session : ActiveSignSession L} {finished : BTreeMap SignSessionId (FinishedSignSession L)}
    (hsession : p.activeSigningSessions[sessionId]? = some session) (hkey : session.keyId = keyId)
    (hfinished : (finished.filter fun _ session => session.keyId ≠ keyId) =
      p.finishedSigningSessions.filter fun _ session => session.keyId ≠ keyId) :
    without { p with
      activeSignSessionOrder := p.activeSignSessionOrder.erase sessionId
      activeSigningSessions := p.activeSigningSessions.erase sessionId
      finishedSigningSessions := finished } keyId = p.without keyId := by
  refine Persistent.ext rfl rfl rfl ?_ ?_ hfinished rfl rfl
  · refine Std.ExtTreeMap.ext_getElem? fun {id} => ?_
    simp only [without, BTreeMap.getElem?_filter, BTreeMap.getElem?_erase]
    split
    · rename_i hid
      subst hid
      simp [hsession, Option.filter_some, hkey]
    · rfl
  · simp only [without]
    rw [hsound.order_nodup.erase_eq_filter, List.filter_filter]
    refine List.filter_congr fun id _ => ?_
    rw [BTreeMap.getElem?_erase]
    by_cases hid : sessionId = id
    · subst hid
      simp [hsession, hkey]
    · simp [hid, Ne.symm hid]

/-- A session of another key is closed. -/
theorem without_close (hsound : p.SessionsSound) (sessionId : SignSessionId)
    {nonceCache : NonceCache} {finished finished' : BTreeMap SignSessionId (FinishedSignSession L)}
    (hfinished : (finished.filter fun _ session => session.keyId ≠ keyId) = finished') :
    without { p with
      activeSignSessionOrder := p.activeSignSessionOrder.erase sessionId
      activeSigningSessions := p.activeSigningSessions.erase sessionId
      nonceCache := nonceCache
      finishedSigningSessions := finished } keyId =
    { p.without keyId with
      activeSignSessionOrder := (p.without keyId).activeSignSessionOrder.erase sessionId
      activeSigningSessions := (p.without keyId).activeSigningSessions.erase sessionId
      nonceCache := nonceCache
      finishedSigningSessions := finished' } := by
  refine Persistent.ext rfl rfl rfl ?_ ?_ hfinished rfl rfl
  · refine Std.ExtTreeMap.ext_getElem? fun {id} => ?_
    simp only [without, BTreeMap.getElem?_filter, BTreeMap.getElem?_erase]
    split <;> rfl
  · simp only [without]
    rw [hsound.order_nodup.erase_eq_filter, (hsound.order_nodup.filter _).erase_eq_filter,
      List.filter_filter, List.filter_filter]
    refine List.filter_congr fun id _ => ?_
    rw [BTreeMap.getElem?_erase]
    by_cases hid : sessionId = id
    · subst hid
      simp
    · rw [if_neg hid]
      exact Bool.and_comm _ _

theorem filter_insert_finished_of_key {finished : BTreeMap SignSessionId (FinishedSignSession L)}
    {sessionId : SignSessionId} {session : FinishedSignSession L} (hkey : session.keyId = keyId)
    (hnew : sessionId ∉ finished) :
    ((finished.insert sessionId session).filter fun _ session => session.keyId ≠ keyId) =
      finished.filter fun _ session => session.keyId ≠ keyId := by
  refine Std.ExtTreeMap.ext_getElem? fun {id} => ?_
  rw [BTreeMap.getElem?_filter, BTreeMap.getElem?_filter, BTreeMap.getElem?_insert]
  split
  · rename_i hid
    subst hid
    rw [BTreeMap.not_mem_iff_getElem?] at hnew
    simp [hnew, Option.filter_some, hkey]
  · rfl

theorem filter_insert_finished {finished : BTreeMap SignSessionId (FinishedSignSession L)}
    {sessionId : SignSessionId} {session : FinishedSignSession L} (hkey : session.keyId ≠ keyId) :
    ((finished.insert sessionId session).filter fun _ session => session.keyId ≠ keyId) =
      (finished.filter fun _ session => session.keyId ≠ keyId).insert sessionId session := by
  refine Std.ExtTreeMap.ext_getElem? fun {id} => ?_
  rw [BTreeMap.getElem?_filter, BTreeMap.getElem?_insert, BTreeMap.getElem?_insert,
    BTreeMap.getElem?_filter]
  split
  · simp [Option.filter_some, hkey]
  · rfl

theorem without_forget (sessionId : SignSessionId) :
    without { p with
      finishedSigningSessions := p.finishedSigningSessions.erase sessionId } keyId =
    { p.without keyId with
      finishedSigningSessions := (p.without keyId).finishedSigningSessions.erase sessionId } := by
  refine Persistent.ext rfl rfl rfl rfl rfl ?_ rfl rfl
  refine Std.ExtTreeMap.ext_getElem? fun {id} => ?_
  simp only [without, BTreeMap.getElem?_filter, BTreeMap.getElem?_erase]
  split <;> rfl

end Persistent

/-! ### Rows and keys -/

/-- The key that a mutation is tied to in every state. -/
def Mutation.ownKey : Mutation L → Option KeyId
  | .keygen (.newKey _ _ completeKey) => some (L.keyIdOfMasterAppkey completeKey.masterAppkey)
  | .keygen (.newAccessStructure sharedKey _) =>
      some (L.keyIdOfMasterAppkey sharedKey.masterAppkey)
  | .keygen (.newShare ref _ _) | .keygen (.deleteShare ref _) => some ref.keyId
  | .keygen (.deleteKey keyId) => some keyId
  | .signing (.newSigningSession session) => some session.keyId
  | .signing _ => none
  | .restoration m => m.tiedToKey

namespace Persistent

variable [Build] {p p' : Persistent L} {keyId : KeyId} {fingerprint : Fingerprint}

omit [Build] in
/-- No device was asked to sign in a session of a key. -/
def Unasked (p : Persistent L) (keyId : KeyId) : Prop :=
  ∀ (sessionId : SignSessionId) (session : ActiveSignSession L),
    p.activeSigningSessions[sessionId]? = some session → session.keyId = keyId →
      session.sentReqToDevice = ∅

/-- Closing a session of the key is not seen without it, when no device was asked. -/
theorem without_closeSignSession_of_key (hsound : p.SessionsSound) (hunasked : p.Unasked keyId)
    {sessionId : SignSessionId} {finished : Option (List EncodedSignature)} {changed : Bool}
    {session : ActiveSignSession L}
    (hsession : p.activeSigningSessions[sessionId]? = some session) (hkey : session.keyId = keyId)
    (h : p.closeSignSession sessionId finished = .ret (changed, p')) :
    p'.without keyId = p.without keyId := by
  obtain ⟨-, -, rfl⟩ | ⟨hmem, -, session', nonceCache, hsession', hcache, rfl⟩ :=
    closeSignSession_eq h
  · rfl
  · obtain rfl := Option.some.inj (hsession.symm.trans hsession')
    rw [hunasked sessionId session hsession hkey, consumeNonces_empty] at hcache
    obtain rfl := Exec.ret.inj hcache
    refine without_close_of_key hsound hsession hkey ?_
    cases finished with
    | none => rfl
    | some signatures =>
        refine filter_insert_finished_of_key hkey ?_
        exact hsound.not_both sessionId (BTreeMap.mem_iff_getElem?.2 ⟨session, hsession⟩)

/-- A session that is closed is closed without the key, or is not there. -/
theorem closeSignSession_without (hsound : p.SessionsSound) (hunasked : p.Unasked keyId)
    {sessionId : SignSessionId} {finished : Option (List EncodedSignature)} {changed : Bool}
    (h : p.closeSignSession sessionId finished = .ret (changed, p')) :
    ∃ changed', (p.without keyId).closeSignSession sessionId finished =
      .ret (changed', p'.without keyId) := by
  obtain ⟨hmem, -, rfl⟩ | ⟨hmem, -, session, nonceCache, hsession, hcache, hp'⟩ :=
    closeSignSession_eq h
  · refine ⟨false, if_neg fun hmem' => hmem (mem_without_order.1 hmem').1⟩
  · by_cases hkey : session.keyId = keyId
    · rw [without_closeSignSession_of_key hsound hunasked hsession hkey h]
      exact ⟨false, if_neg fun hmem' => (mem_without_order.1 hmem').2 session hsession hkey⟩
    · have hmem' : sessionId ∈ (p.without keyId).activeSignSessionOrder := by
        refine mem_without_order.2 ⟨hmem, fun session' hsession' => ?_⟩
        obtain rfl := Option.some.inj (hsession.symm.trans hsession')
        exact hkey
      refine ⟨true, ?_⟩
      have hcache' : consumeNonces session.sentReqToDevice session.init.groupRequest.nSignatures
          session.init.nonces.toList (p.without keyId).nonceCache = .ret nonceCache := hcache
      rw [closeSignSession, if_pos hmem', getElem?_without_active_of_ne hsession hkey,
        Exec.expect_some, Exec.ret_bind, hcache', Exec.ret_bind, hp']
      have hfinished : ((finished.elim p.finishedSigningSessions fun signatures =>
          p.finishedSigningSessions.insert sessionId
            { init := session.init, signatures := signatures, keyId := session.keyId }).filter
              fun _ session => session.keyId ≠ keyId) =
          finished.elim (p.without keyId).finishedSigningSessions fun signatures =>
            (p.without keyId).finishedSigningSessions.insert sessionId
              { init := session.init, signatures := signatures, keyId := session.keyId } := by
        cases finished with
        | none => rfl
        | some signatures => exact filter_insert_finished hkey
      rw [without_close hsound sessionId hfinished]
      rfl

omit [Build] in
/-- A mutation of a session is tied to the key of the session. -/
theorem sessionKeyId_eq_some {sessionId : SignSessionId}
    (h : p.sessionKeyId sessionId = some keyId) :
    (∃ session, p.activeSigningSessions[sessionId]? = some session ∧ session.keyId = keyId) ∨
      p.activeSigningSessions[sessionId]? = none ∧
        ∃ session, p.finishedSigningSessions[sessionId]? = some session ∧
          session.keyId = keyId := by
  unfold sessionKeyId at h
  split at h
  · rename_i session hsession
    exact .inl ⟨session, hsession, Option.some.inj h⟩
  · rename_i hsession
    exact .inr ⟨hsession, Option.map_eq_some_iff.1 h⟩

theorem fail_without {msg : String} {changed : Bool} (h : p.fail msg = .ret (changed, p')) :
    (p.without keyId).fail msg = .ret (changed, p'.without keyId) := by
  obtain ⟨u, hassert, h⟩ := Exec.bind_eq_ret_iff.1 h
  obtain ⟨rfl, rfl⟩ := Prod.mk.inj (Exec.ret.inj h)
  rw [fail, hassert]
  rfl

theorem withAccessStructure_without {ref : AccessStructureRef}
    {noAccessStructure noKey : String} {f : CoordAccessStructure → Bool × CoordAccessStructure}
    {changed : Bool} (hkey : ref.keyId ≠ keyId)
    (h : p.withAccessStructure ref noAccessStructure noKey f = .ret (changed, p')) :
    (p.without keyId).withAccessStructure ref noAccessStructure noKey f =
      .ret (changed, p'.without keyId) := by
  unfold withAccessStructure at h ⊢
  rw [getElem?_without_keys hkey]
  cases hget : p.keys[ref.keyId]? with
  | none =>
      rw [hget] at h
      exact fail_without h
  | some key =>
      simp only [hget] at h ⊢
      cases ha : key.completeKey.accessStructures[ref.accessStructureId]? with
      | none =>
          simp only [ha] at h ⊢
          exact fail_without h
      | some a =>
          simp only [ha] at h ⊢
          obtain ⟨rfl, rfl⟩ := Prod.mk.inj (Exec.ret.inj h)
          rw [without_setAccessStructure hkey]

theorem withAccessStructure_of_key {ref : AccessStructureRef}
    {noAccessStructure noKey : String} {f : CoordAccessStructure → Bool × CoordAccessStructure}
    {changed : Bool} (hkey : ref.keyId = keyId)
    (h : p.withAccessStructure ref noAccessStructure noKey f = .ret (changed, p')) :
    p'.without keyId = p.without keyId := by
  unfold withAccessStructure at h
  split at h
  · rw [(fail_eq h).2]
  · split at h
    · rw [(fail_eq h).2]
    · obtain ⟨rfl, rfl⟩ := Prod.mk.inj (Exec.ret.inj h)
      rw [hkey, without_setAccessStructure_of_key]

/-- A mutation that is tied to a key changes nothing but what is deleted with the key. -/
theorem without_of_tied (hsound : p.SessionsSound) (hunasked : p.Unasked keyId) {m : Mutation L}
    (hstart : ∀ session, m = .signing (.newSigningSession session) → p.CanStart session)
    {changed : Bool} (htied : m.tiedToKey p = some keyId) (hm : m ≠ .keygen (.deleteKey keyId))
    (h : p.change fingerprint m = .ret (changed, p')) : p'.without keyId = p.without keyId := by
  cases m with
  | keygen m =>
      cases m with
      | newKey keyName purpose completeKey =>
          obtain ⟨-, rfl⟩ := Prod.mk.inj (Exec.ret.inj h)
          exact without_ensureKey_of_key (Option.some.inj htied)
      | newAccessStructure sharedKey kind =>
          simp only [change, newAccessStructure] at h
          split at h
          · rw [(fail_eq h).2]
          · split at h
            · rw [← (Prod.mk.inj (Exec.ret.inj h)).2]
            · rw [← (Prod.mk.inj (Exec.ret.inj h)).2, Option.some.inj htied,
                without_setAccessStructure_of_key]
      | newShare | deleteShare => exact withAccessStructure_of_key (Option.some.inj htied) h
      | deleteKey other => exact absurd (by rw [Option.some.inj htied]) hm
  | signing m =>
      cases m with
      | newNonces => cases htied
      | newSigningSession session =>
          obtain ⟨-, rfl⟩ := Prod.mk.inj (Exec.ret.inj h)
          exact without_newSigningSession_of_key hsound (hstart session rfl).fresh.1
            (Option.some.inj htied)
      | sentSignReq sessionId deviceId =>
          simp only [change, sentSignReq] at h
          obtain ⟨session, hsession, hkey⟩ | ⟨hnone, -⟩ := sessionKeyId_eq_some htied
          · rw [hsession] at h
            rw [← (Prod.mk.inj (Exec.ret.inj h)).2]
            exact without_update_of_key hsession hkey rfl
          · rw [hnone] at h
            rw [← (Prod.mk.inj (Exec.ret.inj h)).2]
      | gotSignatureSharesFromDevice sessionId deviceId shares =>
          simp only [change, gotSignatureShares] at h
          obtain ⟨session, hsession, hkey⟩ | ⟨hnone, -⟩ := sessionKeyId_eq_some htied
          · rw [hsession] at h
            rw [← (Prod.mk.inj (Exec.ret.inj h)).2]
            exact without_update_of_key hsession hkey rfl
          · rw [hnone] at h
            rw [← (Prod.mk.inj (Exec.ret.inj h)).2]
      | closeSignSession sessionId finished =>
          obtain ⟨session, hsession, hkey⟩ | ⟨hnone, -⟩ := sessionKeyId_eq_some htied
          · exact without_closeSignSession_of_key hsound hunasked hsession hkey h
          · rw [← BTreeMap.not_mem_iff_getElem?, ← hsound.mem_order] at hnone
            simp only [change, closeSignSession, if_neg hnone] at h
            rw [← (Prod.mk.inj (Exec.ret.inj h)).2]
      | forgetFinishedSignSession sessionId =>
          obtain ⟨-, rfl⟩ := Prod.mk.inj (Exec.ret.inj h)
          rw [without_forget]
          have hgone : (p.without keyId).finishedSigningSessions[sessionId]? = none := by
            rw [without, BTreeMap.getElem?_filter]
            obtain ⟨session, hsession, -⟩ | ⟨-, session, hsession, hkey⟩ :=
              sessionKeyId_eq_some htied
            · have hnone := hsound.not_both sessionId (BTreeMap.mem_iff_getElem?.2 ⟨_, hsession⟩)
              rw [BTreeMap.not_mem_iff_getElem?.1 hnone]
              rfl
            · simp [hsession, Option.filter_some, hkey]
          rw [BTreeMap.erase_of_getElem? hgone]
  | restoration m =>
      cases m with
      | deviceNeedsConsolidation pending =>
          obtain ⟨-, rfl⟩ := Prod.mk.inj (Exec.ret.inj h)
          refine Persistent.ext rfl rfl rfl rfl rfl rfl rfl (BTreeSet.ext_mem fun c => ?_)
          have hkey : pending.accessStructureRef.keyId = keyId := Option.some.inj htied
          simp only [without, BTreeSet.mem_filter, BTreeSet.mem_insert]
          grind
      | deviceFinishedConsolidation pending =>
          simp only [change, deviceFinishedConsolidation] at h
          split at h
          · obtain ⟨-, rfl⟩ := Prod.mk.inj (Exec.ret.inj h)
            refine Persistent.ext rfl rfl rfl rfl rfl rfl rfl (BTreeSet.ext_mem fun c => ?_)
            have hkey : pending.accessStructureRef.keyId = keyId := Option.some.inj htied
            simp only [without, BTreeSet.mem_filter, BTreeSet.mem_erase]
            grind
          · rw [(fail_eq h).2]
      | _ => cases htied

theorem restorationProgress2_without {restorationId : RestorationId} {deviceId : DeviceId}
    {heldShare : HeldShare2} {changed : Bool}
    (h : p.restorationProgress2 fingerprint restorationId deviceId heldShare =
      .ret (changed, p')) :
    (p.without keyId).restorationProgress2 fingerprint restorationId deviceId heldShare =
      .ret (changed, p'.without keyId) := by
  have hsame : (p.without keyId).restorations = p.restorations := rfl
  unfold restorationProgress2 at h ⊢
  rw [hsame]
  cases hget : p.restorations[restorationId]? with
  | none =>
      simp only [hget] at h ⊢
      exact fail_without h
  | some state =>
      simp only [hget] at h ⊢
      split
      · rename_i hgot
        rw [if_pos hgot] at h
        obtain ⟨rfl, rfl⟩ := Prod.mk.inj (Exec.ret.inj h)
        rfl
      · rename_i hgot
        rw [if_neg hgot] at h
        split
        · rename_i hconflict
          rw [if_pos hconflict] at h
          exact fail_without h
        · rename_i hconflict
          rw [if_neg hconflict] at h
          obtain ⟨rfl, rfl⟩ := Prod.mk.inj (Exec.ret.inj h)
          rfl

/-- A mutation of a restoration that is not of the key does the same without it. -/
theorem change_without_restoration {m : RestorationMutation} {changed : Bool}
    (htied : m.tiedToKey ≠ some keyId)
    (h : p.change fingerprint (.restoration m) = .ret (changed, p')) :
    (p.without keyId).change fingerprint (.restoration m) = .ret (changed, p'.without keyId) := by
  have hsame : (p.without keyId).restorations = p.restorations := rfl
  cases m with
  | newRestoration | newRestoration2 | deleteRestoration =>
      obtain ⟨rfl, rfl⟩ := Prod.mk.inj (Exec.ret.inj h)
      rfl
  | restorationProgress | restorationProgress2 => exact restorationProgress2_without h
  | deleteRestorationShare restorationId deviceId shareImage =>
      simp only [change, deleteRestorationShare] at h ⊢
      rw [hsame]
      cases hget : p.restorations[restorationId]? with
      | none =>
          simp only [hget] at h ⊢
          exact fail_without h
      | some state =>
          simp only [hget] at h ⊢
          cases hremove : state.accessStructure.removeShare L deviceId shareImage
              state.fingerprint with
          | none =>
              simp only [hremove] at h ⊢
              obtain ⟨rfl, rfl⟩ := Prod.mk.inj (Exec.ret.inj h)
              rfl
          | some a =>
              simp only [hremove] at h ⊢
              obtain ⟨rfl, rfl⟩ := Prod.mk.inj (Exec.ret.inj h)
              rfl
  | deviceNeedsConsolidation pending =>
      have hkey : pending.accessStructureRef.keyId ≠ keyId := fun hkey => htied (congrArg some hkey)
      have hmem : (p.without keyId).pendingPhysicalConsolidations.contains pending =
          p.pendingPhysicalConsolidations.contains pending := by
        rw [Bool.eq_iff_iff, ← Std.ExtTreeSet.mem_iff_contains, ← Std.ExtTreeSet.mem_iff_contains,
          without, BTreeSet.mem_filter]
        simp [hkey]
      simp only [change, deviceNeedsConsolidation, hmem] at h ⊢
      obtain ⟨rfl, rfl⟩ := Prod.mk.inj (Exec.ret.inj h)
      congr 2
      refine Persistent.ext rfl rfl rfl rfl rfl rfl rfl (BTreeSet.ext_mem fun c => ?_)
      simp only [without, BTreeSet.mem_filter, BTreeSet.mem_insert]
      grind
  | deviceFinishedConsolidation pending =>
      have hkey : pending.accessStructureRef.keyId ≠ keyId := fun hkey => htied (congrArg some hkey)
      have hmem : (p.without keyId).pendingPhysicalConsolidations.contains pending =
          p.pendingPhysicalConsolidations.contains pending := by
        rw [Bool.eq_iff_iff, ← Std.ExtTreeSet.mem_iff_contains, ← Std.ExtTreeSet.mem_iff_contains,
          without, BTreeSet.mem_filter]
        simp [hkey]
      simp only [change, deviceFinishedConsolidation, hmem] at h ⊢
      split
      · rename_i hpending
        rw [if_pos hpending] at h
        obtain ⟨rfl, rfl⟩ := Prod.mk.inj (Exec.ret.inj h)
        congr 2
        refine Persistent.ext rfl rfl rfl rfl rfl rfl rfl (BTreeSet.ext_mem fun c => ?_)
        simp only [without, BTreeSet.mem_filter, BTreeSet.mem_erase]
        grind
      · rename_i hpending
        rw [if_neg hpending] at h
        exact fail_without h

/-- A mutation of another key does the same without a key, and one of a session of the key does
nothing there. -/
theorem change_without (hsound : p.SessionsSound) (hunasked : p.Unasked keyId) {m : Mutation L}
    (hstart : ∀ session, m = .signing (.newSigningSession session) → p.CanStart session)
    {changed : Bool} (htied : m.ownKey ≠ some keyId) (hm : ∀ other, m ≠ .keygen (.deleteKey other))
    (h : p.change fingerprint m = .ret (changed, p')) :
    ∃ changed', (p.without keyId).change fingerprint m = .ret (changed', p'.without keyId) := by
  cases m with
  | keygen m =>
      refine ⟨changed, ?_⟩
      cases m with
      | newKey keyName purpose completeKey =>
          have hkey : L.keyIdOfMasterAppkey completeKey.masterAppkey ≠ keyId :=
            fun hkey => htied (congrArg some hkey)
          obtain ⟨rfl, rfl⟩ := Prod.mk.inj (Exec.ret.inj h)
          rw [without_ensureKey hkey]
          rfl
      | newAccessStructure sharedKey kind =>
          have hkey : L.keyIdOfMasterAppkey sharedKey.masterAppkey ≠ keyId :=
            fun hkey => htied (congrArg some hkey)
          simp only [change, newAccessStructure] at h ⊢
          rw [getElem?_without_keys hkey]
          cases hget : p.keys[L.keyIdOfMasterAppkey sharedKey.masterAppkey]? with
          | none =>
              simp only [hget] at h ⊢
              exact fail_without h
          | some key =>
              simp only [hget] at h ⊢
              split
              · rename_i hmem
                rw [if_pos hmem] at h
                obtain ⟨rfl, rfl⟩ := Prod.mk.inj (Exec.ret.inj h)
                rfl
              · rename_i hmem
                rw [if_neg hmem] at h
                obtain ⟨rfl, rfl⟩ := Prod.mk.inj (Exec.ret.inj h)
                rw [without_setAccessStructure hkey]
      | newShare ref | deleteShare ref =>
          exact withAccessStructure_without (fun hkey => htied (congrArg some hkey)) h
      | deleteKey other => exact absurd rfl (hm other)
  | signing m =>
      cases m with
      | newNonces deviceId segment =>
          obtain ⟨⟨r, cache⟩, hextend, hrest⟩ := Exec.bind_eq_ret_iff.1 h
          have hextend' : (p.without keyId).nonceCache.extendSegment deviceId segment =
              .ret (r, cache) := hextend
          refine ⟨changed, ?_⟩
          rw [change, newNonces, hextend', Exec.ret_bind]
          cases r with
          | error e => exact fail_without hrest
          | ok b =>
              obtain ⟨rfl, rfl⟩ := Prod.mk.inj (Exec.ret.inj hrest)
              rfl
      | newSigningSession session =>
          obtain ⟨-, rfl⟩ := Prod.mk.inj (Exec.ret.inj h)
          refine ⟨true, ?_⟩
          rw [without_newSigningSession hsound (hstart session rfl).fresh.1
            fun hkey => htied (congrArg some hkey)]
          rfl
      | sentSignReq sessionId deviceId =>
          simp only [change, sentSignReq] at h ⊢
          cases hsession : p.activeSigningSessions[sessionId]? with
          | none =>
              rw [hsession] at h
              obtain ⟨rfl, rfl⟩ := Prod.mk.inj (Exec.ret.inj h)
              rw [getElem?_without_active, hsession]
              exact ⟨false, rfl⟩
          | some session =>
              rw [hsession] at h
              obtain ⟨rfl, rfl⟩ := Prod.mk.inj (Exec.ret.inj h)
              by_cases hkey : session.keyId = keyId
              · rw [getElem?_without_active_of_key hsession hkey,
                  without_update_of_key hsession hkey]
                · exact ⟨false, rfl⟩
                · rfl
              · rw [getElem?_without_active_of_ne hsession hkey, without_update hsession hkey]
                · exact ⟨_, rfl⟩
                · rfl
      | gotSignatureSharesFromDevice sessionId deviceId shares =>
          simp only [change, gotSignatureShares] at h ⊢
          refine ⟨true, ?_⟩
          cases hsession : p.activeSigningSessions[sessionId]? with
          | none =>
              rw [hsession] at h
              obtain ⟨rfl, rfl⟩ := Prod.mk.inj (Exec.ret.inj h)
              rw [getElem?_without_active, hsession]
              rfl
          | some session =>
              rw [hsession] at h
              obtain ⟨rfl, rfl⟩ := Prod.mk.inj (Exec.ret.inj h)
              by_cases hkey : session.keyId = keyId
              · rw [getElem?_without_active_of_key hsession hkey,
                  without_update_of_key hsession hkey]
                rfl
              · rw [getElem?_without_active_of_ne hsession hkey, without_update hsession hkey]
                rfl
      | closeSignSession => exact closeSignSession_without hsound hunasked h
      | forgetFinishedSignSession sessionId =>
          obtain ⟨rfl, rfl⟩ := Prod.mk.inj (Exec.ret.inj h)
          rw [without_forget]
          exact ⟨true, rfl⟩
  | restoration m => exact ⟨changed, change_without_restoration htied h⟩

/-! Rows and restorations. -/

omit [Build] in
/-- A state without a restoration. -/
def withoutRestoration (p : Persistent L) (restorationId : RestorationId) : Persistent L :=
  { p with restorations := p.restorations.erase restorationId }

variable {restorationId : RestorationId}

omit [Build] in
theorem getElem?_withoutRestoration {other : RestorationId} (h : other ≠ restorationId) :
    (p.withoutRestoration restorationId).restorations[other]? = p.restorations[other]? := by
  rw [withoutRestoration, BTreeMap.getElem?_erase, if_neg (Ne.symm h)]

omit [Build] in
theorem withoutRestoration_setRestoration_of_eq {state : RestorationState}
    {a : RecoveringAccessStructure} :
    (p.setRestoration state a restorationId).withoutRestoration restorationId =
      p.withoutRestoration restorationId := by
  refine Persistent.ext rfl rfl rfl rfl rfl rfl ?_ rfl
  refine Std.ExtTreeMap.ext_getElem? fun {id} => ?_
  simp only [withoutRestoration, setRestoration, BTreeMap.getElem?_erase, BTreeMap.getElem?_insert]
  split <;> rfl

omit [Build] in
theorem withoutRestoration_setRestoration {state : RestorationState}
    {a : RecoveringAccessStructure} {other : RestorationId} (h : other ≠ restorationId) :
    (p.setRestoration state a other).withoutRestoration restorationId =
      (p.withoutRestoration restorationId).setRestoration state a other := by
  refine Persistent.ext rfl rfl rfl rfl rfl rfl ?_ rfl
  refine Std.ExtTreeMap.ext_getElem? fun {id} => ?_
  simp only [withoutRestoration, setRestoration, BTreeMap.getElem?_erase, BTreeMap.getElem?_insert]
  grind

theorem fail_withoutRestoration {msg : String} {changed : Bool}
    (h : p.fail msg = .ret (changed, p')) :
    (p.withoutRestoration restorationId).fail msg =
      .ret (changed, p'.withoutRestoration restorationId) := by
  obtain ⟨u, hassert, h⟩ := Exec.bind_eq_ret_iff.1 h
  obtain ⟨rfl, rfl⟩ := Prod.mk.inj (Exec.ret.inj h)
  rw [fail, hassert]
  rfl

theorem withAccessStructure_withoutRestoration {ref : AccessStructureRef}
    {noAccessStructure noKey : String} {f : CoordAccessStructure → Bool × CoordAccessStructure}
    {changed : Bool}
    (h : p.withAccessStructure ref noAccessStructure noKey f = .ret (changed, p')) :
    (p.withoutRestoration restorationId).withAccessStructure ref noAccessStructure noKey f =
      .ret (changed, p'.withoutRestoration restorationId) := by
  have hsame : (p.withoutRestoration restorationId).keys = p.keys := rfl
  unfold withAccessStructure at h ⊢
  rw [hsame]
  cases hget : p.keys[ref.keyId]? with
  | none =>
      rw [hget] at h
      exact fail_withoutRestoration h
  | some key =>
      simp only [hget] at h ⊢
      cases ha : key.completeKey.accessStructures[ref.accessStructureId]? with
      | none =>
          simp only [ha] at h ⊢
          exact fail_withoutRestoration h
      | some a =>
          simp only [ha] at h ⊢
          obtain ⟨rfl, rfl⟩ := Prod.mk.inj (Exec.ret.inj h)
          rfl

/-- A mutation that is tied to a restoration changes nothing else. -/
theorem withoutRestoration_of_tied {m : Mutation L} {changed : Bool}
    (htied : m.tiedToRestoration = some restorationId)
    (h : p.change fingerprint m = .ret (changed, p')) :
    p'.withoutRestoration restorationId = p.withoutRestoration restorationId := by
  have hprogress : ∀ {deviceId heldShare},
      p.restorationProgress2 fingerprint restorationId deviceId heldShare = .ret (changed, p') →
      p'.withoutRestoration restorationId = p.withoutRestoration restorationId := by
    intro deviceId heldShare hstep
    unfold restorationProgress2 at hstep
    split at hstep
    · rw [(fail_eq hstep).2]
    · split at hstep
      · rw [← (Prod.mk.inj (Exec.ret.inj hstep)).2]
      · split at hstep
        · rw [(fail_eq hstep).2]
        · rw [← (Prod.mk.inj (Exec.ret.inj hstep)).2, withoutRestoration_setRestoration_of_eq]
  cases m with
  | keygen m => cases htied
  | signing m => cases htied
  | restoration m =>
      cases m with
      | newRestoration | newRestoration2 =>
          obtain ⟨-, rfl⟩ := Prod.mk.inj (Exec.ret.inj h)
          obtain rfl := Option.some.inj htied
          refine Persistent.ext rfl rfl rfl rfl rfl rfl ?_ rfl
          refine Std.ExtTreeMap.ext_getElem? fun {id} => ?_
          simp only [withoutRestoration, newRestoration2, BTreeMap.getElem?_erase,
            BTreeMap.getElem?_insert]
          split <;> rfl
      | restorationProgress | restorationProgress2 =>
          obtain rfl := Option.some.inj htied
          exact hprogress h
      | deleteRestorationShare =>
          obtain rfl := Option.some.inj htied
          simp only [change, deleteRestorationShare] at h
          split at h
          · rw [(fail_eq h).2]
          · split at h
            · rw [← (Prod.mk.inj (Exec.ret.inj h)).2]
            · rw [← (Prod.mk.inj (Exec.ret.inj h)).2, withoutRestoration_setRestoration_of_eq]
      | deleteRestoration =>
          obtain ⟨-, rfl⟩ := Prod.mk.inj (Exec.ret.inj h)
          obtain rfl := Option.some.inj htied
          refine Persistent.ext rfl rfl rfl rfl rfl rfl ?_ rfl
          refine Std.ExtTreeMap.ext_getElem? fun {id} => ?_
          simp only [withoutRestoration, BTreeMap.getElem?_erase]
          split <;> rfl
      | deviceNeedsConsolidation | deviceFinishedConsolidation => cases htied

/-- A mutation that is not tied to a restoration does the same without it. -/
theorem change_withoutRestoration {m : Mutation L} {changed : Bool}
    (htied : m.tiedToRestoration ≠ some restorationId)
    (hm : ∀ other, m ≠ .keygen (.deleteKey other))
    (h : p.change fingerprint m = .ret (changed, p')) :
    (p.withoutRestoration restorationId).change fingerprint m =
      .ret (changed, p'.withoutRestoration restorationId) := by
  have hprogress : ∀ {other deviceId heldShare}, other ≠ restorationId →
      p.restorationProgress2 fingerprint other deviceId heldShare = .ret (changed, p') →
      (p.withoutRestoration restorationId).restorationProgress2 fingerprint other deviceId
        heldShare = .ret (changed, p'.withoutRestoration restorationId) := by
    intro other deviceId heldShare hne hstep
    unfold restorationProgress2 at hstep ⊢
    rw [getElem?_withoutRestoration hne]
    cases hget : p.restorations[other]? with
    | none =>
        simp only [hget] at hstep ⊢
        exact fail_withoutRestoration hstep
    | some state =>
        simp only [hget] at hstep ⊢
        split
        · rename_i hgot
          rw [if_pos hgot] at hstep
          obtain ⟨rfl, rfl⟩ := Prod.mk.inj (Exec.ret.inj hstep)
          rfl
        · rename_i hgot
          rw [if_neg hgot] at hstep
          split
          · rename_i hconflict
            rw [if_pos hconflict] at hstep
            exact fail_withoutRestoration hstep
          · rename_i hconflict
            rw [if_neg hconflict] at hstep
            obtain ⟨rfl, rfl⟩ := Prod.mk.inj (Exec.ret.inj hstep)
            rw [withoutRestoration_setRestoration hne]
  have hother : ∀ {other : RestorationId}, some other ≠ some restorationId →
      other ≠ restorationId := fun hne heq => hne (congrArg some heq)
  cases m with
  | keygen m =>
      cases m with
      | newKey keyName purpose completeKey =>
          obtain ⟨rfl, rfl⟩ := Prod.mk.inj (Exec.ret.inj h)
          by_cases hmem : L.keyIdOfMasterAppkey completeKey.masterAppkey ∈ p.keys
          · simp only [change, ensureKey, withoutRestoration, hmem, ↓reduceIte]
          · simp only [change, ensureKey, withoutRestoration, hmem, ↓reduceIte]
      | newAccessStructure sharedKey kind =>
          have hsame : (p.withoutRestoration restorationId).keys = p.keys := rfl
          simp only [change, newAccessStructure] at h ⊢
          rw [hsame]
          cases hget : p.keys[L.keyIdOfMasterAppkey sharedKey.masterAppkey]? with
          | none =>
              simp only [hget] at h ⊢
              exact fail_withoutRestoration h
          | some key =>
              simp only [hget] at h ⊢
              split
              · rename_i hmem
                rw [if_pos hmem] at h
                obtain ⟨rfl, rfl⟩ := Prod.mk.inj (Exec.ret.inj h)
                rfl
              · rename_i hmem
                rw [if_neg hmem] at h
                obtain ⟨rfl, rfl⟩ := Prod.mk.inj (Exec.ret.inj h)
                rfl
      | newShare ref | deleteShare ref => exact withAccessStructure_withoutRestoration h
      | deleteKey other => exact absurd rfl (hm other)
  | signing m =>
      have hactive : (p.withoutRestoration restorationId).activeSigningSessions =
          p.activeSigningSessions := rfl
      cases m with
      | newNonces deviceId segment =>
          obtain ⟨⟨r, cache⟩, hextend, hrest⟩ := Exec.bind_eq_ret_iff.1 h
          have hextend' : (p.withoutRestoration restorationId).nonceCache.extendSegment deviceId
              segment = .ret (r, cache) := hextend
          rw [change, newNonces, hextend', Exec.ret_bind]
          cases r with
          | error e => exact fail_withoutRestoration hrest
          | ok b =>
              obtain ⟨rfl, rfl⟩ := Prod.mk.inj (Exec.ret.inj hrest)
              rfl
      | newSigningSession | forgetFinishedSignSession =>
          obtain ⟨rfl, rfl⟩ := Prod.mk.inj (Exec.ret.inj h)
          rfl
      | sentSignReq sessionId deviceId =>
          simp only [change, sentSignReq, hactive] at h ⊢
          cases hsession : p.activeSigningSessions[sessionId]? with
          | none | some session =>
              rw [hsession] at h
              obtain ⟨rfl, rfl⟩ := Prod.mk.inj (Exec.ret.inj h)
              rfl
      | gotSignatureSharesFromDevice sessionId deviceId shares =>
          simp only [change, gotSignatureShares, hactive] at h ⊢
          cases hsession : p.activeSigningSessions[sessionId]? with
          | none | some session =>
              rw [hsession] at h
              obtain ⟨rfl, rfl⟩ := Prod.mk.inj (Exec.ret.inj h)
              rfl
      | closeSignSession sessionId finished =>
          have hclose : p.closeSignSession sessionId finished = .ret (changed, p') := h
          obtain ⟨hmem, rfl, rfl⟩ | ⟨hmem, rfl, session, nonceCache, hsession, hcache, rfl⟩ :=
            closeSignSession_eq hclose
          · exact if_neg hmem
          · have hcache' : consumeNonces session.sentReqToDevice
                session.init.groupRequest.nSignatures session.init.nonces.toList
                (p.withoutRestoration restorationId).nonceCache = .ret nonceCache := hcache
            have hmem' : sessionId ∈
                (p.withoutRestoration restorationId).activeSignSessionOrder := hmem
            rw [change, closeSignSession, if_pos hmem', hactive, hsession, Exec.expect_some,
              Exec.ret_bind, hcache', Exec.ret_bind]
            rfl
  | restoration m =>
      cases m with
      | newRestoration other | newRestoration2 other =>
          have hne := hother htied
          obtain ⟨rfl, rfl⟩ := Prod.mk.inj (Exec.ret.inj h)
          simp only [change]
          congr 2
          refine Persistent.ext rfl rfl rfl rfl rfl rfl ?_ rfl
          refine Std.ExtTreeMap.ext_getElem? fun {id} => ?_
          simp only [withoutRestoration, newRestoration2, BTreeMap.getElem?_erase,
            BTreeMap.getElem?_insert]
          grind
      | restorationProgress other deviceId shareImage ref =>
          have hne := hother htied
          have hlegacy : (p.withoutRestoration restorationId).legacyHeldShare other shareImage ref =
              p.legacyHeldShare other shareImage ref := by
            simp only [legacyHeldShare, getElem?_withoutRestoration hne]
          rw [change, hlegacy]
          exact hprogress hne h
      | restorationProgress2 other => exact hprogress (hother htied) h
      | deleteRestoration other =>
          have hne := hother htied
          obtain ⟨rfl, rfl⟩ := Prod.mk.inj (Exec.ret.inj h)
          simp only [change, deleteRestoration]
          congr 2
          · rw [Bool.eq_iff_iff, ← Std.ExtTreeMap.mem_iff_contains,
              ← Std.ExtTreeMap.mem_iff_contains, withoutRestoration, BTreeMap.mem_erase]
            exact and_iff_right hne
          · refine Persistent.ext rfl rfl rfl rfl rfl rfl ?_ rfl
            refine Std.ExtTreeMap.ext_getElem? fun {id} => ?_
            simp only [withoutRestoration, BTreeMap.getElem?_erase]
            grind
      | deleteRestorationShare other deviceId shareImage =>
          have hne := hother htied
          simp only [change, deleteRestorationShare] at h ⊢
          rw [getElem?_withoutRestoration hne]
          cases hget : p.restorations[other]? with
          | none =>
              simp only [hget] at h ⊢
              exact fail_withoutRestoration h
          | some state =>
              simp only [hget] at h ⊢
              cases hremove : state.accessStructure.removeShare L deviceId shareImage
                  state.fingerprint with
              | none =>
                  simp only [hremove] at h ⊢
                  obtain ⟨rfl, rfl⟩ := Prod.mk.inj (Exec.ret.inj h)
                  rfl
              | some a =>
                  simp only [hremove] at h ⊢
                  obtain ⟨rfl, rfl⟩ := Prod.mk.inj (Exec.ret.inj h)
                  rw [withoutRestoration_setRestoration hne]
      | deviceNeedsConsolidation pending =>
          obtain ⟨rfl, rfl⟩ := Prod.mk.inj (Exec.ret.inj h)
          rfl
      | deviceFinishedConsolidation pending =>
          have hsame : (p.withoutRestoration restorationId).pendingPhysicalConsolidations =
              p.pendingPhysicalConsolidations := rfl
          simp only [change, deviceFinishedConsolidation, hsame] at h ⊢
          split
          · rename_i hpending
            rw [if_pos hpending] at h
            obtain ⟨rfl, rfl⟩ := Prod.mk.inj (Exec.ret.inj h)
            rfl
          · rename_i hpending
            rw [if_neg hpending] at h
            exact fail_withoutRestoration h

end Persistent

end Frostsnap.Coordinator
