import Frostsnap.Coordinator.State

/-!
# The mutations of the coordinator

Everything of the coordinator that outlives a restart changes by mutations. This module embeds
`apply_mutation` and `apply_mutation_restoration`, with the functions that say what a mutation is
tied to. A mutation that changes nothing gives `none`; one that does gives the mutation to
remember, which for a mutation of an older version is the one it stands for.

`Persistent` has the fields of `FrostCoordinator` that mutations change. The one other field that
a mutation touches, what the coordinator waits for devices to consolidate, is in
`FrostCoordinator.applyMutation`.

## Main results

* `Persistent.change_false`: a mutation that says that it changed nothing changed nothing, unless
  it is about nonces.
-/

namespace Frostsnap

namespace PendingConsolidation

instance : Ord PendingConsolidation where
  compare := compareLex (compareOn PendingConsolidation.deviceId)
    (compareLex (compareOn PendingConsolidation.accessStructureRef)
      (compareOn PendingConsolidation.shareIndex))

instance : Std.TransOrd PendingConsolidation :=
  inferInstanceAs (Std.TransCmp (compareLex (compareOn PendingConsolidation.deviceId)
    (compareLex (compareOn PendingConsolidation.accessStructureRef)
      (compareOn PendingConsolidation.shareIndex))))

instance : Std.LawfulEqOrd PendingConsolidation where
  eq_of_compare {a b} h := by
    obtain ⟨deviceId, ref, index⟩ := a
    obtain ⟨deviceId', ref', index'⟩ := b
    have hlex : (compare deviceId deviceId').then
        ((compare ref ref').then (compare index index')) = .eq := h
    rw [Ordering.then_eq_eq, Ordering.then_eq_eq, Std.compare_eq_iff_eq, Std.compare_eq_iff_eq,
      Std.compare_eq_iff_eq] at hlex
    rw [hlex.1, hlex.2.1, hlex.2.2]

end PendingConsolidation

namespace Coordinator

/-- Changes of the keys. -/
inductive KeyMutation where
  | newKey (keyName : String) (purpose : KeyPurpose) (completeKey : CompleteKey)
  | newAccessStructure (sharedKey : Xpub SharedKey) (kind : AccessStructureKind)
  | newShare (accessStructureRef : AccessStructureRef) (deviceId : DeviceId)
      (shareIndex : ShareIndex)
  | deleteKey (keyId : KeyId)
  | deleteShare (accessStructureRef : AccessStructureRef) (deviceId : DeviceId)

/-- Changes of the nonces and of the signing sessions. -/
inductive SigningMutation (L : FrostLib) where
  | newNonces (deviceId : DeviceId) (nonceSegment : NonceSegment)
  | newSigningSession (session : ActiveSignSession L)
  | sentSignReq (sessionId : SignSessionId) (deviceId : DeviceId)
  | gotSignatureSharesFromDevice (sessionId : SignSessionId) (deviceId : DeviceId)
      (signatureShares : List SignatureShare)
  | closeSignSession (sessionId : SignSessionId) (finished : Option (List EncodedSignature))
  | forgetFinishedSignSession (sessionId : SignSessionId)

/-- Changes of the restorations. -/
inductive RestorationMutation where
  | newRestoration (restorationId : RestorationId) (keyName : String) (threshold : ℕ)
      (keyPurpose : KeyPurpose)
  | restorationProgress (restorationId : RestorationId) (deviceId : DeviceId)
      (shareImage : ShareImage) (accessStructureRef : Option AccessStructureRef)
  | deleteRestorationShare (restorationId : RestorationId) (deviceId : DeviceId)
      (shareImage : ShareImage)
  /-- Can be used to cancel a restoration or indicate its data can be purged after a restoration
  is finished. -/
  | deleteRestoration (restorationId : RestorationId)
  /-- A device was restored with a physical backup: the next time it connects we need to
  consolidate the physical backup. -/
  | deviceNeedsConsolidation (pending : PendingConsolidation)
  | deviceFinishedConsolidation (pending : PendingConsolidation)
  | newRestoration2 (restorationId : RestorationId) (keyName : String)
      (startingThreshold : Option ℕ) (keyPurpose : KeyPurpose)
  | restorationProgress2 (restorationId : RestorationId) (deviceId : DeviceId)
      (heldShare : HeldShare2)
  deriving DecidableEq

/-- Mutations to the coordinator state. -/
inductive Mutation (L : FrostLib) where
  | keygen (m : KeyMutation)
  | signing (m : SigningMutation L)
  | restoration (m : RestorationMutation)

variable (L : FrostLib)

/-- What of the coordinator is kept in its database. -/
@[ext]
structure Persistent where
  keys : BTreeMap KeyId CoordFrostKey
  keyOrder : List KeyId
  nonceCache : NonceCache
  activeSigningSessions : BTreeMap SignSessionId (ActiveSignSession L)
  activeSignSessionOrder : List SignSessionId
  finishedSigningSessions : BTreeMap SignSessionId (FinishedSignSession L)
  restorations : BTreeMap RestorationId RestorationState
  /-- This is where we remember consolidations we need to do from restorations we've finished. -/
  pendingPhysicalConsolidations : BTreeSet PendingConsolidation

namespace Persistent

/-- Nothing. -/
def empty : Persistent L where
  keys := ∅
  keyOrder := []
  nonceCache := { byDevice := ∅ }
  activeSigningSessions := ∅
  activeSignSessionOrder := []
  finishedSigningSessions := ∅
  restorations := ∅
  pendingPhysicalConsolidations := ∅

variable {L}

/-- `get_frost_key`. -/
def getFrostKey (p : Persistent L) (keyId : KeyId) : Option CoordFrostKey := p.keys[keyId]?

/-- `get_access_structure`. -/
def getAccessStructure (p : Persistent L) (ref : AccessStructureRef) :
    Option CoordAccessStructure :=
  p.keys[ref.keyId]?.bind fun key => key.completeKey.accessStructures[ref.accessStructureId]?

/-- The key of a session, active or finished. -/
def sessionKeyId (p : Persistent L) (sessionId : SignSessionId) : Option KeyId :=
  match p.activeSigningSessions[sessionId]? with
  | some active => some active.keyId
  | none => p.finishedSigningSessions[sessionId]?.map FinishedSignSession.keyId

/-! ### Keys -/

/-- `ensure_key`: a key that is there already stays as it is. -/
def ensureKey (p : Persistent L) (completeKey : CompleteKey) (keyName : String)
    (purpose : KeyPurpose) : Persistent L :=
  let keyId := L.keyIdOfMasterAppkey completeKey.masterAppkey
  if keyId ∈ p.keys then p
  else
    { p with
      keys := p.keys.insert keyId
        { keyId := keyId, completeKey := completeKey, keyName := keyName, purpose := purpose }
      keyOrder := p.keyOrder ++ [keyId] }

/-- Replace an access structure of a key. -/
def setAccessStructure (p : Persistent L) (key : CoordFrostKey) (keyId : KeyId)
    (id : AccessStructureId) (a : CoordAccessStructure) : Persistent L :=
  { p with
    keys := p.keys.insert keyId
      { key with
        completeKey :=
          { key.completeKey with
            accessStructures := key.completeKey.accessStructures.insert id a } } }

variable [Build]

/-- `fail!`: an error that ends a debug build, and is ignored in a release build. -/
def fail (p : Persistent L) (msg : String) : Exec (Bool × Persistent L) := do
  Exec.debugAssert False msg
  return (false, p)

/-- Change the access structure that a mutation is for; it is an error when it is not there. -/
def withAccessStructure (p : Persistent L) (ref : AccessStructureRef)
    (noAccessStructure noKey : String) (f : CoordAccessStructure → Bool × CoordAccessStructure) :
    Exec (Bool × Persistent L) :=
  match p.keys[ref.keyId]? with
  | none => p.fail noKey
  | some key =>
      match key.completeKey.accessStructures[ref.accessStructureId]? with
      | none => p.fail noAccessStructure
      | some a =>
          .ret ((f a).1, p.setAccessStructure key ref.keyId ref.accessStructureId (f a).2)

/-- `NewAccessStructure`. -/
def newAccessStructure (p : Persistent L) (sharedKey : Xpub SharedKey)
    (kind : AccessStructureKind) : Exec (Bool × Persistent L) :=
  let id := L.accessStructureIdOfAppPoly sharedKey.key.pointPolynomial
  let keyId := L.keyIdOfMasterAppkey sharedKey.masterAppkey
  match p.keys[keyId]? with
  | none => p.fail "access structure added to non-existent key"
  | some key =>
      if id ∈ key.completeKey.accessStructures then .ret (false, p)
      else
        .ret (true, p.setAccessStructure key keyId id
          { appSharedKey := sharedKey, deviceToShareIndex := ∅, kind := kind })

/-- `NewShare`. -/
def newShare (p : Persistent L) (ref : AccessStructureRef) (deviceId : DeviceId)
    (shareIndex : ShareIndex) : Exec (Bool × Persistent L) :=
  p.withAccessStructure ref "share added to non-existent access structure"
    "share added to non-existent key" fun a =>
      (decide (a.deviceToShareIndex[deviceId]? ≠ some shareIndex),
        { a with deviceToShareIndex := a.deviceToShareIndex.insert deviceId shareIndex })

/-- `DeleteShare`. -/
def deleteShare (p : Persistent L) (ref : AccessStructureRef) (deviceId : DeviceId) :
    Exec (Bool × Persistent L) :=
  p.withAccessStructure ref "share deleted from non-existent access structure"
    "share deleted from non-existent key" fun a =>
      (a.deviceToShareIndex.contains deviceId,
        { a with deviceToShareIndex := a.deviceToShareIndex.erase deviceId })

/-! ### Signing sessions -/

/-- `NewNonces`. -/
def newNonces (p : Persistent L) (deviceId : DeviceId) (nonceSegment : NonceSegment) :
    Exec (Bool × Persistent L) := do
  let (extended, nonceCache) ← p.nonceCache.extendSegment deviceId nonceSegment
  let p : Persistent L := { p with nonceCache := nonceCache }
  match extended with
  | .ok changed => return (changed, p)
  | .error _ => p.fail "failed to extend nonce segment"

omit [Build] in
/-- `NewSigningSession`. -/
def newSigningSession (p : Persistent L) (session : ActiveSignSession L) : Persistent L :=
  { p with
    activeSigningSessions := p.activeSigningSessions.insert session.sessionId session
    activeSignSessionOrder := p.activeSignSessionOrder ++ [session.sessionId] }

omit [Build] in
/-- `SentSignReq`. -/
def sentSignReq (p : Persistent L) (sessionId : SignSessionId) (deviceId : DeviceId) :
    Bool × Persistent L :=
  match p.activeSigningSessions[sessionId]? with
  | none => (false, p)
  | some session =>
      (!session.sentReqToDevice.contains deviceId,
        { p with
          activeSigningSessions := p.activeSigningSessions.insert sessionId
            { session with sentReqToDevice := session.sentReqToDevice.insert deviceId } })

omit [Build] in
/-- Give each signature the share of a device. -/
def addShares (deviceId : DeviceId) :
    List (SignSessionProgress L) → List SignatureShare → List (SignSessionProgress L)
  | progress :: rest, share :: shares =>
      { progress with signatureShares := progress.signatureShares.insert deviceId share } ::
        addShares deviceId rest shares
  | progress, _ => progress

omit [Build] in
/-- `GotSignatureSharesFromDevice`. -/
def gotSignatureShares (p : Persistent L) (sessionId : SignSessionId) (deviceId : DeviceId)
    (signatureShares : List SignatureShare) : Persistent L :=
  match p.activeSigningSessions[sessionId]? with
  | none => p
  | some session =>
      { p with
        activeSigningSessions := p.activeSigningSessions.insert sessionId
          { session with progress := addShares deviceId session.progress signatureShares } }

/-- The loop that consumes the nonces of a session that is closed: of each device that was sent
its request. -/
def consumeNonces (sentReqToDevice : BTreeSet DeviceId) (nSigs : ℕ) :
    List (DeviceId × CoordNonceStreamState) → NonceCache → Exec NonceCache
  | [], cache => .ret cache
  | (deviceId, nonceSegment) :: rest, cache =>
      if sentReqToDevice.contains deviceId then do
        let consumeTo := nonceSegment.index + asU32 nSigs
        Exec.assert (consumeTo ≤ u32Max) "no overflow"
        let (cache, _) ← cache.consume deviceId nonceSegment.streamId consumeTo
        consumeNonces sentReqToDevice nSigs rest cache
      else consumeNonces sentReqToDevice nSigs rest cache

/-- `CloseSignSession`. -/
def closeSignSession (p : Persistent L) (sessionId : SignSessionId)
    (finished : Option (List EncodedSignature)) : Exec (Bool × Persistent L) :=
  if sessionId ∈ p.activeSignSessionOrder then do
    let session ← Exec.expect p.activeSigningSessions[sessionId]? "it existed in the order"
    let nonceCache ← consumeNonces session.sentReqToDevice session.init.groupRequest.nSignatures
      session.init.nonces.toList p.nonceCache
    let finishedSession (signatures : List EncodedSignature) : FinishedSignSession L :=
      { init := session.init, signatures := signatures, keyId := session.keyId }
    return (true,
      { p with
        activeSignSessionOrder := p.activeSignSessionOrder.erase sessionId
        activeSigningSessions := p.activeSigningSessions.erase sessionId
        nonceCache := nonceCache
        finishedSigningSessions := finished.elim p.finishedSigningSessions fun signatures =>
          p.finishedSigningSessions.insert sessionId (finishedSession signatures) })
  else .ret (false, p)

/-- The loop that closes the sessions of a key that is deleted. -/
def closeSignSessions : List SignSessionId → Persistent L → Exec (Persistent L)
  | [], p => .ret p
  | sessionId :: rest, p => do
      let (_, p) ← p.closeSignSession sessionId none
      closeSignSessions rest p

omit [Build] in
/-- The active sessions of a key. -/
def sessionsOfKey (p : Persistent L) (keyId : KeyId) : List SignSessionId :=
  (p.activeSigningSessions.toList.filter fun (_, session) => session.keyId == keyId).map Prod.fst

/-- `DeleteKey`. -/
def deleteKey (p : Persistent L) (keyId : KeyId) : Exec (Bool × Persistent L) :=
  if keyId ∈ p.keys then do
    let p : Persistent L :=
      { p with
        keys := p.keys.erase keyId
        keyOrder := p.keyOrder.filter (· ≠ keyId)
        pendingPhysicalConsolidations := p.pendingPhysicalConsolidations.filter
          fun consolidation => consolidation.accessStructureRef.keyId != keyId }
    let p ← closeSignSessions (p.sessionsOfKey keyId) p
    return (true, p)
  else .ret (false, p)

/-! ### Restorations -/

omit [Build] in
/-- `NewRestoration2`. -/
def newRestoration2 (p : Persistent L) (fingerprint : Fingerprint) (restorationId : RestorationId)
    (keyName : String) (startingThreshold : Option ℕ) (keyPurpose : KeyPurpose) : Persistent L :=
  { p with
    restorations := p.restorations.insert restorationId
      { restorationId := restorationId
        keyName := keyName
        accessStructure :=
          { startingThreshold := startingThreshold, heldShares := [], sharedKey := none }
        keyPurpose := keyPurpose
        fingerprint := fingerprint } }

omit [Build] in
/-- Replace the access structure of a restoration. -/
def setRestoration (p : Persistent L) (state : RestorationState)
    (a : RecoveringAccessStructure) (restorationId : RestorationId) : Persistent L :=
  { p with
    restorations := p.restorations.insert restorationId { state with accessStructure := a } }

omit [Build] in
/-- Two access structures, when both are known, are not the same. -/
def conflict (new existing : Option AccessStructureRef) : Bool :=
  match new, existing with
  | some new, some existing => decide (existing ≠ new)
  | _, _ => false

/-- `RestorationProgress2`. -/
def restorationProgress2 (p : Persistent L) (fingerprint : Fingerprint)
    (restorationId : RestorationId) (deviceId : DeviceId) (heldShare : HeldShare2) :
    Exec (Bool × Persistent L) :=
  match p.restorations[restorationId]? with
  | none => p.fail "restoration id didn't exist"
  | some state =>
      if state.accessStructure.hasGotShare deviceId heldShare.shareImage then .ret (false, p)
      else if conflict heldShare.accessStructureRef
          (state.accessStructure.accessStructureRef L) then
        p.fail "access_structure_ref didn't match"
      else
        .ret (true, p.setRestoration state
          (state.accessStructure.addShare L { heldBy := deviceId, heldShare := heldShare }
            fingerprint) restorationId)

omit [Build] in
/-- `DeleteRestoration`. -/
def deleteRestoration (p : Persistent L) (restorationId : RestorationId) :
    Bool × Persistent L :=
  (p.restorations.contains restorationId,
    { p with restorations := p.restorations.erase restorationId })

/-- `DeleteRestorationShare`. -/
def deleteRestorationShare (p : Persistent L) (restorationId : RestorationId)
    (deviceId : DeviceId) (shareImage : ShareImage) : Exec (Bool × Persistent L) :=
  match p.restorations[restorationId]? with
  | none => p.fail "restoration id didn't exist"
  | some state =>
      match state.accessStructure.removeShare L deviceId shareImage state.fingerprint with
      | none => .ret (false, p)
      | some a => .ret (true, p.setRestoration state a restorationId)

omit [Build] in
/-- `DeviceNeedsConsolidation`. -/
def deviceNeedsConsolidation (p : Persistent L) (pending : PendingConsolidation) :
    Bool × Persistent L :=
  (!p.pendingPhysicalConsolidations.contains pending,
    { p with
      pendingPhysicalConsolidations := p.pendingPhysicalConsolidations.insert pending })

/-- `DeviceFinishedConsolidation`. -/
def deviceFinishedConsolidation (p : Persistent L) (pending : PendingConsolidation) :
    Exec (Bool × Persistent L) :=
  if p.pendingPhysicalConsolidations.contains pending then
    .ret (true,
      { p with
        pendingPhysicalConsolidations := p.pendingPhysicalConsolidations.erase pending })
  else p.fail "pending physical restoration did not exist"

/-! ### The mutations -/

omit [Build] in
/-- The share that a mutation of an older version stands for. -/
def legacyHeldShare (p : Persistent L) (restorationId : RestorationId) (shareImage : ShareImage)
    (accessStructureRef : Option AccessStructureRef) : HeldShare2 where
  accessStructureRef := accessStructureRef
  shareImage := shareImage
  threshold := none
  keyName := p.restorations[restorationId]?.map RestorationState.keyName
  purpose := p.restorations[restorationId]?.map RestorationState.keyPurpose
  needsConsolidation := accessStructureRef.isNone

omit [Build] in
/-- The mutation that a mutation is recorded as. -/
def reduced (p : Persistent L) : Mutation L → Mutation L
  | .restoration (.newRestoration restorationId keyName threshold keyPurpose) =>
      .restoration (.newRestoration2 restorationId keyName (some threshold) keyPurpose)
  | .restoration (.restorationProgress restorationId deviceId shareImage ref) =>
      .restoration (.restorationProgress2 restorationId deviceId
        (p.legacyHeldShare restorationId shareImage ref))
  | m => m

/-- What a mutation that is not of an older version does, and whether it changed anything. -/
def change (fingerprint : Fingerprint) (p : Persistent L) : Mutation L → Exec (Bool × Persistent L)
  | .keygen (.newKey keyName purpose completeKey) =>
      .ret (true, p.ensureKey completeKey keyName purpose)
  | .keygen (.newAccessStructure sharedKey kind) => p.newAccessStructure sharedKey kind
  | .keygen (.newShare ref deviceId shareIndex) => p.newShare ref deviceId shareIndex
  | .keygen (.deleteShare ref deviceId) => p.deleteShare ref deviceId
  | .keygen (.deleteKey keyId) => p.deleteKey keyId
  | .signing (.newNonces deviceId nonceSegment) => p.newNonces deviceId nonceSegment
  | .signing (.newSigningSession session) => .ret (true, p.newSigningSession session)
  | .signing (.gotSignatureSharesFromDevice sessionId deviceId signatureShares) =>
      .ret (true, p.gotSignatureShares sessionId deviceId signatureShares)
  | .signing (.sentSignReq sessionId deviceId) => .ret (p.sentSignReq sessionId deviceId)
  | .signing (.closeSignSession sessionId finished) => p.closeSignSession sessionId finished
  | .signing (.forgetFinishedSignSession sessionId) =>
      .ret (true,
        { p with finishedSigningSessions := p.finishedSigningSessions.erase sessionId })
  | .restoration (.newRestoration2 restorationId keyName startingThreshold keyPurpose) =>
      .ret (true, p.newRestoration2 fingerprint restorationId keyName startingThreshold keyPurpose)
  | .restoration (.restorationProgress2 restorationId deviceId heldShare) =>
      p.restorationProgress2 fingerprint restorationId deviceId heldShare
  | .restoration (.deleteRestoration restorationId) => .ret (p.deleteRestoration restorationId)
  | .restoration (.deviceNeedsConsolidation pending) => .ret (p.deviceNeedsConsolidation pending)
  | .restoration (.deviceFinishedConsolidation pending) => p.deviceFinishedConsolidation pending
  | .restoration (.deleteRestorationShare restorationId deviceId shareImage) =>
      p.deleteRestorationShare restorationId deviceId shareImage
  -- the mutations of an older version are reduced first
  | .restoration (.newRestoration restorationId keyName threshold keyPurpose) =>
      .ret (true,
        p.newRestoration2 fingerprint restorationId keyName (some threshold) keyPurpose)
  | .restoration (.restorationProgress restorationId deviceId shareImage ref) =>
      p.restorationProgress2 fingerprint restorationId deviceId
        (p.legacyHeldShare restorationId shareImage ref)

/-- `apply_mutation`: the mutation that was applied, or `none` when it changed nothing. -/
def applyMutation (fingerprint : Fingerprint) (p : Persistent L) (m : Mutation L) :
    Exec (Option (Mutation L) × Persistent L) := do
  let (changed, p') ← p.change fingerprint m
  return (if changed then some (p.reduced m) else none, p')

/-! ### Mutations that change nothing -/

omit [Build] in
/-- Setting an access structure to what it is does nothing. -/
theorem setAccessStructure_self {p : Persistent L} {key : CoordFrostKey} {keyId : KeyId}
    {id : AccessStructureId} {a : CoordAccessStructure} (hkey : p.keys[keyId]? = some key)
    (ha : key.completeKey.accessStructures[id]? = some a) :
    p.setAccessStructure key keyId id a = p := by
  simp only [setAccessStructure, BTreeMap.insert_of_getElem? ha, BTreeMap.insert_of_getElem? hkey]

theorem fail_eq {p p' : Persistent L} {msg : String} {changed : Bool}
    (h : p.fail msg = .ret (changed, p')) : changed = false ∧ p' = p := by
  obtain ⟨u, -, h⟩ := Exec.bind_eq_ret_iff.1 h
  obtain ⟨rfl, rfl⟩ : false = changed ∧ p = p' := by simpa using h
  exact ⟨rfl, rfl⟩

/-- A change of an access structure that leaves it as it is when it says so. -/
theorem withAccessStructure_false {p p' : Persistent L} {ref : AccessStructureRef}
    {noAccessStructure noKey : String} {f : CoordAccessStructure → Bool × CoordAccessStructure}
    (h : p.withAccessStructure ref noAccessStructure noKey f = .ret (false, p'))
    (hf : ∀ a, (f a).1 = false → (f a).2 = a) : p' = p := by
  unfold withAccessStructure at h
  split at h
  · exact (fail_eq h).2
  · rename_i key hkey
    split at h
    · exact (fail_eq h).2
    · rename_i a ha
      obtain ⟨hchanged, rfl⟩ := Prod.mk.inj (Exec.ret.inj h)
      rw [hf a hchanged, setAccessStructure_self hkey ha]

theorem newNonces_false {p p' : Persistent L} {deviceId : DeviceId} {nonceSegment : NonceSegment}
    (h : p.newNonces deviceId nonceSegment = .ret (false, p')) :
    p' = { p with
      nonceCache := p.nonceCache.setSegment deviceId nonceSegment.streamId
        (p.nonceCache.ownSegment deviceId nonceSegment.streamId) } := by
  obtain ⟨⟨r, cache⟩, hextend, h⟩ := Exec.bind_eq_ret_iff.1 h
  obtain ⟨e, -, rfl, rfl⟩ | ⟨new, -, rfl, rfl⟩ := NonceCache.extendSegment_cases hextend
  · exact (fail_eq h).2
  · obtain ⟨hchanged, rfl⟩ := Prod.mk.inj (Exec.ret.inj h)
    rw [of_decide_eq_false hchanged |> not_not.1]

theorem restorationProgress2_false {fingerprint : Fingerprint} {p p' : Persistent L}
    {restorationId : RestorationId} {deviceId : DeviceId} {heldShare : HeldShare2}
    (h : p.restorationProgress2 fingerprint restorationId deviceId heldShare =
      .ret (false, p')) : p' = p := by
  unfold restorationProgress2 at h
  split at h
  · exact (fail_eq h).2
  · split at h
    · exact (Prod.mk.inj (Exec.ret.inj h)).2.symm
    · split at h
      · exact (fail_eq h).2
      · cases (Prod.mk.inj (Exec.ret.inj h)).1

omit [Build] in
theorem sentSignReq_false {p p' : Persistent L} {sessionId : SignSessionId} {deviceId : DeviceId}
    (h : p.sentSignReq sessionId deviceId = (false, p')) : p' = p := by
  unfold sentSignReq at h
  split at h
  · exact (Prod.mk.inj h).2.symm
  · rename_i session hsession
    obtain ⟨hsent, rfl⟩ := Prod.mk.inj h
    have hmem : deviceId ∈ session.sentReqToDevice := by simpa using hsent
    rw [BTreeSet.insert_of_mem hmem, BTreeMap.insert_of_getElem? hsession]

/-- A mutation that says that it changed nothing changed nothing, unless it is about nonces. -/
theorem change_false {fingerprint : Fingerprint} {p p' : Persistent L} {m : Mutation L}
    (h : p.change fingerprint m = .ret (false, p')) :
    p' = p ∨ ∃ deviceId nonceSegment, m = .signing (.newNonces deviceId nonceSegment) := by
  cases m with
  | keygen m =>
      refine .inl ?_
      cases m with
      | newKey keyName purpose completeKey =>
          obtain ⟨hchanged, -⟩ := Prod.mk.inj (Exec.ret.inj h)
          cases hchanged
      | newAccessStructure sharedKey kind =>
          simp only [change, newAccessStructure] at h
          split at h
          · exact (fail_eq h).2
          · split at h
            · exact (Prod.mk.inj (Exec.ret.inj h)).2.symm
            · cases (Prod.mk.inj (Exec.ret.inj h)).1
      | newShare ref deviceId shareIndex =>
          refine withAccessStructure_false h fun a ha => ?_
          have hget : a.deviceToShareIndex[deviceId]? = some shareIndex := by
            simpa using of_decide_eq_false ha
          rw [BTreeMap.insert_of_getElem? hget]
      | deleteShare ref deviceId =>
          refine withAccessStructure_false h fun a ha => ?_
          have hnot : a.deviceToShareIndex[deviceId]? = none :=
            Std.ExtTreeMap.getElem?_eq_none_of_contains_eq_false ha
          rw [BTreeMap.erase_of_getElem? hnot]
      | deleteKey keyId =>
          simp only [change, deleteKey] at h
          split at h
          · obtain ⟨q, -, h⟩ := Exec.bind_eq_ret_iff.1 h
            cases (Prod.mk.inj (Exec.ret.inj h)).1
          · exact (Prod.mk.inj (Exec.ret.inj h)).2.symm
  | signing m =>
      cases m with
      | newNonces deviceId nonceSegment => exact .inr ⟨_, _, rfl⟩
      | newSigningSession session => cases (Prod.mk.inj (Exec.ret.inj h)).1
      | sentSignReq sessionId deviceId => exact .inl (sentSignReq_false (Exec.ret.inj h))
      | gotSignatureSharesFromDevice sessionId deviceId shares =>
          cases (Prod.mk.inj (Exec.ret.inj h)).1
      | closeSignSession sessionId finished =>
          simp only [change, closeSignSession] at h
          split at h
          · obtain ⟨session, -, h⟩ := Exec.bind_eq_ret_iff.1 h
            obtain ⟨cache, -, h⟩ := Exec.bind_eq_ret_iff.1 h
            cases (Prod.mk.inj (Exec.ret.inj h)).1
          · exact .inl (Prod.mk.inj (Exec.ret.inj h)).2.symm
      | forgetFinishedSignSession sessionId => cases (Prod.mk.inj (Exec.ret.inj h)).1
  | restoration m =>
      refine .inl ?_
      cases m with
      | newRestoration => cases (Prod.mk.inj (Exec.ret.inj h)).1
      | newRestoration2 => cases (Prod.mk.inj (Exec.ret.inj h)).1
      | restorationProgress => exact restorationProgress2_false h
      | restorationProgress2 => exact restorationProgress2_false h
      | deleteRestorationShare restorationId deviceId shareImage =>
          simp only [change, deleteRestorationShare] at h
          split at h
          · exact (fail_eq h).2
          · split at h
            · exact (Prod.mk.inj (Exec.ret.inj h)).2.symm
            · cases (Prod.mk.inj (Exec.ret.inj h)).1
      | deleteRestoration restorationId =>
          obtain ⟨hchanged, rfl⟩ := Prod.mk.inj (Exec.ret.inj h)
          have hnot : p.restorations[restorationId]? = none :=
            Std.ExtTreeMap.getElem?_eq_none_of_contains_eq_false hchanged
          rw [BTreeMap.erase_of_getElem? hnot]
      | deviceNeedsConsolidation pending =>
          obtain ⟨hchanged, rfl⟩ := Prod.mk.inj (Exec.ret.inj h)
          have hmem : pending ∈ p.pendingPhysicalConsolidations := by simpa using hchanged
          rw [BTreeSet.insert_of_mem hmem]
      | deviceFinishedConsolidation pending =>
          simp only [change, deviceFinishedConsolidation] at h
          split at h
          · cases (Prod.mk.inj (Exec.ret.inj h)).1
          · exact (fail_eq h).2

end Persistent

/-! ### What rows are tied to -/

/-- `RestorationMutation::tied_to_key`. -/
def RestorationMutation.tiedToKey : RestorationMutation → Option KeyId
  | .deviceFinishedConsolidation pending | .deviceNeedsConsolidation pending =>
      some pending.accessStructureRef.keyId
  | _ => none

/-- `RestorationMutation::tied_to_restoration`. -/
def RestorationMutation.tiedToRestoration : RestorationMutation → Option RestorationId
  | .newRestoration restorationId _ _ _ | .newRestoration2 restorationId _ _ _
  | .restorationProgress restorationId _ _ _ | .restorationProgress2 restorationId _ _
  | .deleteRestoration restorationId | .deleteRestorationShare restorationId _ _ =>
      some restorationId
  | _ => none

variable {L}

/-- `SigningMutation::tied_to_key`. -/
def SigningMutation.tiedToKey (p : Persistent L) : SigningMutation L → Option KeyId
  | .newNonces _ _ => none
  | .newSigningSession session => some session.keyId
  | .sentSignReq sessionId _ | .gotSignatureSharesFromDevice sessionId _ _
  | .closeSignSession sessionId _ | .forgetFinishedSignSession sessionId =>
      p.sessionKeyId sessionId

/-- `Mutation::tied_to_key`. -/
def Mutation.tiedToKey (p : Persistent L) : Mutation L → Option KeyId
  | .keygen (.newKey _ _ completeKey) => some (L.keyIdOfMasterAppkey completeKey.masterAppkey)
  | .keygen (.newAccessStructure sharedKey _) =>
      some (L.keyIdOfMasterAppkey sharedKey.masterAppkey)
  | .keygen (.newShare ref _ _) | .keygen (.deleteShare ref _) => some ref.keyId
  | .keygen (.deleteKey keyId) => some keyId
  | .signing inner => inner.tiedToKey p
  | .restoration inner => inner.tiedToKey

/-- `Mutation::tied_to_restoration`. -/
def Mutation.tiedToRestoration : Mutation L → Option RestorationId
  | .restoration inner => inner.tiedToRestoration
  | _ => none

end Coordinator

end Frostsnap
