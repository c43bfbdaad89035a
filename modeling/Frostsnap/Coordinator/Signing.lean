import Frostsnap.Coordinator.FrostCoordinator

/-!
# Keys and signing sessions of the coordinator

The operations of `coordinator.rs` on keys and signing sessions, and what it does with signature
shares. What an operation checks or computes before it changes anything is a function of the
persistent state.
-/

namespace Frostsnap.Coordinator

variable {L : FrostLib}

namespace Persistent

/-- The text of the x coordinate of a point. -/
def displayXonly (p : Point) : String := (p.truncate 256).toHex

/-- The mutations of `mutate_new_key`: the key, unless it is there, its access structure, and the
shares. -/
def newKeyMutations (p : Persistent L) (name : String) (rootSharedKey : SharedKey)
    (deviceToShareIndex : BTreeMap DeviceId ShareIndex) (encryptionKey : SymmetricKey)
    (purpose : KeyPurpose) (rng : L.Rng) : AccessStructureRef × List (Mutation L) :=
  let appSharedKey := (Xpub.fromRootkey rootSharedKey).rootkeyToMasterAppkey L
  let ref : AccessStructureRef :=
    { keyId := L.keyIdOfMasterAppkey appSharedKey.masterAppkey
      accessStructureId := L.accessStructureIdOfAppPoly appSharedKey.key.pointPolynomial }
  let newKey : List (Mutation L) :=
    if ref.keyId ∈ p.keys then []
    else
      [.keygen (.newKey name purpose
        { masterAppkey := appSharedKey.masterAppkey
          encryptedRootkey := L.encryptRootkey encryptionKey rootSharedKey.publicKey rng
          accessStructures := ∅ })]
  (ref, newKey ++ [.keygen (.newAccessStructure appSharedKey .master)] ++
    deviceToShareIndex.toList.map fun (deviceId, shareIndex) =>
      .keygen (.newShare ref deviceId shareIndex))

/-- A device was sent the request of a session, or has answered it. -/
def isInvolved (ref : AccessStructureRef) (deviceId : DeviceId) (session : ActiveSignSession L) :
    Bool :=
  decide (session.accessStructureRef = ref) &&
    (session.sentReqToDevice.contains deviceId || session.hasReceivedFrom deviceId)

/-- `all_used_nonce_streams`: the ids of the nonce streams of all active sessions. -/
def allUsedNonceStreams (p : Persistent L) : BTreeSet NonceStreamId :=
  Std.ExtTreeSet.ofList (p.activeSigningSessions.values.flatMap fun session =>
    session.init.nonces.values.map CoordNonceStreamState.streamId) compare

/-- The nonces of each share index for one signature. -/
def indexedNonces (i : ℕ) :
    List (ShareIndex × NonceSegment) → BTreeMap ShareIndex Binonce →
      Exec (BTreeMap ShareIndex Binonce)
  | [], nonces => .ret nonces
  | (partyIndex, nonceSegment) :: rest, nonces => do
      let nonce ← Exec.expect nonceSegment.nonces[i]? "index out of bounds"
      indexedNonces i rest (nonces.insert partyIndex nonce)

/-- `SignSessionProgress::new`. -/
def newProgress (appSharedKey : Xpub SharedKey) (signItem : L.SignItem)
    (nonces : BTreeMap ShareIndex Binonce) (rng : L.Rng) : SignSessionProgress L where
  signItem := signItem
  signSession := L.randomizedCoordinatorSignSession (L.deriveXonlyKey signItem appSharedKey) nonces
    signItem rng
  signatureShares := ∅
  appSharedKey := appSharedKey

/-- The progress of each signature. -/
def newSessions (appSharedKey : Xpub SharedKey) (noncesByParty : BTreeMap ShareIndex NonceSegment)
    (rng : ℕ → L.Rng) : ℕ → List L.SignItem → Exec (List (SignSessionProgress L))
  | _, [] => .ret []
  | i, signItem :: rest => do
      let nonces ← indexedNonces i noncesByParty.toList ∅
      let sessions ← newSessions appSharedKey noncesByParty rng (i + 1) rest
      return newProgress appSharedKey signItem nonces (rng i) :: sessions

/-- The nonce segment of each share index. -/
def noncesByParty (deviceToShareIndex : BTreeMap DeviceId ShareIndex) :
    List (DeviceId × SigningReqSubSegment Binonce) → BTreeMap ShareIndex NonceSegment →
      Exec (BTreeMap ShareIndex NonceSegment)
  | [], map => .ret map
  | (deviceId, nonceSegment) :: rest, map => do
      let shareIndex ← Exec.expect deviceToShareIndex[deviceId]? "checked already"
      noncesByParty deviceToShareIndex rest (map.insert shareIndex nonceSegment.segment)

/-- The session that `start_sign` starts. -/
def signSession (p : Persistent L) (ref : AccessStructureRef) (signTask : L.SignTask)
    (signingDevices : BTreeSet DeviceId) (rng : ℕ → L.Rng) :
    Exec (Except (StartSignError L) (ActiveSignSession L)) :=
  match p.keys[ref.keyId]? with
  | none => .ret (.error (.unknownKey ref.keyId))
  | some keyData =>
      match keyData.completeKey.accessStructures[ref.accessStructureId]? with
      | none => .ret (.error .noSuchAccessStructure)
      | some accessStructure =>
          match signingDevices.toList.find? fun device =>
              !accessStructure.deviceToShareIndex.contains device with
          | some device => .ret (.error (.deviceNotPartOfKey device))
          | none => do
              let threshold ← accessStructure.threshold
              if signingDevices.size < threshold then
                return .error (.notEnoughDevicesSelected signingDevices.size threshold)
              else
                match L.checkSignTask signTask keyData.completeKey.masterAppkey
                    keyData.purpose with
                | .error e => return .error (.signTask e)
                | .ok signItems =>
                    match p.nonceCache.newSigningSession signingDevices signItems.length
                        p.allUsedNonceStreams with
                    | .error e => return .error (.notEnoughNoncesForDevice e)
                    | .ok noncesByDevice => do
                        let noncesByParty ← noncesByParty accessStructure.deviceToShareIndex
                          noncesByDevice.toList ∅
                        let sessions ← newSessions accessStructure.appSharedKey noncesByParty rng
                          0 signItems
                        return .ok
                          { progress := sessions
                            init :=
                              { nonces := noncesByDevice.map fun _ nonceSegment =>
                                  nonceSegment.coordNonceState
                                groupRequest :=
                                  { parties := .ofList noncesByParty.keys compare
                                    aggNonces := sessions.map fun session =>
                                      L.aggBinonce session.signSession
                                    signTask := signTask
                                    accessStructureId := ref.accessStructureId } }
                            keyId := ref.keyId
                            sentReqToDevice := ∅ }

/-! ### What a session starts with -/

theorem mem_allUsedNonceStreams {p : Persistent L} {streamId : NonceStreamId} :
    streamId ∈ p.allUsedNonceStreams ↔
      ∃ (sessionId : SignSessionId) (session : ActiveSignSession L) (deviceId : DeviceId)
        (nonces : CoordNonceStreamState), p.activeSigningSessions[sessionId]? = some session ∧
        session.init.nonces[deviceId]? = some nonces ∧ nonces.streamId = streamId := by
  simp only [allUsedNonceStreams, Std.ExtTreeSet.mem_ofList, List.contains_iff_mem,
    List.mem_flatMap, List.mem_map, BTreeMap.mem_values]
  constructor
  · rintro ⟨session, ⟨sessionId, hsession⟩, nonces, ⟨deviceId, hnonces⟩, hid⟩
    exact ⟨sessionId, session, deviceId, nonces, hsession, hnonces, hid⟩
  · rintro ⟨sessionId, session, deviceId, nonces, hsession, hnonces, hid⟩
    exact ⟨session, ⟨sessionId, hsession⟩, nonces, ⟨deviceId, hnonces⟩, hid⟩

/-- The sessions of a list of sign items are that of the first one and those of the others. -/
theorem newSessions_cons_eq_ret {appSharedKey : Xpub SharedKey}
    {noncesByParty : BTreeMap ShareIndex NonceSegment} {rng : ℕ → L.Rng} {i : ℕ}
    {signItem : L.SignItem} {rest : List L.SignItem} {sessions : List (SignSessionProgress L)}
    (h : newSessions appSharedKey noncesByParty rng i (signItem :: rest) = .ret sessions) :
    ∃ nonces later, indexedNonces i noncesByParty.toList ∅ = .ret nonces ∧
      newSessions appSharedKey noncesByParty rng (i + 1) rest = .ret later ∧
      sessions = newProgress appSharedKey signItem nonces (rng i) :: later := by
  obtain ⟨nonces, hnonces, h⟩ := Exec.bind_eq_ret_iff.1 h
  obtain ⟨later, hlater, h⟩ := Exec.bind_eq_ret_iff.1 h
  exact ⟨nonces, later, hnonces, hlater, (Exec.ret.inj h).symm⟩

theorem newSessions_eq {appSharedKey : Xpub SharedKey}
    {noncesByParty : BTreeMap ShareIndex NonceSegment} {rng : ℕ → L.Rng} {i : ℕ}
    {signItems : List L.SignItem} {sessions : List (SignSessionProgress L)}
    (h : newSessions appSharedKey noncesByParty rng i signItems = .ret sessions) :
    sessions.length = signItems.length ∧
      ∀ progress ∈ sessions, progress.signatureShares = ∅ := by
  induction signItems generalizing i sessions with
  | nil =>
      obtain rfl := Exec.ret.inj h
      exact ⟨rfl, fun progress hmem => absurd hmem List.not_mem_nil⟩
  | cons signItem rest ih =>
      obtain ⟨nonces, later, -, hlater, rfl⟩ := newSessions_cons_eq_ret h
      obtain ⟨hlength, hshares⟩ := ih hlater
      refine ⟨by rw [List.length_cons, hlength, List.length_cons], fun progress hmem => ?_⟩
      obtain rfl | hmem := List.mem_cons.1 hmem
      · rfl
      · exact hshares progress hmem

/-- What a session that is started is made of, each part from what `start_sign` checks for it. -/
theorem signSession_eq_ret {p : Persistent L} {ref : AccessStructureRef} {signTask : L.SignTask}
    {signingDevices : BTreeSet DeviceId} {rng : ℕ → L.Rng} {session : ActiveSignSession L}
    (h : p.signSession ref signTask signingDevices rng = .ret (.ok session)) :
    ∃ (key : CoordFrostKey) (a : CoordAccessStructure) (signItems : List L.SignItem)
      (noncesByDevice : BTreeMap DeviceId (SigningReqSubSegment Binonce))
      (byParty : BTreeMap ShareIndex NonceSegment) (sessions : List (SignSessionProgress L)),
      p.keys[ref.keyId]? = some key ∧
      key.completeKey.accessStructures[ref.accessStructureId]? = some a ∧
      (∀ deviceId ∈ signingDevices, deviceId ∈ a.deviceToShareIndex) ∧
      L.checkSignTask signTask key.completeKey.masterAppkey key.purpose = .ok signItems ∧
      p.nonceCache.newSigningSession signingDevices signItems.length p.allUsedNonceStreams =
        .ok noncesByDevice ∧
      noncesByParty a.deviceToShareIndex noncesByDevice.toList ∅ = .ret byParty ∧
      newSessions a.appSharedKey byParty rng 0 signItems = .ret sessions ∧
      session =
        { progress := sessions
          init :=
            { nonces := noncesByDevice.map fun _ nonceSegment => nonceSegment.coordNonceState
              groupRequest :=
                { parties := .ofList byParty.keys compare
                  aggNonces := sessions.map fun session => L.aggBinonce session.signSession
                  signTask := signTask
                  accessStructureId := ref.accessStructureId } }
          keyId := ref.keyId
          sentReqToDevice := ∅ } := by
  unfold signSession at h
  split at h
  · simp at h
  · rename_i key hkey
    split at h
    · simp at h
    · rename_i a ha
      split at h
      · simp at h
      · rename_i hdevices
        obtain ⟨threshold, -, h⟩ := Exec.bind_eq_ret_iff.1 h
        split at h
        · simp at h
        · split at h
          · simp at h
          · rename_i signItems hitems
            split at h
            · simp at h
            · rename_i noncesByDevice hnonces
              obtain ⟨byParty, hparties, h⟩ := Exec.bind_eq_ret_iff.1 h
              obtain ⟨sessions, hsessions, hret⟩ := Exec.bind_eq_ret_iff.1 h
              refine ⟨key, a, signItems, noncesByDevice, byParty, sessions, hkey, ha, ?_, hitems,
                hnonces, hparties, hsessions, (Except.ok.inj (Exec.ret.inj hret)).symm⟩
              intro deviceId hmem
              by_contra hmissing
              rw [List.find?_eq_none] at hdevices
              have hcontains := hdevices deviceId (by simpa using hmem)
              rw [Bool.not_eq_true, Bool.not_eq_false'] at hcontains
              exact hmissing (Std.ExtTreeMap.mem_iff_contains.2 hcontains)

/-- A session starts without requests and without shares. For each of its devices, which has a
share of the access structure, it has the first nonces of a stream that no active session uses. -/
theorem signSession_eq_ok {p : Persistent L} {ref : AccessStructureRef} {signTask : L.SignTask}
    {signingDevices : BTreeSet DeviceId} {rng : ℕ → L.Rng} {session : ActiveSignSession L}
    (h : p.signSession ref signTask signingDevices rng = .ret (.ok session)) :
    session.accessStructureRef = ref ∧ session.sentReqToDevice = ∅ ∧
      (∀ deviceId, session.hasReceivedFrom deviceId = false) ∧
      ∃ a, p.getAccessStructure ref = some a ∧
        ∀ (deviceId : DeviceId) (nonces : CoordNonceStreamState),
          session.init.nonces[deviceId]? = some nonces →
          deviceId ∈ a.deviceToShareIndex ∧ ∃ subSegment,
            p.nonceCache.Supplies session.init.groupRequest.nSignatures p.allUsedNonceStreams
              deviceId subSegment ∧ nonces = subSegment.coordNonceState := by
  obtain ⟨key, a, signItems, noncesByDevice, byParty, sessions, hkey, ha, hdevices, -, hnonces, -,
    hsessions, rfl⟩ := signSession_eq_ret h
  obtain ⟨hlength, hshares⟩ := newSessions_eq hsessions
  refine ⟨rfl, rfl, ?_, a, ?_, ?_⟩
  · intro deviceId
    cases sessions with
    | nil => rfl
    | cons progress rest =>
        have hempty := hshares progress List.mem_cons_self
        simp [ActiveSignSession.hasReceivedFrom, hempty]
  · rw [getAccessStructure, hkey, Option.bind_some, ha]
  · intro deviceId nonces hget
    rw [Std.ExtTreeMap.getElem?_map, Option.map_eq_some_iff] at hget
    obtain ⟨subSegment, hsub, rfl⟩ := hget
    obtain ⟨hmem, hsupplies⟩ := NonceCache.newSigningSession_get hnonces hsub
    refine ⟨hdevices deviceId hmem, subSegment, ?_, rfl⟩
    rw [GroupSignReq.nSignatures, List.length_map, hlength]
    exact hsupplies

/-- The loop of `complete_sign_session` that combines the shares of each signature. -/
def combineShares : List (SignSessionProgress L) → Exec (List EncodedSignature)
  | [] => .ret []
  | progress :: rest => do
      let sig := L.combineSignatureShares progress.signSession progress.signatureShares.values
      Exec.assert (progress.verifyFinalSignature sig)
        "we have verified the signature shares so combined should be correct"
      let sigs ← combineShares rest
      return sig :: sigs

/-- A session has a share of every party for each of its signatures. -/
def allFinished (session : ActiveSignSession L) : Bool :=
  session.progress.all fun progress =>
    progress.signatureShares.size == session.init.groupRequest.parties.size

/-- The loop over the signature shares of a device. -/
def checkShares (signerIndex : ShareIndex) :
    List (SignSessionProgress L × SignatureShare) → Except Error Unit
  | [] => .ok ()
  | (progress, signatureShare) :: rest =>
      let xonlyFrostKey := progress.tweakedFrostKey
      if signerIndex ∉ L.parties progress.signSession then
        .error (coordinatorInvalidMessage "SignatureShare"
          "Signer was not a particpant for this session")
      else if L.verifySignatureShare progress.signSession xonlyFrostKey signerIndex
          signatureShare then
        checkShares signerIndex rest
      else
        .error (coordinatorInvalidMessage "SignatureShare"
          ("Invalid signature share under key " ++ displayXonly xonlyFrostKey.publicKey))

/-- What is checked of the signature shares of a device. -/
def checkSignatureShares (p : Persistent L) (sender : DeviceId) (sessionId : SignSessionId)
    (signatureShares : List SignatureShare) : Exec (Except Error Unit) :=
  match p.activeSigningSessions[sessionId]? with
  | none =>
      .ret (.error (coordinatorInvalidMessage "SignatureShare"
        "got signature shares for a signing session we don't have"))
  | some session => do
      let accessStructure ← Exec.expect (p.getAccessStructure session.accessStructureRef)
        "session exists access structure exists"
      match accessStructure.deviceToShareIndex[sender]? with
      | none =>
          return .error (coordinatorInvalidMessage "SignatureShare"
            "got shares from signer who was not part of the access structure")
      | some signerIndex =>
          if signatureShares.length ≠ session.progress.length then
            return .error (coordinatorInvalidMessage "SignatureShare"
              ("signer did not provide the right number of signature shares. Got " ++
                toString signatureShares.length ++ ", expected " ++
                toString session.progress.length))
          else return checkShares signerIndex (session.progress.zip signatureShares)

end Persistent

namespace FrostCoordinator

open Persistent

variable [Build]

/-- `begin_keygen`. -/
def beginKeygen (s : FrostCoordinator L) (request : BeginKeygen) (rng : ℕ → L.Rng) :
    Exec (Except ActionError Begin × FrostCoordinator L) :=
  if request.keygenId ∈ s.pendingKeygens then
    .ret (.error (.stateInconsistent "keygen with that id already in progress"), s)
  else do
    let coordinatorKeypair := L.newKeyPair (rng 0)
    Exec.assert (request.threshold ≤ request.devicesInOrder.length)
      "caller needs to ensure that threshold < devices.len()"
    let receiverKeys ← request.devicesInOrder.mapM (DeviceId.pubkey L)
    let coordinatorPublicKeys := [L.publicKeyOfPair coordinatorKeypair]
    let inputAggregator := L.newInputAggregator request.threshold coordinatorPublicKeys.length
      (asU32 receiverKeys.length)
    match L.genKeygenInput request.threshold coordinatorPublicKeys receiverKeys 0 (rng 1) with
    | .error e => return (.error (.stateInconsistent ("gen_keygen_input failed: " ++ e)), s)
    | .ok (contributer, input) =>
        match L.addInput inputAggregator (.auxContributor 0) input with
        | .error _ => Exec.panic "we just generated the input"
        | .ok inputAggregator =>
            let s := s.insertEntry request.keygenId (.waitingForResponses
              { keygenId := request.keygenId
                inputAggregator := inputAggregator
                devicesInOrder := request.devicesInOrder
                pendingKeyName := request.keyName
                purpose := request.purpose
                contributer := contributer
                myKeypair := coordinatorKeypair })
            return (.ok
              { keygenId := request.keygenId
                devices := request.devicesInOrder
                threshold := request.threshold
                keyName := request.keyName
                purpose := request.purpose
                coordinatorPublicKeys := coordinatorPublicKeys }, s)

/-- `mutate_new_key`. -/
def mutateNewKey (s : FrostCoordinator L) (name : String) (rootSharedKey : SharedKey)
    (deviceToShareIndex : BTreeMap DeviceId ShareIndex) (encryptionKey : SymmetricKey)
    (purpose : KeyPurpose) (rng : L.Rng) : Exec (AccessStructureRef × FrostCoordinator L) := do
  let (ref, mutations) :=
    s.newKeyMutations name rootSharedKey deviceToShareIndex encryptionKey purpose rng
  let s ← s.mutateAll mutations
  return (ref, s)

/-- `finalize_keygen`. -/
def finalizeKeygen (s : FrostCoordinator L) (keygenId : KeygenId) (encryptionKey : SymmetricKey)
    (rng : L.Rng) : Exec (Except ActionError SendFinalizeKeygen × FrostCoordinator L) :=
  let (state, s) := s.takeEntry keygenId
  match state with
  | some (.needsFinalize finalize) => do
      let (ref, s) ← s.mutateNewKey finalize.pendingKeyName finalize.rootSharedKey
        finalize.deviceToShareIndex encryptionKey finalize.purpose rng
      return (.ok
        { devices := finalize.deviceToShareIndex.keys
          accessStructureRef := ref
          keygenId := keygenId }, s)
  | _ => .ret (.error (.stateInconsistent "no such keygen"), s)

/-- `cancel_keygen`. -/
def cancelKeygen (s : FrostCoordinator L) (keygenId : KeygenId) : FrostCoordinator L :=
  { s with pendingKeygens := s.pendingKeygens.erase keygenId }

/-- `clear_tmp_data`. -/
def clearTmpData (s : FrostCoordinator L) : FrostCoordinator L :=
  { s with pendingKeygens := ∅, tmpWaitingConsolidate := ∅, tmpWaitingSave := ∅ }

/-- `delete_key`. -/
def deleteKey (s : FrostCoordinator L) (keyId : KeyId) : Exec (FrostCoordinator L) :=
  if keyId ∈ s.keys then s.mutate (.keygen (.deleteKey keyId)) else .ret s

/-- `delete_share`. -/
def deleteShare (s : FrostCoordinator L) (ref : AccessStructureRef) (deviceId : DeviceId) :
    Exec (Except DeleteShareError Unit × FrostCoordinator L) :=
  if s.activeSigningSessions.values.any (isInvolved ref deviceId) then
    .ret (.error .deviceInActiveSignSession, s)
  else
    match s.getAccessStructure ref with
    | some a =>
        if deviceId ∈ a.deviceToShareIndex then do
          let s ← s.mutate (.keygen (.deleteShare ref deviceId))
          return (.ok (), s)
        else .ret (.ok (), s)
    | none => .ret (.ok (), s)

/-- `start_sign`. -/
def startSign (s : FrostCoordinator L) (ref : AccessStructureRef) (signTask : L.SignTask)
    (signingDevices : BTreeSet DeviceId) (rng : ℕ → L.Rng) :
    Exec (Except (StartSignError L) SignSessionId × FrostCoordinator L) :=
  checked (s.signSession ref signTask signingDevices rng) s fun session => do
    let s ← s.mutate (.signing (.newSigningSession session))
    return (session.sessionId, s)

/-- `request_device_sign`. -/
def requestDeviceSign (s : FrostCoordinator L) (sessionId : SignSessionId) (deviceId : DeviceId)
    (encryptionKey : SymmetricKey) : Exec (RequestDeviceSign L × FrostCoordinator L) := do
  let session ← Exec.expect s.activeSigningSessions[sessionId]? "signing session doesn't exist"
  let noncesForDevice ← Exec.expect session.init.nonces[deviceId]?
    "device must be part of the signing session"
  let key ← Exec.expect s.keys[session.keyId]? "key exists"
  let contrib ← key.completeKey.coordShareDecryptionContrib L
    session.init.groupRequest.accessStructureId deviceId encryptionKey
  let (rootkey, coordShareDecryptionContrib) ← Exec.expect contrib
    "must be able to decrypt rootkey"
  let s ← s.mutate (.signing (.sentSignReq sessionId deviceId))
  return (
    { deviceId := deviceId
      requestSign :=
        { groupSignReq := session.init.groupRequest
          deviceSignReq :=
            { nonces := noncesForDevice
              rootkey := rootkey
              coordShareDecryptionContrib := coordShareDecryptionContrib } } }, s)

/-- A request is of an active session, for a device that the session has nonces of and whose share
is recorded. -/
theorem requestDeviceSign_eq {s s' : FrostCoordinator L} {sessionId : SignSessionId}
    {deviceId : DeviceId} {encryptionKey : SymmetricKey} {request : RequestDeviceSign L}
    (h : s.requestDeviceSign sessionId deviceId encryptionKey = .ret (request, s')) :
    ∃ session nonces a, s.activeSigningSessions[sessionId]? = some session ∧
      session.init.nonces[deviceId]? = some nonces ∧
      s.getAccessStructure session.accessStructureRef = some a ∧
      deviceId ∈ a.deviceToShareIndex ∧ request.deviceId = deviceId ∧
      request.requestSign.groupSignReq = session.init.groupRequest ∧
      request.requestSign.deviceSignReq.nonces = nonces ∧
      s.mutate (.signing (.sentSignReq sessionId deviceId)) = .ret s' := by
  obtain ⟨session, hsession, h⟩ := Exec.bind_eq_ret_iff.1 h
  obtain ⟨nonces, hnonces, h⟩ := Exec.bind_eq_ret_iff.1 h
  obtain ⟨key, hkey, h⟩ := Exec.bind_eq_ret_iff.1 h
  obtain ⟨contrib, hcontrib, h⟩ := Exec.bind_eq_ret_iff.1 h
  obtain ⟨⟨rootkey, coordContrib⟩, hsome, h⟩ := Exec.bind_eq_ret_iff.1 h
  obtain ⟨t, hmutate, hret⟩ := Exec.bind_eq_ret_iff.1 h
  rw [Exec.expect_eq_ret_iff] at hsession hnonces hkey hsome
  subst hsome
  obtain ⟨rootSharedKey, a, shareIndex, -, ha, hindex, -⟩ :=
    CompleteKey.coordShareDecryptionContrib_eq_some hcontrib
  obtain ⟨rfl, rfl⟩ := Prod.mk.inj (Exec.ret.inj hret)
  refine ⟨session, nonces, a, hsession, hnonces, ?_, BTreeMap.mem_iff_getElem?.2 ⟨_, hindex⟩, rfl,
    rfl, rfl, hmutate⟩
  rw [getAccessStructure, ActiveSignSession.accessStructureRef, hkey, Option.bind_some, ha]

/-- `complete_sign_session`. -/
def completeSignSession (s : FrostCoordinator L) (sessionId : SignSessionId) :
    Exec (Option (List EncodedSignature) × FrostCoordinator L) :=
  match s.activeSigningSessions[sessionId]? with
  | none => .ret (none, s)
  | some session =>
      if allFinished session then do
        let signatures ← combineShares session.progress
        let s ← s.mutate (.signing (.closeSignSession sessionId (some signatures)))
        return (some signatures, s)
      else .ret (none, s)

/-- `cancel_sign_session`. -/
def cancelSignSession (s : FrostCoordinator L) (sessionId : SignSessionId) :
    Exec (FrostCoordinator L) :=
  s.mutate (.signing (.closeSignSession sessionId none))

/-- `cancel_all_signing_sessions`. -/
def cancelAllSigningSessions (s : FrostCoordinator L) : Exec (FrostCoordinator L) :=
  s.mutateAll (s.activeSignSessionOrder.map fun ssid => .signing (.closeSignSession ssid none))

/-- `forget_finished_sign_session`. -/
def forgetFinishedSignSession (s : FrostCoordinator L) (sessionId : SignSessionId) :
    Exec (Option (FinishedSignSession L) × FrostCoordinator L) :=
  match s.finishedSigningSessions[sessionId]? with
  | none => .ret (none, s)
  | some session => do
      let s ← s.mutate (.signing (.forgetFinishedSignSession sessionId))
      return (some session, s)

/-- The signature shares of a device. -/
def recvSignatureShare (s : FrostCoordinator L) (sender : DeviceId) (sessionId : SignSessionId)
    (signatureShares : List SignatureShare) (replenishNonces : Option NonceSegment) :
    Exec (Except Error (List (CoordinatorSend L)) × FrostCoordinator L) :=
  checked (s.checkSignatureShares sender sessionId signatureShares) s fun _ => do
    let s ← s.mutate (.signing (.gotSignatureSharesFromDevice sessionId sender signatureShares))
    let s ← s.mutateAll
      (replenishNonces.toList.map fun segment => .signing (.newNonces sender segment))
    let (completed, s) ← s.completeSignSession sessionId
    let signed : List (CoordinatorSend L) := completed.toList.map fun signatures =>
      .toUser (.signing (.signed sessionId signatures))
    return (.toUser (.signing (.gotShare sessionId sender)) :: signed, s)

end FrostCoordinator

end Frostsnap.Coordinator
