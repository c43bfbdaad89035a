import Frostsnap.Coordinator.Signing

/-!
# Restorations of the coordinator

The operations of `coordinator/restoration.rs`: restoring a key from shares and physical backups,
adding shares to a key, and consolidating backups on devices; and `recv_device_message`, which all
messages go through.
-/

namespace Frostsnap.Coordinator

variable {L : FrostLib}

namespace Persistent

/-- Where a share is in a restoration: added to it, or one of the key that was found. -/
def findInRestoration (shareImage : ShareImage) (restoration : RestorationState) :
    Option ShareLocation :=
  let location (deviceIds : List DeviceId) : ShareLocation :=
    { deviceIds := deviceIds
      shareIndex := shareImage.index
      keyName := restoration.keyName
      keyPurpose := restoration.keyPurpose
      keyState := .restoring restoration.restorationId }
  match restoration.accessStructure.shareImageToDevices[shareImage]? with
  | some deviceIds => some (location deviceIds)
  | none =>
      match restoration.accessStructure.sharedKey with
      | some sharedKey =>
          if sharedKey.shareImage L shareImage.index = shareImage then some (location [])
          else none
      | none => none

/-- What `finish_restoring` checks: the restoration, and the key that was found. -/
def restored (p : Persistent L) (restorationId : RestorationId) :
    Exec (Except RestorationError (RestorationState × SharedKey × BTreeMap DeviceId ShareIndex)) :=
  match p.restorations[restorationId]? with
  | none => .ret (.error .unknownRestorationId)
  | some state =>
      match state.accessStructure.sharedKey with
      | none => .ret (.error .notEnoughShares)
      | some rootSharedKey => do
          let deviceToShareIndex ← Exec.expect
            (state.accessStructure.compatibleDeviceToShareIndex L)
            "shared_key is Some so compatible_device_to_share_index should return Some"
          return .ok (state, rootSharedKey, deviceToShareIndex)

/-- The consolidations that are needed after a restoration. -/
def consolidationMutations (ref : AccessStructureRef)
    (deviceToShareIndex : BTreeMap DeviceId ShareIndex) :
    List DeviceId → Exec (List (Mutation L))
  | [] => .ret []
  | deviceId :: rest => do
      let shareIndex ← Exec.expect deviceToShareIndex[deviceId]? "no entry found for key"
      let mutations ← consolidationMutations ref deviceToShareIndex rest
      return .restoration (.deviceNeedsConsolidation
        { deviceId := deviceId, accessStructureRef := ref, shareIndex := shareIndex }) :: mutations

/-- What `start_restoring_key_from_recover_share` checks: that the share says what key it is
of. -/
def shareMetadata (p : Persistent L) (recoverShare : RecoverShare)
    (restorationId : RestorationId) :
    Exec (Except StartRestorationFromShareError (String × KeyPurpose)) :=
  match recoverShare.heldShare.keyName, recoverShare.heldShare.purpose with
  | some keyName, some keyPurpose => do
      Exec.assert (restorationId ∉ p.restorations)
        "assertion failed: !self.restoration.restorations.contains_key(&restoration_id)"
      Exec.assert
        ((recoverShare.heldShare.accessStructureRef.bind p.getAccessStructure).isNone)
        "assertion failed: self.get_access_structure(access_structure_ref).is_none()"
      return .ok (keyName, keyPurpose)
  | _, _ => .ret (.error .missingMetadata)

/-- `prepare_save_physical_backup`: the share to save, which says what it is a share of when a
trial run of the restoration with it finds a key that it is compatible with. -/
def prepareSavePhysicalBackup (state : RestorationState) (deviceId : DeviceId)
    (shareImage : ShareImage) : HeldShare2 :=
  let heldShare : HeldShare2 :=
    { accessStructureRef := none
      shareImage := shareImage
      threshold := none
      keyName := some state.keyName
      purpose := some state.keyPurpose
      needsConsolidation := true }
  let trial := state.accessStructure.addShare L { heldBy := deviceId, heldShare := heldShare }
    state.fingerprint
  if trial.sharedKey.isSome && trial.compatibility L shareImage == .compatible then
    { heldShare with
      threshold := trial.effectiveThreshold
      accessStructureRef := trial.accessStructureRef L }
  else heldShare

variable [Build]

/-- `root_shared_key`. -/
def rootSharedKey (p : Persistent L) (ref : AccessStructureRef)
    (encryptionKey : SymmetricKey) : Exec (Option SharedKey) :=
  match p.getFrostKey ref.keyId with
  | none => .ret none
  | some frostKey => frostKey.completeKey.rootSharedKey L ref.accessStructureId encryptionKey

/-- The first access structure that a share is of. -/
def findAccessStructure (p : Persistent L) (shareImage : ShareImage)
    (encryptionKey : SymmetricKey) :
    List CoordAccessStructure → Exec (Option CoordAccessStructure)
  | [] => .ret none
  | accessStructure :: rest => do
      match ← p.rootSharedKey (accessStructure.accessStructureRef L) encryptionKey with
      | none => findAccessStructure p shareImage encryptionKey rest
      | some rootSharedKey =>
          if rootSharedKey.shareImage L shareImage.index = shareImage then
            return some accessStructure
          else findAccessStructure p shareImage encryptionKey rest

/-- `find_share`. Complete wallets come first. -/
def findShare (p : Persistent L) (shareImage : ShareImage) (encryptionKey : SymmetricKey) :
    Exec (Option ShareLocation) := do
  let accessStructures := p.keys.values.flatMap fun key => key.completeKey.accessStructures.values
  match ← p.findAccessStructure shareImage encryptionKey accessStructures with
  | some accessStructure =>
      let ref := accessStructure.accessStructureRef L
      let key ← Exec.expect (p.keys[ref.keyId]?) "must exist"
      return some
        { deviceIds := (accessStructure.shareIndexToDevices[shareImage.index]?).getD []
          shareIndex := shareImage.index
          keyName := key.keyName
          keyPurpose := key.purpose
          keyState := .complete ref }
  | none => return p.restorations.values.findSome? (findInRestoration (L := L) shareImage)

/-- `check_recover_share_compatible_with_restoration`. -/
def checkRecoverShareCompatibleWithRestoration (p : Persistent L)
    (restorationId : RestorationId) (recoverShare : RecoverShare) (encryptionKey : SymmetricKey) :
    Exec (Except RestoreRecoverShareError Unit) :=
  match p.restorations[restorationId]? with
  | none => .ret (.error .unknownRestorationId)
  | some restoration => do
      let location ← p.findShare recoverShare.heldShare.shareImage encryptionKey
      -- a different device in the same restoration is OK (adding redundancy)
      let elsewhere : Option RestoreRecoverShareError := location.bind fun location =>
        if location.keyState = .restoring restorationId then
          if recoverShare.heldBy ∈ location.deviceIds then some .alreadyGotThisShare else none
        else some (.shareBelongsElsewhere location)
      match elsewhere with
      | some e => return .error e
      | none =>
          if Persistent.conflict recoverShare.heldShare.accessStructureRef
              (restoration.accessStructure.accessStructureRef L) then
            return .error .acccessStructureMismatch
          else return .ok ()

/-- `check_recover_share_compatible_with_key`. -/
def checkRecoverShareCompatibleWithKey (p : Persistent L) (ref : AccessStructureRef)
    (recoverShare : RecoverShare) (encryptionKey : SymmetricKey) :
    Exec (Except RecoverShareError Unit) :=
  match p.getFrostKey ref.keyId with
  | none => .ret (.error { keyPurpose := .test, kind := .noSuchAccessStructure })
  | some frostKey =>
      let keyPurpose := frostKey.purpose
      match p.getAccessStructure ref with
      | none => .ret (.error { keyPurpose := keyPurpose, kind := .noSuchAccessStructure })
      | some accessStructure =>
          if recoverShare.heldShare.accessStructureRef.any (· ≠ ref) then
            .ret (.error { keyPurpose := keyPurpose, kind := .accessStructureMismatch })
          else if recoverShare.heldBy ∈ accessStructure.deviceToShareIndex then
            .ret (.error { keyPurpose := keyPurpose, kind := .alreadyGotThisShare })
          else do
            match ← frostKey.completeKey.rootSharedKey L ref.accessStructureId encryptionKey with
            | none => return .error { keyPurpose := keyPurpose, kind := .decryptionError }
            | some rootSharedKey =>
                let shareImage := recoverShare.heldShare.shareImage
                if rootSharedKey.shareImage L shareImage.index = shareImage then return .ok ()
                else return .error { keyPurpose := keyPurpose, kind := .shareImageIsWrong }

/-- `check_physical_backup`. -/
def checkPhysicalBackup (p : Persistent L) (ref : AccessStructureRef)
    (phase : PhysicalBackupPhase) (encryptionKey : SymmetricKey) :
    Exec (Except CheckBackupError ShareIndex) :=
  match p.keys[ref.keyId]? with
  | none => .ret (.error .noSuchAccessStructure)
  | some key => do
      match ← key.completeKey.rootSharedKey L ref.accessStructureId encryptionKey with
      | none => return .error .decryptionError
      | some rootSharedKey =>
          let shareIndex := phase.backup.shareImage.index
          if phase.backup.shareImage = rootSharedKey.shareImage L shareIndex then
            return .ok shareIndex
          else return .error .shareImageIsWrong

/-- What a device needs to show or check its backup: what `request_device_display_backup` and
`request_device_check_backup` look up. -/
def backupRequest (p : Persistent L) (deviceId : DeviceId) (ref : AccessStructureRef)
    (encryptionKey : SymmetricKey) :
    Exec (Except ActionError (CoordShareDecryptionContrib × ShareIndex × SharedKey)) :=
  match p.keys[ref.keyId]? with
  | none => .ret (.error (.stateInconsistent "no such key"))
  | some key =>
      match key.completeKey.accessStructures[ref.accessStructureId]? with
      | none => .ret (.error (.stateInconsistent "no such access structure"))
      | some accessStructure =>
          match accessStructure.deviceToShareIndex[deviceId]? with
          | none => .ret (.error (.stateInconsistent "device does not have share in key"))
          | some shareIndex => do
              match ← key.completeKey.rootSharedKey L ref.accessStructureId encryptionKey with
              | none => return .error (.stateInconsistent "couldn't decrypt root key")
              | some rootSharedKey =>
                  match ← key.completeKey.coordShareDecryptionContrib L ref.accessStructureId
                      deviceId encryptionKey with
                  | none => return .error (.stateInconsistent "couldn't decrypt root key")
                  | some (_, contrib) => return .ok (contrib, shareIndex, rootSharedKey)

end Persistent

namespace FrostCoordinator

open Persistent

variable [Build]

/-- `start_restoring_key`. -/
def startRestoringKey (s : FrostCoordinator L) (keyName : String) (threshold : Option ℕ)
    (keyPurpose : KeyPurpose) (restorationId : RestorationId) : Exec (FrostCoordinator L) := do
  Exec.assert (restorationId ∉ s.restorations)
    "assertion failed: !self.restoration.restorations.contains_key(&restoration_id)"
  s.mutate (.restoration (.newRestoration2 restorationId keyName threshold keyPurpose))

/-- `add_recovery_share_to_restoration`. -/
def addRecoveryShareToRestoration (s : FrostCoordinator L) (restorationId : RestorationId)
    (recoverShare : RecoverShare) (encryptionKey : SymmetricKey) :
    Exec (Except RestoreRecoverShareError Unit × FrostCoordinator L) :=
  checked (s.checkRecoverShareCompatibleWithRestoration restorationId recoverShare encryptionKey) s
    fun _ => do
      let s ← s.mutate (.restoration (.restorationProgress2 restorationId recoverShare.heldBy
        recoverShare.heldShare))
      return ((), s)

/-- `finish_restoring`. -/
def finishRestoring (s : FrostCoordinator L) (restorationId : RestorationId)
    (encryptionKey : SymmetricKey) (rng : L.Rng) :
    Exec (Except RestorationError AccessStructureRef × FrostCoordinator L) :=
  checked (s.restored restorationId) s fun (state, rootSharedKey, deviceToShareIndex) => do
    let ref := AccessStructureRef.fromRootSharedKey L rootSharedKey
    let (_, s) ← s.mutateNewKey state.keyName rootSharedKey deviceToShareIndex encryptionKey
      state.keyPurpose rng
    let mutations ← consolidationMutations ref deviceToShareIndex
      (state.accessStructure.needsToConsolidate L)
    let s ← s.mutateAll (mutations ++ [.restoration (.deleteRestoration restorationId)])
    return (ref, s)

/-- `cancel_restoration`. -/
def cancelRestoration (s : FrostCoordinator L) (restorationId : RestorationId) :
    Exec (FrostCoordinator L) :=
  s.mutate (.restoration (.deleteRestoration restorationId))

/-- `start_restoring_key_from_recover_share`. -/
def startRestoringKeyFromRecoverShare (s : FrostCoordinator L) (recoverShare : RecoverShare)
    (restorationId : RestorationId) :
    Exec (Except StartRestorationFromShareError Unit × FrostCoordinator L) :=
  checked (s.shareMetadata recoverShare restorationId) s fun (keyName, keyPurpose) => do
    let s ← s.mutateAll
      [.restoration (.newRestoration2 restorationId keyName recoverShare.heldShare.threshold
        keyPurpose),
      .restoration (.restorationProgress2 restorationId recoverShare.heldBy
        recoverShare.heldShare)]
    return ((), s)

/-- `delete_restoration_share`. -/
def deleteRestorationShare (s : FrostCoordinator L) (restorationId : RestorationId)
    (deviceId : DeviceId) : Exec (FrostCoordinator L) :=
  match s.restorations[restorationId]? with
  | none => .ret s
  | some restoration =>
      match restoration.accessStructure.heldShares.find? fun recoverShare =>
          recoverShare.heldBy == deviceId with
      | none => .ret s
      | some recoverShare =>
          s.mutate (.restoration (.deleteRestorationShare restorationId deviceId
            recoverShare.heldShare.shareImage))

/-- `recover_share`. -/
def recoverShare (s : FrostCoordinator L) (ref : AccessStructureRef) (recoverShare : RecoverShare)
    (encryptionKey : SymmetricKey) : Exec (Except RecoverShareError Unit × FrostCoordinator L) :=
  checked (s.checkRecoverShareCompatibleWithKey ref recoverShare encryptionKey) s fun _ => do
    let shareIndex := recoverShare.heldShare.shareImage.index
    let wasAPhysicalBackup := recoverShare.heldShare.accessStructureRef.isNone
    let s ← s.mutate (.keygen (.newShare ref recoverShare.heldBy shareIndex))
    if wasAPhysicalBackup then do
      let s ← s.mutate (.restoration (.deviceNeedsConsolidation
        { deviceId := recoverShare.heldBy, accessStructureRef := ref, shareIndex := shareIndex }))
      return ((), s)
    else return ((), s)

/-- `tell_device_to_save_physical_backup`. -/
def tellDeviceToSavePhysicalBackup (s : FrostCoordinator L) (phase : PhysicalBackupPhase)
    (restorationId : RestorationId) : List (CoordinatorSend L) × FrostCoordinator L :=
  match s.restorations[restorationId]? with
  | none => ([], s)
  | some state =>
      let shareImage := phase.backup.shareImage
      let heldShare := prepareSavePhysicalBackup (L := L) state phase.sender shareImage
      ([.toDevice (.restoration (.savePhysicalBackup2 heldShare)) (.ofList [phase.sender] compare)],
        { s with
          tmpWaitingSave := s.tmpWaitingSave.insert (phase.sender, shareImage)
            (restorationId, heldShare) })

/-- `tell_device_to_consolidate_physical_backup`. -/
def tellDeviceToConsolidatePhysicalBackup (s : FrostCoordinator L) (phase : PhysicalBackupPhase)
    (ref : AccessStructureRef) (encryptionKey : SymmetricKey) :
    Exec (Except CheckBackupError TellDeviceConsolidateBackup × FrostCoordinator L) :=
  checked (s.checkPhysicalBackup ref phase encryptionKey) s fun _ => do
    let shareIndex := phase.backup.shareImage.index
    let found ← s.rootSharedKey ref encryptionKey
    let rootSharedKey ← Exec.expect found "invariant"
    let frostKey ← Exec.expect (s.getFrostKey ref.keyId) "invariant"
    return (
      { deviceId := phase.sender
        shareIndex := shareIndex
        rootSharedKey := rootSharedKey
        keyName := frostKey.keyName
        purpose := frostKey.purpose },
      { s with
        tmpWaitingConsolidate := s.tmpWaitingConsolidate.insert
          { deviceId := phase.sender, accessStructureRef := ref, shareIndex := shareIndex } })

/-- `request_device_display_backup`. -/
def requestDeviceDisplayBackup (s : FrostCoordinator L) (deviceId : DeviceId)
    (ref : AccessStructureRef) (encryptionKey : SymmetricKey) :
    Exec (Except ActionError (List (CoordinatorSend L)) × FrostCoordinator L) :=
  checked (s.backupRequest deviceId ref encryptionKey) s fun (contrib, shareIndex, root) =>
    .ret ([.toDevice (.restoration (.displayBackup ref contrib shareIndex root))
      (.ofList [deviceId] compare)], s)

/-- `request_device_check_backup`. -/
def requestDeviceCheckBackup (s : FrostCoordinator L) (deviceId : DeviceId)
    (ref : AccessStructureRef) (encryptionKey : SymmetricKey) :
    Exec (Except ActionError (List (CoordinatorSend L)) × FrostCoordinator L) :=
  checked (s.backupRequest deviceId ref encryptionKey) s fun (contrib, shareIndex, root) =>
    .ret ([.toDevice (.restoration (.checkBackup contrib shareIndex root))
      (.ofList [deviceId] compare)], s)

/-- A device has saved a physical backup. -/
def recvPhysicalSaved (s : FrostCoordinator L) (sender : DeviceId) (shareImage : ShareImage) :
    Exec (Except Error (List (CoordinatorSend L)) × FrostCoordinator L) :=
  match s.tmpWaitingSave[(sender, shareImage)]? with
  | none =>
      .ret (.error (coordinatorInvalidMessage "PhysicalSaved"
        "coordinator not waiting for that share to be saved"), s)
  | some (restorationId, heldShare) => do
      let s := { s with tmpWaitingSave := s.tmpWaitingSave.erase (sender, shareImage) }
      let s ← s.mutate (.restoration (.restorationProgress2 restorationId sender heldShare))
      return (.ok [.toUser (.restoration (.physicalBackupSaved sender restorationId
        shareImage.index))], s)

/-- A device has consolidated a backup: one that it was just asked to enter, for an access
structure we knew about, or one that it entered before the access structure was restored. -/
def recvFinishedConsolidation (s : FrostCoordinator L) (sender : DeviceId)
    (ref : AccessStructureRef) (shareIndex : ShareIndex) :
    Exec (Except Error (List (CoordinatorSend L)) × FrostCoordinator L) :=
  let consolidation : PendingConsolidation :=
    { deviceId := sender, accessStructureRef := ref, shareIndex := shareIndex }
  let finished : List (CoordinatorSend L) :=
    [.toUser (.restoration (.finishedConsolidation sender ref shareIndex))]
  if s.tmpWaitingConsolidate.contains consolidation then do
    let s := { s with tmpWaitingConsolidate := s.tmpWaitingConsolidate.erase consolidation }
    let s ← s.mutate (.keygen (.newShare ref sender shareIndex))
    return (.ok finished, s)
  else if s.pendingPhysicalConsolidations.contains consolidation then do
    let s ← s.mutate (.restoration (.deviceFinishedConsolidation consolidation))
    return (.ok finished, s)
  else
    .ret (.error (coordinatorInvalidMessage "FinishedConsolidation"
      "not waiting for device to consolidate"), s)

/-- `recv_restoration_message`. -/
def recvRestorationMessage (s : FrostCoordinator L) (sender : DeviceId) :
    DeviceRestoration → Exec (Except Error (List (CoordinatorSend L)) × FrostCoordinator L)
  | .physicalEntered backup =>
      .ret (.ok [.toUser (.restoration (.physicalBackupEntered
        { backup := backup, sender := sender }))], s)
  | .physicalSaved shareImage => s.recvPhysicalSaved sender shareImage
  | .finishedConsolidation ref shareIndex => s.recvFinishedConsolidation sender ref shareIndex
  | .heldShares legacyHeldShares =>
      .ret (.ok [.toUser (.restoration (.gotHeldShares sender
        (legacyHeldShares.map HeldShare.toHeldShare2)))], s)
  | .heldShares2 heldShares =>
      .ret (.ok [.toUser (.restoration (.gotHeldShares sender heldShares))], s)

/-- `recv_device_message`. -/
def recvDeviceMessage (s : FrostCoordinator L) (sender : DeviceId) :
    DeviceToCoordinatorMessage L →
      Exec (Except Error (List (CoordinatorSend L)) × FrostCoordinator L)
  | .signing (.nonceResponse segments) => s.recvNonceResponse sender segments
  | .keyGen (.response keygenId input) => s.recvKeygenResponse sender keygenId input
  | .keyGen (.certify keygenId vrfCert) => s.recvKeygenCertify sender keygenId vrfCert
  | .keyGen (.ack keygenId ackSessionHash) => s.recvKeygenAck sender keygenId ackSessionHash
  | .signing (.signatureShare sessionId signatureShares replenishNonces) =>
      s.recvSignatureShare sender sessionId signatureShares replenishNonces
  | .restoration message => s.recvRestorationMessage sender message

end FrostCoordinator

end Frostsnap.Coordinator
