import Frostsnap.Device.Keygen

/-!
# Backups on a device

The handlers of `device/restoration.rs`. A backup that is entered is kept in memory under the image
of its share until the coordinator asks to save it or to consolidate it. Consolidating a backup is
saving its share like one that was generated, under the key and the access structure of the
polynomial that the coordinator sends.
-/

namespace Frostsnap

namespace Device

variable {L : FrostLib} {D : DeviceLib L} {S : Type}

namespace Signer

/-- Send to the user. -/
def tellUser (s : Signer D S) (m : DeviceToUserMessage D) : Exec (Answer D S) :=
  return (.ok [.toUser m], s)

/-- The shares that the device holds, those of keys before those of backups. -/
def heldShares (s : Signer D S) : List HeldShare2 :=
  let ofKeys := s.keys.toList.flatMap fun (keyId, keyData) =>
    keyData.accessStructures.toList.flatMap fun (accessStructureId, accessStructure) =>
      accessStructure.shares.values.filterMap fun share =>
        if accessStructure.kind = .master then
          some
            { keyName := some keyData.keyName
              shareImage := share.shareImage
              accessStructureRef := some
                { accessStructureId := accessStructureId, keyId := keyId }
              threshold := some accessStructure.threshold
              purpose := some keyData.purpose
              needsConsolidation := false : HeldShare2 }
        else none
  let ofBackups := s.restoration.savedBackups.toList.map fun (shareImage, savedBackup) =>
    { keyName := savedBackup.keyName
      accessStructureRef := none
      shareImage := shareImage
      threshold := savedBackup.threshold
      purpose := savedBackup.purpose
      needsConsolidation := true : HeldShare2 }
  ofKeys ++ ofBackups

/-! ### Messages about backups -/

/-- Save a backup that was entered. -/
def savePhysicalBackup2 (s : Signer D S) (heldShare : HeldShare2) (kind : String) :
    Exec (Answer D S) :=
  match s.restoration.tmpLoadedBackups[heldShare.shareImage]? with
  | none => s.refuse kind "couldn't find secret share saved for that restoration"
  | some shareBackup =>
      let s :=
        { s with
          restoration.tmpLoadedBackups :=
            s.restoration.tmpLoadedBackups.erase heldShare.shareImage }
      let s := s.mutate (.restoration (.save2
        { shareBackup := shareBackup
          threshold := heldShare.threshold
          purpose := heldShare.purpose
          keyName := heldShare.keyName }))
      return (.ok
        [.toUser (.restoration (.backupSaved heldShare.shareImage heldShare.keyName
          heldShare.purpose heldShare.threshold)),
         .toCoordinator (.restoration (.physicalSaved heldShare.shareImage))], s)

/-- The backup of a share that was saved or entered. -/
def loadedBackup (s : Signer D S) (shareImage : ShareImage) : Option D.Backup :=
  (s.restoration.savedBackups[shareImage]?.map SavedBackup2.shareBackup) <|>
    s.restoration.tmpLoadedBackups[shareImage]?

/-- Consolidate a backup. -/
def consolidate (s : Signer D S) (consolidate : Coordinator.ConsolidateBackup) (kind : String) :
    Exec (Answer D S) :=
  let rootSharedKey := consolidate.rootSharedKey
  let ref := AccessStructureRef.fromRootSharedKey L rootSharedKey
  let shareImage := rootSharedKey.shareImage L consolidate.shareIndex
  match s.loadedBackup shareImage with
  | some secretShareBackup =>
      match D.extractSecret secretShareBackup rootSharedKey with
      | none => s.refuse kind "polynomial checksum validation failed"
      | some secretShare =>
          let expectedImage := rootSharedKey.shareImage L secretShare.index
          let actualImage := secretShare.shareImage D
          if expectedImage ≠ actualImage ∨ secretShare.index ≠ consolidate.shareIndex then
            s.refuse kind "the image didn't match for consolidation"
          else
            let completeShare : CompleteSecretShare :=
              { accessStructureRef := ref
                keyName := consolidate.keyName
                purpose := consolidate.purpose
                threshold := rootSharedKey.threshold % 2 ^ 16
                secretShare := secretShare }
            let coordContrib :=
              CoordShareDecryptionContrib.forMasterShare L s.deviceId consolidate.shareIndex
                rootSharedKey
            s.tellUser (.restoration (.consolidateBackup
              { completeShare := completeShare, coordContrib := coordContrib }))
  | none =>
      if (s.getEncryptedShare ref consolidate.shareIndex).isNone then
        s.refuse kind "we can't consolidate a share we don't know about"
      else
        -- it has been consolidated before
        return (.ok [.toCoordinator
          (.restoration (.finishedConsolidation ref consolidate.shareIndex))], s)

/-- What is needed to show the backup of a share that the device holds, or why it does not. -/
def backupDisplayPhase (s : Signer D S) (coordShareDecryptionContrib : CoordShareDecryptionContrib)
    (shareIndex : ShareIndex) (rootSharedKey : SharedKey) :
    Except String (BackupDisplayPhase D) :=
  let ref := AccessStructureRef.fromRootSharedKey L rootSharedKey
  match s.keys[ref.keyId]? with
  | none =>
      .error ("signer doesn't have a share for this key: " ++
        ",".intercalate (s.keys.keys.map fun key => D.hex key))
  | some keyData =>
      match keyData.accessStructures[ref.accessStructureId]? with
      | none => .error "no such access structure on this device"
      | some accessStructureData =>
          match accessStructureData.shares[shareIndex]? with
          | none => .error "access structure exists but this device doesn't have that share"
          | some share =>
              .ok
                { accessStructureRef := ref
                  shareIndex := shareIndex
                  encryptedSecretShare := share.ciphertext
                  coordShareDecryptionContrib := coordShareDecryptionContrib
                  keyName := keyData.keyName
                  rootSharedKey := rootSharedKey }

/-- A message about backups. -/
def recvRestorationMessage (s : Signer D S) (m : CoordinatorRestoration) : Exec (Answer D S) :=
  match m with
  | .enterPhysicalBackup enterPhysicalId =>
      s.tellUser (.restoration (.enterBackup { enterPhysicalId := enterPhysicalId }))
  | .savePhysicalBackup shareImage keyName purpose threshold =>
      s.savePhysicalBackup2
        { accessStructureRef := none
          shareImage := shareImage
          threshold := some threshold
          purpose := some purpose
          keyName := some keyName
          needsConsolidation := true } "SavePhysicalBackup2"
  | .savePhysicalBackup2 heldShare => s.savePhysicalBackup2 heldShare m.kind
  | .consolidate consolidate => s.consolidate consolidate m.kind
  | .displayBackup _ coordShareDecryptionContrib shareIndex rootSharedKey =>
      match s.backupDisplayPhase coordShareDecryptionContrib shareIndex rootSharedKey with
      | .error e => s.refuse m.kind e
      | .ok phase =>
          s.tellUser (.restoration (.displayBackup phase.keyName phase.accessStructureRef phase))
  | .checkBackup coordShareDecryptionContrib shareIndex rootSharedKey =>
      match s.backupDisplayPhase coordShareDecryptionContrib shareIndex rootSharedKey with
      | .error e => s.refuse m.kind e
      | .ok phase =>
          s.tellUser (.restoration (.checkBackup phase.keyName phase.accessStructureRef phase))
  | .requestHeldShares =>
      return (.ok [.toCoordinator (.restoration (.heldShares2 s.heldShares))], s)

/-! ### What the user has done -/

/-- A backup was entered. -/
def tellCoordinatorAboutBackupLoadResult (s : Signer D S) (phase : EnterBackupPhase)
    (shareBackup : D.Backup) : List (DeviceSend D) × Signer D S :=
  let image := D.backupShareImage shareBackup
  ([.toCoordinator (.restoration (.physicalEntered
      { enterPhysicalId := phase.enterPhysicalId, shareImage := image }))],
    { s with
      restoration.tmpLoadedBackups := s.restoration.tmpLoadedBackups.insert image shareBackup })

/-- A backup is consolidated. -/
def finishConsolidation (s : Signer D S) (symmKeygen : DeviceSecretDerivation)
    (phase : ConsolidatePhase) (rng : L.Rng) : List (DeviceSend D) × Signer D S :=
  let completeShare := phase.completeShare
  let phase4 : KeyGenPhase4 D :=
    { keyName := completeShare.keyName
      keyPurpose := completeShare.purpose
      accessStructureRef := completeShare.accessStructureRef
      accessStructureKind := .master
      encryptedSecretShare :=
        encryptShare D completeShare.secretShare completeShare.accessStructureRef
          phase.coordContrib symmKeygen rng
      threshold := completeShare.threshold }
  ([.toCoordinator (.restoration (.finishedConsolidation completeShare.accessStructureRef
      completeShare.secretShare.index))],
    s.saveCompleteShare phase4)

end Signer

/-- The backup of a share that is to be shown. -/
def BackupDisplayPhase.decryptToBackup (phase : BackupDisplayPhase D)
    (symmKeygen : DeviceSecretDerivation) : Except ActionError D.Backup :=
  let encryptionKey := symmKeygen.getShareEncryptionKey phase.accessStructureRef phase.shareIndex
    phase.coordShareDecryptionContrib
  match D.decrypt encryptionKey phase.encryptedSecretShare with
  | none => .error (.stateInconsistent "could not decrypt secret share")
  | some secretShare =>
      .ok (D.fromSecretShareAndSharedKey { index := phase.shareIndex, share := secretShare }
        phase.rootSharedKey)

end Device

end Frostsnap
