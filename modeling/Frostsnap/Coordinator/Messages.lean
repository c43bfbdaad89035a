import Frostsnap.Coordinator.Mutation

/-!
# Messages of the coordinator

What devices send to the coordinator, what it sends to devices and to the user, and the errors of
its operations. This module embeds the types of `message.rs`, `message/keygen.rs`,
`message/signing.rs`, `coordinator_to_user.rs` and the error types of `coordinator.rs` and
`coordinator/restoration.rs`.
-/

namespace Frostsnap

/-- The content of a message was invalid with respect to the state. -/
inductive Error where
  | messageKind (state kind : String)
  | invalidMessage (kind reason : String)
  deriving DecidableEq

/-- An action that the state does not allow. -/
inductive ActionError where
  | stateInconsistent (error : String)
  deriving DecidableEq

/-- The text of an error. -/
def NonceSegmentIncompatible.display : NonceSegmentIncompatible → String
  | .streamIdDontMatch => "stream ids for nonce segments didn't match"
  | .overflows => "the segment we are trying to connect overflows"

namespace Coordinator

/-! ### From devices -/

/-- A physical backup that was entered on a device. -/
structure EnteredPhysicalBackup where
  enterPhysicalId : EnterPhysicalId
  shareImage : ShareImage
  deriving DecidableEq

/-- A share as devices of an older version describe it. -/
structure HeldShare where
  accessStructureRef : Option AccessStructureRef
  shareImage : ShareImage
  threshold : ℕ
  keyName : String
  purpose : KeyPurpose
  deriving DecidableEq

/-- A share of an older version in the new format. -/
def HeldShare.toHeldShare2 (legacy : HeldShare) : HeldShare2 where
  accessStructureRef := legacy.accessStructureRef
  shareImage := legacy.shareImage
  threshold := some legacy.threshold
  keyName := some legacy.keyName
  purpose := some legacy.purpose
  needsConsolidation := legacy.accessStructureRef.isNone

/-- What a device says about its backups. -/
inductive DeviceRestoration where
  | physicalEntered (backup : EnteredPhysicalBackup)
  | physicalSaved (shareImage : ShareImage)
  | finishedConsolidation (accessStructureRef : AccessStructureRef) (shareIndex : ShareIndex)
  | heldShares (shares : List HeldShare)
  | heldShares2 (shares : List HeldShare2)

/-- A physical backup and the device it was entered on. -/
structure PhysicalBackupPhase where
  backup : EnteredPhysicalBackup
  sender : DeviceId
  deriving DecidableEq

/-- What a device says about its nonces and about signing. -/
inductive DeviceSigning where
  | nonceResponse (segments : List NonceSegment)
  | signatureShare (sessionId : SignSessionId) (signatureShares : List SignatureShare)
      (replenishNonces : Option NonceSegment)

variable (L : FrostLib)

/-- What a device says in a key generation. -/
inductive DeviceKeygen where
  | response (keygenId : KeygenId) (input : L.KeygenInput)
  | certify (keygenId : KeygenId) (vrfCert : L.CertVrfProof)
  | ack (keygenId : KeygenId) (ackSessionHash : SessionHash)

/-- A message of a device to the coordinator. -/
inductive DeviceToCoordinatorMessage where
  | keyGen (m : DeviceKeygen L)
  | signing (m : DeviceSigning)
  | restoration (m : DeviceRestoration)

/-! ### To devices -/

/-- How a key generation begins. -/
structure Begin where
  keygenId : KeygenId
  devices : List DeviceId
  threshold : ℕ
  keyName : String
  purpose : KeyPurpose
  coordinatorPublicKeys : List Point

/-- What the coordinator says in a key generation. -/
inductive Keygen where
  | begin (m : Begin)
  | certifyPlease (keygenId : KeygenId) (aggInput : L.AggKeygenInput)
  | check (keygenId : KeygenId) (certificate : List (Point × L.CertVrfProof))
  /-- Actually save key to device. -/
  | finalize (keygenId : KeygenId)

/-- The private part of a signing request, for one device. -/
structure DeviceSignReq where
  nonces : CoordNonceStreamState
  rootkey : Point
  coordShareDecryptionContrib : CoordShareDecryptionContrib
  deriving DecidableEq

/-- A signing request for a device. -/
structure RequestSign where
  groupSignReq : GroupSignReq L.SignTask
  deviceSignReq : DeviceSignReq

/-- Consolidate the saved secret share backup into a properly encrypted backup. -/
structure ConsolidateBackup where
  shareIndex : ShareIndex
  rootSharedKey : SharedKey
  keyName : String
  purpose : KeyPurpose
  deriving DecidableEq

/-- What the coordinator says about backups. -/
inductive CoordinatorRestoration where
  | consolidate (m : ConsolidateBackup)
  | displayBackup (accessStructureRef : AccessStructureRef)
      (coordShareDecryptionContrib : CoordShareDecryptionContrib) (shareIndex : ShareIndex)
      (rootSharedKey : SharedKey)
  | savePhysicalBackup2 (heldShare : HeldShare2)
  | checkBackup (coordShareDecryptionContrib : CoordShareDecryptionContrib)
      (shareIndex : ShareIndex) (rootSharedKey : SharedKey)

/-- A message of the coordinator to devices. -/
inductive CoordinatorToDeviceMessage where
  | keyGen (m : Keygen L)
  | restoration (m : CoordinatorRestoration)

/-! ### To the user -/

/-- The progress of a key generation. -/
inductive CoordinatorToUserKeyGenMessage where
  | receivedShares (sender : DeviceId)
  | checkKeyGen (sessionHash : SessionHash)
  | keyGenAck (sender : DeviceId) (allAcksReceived : Bool)

/-- The progress of a signing session. -/
inductive CoordinatorToUserSigningMessage where
  | gotShare (sessionId : SignSessionId) (sender : DeviceId)
  | signed (sessionId : SignSessionId) (signatures : List EncodedSignature)

/-- The progress of a restoration. -/
inductive ToUserRestoration where
  | gotHeldShares (heldBy : DeviceId) (shares : List HeldShare2)
  | physicalBackupEntered (phase : PhysicalBackupPhase)
  | physicalBackupSaved (deviceId : DeviceId) (restorationId : RestorationId)
      (shareIndex : ShareIndex)
  | finishedConsolidation (deviceId : DeviceId) (accessStructureRef : AccessStructureRef)
      (shareIndex : ShareIndex)

/-- A message of the coordinator to the user. -/
inductive CoordinatorToUserMessage where
  | keyGen (keygenId : KeygenId) (inner : CoordinatorToUserKeyGenMessage)
  | signing (m : CoordinatorToUserSigningMessage)
  | restoration (m : ToUserRestoration)
  | replenishedNonces (deviceId : DeviceId)

/-- What the coordinator sends. -/
inductive CoordinatorSend where
  | toDevice (message : CoordinatorToDeviceMessage L) (destinations : BTreeSet DeviceId)
  | toUser (message : CoordinatorToUserMessage)

/-! ### Errors and results of operations -/

/-- Why a signing session cannot start. -/
inductive StartSignError where
  | unknownKey (keyId : KeyId)
  | deviceNotPartOfKey (deviceId : DeviceId)
  | notEnoughDevicesSelected (selected threshold : ℕ)
  | notEnoughNoncesForDevice (e : NotEnoughNonces)
  | signTask (e : L.SignTaskError)
  | noSuchAccessStructure

/-- Why a share cannot be deleted. -/
inductive DeleteShareError where
  | deviceInActiveSignSession
  deriving DecidableEq

/-- Where the key of a share is. -/
inductive KeyLocationState where
  | complete (accessStructureRef : AccessStructureRef)
  | restoring (restorationId : RestorationId)
  deriving DecidableEq

/-- Where a share is. -/
structure ShareLocation where
  deviceIds : List DeviceId
  shareIndex : ShareIndex
  keyName : String
  keyPurpose : KeyPurpose
  keyState : KeyLocationState
  deriving DecidableEq

/-- Why a backup is not right. -/
inductive CheckBackupError where
  | noSuchAccessStructure
  | shareImageIsWrong
  | decryptionError
  deriving DecidableEq

/-- Why a restoration cannot be finished. -/
inductive RestorationError where
  | unknownRestorationId
  | notEnoughShares
  deriving DecidableEq

/-- Why a share cannot be added to a restoration. -/
inductive RestoreRecoverShareError where
  | unknownRestorationId
  | acccessStructureMismatch
  | alreadyGotThisShare
  | shareBelongsElsewhere (location : ShareLocation)
  deriving DecidableEq

/-- Why a share cannot be added to a key. -/
inductive RecoverShareErrorKind where
  | alreadyGotThisShare
  | noSuchAccessStructure
  | accessStructureMismatch
  | shareImageIsWrong
  | decryptionError
  deriving DecidableEq

/-- Why a share cannot be added to a key, and what the key is for. -/
structure RecoverShareError where
  keyPurpose : KeyPurpose
  kind : RecoverShareErrorKind
  deriving DecidableEq

/-- Why a restoration cannot start from a share. -/
inductive StartRestorationFromShareError where
  | missingMetadata
  deriving DecidableEq

/-- Tell the devices of a key generation to save their shares. -/
structure SendFinalizeKeygen where
  devices : List DeviceId
  accessStructureRef : AccessStructureRef
  keygenId : KeygenId

/-- Ask a device to sign. -/
structure RequestDeviceSign where
  deviceId : DeviceId
  requestSign : RequestSign L

/-- Tell a device to consolidate a backup. -/
structure TellDeviceConsolidateBackup where
  deviceId : DeviceId
  shareIndex : ShareIndex
  rootSharedKey : SharedKey
  keyName : String
  purpose : KeyPurpose

end Coordinator

end Frostsnap
