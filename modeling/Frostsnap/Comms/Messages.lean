import Frostsnap.Core.Ids

/-!
# Messages on the wire

The messages of `frostsnap_comms/src/lib.rs` between the coordinator and the devices it reaches
through a port. What they carry for the signing protocol and for the genuine check is not looked at
here, and the types of it are parameters.
-/

namespace Frostsnap

/-- The order in which a hash map or a hash set is gone through. -/
structure HashOrder (α : Type) where
  order : List α → List α
  perm : ∀ l : List α, (order l).Perm l

/-- One of the orders: the one in which the elements were listed. -/
def HashOrder.asListed (α : Type) : HashOrder α where
  order := id
  perm := .refl

/-- The first byte of a digest is its most significant. -/
abbrev Sha256Digest := BitVec 256

/-- In characters. -/
abbrev DEVICE_NAME_MAX_LENGTH : ℕ := 14

/-- `FixedString<DEVICE_NAME_MAX_LENGTH>`. -/
structure DeviceName where
  inner : String
  short : inner.length ≤ DEVICE_NAME_MAX_LENGTH

/-- What messages carry. -/
structure Payloads where
  /-- `CoordinatorToDeviceMessage` -/
  toDevice : Type
  /-- `DeviceToCoordinatorMessage` -/
  toCoordinator : Type
  /-- `genuine_check::CoordinatorMessage` -/
  genuineRequest : Type
  /-- `genuine_check::DeviceMessage` -/
  genuineReply : Type
  /-- `AccessStructureRef` and `ShareIndex` of a checked backup -/
  checked : Type
  /-- `GenuineChallenge` -/
  challenge : Type
  /-- `DsSignature` and `Certificate` -/
  signedChallenge : Type

/-- Messages that carry nothing. -/
abbrev plainPayloads : Payloads where
  toDevice := Unit
  toCoordinator := Unit
  genuineRequest := Unit
  genuineReply := Unit
  checked := Unit
  challenge := Unit
  signedChallenge := Unit

/-- Which devices a message is for. -/
inductive Destination where
  | all
  | particular (devices : BTreeSet DeviceId)

namespace Destination

/-- `should_forward`: a message for nobody goes no further. -/
def shouldForward : Destination → Bool
  | all => true
  | particular devices => !devices.isEmpty

/-- Returns whether the argument `deviceId` was a destination. -/
def removeFromRecipients : Destination → DeviceId → Bool × Destination
  | all, _ => (true, all)
  | particular devices, deviceId =>
      (devices.contains deviceId, particular (devices.erase deviceId))

/-- `is_destined_to`. -/
def IsDestinedTo : Destination → DeviceId → Prop
  | all, _ => True
  | particular devices, deviceId => deviceId ∈ devices

instance (destination : Destination) (deviceId : DeviceId) :
    Decidable (destination.IsDestinedTo deviceId) :=
  match destination with
  | all => inferInstanceAs (Decidable True)
  | particular devices => inferInstanceAs (Decidable (deviceId ∈ devices))

end Destination

/-- The messages of an upgrade. The firmware itself comes as bare bytes. -/
inductive CoordinatorUpgradeMessage where
  | prepareUpgrade (size : BitVec 32) (firmwareDigest : Sha256Digest)
  | enterUpgradeMode
  | prepareUpgrade2 (size : BitVec 32) (firmwareDigest : Sha256Digest)

/-- `prompt` is an older way to rename a device, which is kept for its place. -/
inductive NameCommand where
  | preview (name : DeviceName)
  | prompt (name : DeviceName)

/-- What the coordinator says. -/
inductive CoordinatorSendBody (P : Payloads) where
  | core (message : P.toDevice)
  | naming (command : NameCommand)
  | announceAck
  | cancel
  | upgrade (message : CoordinatorUpgradeMessage)
  | dataErase
  | legacyChallenge (challenge : P.challenge)
  | genuineCheck (message : P.genuineRequest)

/-- What the coordinator says, as it is sent. -/
inductive WireCoordinatorSendBody where
  | core
  | naming
  | announceAck
  | cancel
  | upgrade (message : CoordinatorUpgradeMessage)
  | encapsV0 (encaps : List UInt8)

/-- What a body on the wire says, given what encapsulated bytes do. -/
def WireCoordinatorSendBody.decode {P : Payloads}
    (decodeEncaps : List UInt8 → Option (CoordinatorSendBody P)) :
    WireCoordinatorSendBody → Option (CoordinatorSendBody P)
  | core | naming => none
  | announceAck => some .announceAck
  | cancel => some .cancel
  | upgrade message => some (.upgrade message)
  | encapsV0 encaps => decodeEncaps encaps

/-- A message sent from a coordinator. -/
structure CoordinatorSendMessage (B : Type) where
  targetDestinations : Destination
  messageBody : B

/-- `CoordinatorSendMessage::to`, for one device. -/
def CoordinatorSendMessage.to {B : Type} (deviceId : DeviceId) (body : B) :
    CoordinatorSendMessage B where
  targetDestinations := .particular ((∅ : BTreeSet DeviceId).insert deviceId)
  messageBody := body

/-- What a device says about what its user has done. -/
inductive CommsMisc (P : Payloads) where
  | ackUpgradeMode
  | displayBackupConfirmed
  | backupRecorded
  | eraseConfirmed
  | backupChecked (checked : P.checked)

/-- What a device says. -/
inductive DeviceSendBody (P : Payloads) where
  | core (message : P.toCoordinator)
  | debug (message : String)
  | announce (firmwareDigest : Sha256Digest)
  | setName (name : DeviceName)
  | disconnectDownstream
  | needName
  | legacyAckUpgradeMode
  | misc (message : CommsMisc P)
  | legacySignedChallenge (signed : P.signedChallenge)
  | genuineCheck (message : P.genuineReply)

/-- Message sent from a device to the coordinator; the body fails to decode when it is
encapsulated and its bytes make no sense. -/
structure DeviceSendMessage (P : Payloads) where
  from_ : DeviceId
  body : Except String (DeviceSendBody P)

end Frostsnap
