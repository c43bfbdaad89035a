import Frostsnap.Coordinator.NonceCache

/-!
# The state of the coordinator

The data of `FrostCoordinator` and the mutations that its persistent part changes by. This
module embeds the types of `coordinator.rs`, `coordinator/keys.rs`, `coordinator/signing.rs` and
`coordinator/restoration.rs`, and what a recovering access structure knows.
-/

namespace Frostsnap

/-! ### Keys -/

/-- An access structure, and which share each device has of it. -/
structure CoordAccessStructure where
  appSharedKey : Xpub SharedKey
  deviceToShareIndex : BTreeMap DeviceId ShareIndex
  kind : AccessStructureKind

/-- A key without its name. -/
structure CompleteKey where
  masterAppkey : MasterAppkey
  encryptedRootkey : RootkeyCiphertext
  accessStructures : BTreeMap AccessStructureId CoordAccessStructure

/-- A key of the coordinator. -/
structure CoordFrostKey where
  keyId : KeyId
  completeKey : CompleteKey
  keyName : String
  purpose : KeyPurpose

variable (L : FrostLib)

namespace CoordAccessStructure

/-- `threshold`, a `u16`. -/
def threshold (a : CoordAccessStructure) : Exec ℕ :=
  if a.appSharedKey.key.threshold ≤ 65535 then .ret a.appSharedKey.key.threshold
  else .panic "threshold too large"

/-- The hash of the polynomial. -/
def accessStructureId (a : CoordAccessStructure) : AccessStructureId :=
  L.accessStructureIdOfAppPoly a.appSharedKey.key.pointPolynomial

/-- The key and the access structure. -/
def accessStructureRef (a : CoordAccessStructure) : AccessStructureRef where
  keyId := L.keyIdOfMasterAppkey a.appSharedKey.masterAppkey
  accessStructureId := a.accessStructureId L

/-- Which devices have each share. -/
def shareIndexToDevices (a : CoordAccessStructure) : BTreeMap ShareIndex (List DeviceId) :=
  a.deviceToShareIndex.toList.foldl
    (fun map (deviceId, shareIndex) =>
      map.insert shareIndex (map[shareIndex]?.getD [] ++ [deviceId])) ∅

end CoordAccessStructure

namespace CompleteKey

/-- The shared root key: the polynomial of the access structure with the decrypted root key for
its constant term. -/
def rootSharedKey [Build] (key : CompleteKey) (accessStructureId : AccessStructureId)
    (encryptionKey : SymmetricKey) : Exec (Option SharedKey) :=
  match key.accessStructures[accessStructureId]? with
  | none => .ret none
  | some accessStructure =>
      match L.decryptRootkey encryptionKey key.encryptedRootkey with
      | none => .ret none
      | some rootkey => do
          Exec.debugAssert
            (MasterAppkey.deriveFromRootkey L rootkey = accessStructure.appSharedKey.masterAppkey)
            "assertion failed: derive_from_rootkey(rootkey) == access_structure.master_appkey()"
          return some
            { pointPolynomial :=
                accessStructure.appSharedKey.key.pointPolynomial.modifyHead fun _ => rootkey }

/-- The root key, and what the coordinator contributes to the decryption of a device's share. -/
def coordShareDecryptionContrib [Build] (key : CompleteKey)
    (accessStructureId : AccessStructureId) (deviceId : DeviceId) (encryptionKey : SymmetricKey) :
    Exec (Option (Point × CoordShareDecryptionContrib)) := do
  match ← key.rootSharedKey L accessStructureId encryptionKey with
  | none => return none
  | some rootSharedKey =>
      return do
        let accessStructure ← key.accessStructures[accessStructureId]?
        let shareIndex ← accessStructure.deviceToShareIndex[deviceId]?
        return (rootSharedKey.publicKey,
          CoordShareDecryptionContrib.forMasterShare L deviceId shareIndex rootSharedKey)

section

variable {L} [Build]

/-- What the coordinator contributes is for the share that it has recorded. -/
theorem coordShareDecryptionContrib_eq_some {key : CompleteKey}
    {accessStructureId : AccessStructureId} {deviceId : DeviceId} {encryptionKey : SymmetricKey}
    {rootkey : Point} {contrib : CoordShareDecryptionContrib}
    (h : key.coordShareDecryptionContrib L accessStructureId deviceId encryptionKey =
      .ret (some (rootkey, contrib))) :
    ∃ rootSharedKey a shareIndex,
      key.rootSharedKey L accessStructureId encryptionKey = .ret (some rootSharedKey) ∧
      key.accessStructures[accessStructureId]? = some a ∧
      a.deviceToShareIndex[deviceId]? = some shareIndex ∧ rootkey = rootSharedKey.publicKey ∧
      contrib = CoordShareDecryptionContrib.forMasterShare L deviceId shareIndex rootSharedKey := by
  obtain ⟨root, hroot, h⟩ := Exec.bind_eq_ret_iff.1 h
  cases root with
  | none => simp at h
  | some rootSharedKey =>
      simp only [Exec.pure_eq, Exec.ret.injEq, Option.bind_eq_bind, Option.pure_def,
        Option.bind_eq_some_iff, Option.some.injEq, Prod.mk.injEq] at h
      obtain ⟨a, ha, shareIndex, hindex, rfl, rfl⟩ := h
      exact ⟨rootSharedKey, a, shareIndex, hroot, ha, hindex, rfl, rfl⟩

/-- The coordinator contributes to the decryption of every share that it has recorded. -/
theorem coordShareDecryptionContrib_of_recorded {key : CompleteKey}
    {accessStructureId : AccessStructureId} {deviceId : DeviceId} {encryptionKey : SymmetricKey}
    {rootSharedKey : SharedKey} {a : CoordAccessStructure} {shareIndex : ShareIndex}
    (hroot : key.rootSharedKey L accessStructureId encryptionKey = .ret (some rootSharedKey))
    (ha : key.accessStructures[accessStructureId]? = some a)
    (hindex : a.deviceToShareIndex[deviceId]? = some shareIndex) :
    key.coordShareDecryptionContrib L accessStructureId deviceId encryptionKey =
      .ret (some (rootSharedKey.publicKey,
        CoordShareDecryptionContrib.forMasterShare L deviceId shareIndex rootSharedKey)) := by
  rw [coordShareDecryptionContrib, hroot, Exec.ret_bind]
  simp only [ha, hindex, Option.bind_eq_bind, Option.bind_some, Option.pure_def, Exec.pure_eq]

end

end CompleteKey

/-! ### Signing sessions -/

/-- The progress of one signature. -/
structure SignSessionProgress where
  signItem : L.SignItem
  signSession : L.SignSession
  signatureShares : BTreeMap DeviceId SignatureShare
  appSharedKey : Xpub SharedKey

/-- How a signing session starts: the nonces of each device, and the request. -/
structure StartSign where
  nonces : BTreeMap DeviceId CoordNonceStreamState
  groupRequest : GroupSignReq L.SignTask

/-- A signing session that is not finished. -/
structure ActiveSignSession where
  progress : List (SignSessionProgress L)
  init : StartSign L
  keyId : KeyId
  sentReqToDevice : BTreeSet DeviceId

/-- A signing session with its signatures. -/
structure FinishedSignSession where
  init : StartSign L
  signatures : List EncodedSignature
  keyId : KeyId

variable {L}

namespace SignSessionProgress

/-- The key the signature is for. -/
def tweakedFrostKey (p : SignSessionProgress L) : SharedKey :=
  L.deriveXonlyKey p.signItem p.appSharedKey

/-- Whether a signature is right. -/
def verifyFinalSignature (p : SignSessionProgress L) (signature : EncodedSignature) : Bool :=
  L.verifyFinalSignature p.signItem p.appSharedKey.masterAppkey signature

end SignSessionProgress

namespace ActiveSignSession

/-- The key and the access structure that sign. -/
def accessStructureRef (s : ActiveSignSession L) : AccessStructureRef where
  keyId := s.keyId
  accessStructureId := s.init.groupRequest.accessStructureId

/-- Whether a device's shares have been received; all signatures make progress at the same
time. -/
def hasReceivedFrom (s : ActiveSignSession L) (deviceId : DeviceId) : Bool :=
  (s.progress.head?.map fun p => p.signatureShares.contains deviceId).getD false

/-- The hash of the request. -/
def sessionId (s : ActiveSignSession L) : SignSessionId := L.sessionId s.init.groupRequest

end ActiveSignSession

/-! ### Restorations -/

/-- A share that a device holds. -/
structure HeldShare2 where
  accessStructureRef : Option AccessStructureRef
  shareImage : ShareImage
  threshold : Option ℕ
  keyName : Option String
  purpose : Option KeyPurpose
  needsConsolidation : Bool
  deriving DecidableEq

/-- A share and the device that holds it. -/
structure RecoverShare where
  heldBy : DeviceId
  heldShare : HeldShare2
  deriving DecidableEq

/-- An access structure that is being recovered from shares. -/
structure RecoveringAccessStructure where
  startingThreshold : Option ℕ
  heldShares : List RecoverShare
  sharedKey : Option SharedKey
  deriving DecidableEq

/-- A key that is being restored. -/
structure RestorationState where
  restorationId : RestorationId
  keyName : String
  accessStructure : RecoveringAccessStructure
  keyPurpose : KeyPurpose
  fingerprint : Fingerprint
  deriving DecidableEq

/-- A physical backup that a device has to consolidate. -/
structure PendingConsolidation where
  deviceId : DeviceId
  accessStructureRef : AccessStructureRef
  shareIndex : ShareIndex
  deriving DecidableEq

/-- Whether a share is one of a key. -/
inductive ShareCompatibility where
  | compatible
  | incompatible
  | uncertain
  deriving DecidableEq

variable (L)

namespace RecoveringAccessStructure

/-- Whether a share is one of the key that was found. -/
def compatibility (a : RecoveringAccessStructure) (image : ShareImage) : ShareCompatibility :=
  match a.sharedKey with
  | none => .uncertain
  | some sharedKey =>
      if sharedKey.shareImage L image.index = image then .compatible else .incompatible

/-- The devices with compatible backups that are not consolidated. -/
def needsToConsolidate (a : RecoveringAccessStructure) : List DeviceId :=
  (a.heldShares.filter fun recoverShare =>
    recoverShare.heldShare.needsConsolidation &&
      a.compatibility L recoverShare.heldShare.shareImage == .compatible).map RecoverShare.heldBy

/-- The access structure, from the key that was found or from what a share says. -/
def accessStructureRef (a : RecoveringAccessStructure) : Option AccessStructureRef :=
  match a.sharedKey with
  | some sharedKey => some (.fromRootSharedKey L sharedKey)
  | none => a.heldShares.findSome? fun recoverShare => recoverShare.heldShare.accessStructureRef

/-- The threshold, from the key that was found or from what was said. -/
def effectiveThreshold (a : RecoveringAccessStructure) : Option ℕ :=
  match a.sharedKey with
  | some sharedKey => some (sharedKey.threshold % 65536)
  | none =>
      a.startingThreshold.or
        (a.heldShares.findSome? fun recoverShare => recoverShare.heldShare.threshold)

/-- Which devices have each share. -/
def shareImageToDevices (a : RecoveringAccessStructure) : BTreeMap ShareImage (List DeviceId) :=
  a.heldShares.foldl
    (fun map recoverShare =>
      map.insert recoverShare.heldShare.shareImage
        (map[recoverShare.heldShare.shareImage]?.getD [] ++ [recoverShare.heldBy])) ∅

/-- The compatible share of each device. -/
def compatibleDeviceToShareIndex (a : RecoveringAccessStructure) :
    Option (BTreeMap DeviceId ShareIndex) :=
  a.sharedKey.map fun _ =>
    (a.heldShares.filter fun recoverShare =>
      a.compatibility L recoverShare.heldShare.shareImage == .compatible).foldl
        (fun map recoverShare =>
          map.insert recoverShare.heldBy recoverShare.heldShare.shareImage.index) ∅

/-- Look for a key that enough of the shares are shares of. -/
def tryFuzzyRecovery (a : RecoveringAccessStructure) (fingerprint : Fingerprint) :
    Option SharedKey :=
  L.findValidSubset (a.heldShares.map fun recoverShare => recoverShare.heldShare.shareImage)
    fingerprint (a.effectiveThreshold)

/-- Add a share. -/
def addShare (a : RecoveringAccessStructure) (recoverShare : RecoverShare)
    (fingerprint : Fingerprint) : RecoveringAccessStructure :=
  let a := { a with heldShares := a.heldShares ++ [recoverShare] }
  { a with sharedKey := a.tryFuzzyRecovery L fingerprint }

/-- A share is the one of a device. -/
def IsShareOf (deviceId : DeviceId) (image : ShareImage) (recoverShare : RecoverShare) : Bool :=
  recoverShare.heldBy == deviceId && recoverShare.heldShare.shareImage == image

/-- Whether a device's share has been added. -/
def hasGotShare (a : RecoveringAccessStructure) (deviceId : DeviceId) (image : ShareImage) :
    Bool :=
  a.heldShares.any (IsShareOf deviceId image)

/-- Remove a share of a device; `none` when it is not there. -/
def removeShare (a : RecoveringAccessStructure) (deviceId : DeviceId) (image : ShareImage)
    (fingerprint : Fingerprint) : Option RecoveringAccessStructure :=
  if a.hasGotShare deviceId image then
    let a := { a with heldShares := a.heldShares.eraseP (IsShareOf deviceId image) }
    some { a with sharedKey := a.tryFuzzyRecovery L fingerprint }
  else none

end RecoveringAccessStructure

end Frostsnap
