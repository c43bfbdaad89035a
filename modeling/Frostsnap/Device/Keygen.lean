import Frostsnap.Device.Messages

/-!
# Key generation on a device

The state of a device, and the handlers of `device/keygen.rs` with `save_complete_share` of
`device.rs`. A phase is removed when a message about it arrives, whether or not the message is
good, and is put back as the next phase if it is. Several key generations may be under way, under
ids that the coordinator chooses.

A device is a release build.
-/

namespace Frostsnap

namespace Device

attribute [local instance] Build.release

variable {L : FrostLib} (D : DeviceLib L) (S : Type)

/-- The key generations that are under way. -/
structure KeygenState where
  tmpKeygenPhase1 : BTreeMap KeygenId (KeyGenPhase1 D)
  tmpKeygenPhase2 : BTreeMap KeygenId (KeyGenPhase2 D)
  tmpKeygenPendingFinalize : BTreeMap KeygenId (SessionHash × KeyGenPhase4 D)

/-- Forget them. -/
def KeygenState.clearTmpData : KeygenState D where
  tmpKeygenPhase1 := ∅
  tmpKeygenPhase2 := ∅
  tmpKeygenPendingFinalize := ∅

/-- A device, with what it keeps in memory only. It is named by its public key. -/
structure Signer extends FrostSigner S D.Cipher D.Backup where
  keypair : L.KeyPair
  deviceIdOfKeypair : deviceId = L.publicKeyOfPair keypair
  keygen : KeygenState D
  keygenFingerprint : Fingerprint

/-- What handling a message gives. -/
abbrev Answer := Except Error (List (DeviceSend D)) × Signer D S

variable {D S}

/-- `Error::signer_invalid_message`. -/
def signerInvalidMessage (kind reason : String) : Error := .invalidMessage kind reason

/-- A device that refuses a message. -/
def Signer.refuse (s : Signer D S) (kind reason : String) : Exec (Answer D S) :=
  return (.error (signerInvalidMessage kind reason), s)

/-- `KeyId::from_rootkey`. -/
def keyIdFromRootkey (L : FrostLib) (rootkey : Point) : KeyId :=
  L.keyIdOfMasterAppkey (MasterAppkey.deriveFromRootkey L rootkey)

/-! ### Encrypted shares -/

/-- Encrypt a share with what the coordinator contributes. -/
def encryptShare (D : DeviceLib L) (secretShare : SecretShare) (ref : AccessStructureRef)
    (coordContrib : CoordShareDecryptionContrib) (symmKeygen : DeviceSecretDerivation)
    (rng : L.Rng) : EncryptedSecretShare D.Cipher :=
  let encryptionKey := symmKeygen.getShareEncryptionKey ref secretShare.index coordContrib
  { shareImage := secretShare.shareImage D
    ciphertext := D.encrypt encryptionKey secretShare.share rng }

/-- Decrypt a share with what the coordinator contributes. -/
def decryptShare (D : DeviceLib L) (e : EncryptedSecretShare D.Cipher) (ref : AccessStructureRef)
    (coordContrib : CoordShareDecryptionContrib) (symmKeygen : DeviceSecretDerivation) :
    Option SecretShare :=
  let encryptionKey := symmKeygen.getShareEncryptionKey ref e.shareImage.index coordContrib
  (D.decrypt encryptionKey e.ciphertext).map fun share =>
    { index := e.shareImage.index, share := share }

namespace Signer

theorem mutate_deviceId (s : FrostSigner S D.Cipher D.Backup) (m : Mutation D.Cipher D.Backup) :
    (s.mutate m).deviceId = s.deviceId := by
  cases m with
  | keygen m => cases m <;> rfl
  | restoration m => cases m <;> rfl

/-- Apply a mutation and stage it. -/
def mutate (s : Signer D S) (m : Mutation D.Cipher D.Backup) : Signer D S :=
  { s with
    toFrostSigner := s.toFrostSigner.mutate m
    deviceIdOfKeypair := (mutate_deviceId _ m).trans s.deviceIdOfKeypair }

/-- Save a key with its access structure and share. -/
def saveCompleteShare (s : Signer D S) (phase : KeyGenPhase4 D) : Signer D S :=
  ((s.mutate (.keygen
        (.newKey phase.accessStructureRef.keyId phase.keyName phase.keyPurpose))).mutate
      (.keygen (.newAccessStructure phase.accessStructureRef phase.threshold
        phase.accessStructureKind))).mutate
    (.keygen (.saveShare
      { accessStructureRef := phase.accessStructureRef
        encryptedSecretShare := phase.encryptedSecretShare }))

/-! ### The messages of a key generation -/

/-- Contribute to a key generation. -/
def keygenBegin (s : Signer D S) (begin : Coordinator.Begin) (kind : String) (rng : L.Rng) :
    Exec (Answer D S) :=
  match begin.devices.findIdx? fun d => d == s.deviceId with
  | none =>
      s.refuse kind
        ("my device id " ++ D.hex s.deviceId ++ " was not part of the keygen")
  | some mySlot => do
      let receiverKeys ← begin.devices.mapM fun d => DeviceId.pubkey L d
      match D.genKeygenInput begin.threshold begin.coordinatorPublicKeys receiverKeys
          (asU32 mySlot) rng with
      | .error e => s.refuse kind ("invalid keygen begin: " ++ e)
      | .ok (inputState, keygenInput) =>
          let phase : KeyGenPhase1 D :=
            { inputState := inputState
              threshold := begin.threshold
              keyName := begin.keyName
              keyPurpose := begin.purpose }
          return (.ok [.toCoordinator (.keyGen (.response begin.keygenId keygenInput))],
            { s with
              keygen.tmpKeygenPhase1 := s.keygen.tmpKeygenPhase1.insert begin.keygenId phase })

/-- Certify the aggregated input, if our contribution is in it. -/
def keygenCertifyPlease (s : Signer D S) (keygenId : KeygenId) (aggInput : L.AggKeygenInput)
    (kind : String) : Exec (Answer D S) :=
  match s.keygen.tmpKeygenPhase1[keygenId]? with
  | none => s.refuse kind "no keygen state for provided keygen_id"
  | some phase1 =>
      let s := { s with keygen.tmpKeygenPhase1 := s.keygen.tmpKeygenPhase1.erase keygenId }
      match D.verifyAggInput phase1.inputState aggInput s.keypair with
      | .error e => s.refuse kind ("Failed to verify and receive share: " ++ e)
      | .ok (shareReceiver, vrfCert) =>
          if (D.checkFingerprint (D.sharedKey shareReceiver) s.keygenFingerprint).isNone then
            s.refuse kind "key generation did not match the fingerprint"
          else
            let phase : KeyGenPhase2 D :=
              { keygenId := keygenId
                shareReceiver := shareReceiver
                keyName := phase1.keyName
                keyPurpose := phase1.keyPurpose }
            return (.ok [.toCoordinator (.keyGen (.certify keygenId vrfCert))],
              { s with
                keygen.tmpKeygenPhase2 := s.keygen.tmpKeygenPhase2.insert keygenId phase })

/-- Ask the user to check, if everyone has certified. -/
def keygenCheck (s : Signer D S) (keygenId : KeygenId)
    (certificate : BTreeMap Point L.CertVrfProof) (kind : String) : Exec (Answer D S) :=
  match s.keygen.tmpKeygenPhase2[keygenId]? with
  | none => s.refuse kind "no keygen state for provided keygen_id"
  | some phase2 =>
      let s := { s with keygen.tmpKeygenPhase2 := s.keygen.tmpKeygenPhase2.erase keygenId }
      match D.finalize phase2.shareReceiver certificate with
      | .error e => s.refuse kind ("certification failed: " ++ e)
      | .ok (certifiedKeygen, secretShare) => do
          let nReceivers := L.nReceivers certifiedKeygen
          Exec.assert (nReceivers < 2 ^ 16) "n_receivers fits in u16"
          let phase3 : KeyGenPhase3 :=
            { keygenId := keygenId
              sessionHash := L.sessionHash certifiedKeygen
              keyName := phase2.keyName
              keyPurpose := phase2.keyPurpose
              nReceivers := nReceivers
              sharedKey := L.sharedKeyOfKeygen certifiedKeygen
              secretShare := secretShare }
          return (.ok [.toUser (.checkKeyGen phase3)], s)

/-- Save the share that the user has agreed to. -/
def keygenFinalize (s : Signer D S) (keygenId : KeygenId) (kind : String) : Exec (Answer D S) :=
  match s.keygen.tmpKeygenPendingFinalize[keygenId]? with
  | none => s.refuse kind ("device doesn't have keygen for " ++ D.hex keygenId)
  | some (_, phase4) =>
      let s :=
        { s with
          keygen.tmpKeygenPendingFinalize := s.keygen.tmpKeygenPendingFinalize.erase keygenId }
      return (.ok [.toUser (.finalizeKeyGen phase4.keyName)], s.saveCompleteShare phase4)

/-- A message of a key generation. -/
def recvKeygenMessage (s : Signer D S) (m : Keygen L) (rng : L.Rng) : Exec (Answer D S) :=
  match m with
  | .begin begin => s.keygenBegin begin "KeyGen" rng
  | .certifyPlease keygenId aggInput => s.keygenCertifyPlease keygenId aggInput "KeyGen"
  | .check keygenId certificate => s.keygenCheck keygenId certificate "KeyGen"
  | .finalize keygenId => s.keygenFinalize keygenId "KeyGen"

/-! ### The user agrees -/

/-- Encrypt the share and keep it until the key generation is finalized. The contribution of the
coordinator is computed here, so that a coordinator cannot make it one that is never known
again. -/
def keygenAck (s : Signer D S) (phase : KeyGenPhase3) (symmKeygen : DeviceSecretDerivation)
    (rng : L.Rng) :
    Exec (Except ActionError (Coordinator.DeviceToCoordinatorMessage L) × Signer D S) := do
  let secretShare := phase.secretShare
  let rootkey := secretShare.publicKey
  let keyId := keyIdFromRootkey L rootkey
  let rootSharedKey := Xpub.fromRootkey phase.sharedKey
  let appSharedKey := rootSharedKey.rootkeyToMasterAppkey L
  let accessStructureId := L.accessStructureIdOfAppPoly appSharedKey.key.pointPolynomial
  let decryptionShareContrib :=
    CoordShareDecryptionContrib.forMasterShare L s.deviceId secretShare.secretShare.index
      rootSharedKey.key
  Exec.assert (appSharedKey.key.threshold < 2 ^ 16) "threshold was too large"
  let ref : AccessStructureRef := { keyId := keyId, accessStructureId := accessStructureId }
  let phase4 : KeyGenPhase4 D :=
    { keyName := phase.keyName
      keyPurpose := phase.keyPurpose
      accessStructureRef := ref
      accessStructureKind := .master
      encryptedSecretShare :=
        encryptShare D secretShare.secretShare ref decryptionShareContrib symmKeygen rng
      threshold := appSharedKey.key.threshold }
  return (.ok (.keyGen (.ack phase.keygenId phase.sessionHash)),
    { s with
      keygen.tmpKeygenPendingFinalize :=
        s.keygen.tmpKeygenPendingFinalize.insert phase.keygenId (phase.sessionHash, phase4) })


end Signer

end Device

end Frostsnap
