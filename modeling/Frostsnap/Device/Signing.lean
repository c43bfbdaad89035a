import Frostsnap.Device.Restoration

/-!
# Messages to a device

`recv_coordinator_message` and `sign_ack` of `device.rs`, and the batches of nonce jobs that a
device works on. The sessions of a signature are an iterator that the slot of the nonce stream runs
when it signs; a session that cannot be made is only missed then (`signSessions`).
-/

namespace Frostsnap

/-! ### Batches of nonce jobs -/

namespace NonceJobBatch

variable {Seed SecretNonce Nonce : Type}

/-- Do one unit of work on the current job, and say whether all jobs are done. -/
def doWork (d : NonceDerivation Seed SecretNonce Nonce) (batch : NonceJobBatch Seed Nonce) :
    NonceJobBatch Seed Nonce × Bool :=
  let batch :=
    match batch.tasks[batch.currentTaskIndex]? with
    | none => batch
    | some task =>
        let worked := task.doWork d
        { tasks := batch.tasks.set batch.currentTaskIndex worked.1
          currentTaskIndex :=
            if worked.2 then batch.currentTaskIndex + 1 else batch.currentTaskIndex }
  (batch, decide (batch.tasks.length ≤ batch.currentTaskIndex))

/-- The loop of `runUntilFinished`, `fuel` being an upper bound on the work left. -/
def runFor (d : NonceDerivation Seed SecretNonce Nonce) :
    ℕ → NonceJobBatch Seed Nonce → NonceJobBatch Seed Nonce
  | 0, batch => batch
  | fuel + 1, batch =>
      if (batch.doWork d).2 then (batch.doWork d).1 else (batch.doWork d).1.runFor d fuel

/-- The units of work that are left: one for each nonce, or one to find that there is none. -/
def workLeft (batch : NonceJobBatch Seed Nonce) : ℕ :=
  ((batch.tasks.drop batch.currentTaskIndex).map fun task =>
    task.targetIndex - task.index + 1).sum

/-- Run all jobs synchronously until completion. -/
def runUntilFinished (d : NonceDerivation Seed SecretNonce Nonce)
    (batch : NonceJobBatch Seed Nonce) : NonceJobBatch Seed Nonce :=
  batch.runFor d (batch.workLeft + 1)

/-- The segments of a batch that is done. -/
def intoSegments (batch : NonceJobBatch Seed Nonce) : Exec (List (NonceStreamSegment Nonce)) := do
  Exec.assert (batch.tasks.length ≤ batch.currentTaskIndex)
    "into_segments called on unfinished NonceJobBatch"
  batch.tasks.mapM NonceJob.intoSegment

end NonceJobBatch

namespace AbSlots

variable {S Seed SecretNonce Nonce Share Item : Type} [NonceStreamSlot S Seed Share]

/-- Sign with sessions that are made one by one as the slot signs. They are not looked at when
there is no slot for the stream, when its shares are cached, or when its nonces are used. -/
def signSessions [DecidableEq Seed] [DecidableEq Share]
    (d : NonceDerivation Seed SecretNonce Nonce) (sign : Item → SecretNonce → Share)
    (ab : AbSlots S) (sessionId : SignSessionId) (coordNonceState : CoordNonceStreamState)
    (sessions : List (Exec Item)) (nonceBatchSize : ℕ) :
    Exec (Except NoncesUnavailable (SignOutput Seed Nonce Share × AbSlots S)) :=
  match (ab.get coordNonceState.streamId).bind ab.value with
  | none =>
      ab.signGuaranteeingNoncesDestroyed d sign sessionId coordNonceState [] nonceBatchSize
  | some v =>
      if v.IsCached sessionId ∨ coordNonceState.index < v.index then
        ab.signGuaranteeingNoncesDestroyed d sign sessionId coordNonceState [] nonceBatchSize
      else do
        let items ← sessions.mapM id
        ab.signGuaranteeingNoncesDestroyed d sign sessionId coordNonceState items nonceBatchSize

end AbSlots

namespace Device

attribute [local instance] Build.release

variable {L : FrostLib} {D : DeviceLib L} {S : Type}

/-- Check the task of a request. -/
def checkGroupSignReq (D : DeviceLib L) (req : GroupSignReq Bitcoin.WireSignTask)
    (rootkey : Point) (purpose : KeyPurpose) :
    Exec (Except Bitcoin.SignTaskError (GroupSignReq Bitcoin.CheckedSignTask)) := do
  let masterAppkey := MasterAppkey.deriveFromRootkey L rootkey
  match ← req.signTask.check D.bitcoin masterAppkey purpose with
  | .error e => return .error e
  | .ok signTask =>
      return .ok
        { parties := req.parties
          aggNonces := req.aggNonces
          signTask := signTask
          accessStructureId := req.accessStructureId }

variable [NonceStreamSlot S SeedMaterial SignatureShare]

/-- The text of the error. -/
def noncesUnavailableText : NoncesUnavailable → String
  | .indexUsed current requested =>
      s!"Attempt to reuse nonces! Current index: {current}. Requested: {requested}."
  | .overflow => "nonces were requested beyond the final index"

namespace Signer

/-! ### Signing -/

/-- The phase that a signing request is accepted with, or why it is refused. -/
def checkRequestSign (s : Signer D S) (requestSign : RequestSign) :
    Exec (Except String (SignPhase1 D)) :=
  let groupSignReq := requestSign.groupSignReq
  let deviceSignReq := requestSign.deviceSignReq
  let sessionId := D.sessionId groupSignReq
  let keyId := keyIdFromRootkey L deviceSignReq.rootkey
  match s.keys[keyId]? with
  | none => return .error ("device doesn't have key for " ++ D.hex keyId)
  | some keyData => do
      match ← checkGroupSignReq D groupSignReq deviceSignReq.rootkey keyData.purpose with
      | .error e => return .error (signTaskErrorText e)
      | .ok groupSignReq =>
          match keyData.accessStructures[groupSignReq.accessStructureId]? with
          | none =>
              return .error ("this device is not part of that access structure: " ++
                D.hex groupSignReq.accessStructureId)
          | some accessStructureData =>
              match groupSignReq.parties.toList.findSome? fun party =>
                  accessStructureData.shares[party]? with
              | none => return .error "device doesn't have any of the shares requested"
              | some encryptedSecretShare =>
                  if (s.nonceSlots.get deviceSignReq.nonces.streamId).isNone then
                    return .error ("device did not have that nonce stream id " ++
                      D.hex deviceSignReq.nonces.streamId)
                  else
                    return .ok
                      { groupSignReq := groupSignReq
                        deviceSignReq := deviceSignReq
                        encryptedSecretShare := encryptedSecretShare
                        sessionId := sessionId }

/-- A signing request. -/
def recvRequestSign (s : Signer D S) (requestSign : RequestSign) : Exec (Answer D S) := do
  match ← s.checkRequestSign requestSign with
  | .error e => s.refuse "RequestSign" e
  | .ok phase => s.tellUser (.signatureRequest phase)

/-- The session of each signature: the key it is for, and the aggregate nonce at its index. -/
def signSessionsOf (phase : SignPhase1 D) (appPairedSecretShare : Xpub PairedSecretShare) :
    List (Exec (PairedSecretShare × D.PartySignSession)) :=
  let req := phase.groupSignReq
  (req.signTask.signItems D.bitcoin).zipIdx.map fun (signItem, signatureIndex) => do
    let derivedXonlyKey := D.deriveXonlyShare signItem.appTweak appPairedSecretShare
    let aggNonce ← Exec.expect req.aggNonces[signatureIndex]? "index out of bounds"
    return (derivedXonlyKey,
      D.partySignSession derivedXonlyKey.publicKey req.parties aggNonce signItem)

/-- Run the job that a signature leaves, if any. -/
def runReplenishTask (symmKeygen : DeviceSecretDerivation) :
    Option (NonceJob SeedMaterial Binonce) → Exec (Option NonceSegment)
  | none => return none
  | some task => do
      let segment ← (task.runUntilFinished symmKeygen.nonces).intoSegment
      return some segment

/-- Sign what the user has agreed to. -/
def signAck (s : Signer D S) (phase : SignPhase1 D) (symmKeygen : DeviceSecretDerivation) :
    Exec (Except ActionError (List (DeviceSend D)) × Signer D S) :=
  let deviceSignReq := phase.deviceSignReq
  let keyId := keyIdFromRootkey L deviceSignReq.rootkey
  let myPartyIndex := phase.encryptedSecretShare.shareImage.index
  let ref : AccessStructureRef :=
    { keyId := keyId, accessStructureId := phase.groupSignReq.accessStructureId }
  let symmetricKey := symmKeygen.getShareEncryptionKey ref myPartyIndex
    deviceSignReq.coordShareDecryptionContrib
  match D.decrypt symmetricKey phase.encryptedSecretShare.ciphertext with
  | none => return (.error (.stateInconsistent "couldn't decrypt secret share"), s)
  | some secretShare => do
      let rootPairedSecretShare : PairedSecretShare :=
        { secretShare := { index := myPartyIndex, share := secretShare }
          publicKey := deviceSignReq.rootkey }
      let appPairedSecretShare := D.shareToMasterAppkey rootPairedSecretShare
      let sessions := signSessionsOf phase appPairedSecretShare
      match ← s.nonceSlots.signSessions symmKeygen.nonces
          (fun (key, session) => D.sign session key) phase.sessionId deviceSignReq.nonces sessions
          s.nonceBatchSize with
      | .error e => return (.error (.stateInconsistent (noncesUnavailableText e)), s)
      | .ok ((signatureShares, replenishTask), nonceSlots) =>
          let s := { s with nonceSlots := nonceSlots }
          let replenishNonces ← runReplenishTask symmKeygen replenishTask
          return (.ok [.toCoordinator (.signing
            (.signatureShare phase.sessionId signatureShares replenishNonces))], s)

/-! ### All messages -/

/-- Open nonce streams. -/
def recvOpenNonceStreams (s : Signer D S) (streams : List CoordNonceStreamState)
    (seeds : ℕ → SeedMaterial) : Exec (Answer D S) := do
  let (nonceSlots, reply) ← s.nonceSlots.recvOpenNonceStreams streams s.nonceBatchSize seeds
  let s := { s with nonceSlots := nonceSlots }
  match reply with
  | .nonceResponse segments =>
      return (.ok [.toCoordinator (.signing (.nonceResponse segments))], s)
  | .nonceJobs batch => s.tellUser (.nonceJobs batch)

/-- `wallet_network`. -/
def walletNetwork (s : Signer D S) (keyId : KeyId) : Option Network :=
  match s.keys[keyId]?.map KeyData.purpose with
  | some (.bitcoin network) => some network
  | _ => none

/-- Show an address of a key that the device knows. -/
def recvVerifyAddress (s : Signer D S) (masterAppkey : MasterAppkey)
    (derivationIndex : NormalIndex) : Exec (Answer D S) :=
  let keyId := L.keyIdOfMasterAppkey masterAppkey
  match s.keys[keyId]? with
  | none => s.refuse "VerifyAddress" ("device doesn't have key for " ++ D.hex keyId)
  | some _ => do
      let bip32Path : BitcoinBip32Path :=
        { accountKeychain := .external, index := derivationIndex }
      let spk : Bitcoin.LocalSpk := { masterAppkey := masterAppkey, bip32Path := bip32Path }
      let network ← Exec.expect (s.walletNetwork keyId)
        "cannot verify address on key that doesn't support bitcoin"
      let address ← Exec.expect (D.bitcoin.addressFromScript (spk.spk D.bitcoin) network)
        "has address form"
      s.tellUser (.verifyAddress address bip32Path)

/-- Handle a message, with what is drawn for it from the random number generator. -/
def recvCoordinatorMessage (s : Signer D S) (message : CoordinatorToDeviceMessage L)
    (rng : L.Rng) (seeds : ℕ → SeedMaterial) : Exec (Answer D S) :=
  match message with
  | .signing (.openNonceStreams streams) => s.recvOpenNonceStreams streams seeds
  | .keyGen keygenMsg => s.recvKeygenMessage keygenMsg rng
  | .signing (.requestSign requestSign) => s.recvRequestSign requestSign
  | .screenVerify (.verifyAddress masterAppkey derivationIndex) =>
      s.recvVerifyAddress masterAppkey derivationIndex
  | .restoration message => s.recvRestorationMessage message

end Signer

end Device

end Frostsnap
