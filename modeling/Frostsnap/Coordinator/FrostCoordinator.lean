import Frostsnap.Coordinator.Messages

/-!
# The coordinator

Key generation and signing sessions. This module embeds `coordinator.rs`: its state, `mutate`,
what it does with messages about key generations and signatures, and its operations.

An operation that can fail gives an `Except`, with the state it leaves. Most of them check
everything before they change anything, and are written with `checked`.
-/

namespace Frostsnap.Coordinator

/-! ### Key generations -/

/-- The devices have to send their input. -/
structure KeyGenWaitingForResponses (L : FrostLib) where
  keygenId : KeygenId
  inputAggregator : L.InputAggregator
  devicesInOrder : List DeviceId
  pendingKeyName : String
  purpose : KeyPurpose
  contributer : L.Contributer
  myKeypair : L.KeyPair

/-- The devices have to certify the aggregated input. -/
structure KeyGenWaitingForCertificates (L : FrostLib) where
  keygenId : KeygenId
  devicesInOrder : List DeviceId
  pendingKeyName : String
  purpose : KeyPurpose
  certifier : L.Certifier
  coordinatorKeypair : L.KeyPair

/-- The users have to compare the session hash. -/
structure KeyGenWaitingForAcks (L : FrostLib) where
  certifiedKeygen : L.CertifiedKeygen
  devicesInOrder : List DeviceId
  acks : BTreeSet DeviceId
  pendingKeyName : String
  purpose : KeyPurpose

/-- The key is there, and has to be saved. -/
structure KeyGenNeedsFinalize where
  rootSharedKey : SharedKey
  deviceToShareIndex : BTreeMap DeviceId ShareIndex
  pendingKeyName : String
  purpose : KeyPurpose

/-- How far a key generation is. -/
inductive KeyGenState (L : FrostLib) where
  | waitingForResponses (state : KeyGenWaitingForResponses L)
  | waitingForCertificates (state : KeyGenWaitingForCertificates L)
  | waitingForAcks (state : KeyGenWaitingForAcks L)
  | needsFinalize (state : KeyGenNeedsFinalize)

/-- API input for beginning a key generation. -/
structure BeginKeygen where
  keygenId : KeygenId
  devicesInOrder : List DeviceId
  threshold : ℕ
  keyName : String
  purpose : KeyPurpose

/-! ### The state -/

/-- A device and the share it is asked to save. -/
abbrev SaveKey := DeviceId × ShareImage

/-- Devices in order, and then shares in order. -/
def SaveKey.cmp : SaveKey → SaveKey → Ordering :=
  compareLex (compareOn Prod.fst) (compareOn Prod.snd)

instance : Std.TransCmp SaveKey.cmp :=
  inferInstanceAs (Std.TransCmp (compareLex (compareOn (Prod.fst : SaveKey → DeviceId))
    (compareOn Prod.snd)))

/-- The coordinator. -/
structure FrostCoordinator (L : FrostLib) extends Persistent L where
  pendingKeygens : BTreeMap KeygenId (KeyGenState L)
  mutations : List (Mutation L)
  /-- For when we ask a device to enter a backup and we plan to immediately consolidate it because
  we already know the access structure. -/
  tmpWaitingConsolidate : BTreeSet PendingConsolidation
  tmpWaitingSave : Std.ExtTreeMap SaveKey (RestorationId × HeldShare2) SaveKey.cmp
  keygenFingerprint : Fingerprint

/-- `Error::coordinator_invalid_message`. -/
def coordinatorInvalidMessage (kind reason : String) : Error := .invalidMessage kind reason

variable {L : FrostLib}

namespace FrostCoordinator

/-- `FrostCoordinator::new`. -/
def new (L : FrostLib) : FrostCoordinator L where
  toPersistent := .empty L
  pendingKeygens := ∅
  mutations := []
  tmpWaitingConsolidate := ∅
  tmpWaitingSave := ∅
  keygenFingerprint := L.defaultFingerprint

/-- An operation that checks before it changes anything. -/
def checked {ε α β : Type} (check : Exec (Except ε α)) (s : FrostCoordinator L)
    (act : α → Exec (β × FrostCoordinator L)) : Exec (Except ε β × FrostCoordinator L) := do
  match ← check with
  | .error e => return (.error e, s)
  | .ok a =>
      let (b, s) ← act a
      return (.ok b, s)

/-- Take a key generation out of the pending ones. -/
def takeEntry (s : FrostCoordinator L) (keygenId : KeygenId) :
    Option (KeyGenState L) × FrostCoordinator L :=
  (s.pendingKeygens[keygenId]?, { s with pendingKeygens := s.pendingKeygens.erase keygenId })

/-- Put a key generation back. -/
def insertEntry (s : FrostCoordinator L) (keygenId : KeygenId) (state : KeyGenState L) :
    FrostCoordinator L :=
  { s with pendingKeygens := s.pendingKeygens.insert keygenId state }

variable [Build]

/-- `apply_mutation`. With a key goes what waits to be consolidated into it. -/
def applyMutation (s : FrostCoordinator L) (m : Mutation L) :
    Exec (Option (Mutation L) × FrostCoordinator L) := do
  let (reduced, p) ← s.toPersistent.applyMutation s.keygenFingerprint m
  let s := { s with toPersistent := p }
  match m, reduced with
  | .keygen (.deleteKey keyId), some _ =>
      return (reduced,
        { s with
          tmpWaitingConsolidate := s.tmpWaitingConsolidate.filter
            fun consolidation => consolidation.accessStructureRef.keyId != keyId })
  | _, _ => return (reduced, s)

/-- Apply a mutation and stage it, when it changed anything. -/
def mutate (s : FrostCoordinator L) (m : Mutation L) : Exec (FrostCoordinator L) := do
  let (reduced, s) ← s.applyMutation m
  match reduced with
  | some m => return { s with mutations := s.mutations ++ [m] }
  | none => return s

/-- Mutations one after the other. -/
def mutateAll (s : FrostCoordinator L) : List (Mutation L) → Exec (FrostCoordinator L)
  | [] => .ret s
  | m :: ms => do
      let s ← s.mutate m
      s.mutateAll ms

/-! ### Messages about nonces -/

/-- The loop over the segments of a nonce response. -/
def recvNonceSegments (sender : DeviceId) :
    List NonceSegment → FrostCoordinator L → Exec (Except Error Unit × FrostCoordinator L)
  | [], s => .ret (.ok (), s)
  | newSegment :: rest, s => do
      match ← s.nonceCache.checkCanExtend sender newSegment with
      | .error e =>
          return (.error (coordinatorInvalidMessage "NonceResponse"
            ("couldn't extend nonces: " ++ e.display)), s)
      | .ok () =>
          let s ← s.mutate (.signing (.newNonces sender newSegment))
          recvNonceSegments sender rest s

/-- A nonce response of a device. -/
def recvNonceResponse (s : FrostCoordinator L) (sender : DeviceId)
    (segments : List NonceSegment) :
    Exec (Except Error (List (CoordinatorSend L)) × FrostCoordinator L) := do
  let (received, s) ← recvNonceSegments sender segments s
  return (received.map fun _ => [.toUser (.replenishedNonces sender)], s)

/-! ### Messages about key generations -/

/-- A device sends its input. -/
def recvKeygenResponse (s : FrostCoordinator L) (sender : DeviceId) (keygenId : KeygenId)
    (input : L.KeygenInput) :
    Exec (Except Error (List (CoordinatorSend L)) × FrostCoordinator L) :=
  let (state, s) := s.takeEntry keygenId
  match state with
  | some (.waitingForResponses state) =>
      match state.devicesInOrder.idxOf? sender with
      | none =>
          .ret (.error (coordinatorInvalidMessage "KeyGen"
            "got share from device that was not part of keygen"), s)
      | some receiverIdx =>
          match L.addInput state.inputAggregator (.receiver (asU32 receiverIdx)) input with
          | .error e => .ret (.error (coordinatorInvalidMessage "KeyGen" e), s)
          | .ok inputAggregator =>
              let received : CoordinatorSend L :=
                .toUser (.keyGen keygenId (.receivedShares sender))
              if L.aggregatorIsFinished inputAggregator then do
                let aggInput ← Exec.expect
                  (L.finishWithFingerprint inputAggregator s.keygenFingerprint)
                  "input aggregator just reported finished"
                let (certifier, sig) ← Exec.expect
                  (L.verifyAggInput state.contributer aggInput state.myKeypair)
                  "will be able to certify agg_input we created"
                let certifier ← Exec.expect
                  (L.receiveCertificate certifier (L.publicKeyOfPair state.myKeypair) sig)
                  "will be able to verify our own certificate"
                return (.ok
                  [received, .toDevice (.keyGen (.certifyPlease keygenId aggInput))
                    (.ofList state.devicesInOrder compare)],
                  s.insertEntry keygenId (.waitingForCertificates
                    { keygenId := state.keygenId
                      devicesInOrder := state.devicesInOrder
                      pendingKeyName := state.pendingKeyName
                      purpose := state.purpose
                      certifier := certifier
                      coordinatorKeypair := state.myKeypair }))
              else
                .ret (.ok [received], s.insertEntry keygenId
                  (.waitingForResponses { state with inputAggregator := inputAggregator }))
  | _ =>
      .ret (.error (coordinatorInvalidMessage "KeyGen"
        "keygen wasn't in WaitingForResponses state"), s)

/-- A device certifies the aggregated input. -/
def recvKeygenCertify (s : FrostCoordinator L) (sender : DeviceId) (keygenId : KeygenId)
    (vrfCert : L.CertVrfProof) :
    Exec (Except Error (List (CoordinatorSend L)) × FrostCoordinator L) :=
  let (state, s) := s.takeEntry keygenId
  match state with
  | some (.waitingForCertificates state) => do
      let publicKey ← sender.pubkey L
      match L.receiveCertificate state.certifier publicKey vrfCert with
      | none =>
          return (.error (coordinatorInvalidMessage "KeyGen" "Invalid VRF proof received"), s)
      | some certifier =>
          -- contributers are the devices plus one coordinator
          if L.certifierIsFinished certifier then do
            let certifiedKeygen ← Exec.expect (L.certifierFinish certifier)
              "just checked is_finished"
            return (.ok
              [.toDevice (.keyGen (.check keygenId (L.certificate certifiedKeygen)))
                (.ofList state.devicesInOrder compare),
                .toUser (.keyGen keygenId (.checkKeyGen (L.sessionHash certifiedKeygen)))],
              s.insertEntry keygenId (.waitingForAcks
                { certifiedKeygen := certifiedKeygen
                  devicesInOrder := state.devicesInOrder
                  acks := ∅
                  pendingKeyName := state.pendingKeyName
                  purpose := state.purpose }))
          else
            return (.ok [], s.insertEntry keygenId
              (.waitingForCertificates { state with certifier := certifier }))
  | _ =>
      .ret (.error (coordinatorInvalidMessage "KeyGen"
        "received VRF proof for keygen but this keygen wasn't in WaitingForCertificates state"), s)

/-- The share index of each device: the devices are in the order of the receivers. -/
def collectShareIndices :
    List (DeviceId × ShareIndex × Point) → BTreeMap DeviceId ShareIndex →
      Exec (BTreeMap DeviceId ShareIndex)
  | [], deviceToShareIndex => .ret deviceToShareIndex
  | (device, shareIndex, receiverKey) :: rest, deviceToShareIndex => do
      let publicKey ← device.pubkey L
      Exec.assert (publicKey = receiverKey) "device order must match keygen receiver order"
      collectShareIndices rest (deviceToShareIndex.insert device shareIndex)

/-- A device acknowledges the session hash. -/
def recvKeygenAck (s : FrostCoordinator L) (sender : DeviceId) (keygenId : KeygenId)
    (ackSessionHash : SessionHash) :
    Exec (Except Error (List (CoordinatorSend L)) × FrostCoordinator L) :=
  let (state, s) := s.takeEntry keygenId
  match state with
  | some (.waitingForAcks state) =>
      if ackSessionHash ≠ L.sessionHash state.certifiedKeygen then
        .ret (.error (coordinatorInvalidMessage "KeyGen"
          "Device acked wrong keygen session hash"), s.insertEntry keygenId (.waitingForAcks state))
      else if sender ∉ state.devicesInOrder then
        .ret (.error (coordinatorInvalidMessage "KeyGen"
          "Received ack from device not a member of keygen"),
          s.insertEntry keygenId (.waitingForAcks state))
      else if state.acks.contains sender then
        .ret (.ok [], s.insertEntry keygenId (.waitingForAcks state))
      else
        let acks := state.acks.insert sender
        let allAcksReceived := decide (acks.size = state.devicesInOrder.length)
        let ack : CoordinatorSend L :=
          .toUser (.keyGen keygenId (.keyGenAck sender allAcksReceived))
        if allAcksReceived then do
          Exec.assert (L.nReceivers state.certifiedKeygen = state.devicesInOrder.length)
            "chilldkg receiver count must match devices_in_order"
          let deviceToShareIndex ← collectShareIndices (L := L)
            (state.devicesInOrder.zip (L.receiverKeys state.certifiedKeygen)) ∅
          return (.ok [ack], s.insertEntry keygenId (.needsFinalize
            { rootSharedKey := L.sharedKeyOfKeygen state.certifiedKeygen
              deviceToShareIndex := deviceToShareIndex
              pendingKeyName := state.pendingKeyName
              purpose := state.purpose }))
        else
          .ret (.ok [ack], s.insertEntry keygenId (.waitingForAcks { state with acks := acks }))
  | _ =>
      .ret (.error (coordinatorInvalidMessage "KeyGen"
        "received ACK for keygen but this keygen wasn't in WaitingForAcks state"), s)

end FrostCoordinator

end Frostsnap.Coordinator
