import Frostsnap.Comms.DaisyChain
import Frostsnap.Comms.WireRoundTrip
import Frostsnap.Device.PlainDevice
import Frostsnap.Embedded.Erase
import Frostsnap.Embedded.FlashLog

/-!
# The main loop of a device

This module embeds `poll` of `device_loop.rs` and the queue of `connection.rs`. One iteration takes
what the two ports have received and writes at most one message upstream. Unless the device has left
the loop or an attestation is in flight, it then handles the messages for the device, writes the
staged mutations to the log, and goes through what the signer wants sent and what the user has done.

What the ports, the user and the peripherals do in an iteration is a `Tick`. Of the mutation log
there is what it holds, in the log and in the share slot; `takes` says whether the flash takes one
more. What is shown on the screen is left out.

## Main results

* `DeviceLoop.handleSend_outbox`: the loop over the outbox ends, since only a consolidation adds to
  it, and what it adds is a message to the coordinator.
-/

namespace Frostsnap

namespace Device

open Wire (payloads ReceiveSerial)

attribute [local instance] Build.release

variable {L : FrostLib}

/-! ### The log of a device that runs -/

/-- The mutation log between two starts. What a start found and what was pushed since stand beside
what is stored, to say what a run has done; nothing reads them. -/
structure StoredLog (Cipher Backup : Type) where
  contents : LogContents Cipher Backup
  found : LogContents Cipher Backup
  pushed : List (LogMutation Cipher Backup)
  contents_eq : contents = found.append pushed

namespace StoredLog

variable {Cipher Backup : Type}

/-- The log as a start finds it. -/
def start (found : LogContents Cipher Backup) : StoredLog Cipher Backup where
  contents := found
  found := found
  pushed := []
  contents_eq := rfl

/-- Persist a mutation. -/
def push (log : StoredLog Cipher Backup) (m : LogMutation Cipher Backup) :
    StoredLog Cipher Backup where
  contents := log.contents.push m
  found := log.found
  pushed := log.pushed ++ [m]
  contents_eq := by
    rw [LogContents.append_append, ← log.contents_eq]
    rfl

/-- Persist mutations in order. -/
def append (log : StoredLog Cipher Backup) (ms : List (LogMutation Cipher Backup)) :
    StoredLog Cipher Backup :=
  ms.foldl push log

/-- Pushes do not change what was found, and are added to what was pushed. -/
theorem append_eq (log : StoredLog Cipher Backup) (ms : List (LogMutation Cipher Backup)) :
    (log.append ms).found = log.found ∧ (log.append ms).pushed = log.pushed ++ ms := by
  induction ms generalizing log with
  | nil => exact ⟨rfl, (List.append_nil _).symm⟩
  | cons m ms ih =>
      obtain ⟨hfound, hpushed⟩ := ih (log.push m)
      exact ⟨hfound, hpushed.trans (List.append_assoc _ _ _)⟩

end StoredLog

/-! ### The upstream connection -/

inductive UpstreamConnectionState where
  /-- There is power from the upstream port. -/
  | powerOn
  /-- Magic bytes were received. -/
  | established
  /-- The coordinator has acknowledged us. -/
  | establishedAndCoordAck
  deriving DecidableEq

inductive DownstreamConnectionState where
  | disconnected
  | connected
  | established
  deriving DecidableEq

/-- A message of a device, as it is sent upstream. -/
abbrev UpstreamMessage (L : FrostLib) := DeviceSendMessage (payloads L)

structure UpstreamConnection (L : FrostLib) where
  state : UpstreamConnectionState
  messages : List (UpstreamMessage L)
  announcement : Option (UpstreamMessage L)
  myDeviceId : DeviceId

namespace UpstreamConnection

def new (myDeviceId : DeviceId) : UpstreamConnection L where
  state := .powerOn
  messages := []
  announcement := none
  myDeviceId := myDeviceId

/-- Our own messages are dropped when the connection is reset, and those of devices downstream
are kept. -/
def setState (c : UpstreamConnection L) (state : UpstreamConnectionState) :
    UpstreamConnection L :=
  match state with
  | .powerOn =>
      { c with
        state := state
        messages := c.messages.filter fun m => m.from_ != c.myDeviceId }
  | .established | .establishedAndCoordAck => { c with state := state }

/-- The next message to write, if the connection is in a state to write it. -/
def dequeueMessage (c : UpstreamConnection L) :
    Option (UpstreamMessage L) × UpstreamConnection L :=
  match c.announcement, c.state with
  | some announcement, .established | some announcement, .establishedAndCoordAck =>
      (some announcement, { c with announcement := none })
  | _, .establishedAndCoordAck =>
      (c.messages.head?, { c with messages := c.messages.tail })
  | _, _ => (none, c)

/-- A message of this device. -/
def own (c : UpstreamConnection L) (body : DeviceSendBody (payloads L)) : UpstreamMessage L where
  from_ := c.myDeviceId
  body := .ok body

def sendAnnouncement (c : UpstreamConnection L) (announcement : DeviceSendBody (payloads L)) :
    UpstreamConnection L :=
  { c with announcement := some (c.own announcement) }

def sendToCoordinator (c : UpstreamConnection L) (bodies : List (DeviceSendBody (payloads L))) :
    UpstreamConnection L :=
  { c with messages := c.messages ++ bodies.map c.own }

def forwardToCoordinator (c : UpstreamConnection L) (message : UpstreamMessage L) :
    UpstreamConnection L :=
  { c with messages := c.messages ++ [message] }

def sendDebug (c : UpstreamConnection L) (message : String) : UpstreamConnection L :=
  match c.state with
  | .establishedAndCoordAck => c.sendToCoordinator [.debug message]
  | .powerOn | .established => c

end UpstreamConnection

/-! ### What happens to a device -/

variable (D : DeviceLib L)

/-- What the user has done. -/
inductive UiEvent where
  | keyGenConfirm (phase : KeyGenPhase3)
  | signingConfirm (phase : SignPhase1 D)
  | enteredShareBackup (phase : EnterBackupPhase) (shareBackup : D.Backup)
  | backupRecorded
  | upgradeConfirm
  | eraseDataConfirm
  | backupChecked (accessStructureRef : AccessStructureRef) (shareIndex : ShareIndex)

inductive AttestError where
  | noFactoryKey
  | factoryDataUnreadable
  | rejected

inductive AttestPoll where
  | normal
  | inFlight
  | done (outcome : Except AttestError Genuine.DsSignature)

/-- What a device meets in one iteration. -/
structure Tick where
  downstreamPresent : Bool
  nowMs : ℕ
  /-- `find_and_remove_magic_bytes` of the port -/
  downstreamMagicBytes : Bool
  /-- what the port gives before it has nothing more -/
  downstreamReceived : List (Except String (ReceiveSerial (UpstreamMessage L)))
  upstreamMagicBytes : Bool
  upstreamReceived :
    List (Except String (ReceiveSerial (CoordinatorSendMessage WireCoordinatorSendBody)))
  firmwareDigest : Sha256Digest
  /-- whether an upgrade that is entered succeeds -/
  upgrades : Bool
  /-- whether the firmware service has an `AckUpgradeMode` to send, which is all it sends -/
  acksUpgradeMode : Bool
  /-- what the erase gives if one is under way -/
  erasePoll : ErasePoll
  uiEvent : Option (UiEvent D)
  attest : AttestPoll
  /-- whether no attestation is in flight any more -/
  normalMode : Bool
  certificate : Option Genuine.Certificate
  /-- what is drawn for the message of that number -/
  messageRng : ℕ → L.Rng
  seeds : ℕ → ℕ → SeedMaterial
  /-- what is drawn for the send and the event of that number -/
  sendRng : ℕ → L.Rng
  eventRng : ℕ → L.Rng
  elapsedMs : ℕ

/-- `Poll`, or a device that waits to be power cycled. -/
inductive Poll where
  | continue
  | resetRequested
  | parked
  deriving DecidableEq

/-- What a device gets from elsewhere for as long as it runs. -/
structure Peripherals where
  symmKeygen : DeviceSecretDerivation
  /-- how encapsulated bytes are decoded -/
  decodeEncaps : List UInt8 → Option (CoordinatorSendBody (payloads L))
  /-- whether the flash takes a mutation more than it holds -/
  takes : LogContents D.Cipher D.Backup → LogMutation D.Cipher D.Backup → Bool
  genuine : Genuine.Crypto
  /-- `Schnorr::sign` of a tagged message -/
  schnorrSign : L.KeyPair → String → List UInt8 → Genuine.Signature

structure DeviceLoop (S : Type) where
  mutationLog : StoredLog D.Cipher D.Backup
  signer : Signer D S
  name : Option DeviceName
  deviceId : DeviceId
  upstreamConnection : UpstreamConnection L
  softReset : Bool
  downstreamConnectionState : DownstreamConnectionState
  outbox : List (DeviceSend D)
  uiEvents : List (UiEvent D)
  nonceTaskBatch : Option (NonceJobBatch SeedMaterial Binonce)
  inbox : List (CoordinatorSendBody (payloads L))
  nextWriteMagicBytesDownstreamMs : ℕ
  magicBytesTimeoutCounter : ℕ
  /-- whether there is an `erase_state` -/
  erasing : Bool
  pendingDeviceName : Option DeviceName

variable {D} {S : Type}

/-- `clear_tmp_data`. -/
def Signer.clearTmpData (s : Signer D S) : Signer D S :=
  { s with
    keygen := KeygenState.clearTmpData D
    restoration.tmpLoadedBackups := ∅ }

/-- What is left to do for a send: a consolidation adds another. -/
def DeviceSend.weight : DeviceSend D → ℕ
  | .toUser (.restoration (.consolidateBackup _)) => 2
  | _ => 1

theorem DeviceSend.weight_pos (send : DeviceSend D) : 0 < send.weight := by
  unfold DeviceSend.weight
  split
  · exact Nat.succ_pos 1
  · exact Nat.one_pos

abbrev MAGIC_BYTES_PERIOD : ℕ := 100

abbrev MAGIC_BYTES_RESET_THRESHOLD : ℕ := 9

namespace DeviceLoop

/-- A device with what a start has read from its log. -/
def new (signer : Signer D S) (name : Option DeviceName)
    (found : LogContents D.Cipher D.Backup) : DeviceLoop D S where
  mutationLog := .start found
  signer := signer
  name := name
  deviceId := signer.deviceId
  upstreamConnection := .new signer.deviceId
  softReset := true
  downstreamConnectionState := .disconnected
  outbox := []
  uiEvents := []
  nonceTaskBatch := none
  inbox := []
  nextWriteMagicBytesDownstreamMs := 0
  magicBytesTimeoutCounter := 0
  erasing := false
  pendingDeviceName := none

/-- Queue messages of this device. -/
def sendToCoordinator (s : DeviceLoop D S) (bodies : List (DeviceSendBody (payloads L))) :
    DeviceLoop D S :=
  { s with upstreamConnection := s.upstreamConnection.sendToCoordinator bodies }

def sendDebug (s : DeviceLoop D S) (message : String) : DeviceLoop D S :=
  { s with upstreamConnection := s.upstreamConnection.sendDebug message }

/-- Start over with the connection. An erase that is under way and mutations that are staged
stay. -/
def resetSoftly (s : DeviceLoop D S) : DeviceLoop D S :=
  if s.softReset then
    { s with
      softReset := false
      magicBytesTimeoutCounter := 0
      signer := s.signer.clearTmpData
      downstreamConnectionState := .disconnected
      upstreamConnection := s.upstreamConnection.setState .powerOn
      nextWriteMagicBytesDownstreamMs := 0
      pendingDeviceName := none
      outbox := []
      nonceTaskBatch := none
      inbox := []
      uiEvents := [] }
  else s

/-! ### Downstream -/

/-- Tell the coordinator that the device downstream is gone. -/
def disconnectDownstream (s : DeviceLoop D S) : DeviceLoop D S :=
  { s.sendToCoordinator [.disconnectDownstream] with
    downstreamConnectionState := .disconnected }

/-- Read from downstream. Magic bytes disconnect, and the reading goes on all the same. -/
def receiveDownstream (s : DeviceLoop D S) :
    List (Except String (ReceiveSerial (UpstreamMessage L))) → DeviceLoop D S
  | [] => s
  | .ok .magicBytes :: rest =>
      (s.sendDebug "downstream device sent unexpected magic bytes").disconnectDownstream
        |>.receiveDownstream rest
  | .ok (.message message) :: rest =>
      { s with upstreamConnection := s.upstreamConnection.forwardToCoordinator message }
        |>.receiveDownstream rest
  | .ok .reset :: _ => s.disconnectDownstream
  | .ok _ :: rest => s.receiveDownstream rest
  | .error e :: _ =>
      (s.sendDebug ("Failed to decode on downstream port: " ++ e)).disconnectDownstream

/-- The downstream connection. -/
def connectDownstream (s : DeviceLoop D S) (tick : Tick D) : DeviceLoop D S :=
  match tick.downstreamPresent, s.downstreamConnectionState with
  | true, .disconnected => { s with downstreamConnectionState := .connected }
  | true, .connected =>
      let s :=
        if s.nextWriteMagicBytesDownstreamMs < tick.nowMs then
          { s with nextWriteMagicBytesDownstreamMs := tick.nowMs + MAGIC_BYTES_PERIOD }
        else s
      if tick.downstreamMagicBytes then
        { s with downstreamConnectionState := .established }.sendDebug
          "Device read magic bytes from another device!"
      else s
  | false, .established => s.disconnectDownstream
  | false, .connected => { s with downstreamConnectionState := .disconnected }
  | true, .established | false, .disconnected => s

def pollDownstream (s : DeviceLoop D S) (tick : Tick D) : DeviceLoop D S :=
  let s := s.connectDownstream tick
  if s.downstreamConnectionState = .established then s.receiveDownstream tick.downstreamReceived
  else s

/-! ### Upstream -/

variable (H : Peripherals D)

/-- Answer the magic bytes of upstream. -/
def announce (s : DeviceLoop D S) (tick : Tick D) : DeviceLoop D S :=
  let connection := (s.upstreamConnection.sendAnnouncement
      (.announce tick.firmwareDigest)).sendToCoordinator
    [match s.name with
      | some name => .setName name
      | none => .needName]
  { s with upstreamConnection := connection.setState .established }

/-- Read from upstream, having read magic bytes last or not: what is sent downstream, whether magic
bytes were read last, and whether the device has left the loop to upgrade. -/
def receiveUpstream (s : DeviceLoop D S) (lastMessageWasMagicBytes : Bool) :
    List (Except String (ReceiveSerial (CoordinatorSendMessage WireCoordinatorSendBody))) →
      Exec (DeviceLoop D S × List DaisyChain.Message × Bool × Bool)
  | [] => return (s, [], lastMessageWasMagicBytes, false)
  | .error e :: _ => .panic ("upstream read fail:\n" ++ e)
  | .ok (.message message) :: rest =>
      let link : DaisyChain.Link :=
        { deviceId := s.deviceId
          established := s.downstreamConnectionState = .established }
      let (received, sent) := DaisyChain.receive H.decodeEncaps link
        { delivered := [], inbox := s.inbox, left := false } message
      let s := { s with inbox := received.inbox }
      if received.left then return (s, sent, false, true)
      else do
        let (s, sent', last, left) ← s.receiveUpstream false rest
        return (s, sent ++ sent', last, left)
  | .ok .magicBytes :: rest => s.receiveUpstream true rest
  | .ok _ :: rest => s.receiveUpstream false rest

/-- Magic bytes were read last: the coordinator starts over, or has not seen the announcement. -/
def countMagicBytes (s : DeviceLoop D S) : DeviceLoop D S :=
  match s.upstreamConnection.state with
  | .establishedAndCoordAck => { s with softReset := true }
  | .powerOn | .established =>
      if MAGIC_BYTES_RESET_THRESHOLD < s.magicBytesTimeoutCounter then
        { s with
          upstreamConnection := s.upstreamConnection.setState .powerOn
          magicBytesTimeoutCounter := 0 }
      else { s with magicBytesTimeoutCounter := s.magicBytesTimeoutCounter + 1 }

/-- The messages of the firmware service and of an erase that is under way. -/
def pollServices (s : DeviceLoop D S) (tick : Tick D) : DeviceLoop D S × Poll :=
  let s := if tick.acksUpgradeMode then s.sendToCoordinator [.misc .ackUpgradeMode] else s
  match s.erasing, tick.erasePoll with
  | true, .sendConfirmation => (s.sendToCoordinator [.misc .eraseConfirmed], .continue)
  | true, .reset => (s, .resetRequested)
  | _, _ => (s, .continue)

def pollUpstream (s : DeviceLoop D S) (tick : Tick D) :
    Exec (DeviceLoop D S × List DaisyChain.Message × Poll) :=
  match s.upstreamConnection.state with
  | .powerOn => return (if tick.upstreamMagicBytes then s.announce tick else s, [], .continue)
  | .established | .establishedAndCoordAck => do
      let (s, sent, last, left) ← s.receiveUpstream H false tick.upstreamReceived
      if left then return (s, sent, if tick.upgrades then .resetRequested else .parked)
      else
        let s := if last then s.countMagicBytes else s
        let (s, poll) := s.pollServices tick
        return (s, sent, poll)

/-! ### The genuine check -/

/-- `attested_device`. -/
def attestedDevice (s : DeviceLoop D S) (tick : Tick D) : Option Genuine.AttestedDevice :=
  tick.certificate.map fun certificate => { deviceId := s.deviceId, certificate := certificate }

def sendFactoryAttestation (s : DeviceLoop D S) (tick : Tick D)
    (outcome : Except AttestError Genuine.DsSignature) : DeviceLoop D S :=
  match outcome, s.attestedDevice tick with
  | .ok signature, some attested =>
      s.sendToCoordinator [.genuineCheck (.factoryAttestation attested ⟨signature⟩)]
  | _, _ => s

/-- Send the outcome of an attestation that is done. -/
def pollAttestation (s : DeviceLoop D S) (tick : Tick D) : DeviceLoop D S :=
  match tick.attest with
  | .done outcome => s.sendFactoryAttestation tick outcome
  | .normal | .inFlight => s

/-- Answer a genuine check. A factory attestation is only started. -/
def genuineCheck (s : DeviceLoop D S) (tick : Tick D) (message : Genuine.CoordinatorMessage) :
    DeviceLoop D S :=
  match s.attestedDevice tick with
  | none => s
  | some attested =>
      let digest := attested.digest H.genuine
      match message.deviceAction digest with
      | .factoryAttest _ => s
      | .identityAttest challenge =>
          let message : Genuine.IdentityMessage := ⟨challenge, digest⟩
          s.sendToCoordinator [.genuineCheck (.identityAttestation
            (H.schnorrSign s.signer.keypair Genuine.IDENTITY_MESSAGE_TAG message.toSigningBytes))]

/-! ### Messages for the device -/

section

variable [NonceStreamSlot S SeedMaterial SignatureShare]

/-- Handle one message. -/
def processMessage (s : DeviceLoop D S) (tick : Tick D) (i : ℕ) :
    CoordinatorSendBody (payloads L) → Exec (DeviceLoop D S)
  | .cancel =>
      return { s with
        signer := s.signer.clearTmpData
        uiEvents := []
        pendingDeviceName := none }
  | .announceAck =>
      return { s with
        upstreamConnection := s.upstreamConnection.setState .establishedAndCoordAck }
  | .naming (.preview previewName) => return { s with pendingDeviceName := some previewName }
  | .core coreMessage => do
      let (answer, signer) ← s.signer.recvCoordinatorMessage coreMessage (tick.messageRng i)
        (tick.seeds i)
      match answer with
      | .error _ => .panic "failed to process coordinator message"
      | .ok sends => return { s with signer := signer, outbox := s.outbox ++ sends }
  -- the retired rename command, and what is shown to the user, told to the firmware service or
  -- answered at the end of the iteration
  | .naming (.prompt _) | .upgrade _ | .dataErase | .legacyChallenge _ | .genuineCheck _ => return s

/-- Handle messages in order. -/
def processMessages (s : DeviceLoop D S) (tick : Tick D) (i : ℕ) :
    List (CoordinatorSendBody (payloads L)) → Exec (DeviceLoop D S)
  | [] => return s
  | message :: rest => do
      let s ← s.processMessage tick i message
      s.processMessages tick (i + 1) rest

end

/-- The genuine check among messages that is answered: the last one. -/
def lastGenuineCheck (messages : List (CoordinatorSendBody (payloads L))) :
    Option Genuine.CoordinatorMessage :=
  (messages.filterMap fun
    | .genuineCheck message => some message
    | _ => none).getLast?

/-! ### The log -/

/-- Push to the log. -/
def push (s : DeviceLoop D S) (m : LogMutation D.Cipher D.Backup) (msg : String) :
    Exec (DeviceLoop D S) :=
  if H.takes s.mutationLog.contents m then
    return { s with mutationLog := s.mutationLog.push m }
  else .panic msg

/-- Push in order. -/
def append (s : DeviceLoop D S) (msg : String) :
    List (LogMutation D.Cipher D.Backup) → Exec (DeviceLoop D S)
  | [] => return s
  | m :: rest => do
      let s ← s.push H m msg
      s.append msg rest

/-- The staged mutations, as they are written. -/
def staged (s : DeviceLoop D S) : List (LogMutation D.Cipher D.Backup) :=
  s.signer.mutations.map .core

/-- Write the staged mutations. -/
def appendStaged (s : DeviceLoop D S) (tick : Tick D) : Exec (DeviceLoop D S) :=
  if s.signer.mutations.isEmpty then return s
  else do
    let s ← { s with signer := { s.signer with mutations := [] } }.append H
      "writing core mutations failed" s.staged
    return s.sendDebug ("core mutations took " ++ toString tick.elapsedMs ++ "ms")

/-- Give the device the name it is waiting to be given, if there is one. -/
def savePendingDeviceName (s : DeviceLoop D S) : Exec (Bool × DeviceLoop D S) :=
  match s.pendingDeviceName with
  | none => return (false, s)
  | some newName => do
      let s ← { s with pendingDeviceName := none, name := some newName }.push H
        (.name newName.inner) "flash write fail"
      return (true, s.sendToCoordinator [.setName newName])

/-! ### What the signer sends -/

/-- Do one unit of work on nonces, and send them when all are done. -/
def pollNonceBatch (s : DeviceLoop D S) : Exec (DeviceLoop D S) :=
  match s.nonceTaskBatch with
  | none => return s
  | some batch =>
      let (batch, finished) := batch.doWork H.symmKeygen.nonces
      if finished then do
        let segments ← batch.intoSegments
        return { s with
          nonceTaskBatch := none
          outbox := s.outbox ++ [.toCoordinator (.signing (.nonceResponse segments))] }
      else return { s with nonceTaskBatch := some batch }

/-- Handle one send. -/
def handleSend (s : DeviceLoop D S) (rng : L.Rng) : DeviceSend D → Exec (DeviceLoop D S)
  | .toCoordinator message => return s.sendToCoordinator [.core message]
  | .toUser (.finalizeKeyGen _) => do
      let (named, s) ← s.savePendingDeviceName H
      Exec.assert (named = true) "must have named device before starting keygen"
      return s
  | .toUser (.restoration (.backupSaved ..)) => do
      let (named, s) ← s.savePendingDeviceName H
      Exec.assert (named = true) "must have named device before loading backup"
      return s
  | .toUser (.restoration (.consolidateBackup phase)) => do
      -- confirmed at once: the user cannot verify it in a meaningful way
      let (sends, signer) := s.signer.finishConsolidation H.symmKeygen phase rng
      let (_, s) ← { s with signer := signer, outbox := s.outbox ++ sends }.savePendingDeviceName H
      return s
  | .toUser (.restoration (.displayBackup _ _ phase)) =>
      match phase.decryptToBackup H.symmKeygen with
      | .error _ => .panic "state changed while displaying backup"
      | .ok _ => return s
  | .toUser (.restoration (.checkBackup _ _ phase)) =>
      match phase.decryptToBackup H.symmKeygen with
      | .error _ => .panic "state changed while checking backup"
      | .ok _ => return s
  | .toUser (.nonceJobs batch) => return { s with nonceTaskBatch := some batch }
  -- shown to the user
  | .toUser (.checkKeyGen _) | .toUser (.verifyAddress ..) | .toUser (.signatureRequest _)
  | .toUser (.restoration (.enterBackup _)) => return s

/-- The work of an outbox. -/
def work (outbox : List (DeviceSend D)) : ℕ := (outbox.map DeviceSend.weight).sum

theorem work_cons (send : DeviceSend D) (rest : List (DeviceSend D)) :
    work (send :: rest) = work rest + send.weight :=
  Nat.add_comm _ _

theorem work_append (outbox sends : List (DeviceSend D)) :
    work (outbox ++ sends) = work outbox + work sends := by
  rw [work, List.map_append, List.sum_append]
  rfl

variable {H} {s s' : DeviceLoop D S}

theorem push_eq_ret {m : LogMutation D.Cipher D.Backup} {msg : String}
    (h : s.push H m msg = .ret s') : s' = { s with mutationLog := s.mutationLog.push m } := by
  rw [push] at h
  split at h
  · exact (Exec.ret.inj h).symm
  · cases h

/-- A name that is waited for is pushed to the log before it is sent. -/
theorem savePendingDeviceName_eq_ret {named : Bool}
    (h : s.savePendingDeviceName H = .ret (named, s')) :
    (s.pendingDeviceName = none ∧ named = false ∧ s' = s) ∨
      ∃ newName, s.pendingDeviceName = some newName ∧ named = true ∧
        s' = ({ s with
          pendingDeviceName := none
          name := some newName
          mutationLog := s.mutationLog.push (.name newName.inner) }).sendToCoordinator
            [.setName newName] := by
  rw [savePendingDeviceName] at h
  split at h
  · rename_i hnone
    cases h
    exact .inl ⟨hnone, rfl, rfl⟩
  · rename_i newName hsome
    obtain ⟨t, hpush, h⟩ := Exec.bind_eq_ret_iff.1 h
    obtain rfl := push_eq_ret hpush
    cases h
    exact .inr ⟨newName, hsome, rfl, rfl⟩

theorem savePendingDeviceName_outbox {named : Bool}
    (h : s.savePendingDeviceName H = .ret (named, s')) : s'.outbox = s.outbox := by
  obtain ⟨-, -, rfl⟩ | ⟨_, -, -, rfl⟩ := savePendingDeviceName_eq_ret h
  · rfl
  · rfl

/-- **Handling a send takes work off the outbox.** -/
theorem handleSend_outbox {rng : L.Rng} {send : DeviceSend D}
    (h : s.handleSend H rng send = .ret s') :
    work s'.outbox < work s.outbox + send.weight := by
  have hsame : ∀ {t : DeviceLoop D S}, t.outbox = s.outbox →
      work t.outbox < work s.outbox + send.weight := fun ht => by
    rw [ht]
    exact Nat.lt_add_of_pos_right send.weight_pos
  cases send with
  | toCoordinator message =>
      cases h
      exact hsame rfl
  | toUser message =>
      cases message with
      | finalizeKeyGen keyName =>
          obtain ⟨⟨named, t⟩, hsave, h⟩ := Exec.bind_eq_ret_iff.1 h
          obtain ⟨-, -, h⟩ := Exec.bind_eq_ret_iff.1 h
          cases h
          exact hsame (savePendingDeviceName_outbox hsave)
      | checkKeyGen phase =>
          cases h
          exact hsame rfl
      | signatureRequest phase =>
          cases h
          exact hsame rfl
      | verifyAddress address bip32Path =>
          cases h
          exact hsame rfl
      | nonceJobs batch =>
          cases h
          exact hsame rfl
      | restoration message =>
          cases message with
          | enterBackup phase =>
              cases h
              exact hsame rfl
          | backupSaved image keyName purpose threshold =>
              obtain ⟨⟨named, t⟩, hsave, h⟩ := Exec.bind_eq_ret_iff.1 h
              obtain ⟨-, -, h⟩ := Exec.bind_eq_ret_iff.1 h
              cases h
              exact hsame (savePendingDeviceName_outbox hsave)
          | consolidateBackup phase =>
              obtain ⟨⟨named, t⟩, hsave, h⟩ := Exec.bind_eq_ret_iff.1 h
              cases h
              rw [savePendingDeviceName_outbox hsave]
              show work (s.outbox ++ [_]) < work s.outbox + 2
              rw [work_append]
              exact Nat.add_lt_add_left (Nat.lt_succ_self 1) _
          | displayBackup keyName ref phase =>
              rw [handleSend] at h
              split at h
              · cases h
              · cases h
                exact hsame rfl
          | checkBackup keyName ref phase =>
              rw [handleSend] at h
              split at h
              · cases h
              · cases h
                exact hsame rfl

variable (H)

/-- Handle what is in the outbox, with what is put into it meanwhile. -/
def handleOutbox (s : DeviceLoop D S) (tick : Tick D) (i : ℕ) : Exec (DeviceLoop D S) :=
  match hs : s.outbox with
  | [] => return s
  | send :: rest =>
      match hsend : { s with outbox := rest }.handleSend H (tick.sendRng i) send with
      | .panic msg => .panic msg
      | .ret s' =>
          have : work s'.outbox < work s.outbox := by
            rw [hs, work_cons]
            exact handleSend_outbox hsend
          s'.handleOutbox tick (i + 1)
  termination_by work s.outbox

variable {H} {tick : Tick D} {i : ℕ}

theorem handleOutbox_nil (h : s.outbox = []) : s.handleOutbox H tick i = .ret s := by
  rw [handleOutbox]
  split
  · rfl
  · rename_i hcons
    rw [h] at hcons
    cases hcons

theorem handleOutbox_cons {send : DeviceSend D} {rest : List (DeviceSend D)}
    (h : s.outbox = send :: rest) :
    s.handleOutbox H tick i =
      ({ s with outbox := rest }.handleSend H (tick.sendRng i) send).bind fun s' =>
        s'.handleOutbox H tick (i + 1) := by
  rw [handleOutbox]
  split
  · rename_i hnil
    rw [h] at hnil
    cases hnil
  · rename_i send' rest' hcons
    obtain ⟨rfl, rfl⟩ := List.cons.inj (h.symm.trans hcons)
    split
    · rename_i hsend
      exact (congrArg (Exec.bind · fun s' => s'.handleOutbox H tick (i + 1)) hsend).symm
    · rename_i hsend
      exact (congrArg (Exec.bind · fun s' => s'.handleOutbox H tick (i + 1)) hsend).symm

variable (H)

/-! ### What the user has done -/

variable [NonceStreamSlot S SeedMaterial SignatureShare]

/-- Handle one event. -/
def handleUiEvent (s : DeviceLoop D S) (rng : L.Rng) : UiEvent D → Exec (DeviceLoop D S)
  | .keyGenConfirm phase => do
      let (ack, signer) ← s.signer.keygenAck phase H.symmKeygen rng
      match ack with
      | .error _ => .panic "state changed while confirming keygen"
      | .ok ack => return { s with signer := signer, outbox := s.outbox ++ [.toCoordinator ack] }
  | .signingConfirm phase => do
      let (sends, signer) ← s.signer.signAck phase H.symmKeygen
      match sends with
      | .error _ => .panic "state changed while acking sign"
      | .ok sends => return { s with signer := signer, outbox := s.outbox ++ sends }
  | .backupRecorded => return s.sendToCoordinator [.misc .backupRecorded]
  | .backupChecked accessStructureRef shareIndex =>
      return s.sendToCoordinator [.misc (.backupChecked (accessStructureRef, shareIndex))]
  -- told to the firmware service
  | .upgradeConfirm => return s
  | .enteredShareBackup phase shareBackup =>
      let (sends, signer) := s.signer.tellCoordinatorAboutBackupLoadResult phase shareBackup
      return { s with signer := signer, outbox := s.outbox ++ sends }
  | .eraseDataConfirm => return { s with erasing := true }

/-- Handle events in order. -/
def handleUiEvents (s : DeviceLoop D S) (tick : Tick D) (i : ℕ) :
    List (UiEvent D) → Exec (DeviceLoop D S)
  | [] => return s
  | event :: rest => do
      let s ← s.handleUiEvent H (tick.eventRng i) event
      s.handleUiEvents tick (i + 1) rest

/-! ### An iteration -/

/-- What an iteration has sent. -/
structure Sent (L : FrostLib) where
  upstream : Option (UpstreamMessage L)
  downstream : List DaisyChain.Message

/-- The rest of an iteration, with the secrets of the device at hand. -/
def pollNormal (s : DeviceLoop D S) (tick : Tick D) : Exec (DeviceLoop D S) := do
  let inbox := s.inbox
  let s ← { s with inbox := [] }.processMessages tick 0 inbox
  let s ← s.appendStaged H tick
  let s ← s.pollNonceBatch H
  let s ← s.handleOutbox H tick 0
  let events := s.uiEvents
  let s ← { s with uiEvents := [] }.handleUiEvents H tick 0 events
  match lastGenuineCheck inbox with
  | none => return s
  | some message => return s.genuineCheck H tick message

/-- One iteration. -/
def poll (s : DeviceLoop D S) (tick : Tick D) : Exec (Poll × Sent L × DeviceLoop D S) := do
  let s := s.resetSoftly.pollDownstream tick
  let (s, downstream, poll) ← s.pollUpstream H tick
  match poll with
  | .resetRequested | .parked => return (poll, { upstream := none, downstream := downstream }, s)
  | .continue =>
      let (message, upstreamConnection) := s.upstreamConnection.dequeueMessage
      let s := ({ s with
        upstreamConnection := upstreamConnection
        uiEvents := s.uiEvents ++ tick.uiEvent.toList }).pollAttestation tick
      let sent : Sent L := { upstream := message, downstream := downstream }
      if tick.normalMode then do
        let s ← s.pollNormal H tick
        return (.continue, sent, s)
      else return (.continue, sent, s)

end DeviceLoop

end Device

end Frostsnap
