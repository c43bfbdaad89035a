import Frostsnap.Comms.Messages

/-!
# The USB serial manager

The devices a coordinator sees through its serial ports, as `usb_serial_manager.rs` keeps them:
which ports are connected and how far each is, which device announced itself on which port, in the
order of the daisy chain, and which devices are registered. `poll_ports` makes its passes one after
another, each over what its collection holds when the pass begins, in whatever order a hash map has;
what the ports answer is given. Each visit is a `SerialEvent`, and its handler is the body of the
loop.

## Main definitions

* `UsbSerialManager.handle`: one visit.
* `pollPorts`: a poll.
* `runInputs`: the polls and calls of a run, and `runEvents`: the events of it.

## Main results

* `runInputs_eq`: a run handles its events one by one.
-/

namespace Frostsnap.Usb

abbrev USB_VID : ℕ := 12346
abbrev USB_PID : ℕ := 4097

/-- `COORDINATOR_MAGIC_BYTES_PERDIOD`, in milliseconds. -/
abbrev COORDINATOR_MAGIC_BYTES_PERIOD : ℕ := 100

abbrev Port := String

variable {P : Payloads}

/-! ### The manager -/

structure PortDesc where
  id : Port
  vid : ℕ
  pid : ℕ

inductive PortOpenError where
  | deviceBusy
  | permissionDenied
  | other (error : String)

structure DeviceSupportedFeatures where
  conchEnabled : Bool

/-- What is read from a port. -/
inductive ReceiveSerial (P : Payloads) where
  | magicBytes
  | message (message : DeviceSendMessage P)
  | conch
  | reset
  | unused

abbrev Outgoing (P : Payloads) := CoordinatorSendMessage (CoordinatorSendBody P)

structure FramedSerialPort (P : Payloads) where
  conchEnabled : Bool
  hasSentConch : Bool
  sendQueue : List (Outgoing P)

namespace FramedSerialPort

def new : FramedSerialPort P where
  conchEnabled := false
  hasSentConch := false
  sendQueue := []

def setConchEnabled (port : FramedSerialPort P) (enabled : Bool) : FramedSerialPort P :=
  if port.conchEnabled ≠ enabled then
    { port with conchEnabled := enabled, hasSentConch := false }
  else port

def queueSend (port : FramedSerialPort P) (message : Outgoing P) : FramedSerialPort P :=
  { port with sendQueue := port.sendQueue ++ [message] }

/-- A message counts as the conch; magic bytes and the others do not. -/
def received (port : FramedSerialPort P) : ReceiveSerial P → FramedSerialPort P
  | .message _ | .conch => { port with hasSentConch := false }
  | _ => port

/-- `poll_send`, with what sending a message and sending the conch answer. -/
def pollSend (port : FramedSerialPort P) (message conch : Except String Unit) :
    Except String (FramedSerialPort P) :=
  if port.conchEnabled && port.hasSentConch then .ok port
  else do
    let port ← match port.sendQueue with
      | [] => .ok port
      | _ :: queue => do
          message
          .ok { port with sendQueue := queue }
    if port.conchEnabled && !port.hasSentConch then
      conch
      .ok { port with hasSentConch := true }
    else .ok port

end FramedSerialPort

structure DevicePort where
  port : Port
  firmwareDigest : Sha256Digest

/-- A port that is open and whose magic bytes are awaited; when they were last written to it. -/
structure AwaitingMagic (P : Payloads) where
  port : FramedSerialPort P
  lastWroteMagicBytes : Option ℕ

structure ValidatedFirmwareBin where
  digest : Sha256Digest

structure UsbSerialManager (P : Payloads) where
  /-- Matches VID and PID -/
  connected : BTreeSet Port
  /-- Initial state -/
  pending : BTreeSet Port
  /-- After opening port and awaiting magic bytes -/
  awaitingMagic : BTreeMap Port (AwaitingMagic P)
  /-- Read magic magic bytes -/
  ready : BTreeMap Port (FramedSerialPort P)
  /-- ports that seems to be busy -/
  ignored : BTreeSet Port
  /-- Devices who Announce'd, mappings to port serial numbers -/
  devicePorts : BTreeMap DeviceId DevicePort
  /-- Reverse lookup from ports to devices (daisy chaining) -/
  reverseDevicePorts : BTreeMap Port (List DeviceId)
  /-- Devices we sent registration ACK to -/
  registeredDevices : BTreeSet DeviceId
  /-- Device labels -/
  deviceNames : BTreeMap DeviceId String
  /-- Messages to devices waiting to be sent -/
  portOutbox : List (Outgoing P)
  /-- The firmware binary provided to devices who are doing an upgrade -/
  firmwareBin : Option ValidatedFirmwareBin

def UsbSerialManager.new (firmwareBin : Option ValidatedFirmwareBin) : UsbSerialManager P where
  connected := ∅
  pending := ∅
  awaitingMagic := ∅
  ready := ∅
  ignored := ∅
  devicePorts := ∅
  reverseDevicePorts := ∅
  registeredDevices := ∅
  deviceNames := ∅
  portOutbox := []
  firmwareBin := firmwareBin

inductive AppMessageBody (P : Payloads) where
  | core (message : P.toCoordinator)
  | misc (message : CommsMisc P)

inductive DeviceChange (P : Payloads) where
  | connected (id : DeviceId) (firmwareDigest : Sha256Digest)
      (latestFirmwareDigest : Option Sha256Digest)
  | needsName (id : DeviceId)
  | nameChange (id : DeviceId) (name : String)
  | registered (id : DeviceId) (name : String)
  | disconnected (id : DeviceId)
  | appMessage (id : DeviceId) (body : AppMessageBody P)
  | genuineCheck (id : DeviceId) (message : P.genuineReply)

/-- The device a change is about. -/
def DeviceChange.device : DeviceChange P → DeviceId
  | connected id _ _ => id
  | needsName id => id
  | nameChange id _ => id
  | registered id _ => id
  | disconnected id => id
  | appMessage id _ => id
  | genuineCheck id _ => id

/-- Name changes and app messages. -/
def DeviceChange.IsTraffic : DeviceChange P → Prop
  | nameChange _ _ | appMessage _ _ => True
  | _ => False

/-- A manager and the changes so far. -/
structure Polling (P : Payloads) where
  manager : UsbSerialManager P
  changes : List (DeviceChange P)

namespace Polling

def push (p : Polling P) (change : DeviceChange P) : Polling P :=
  { p with changes := p.changes ++ [change] }

/-- The body of the loop of `disconnect`. -/
def dropDevice (p : Polling P) (id : DeviceId) : Polling P :=
  let registered := p.manager.registeredDevices.erase id
  if id ∈ p.manager.devicePorts then
    { manager :=
        { p.manager with
          devicePorts := p.manager.devicePorts.erase id, registeredDevices := registered }
      changes := p.changes ++ [.disconnected id] }
  else { p with manager := { p.manager with registeredDevices := registered } }

/-- The body of the loop for `DisconnectDownstream`. -/
def popDevice (p : Polling P) (id : DeviceId) : Polling P where
  manager :=
    { p.manager with
      devicePorts := p.manager.devicePorts.erase id
      registeredDevices := p.manager.registeredDevices.erase id }
  changes := p.changes ++ [.disconnected id]

end Polling

namespace UsbSerialManager

variable (m : UsbSerialManager P)

/-- Nothing changed for the app. -/
def quietly : Polling P where
  manager := m
  changes := []

def disconnect (port : Port) : Polling P :=
  let m' :=
    { m with
      connected := m.connected.erase port
      pending := m.pending.erase port
      awaitingMagic := m.awaitingMagic.erase port
      ready := m.ready.erase port
      ignored := m.ignored.erase port }
  match m.reverseDevicePorts[port]? with
  | none => m'.quietly
  | some deviceIds =>
      deviceIds.foldl Polling.dropDevice
        { m' with reverseDevicePorts := m.reverseDevicePorts.erase port }.quietly

/-- A port has appeared. -/
def appear (port : Port) : Polling P :=
  { m with connected := m.connected.insert port, pending := m.pending.insert port }.quietly

/-- A pending port is opened. -/
def openPort (port : Port) (opened : Except PortOpenError Unit) : Polling P :=
  let m := { m with pending := m.pending.erase port }
  match opened with
  | .error .deviceBusy => { m with ignored := m.ignored.insert port }.quietly
  | .error .permissionDenied =>
      { m with ignored := m.ignored.insert port, pending := m.pending.insert port }.quietly
  | .error (.other _) => { m with pending := m.pending.insert port }.quietly
  | .ok () =>
      { m with
        awaitingMagic := m.awaitingMagic.insert port
          { port := .new, lastWroteMagicBytes := none } }.quietly

/-- A port that awaits magic bytes is read; they are written to it again when it is time. -/
def readMagic (port : Port) (now : ℕ) (read : Except String (Option DeviceSupportedFeatures))
    (written : Except String Unit) : Polling P :=
  match m.awaitingMagic[port]? with
  | none => m.quietly
  | some awaiting =>
      let m' := { m with awaitingMagic := m.awaitingMagic.erase port }
      match read with
      | .ok (some features) =>
          { m' with
            ready := m.ready.insert port
              (awaiting.port.setConchEnabled features.conchEnabled) }.quietly
      | .ok none =>
          if awaiting.lastWroteMagicBytes.any (now - · < COORDINATOR_MAGIC_BYTES_PERIOD) then
            m.quietly
          else
            match written with
            | .ok () =>
                { m' with
                  awaitingMagic := m'.awaitingMagic.insert port
                    { awaiting with lastWroteMagicBytes := some now } }.quietly
            | .error _ => m'.disconnect port
      | .error _ => m'.disconnect port

/-- The devices behind `from_` are gone. -/
def disconnectDownstream (port : Port) (from_ : DeviceId) : Polling P :=
  match m.reverseDevicePorts[port]? with
  | none => m.quietly
  | some deviceList =>
      match deviceList.findIdx? (· = from_) with
      | none => m.quietly
      | some i =>
          -- devices are popped off the end of the list until `i + 1` are left
          (deviceList.drop (i + 1)).reverse.foldl Polling.popDevice
            { m with
              reverseDevicePorts :=
                m.reverseDevicePorts.insert port (deviceList.take (i + 1)) }.quietly

/-- A device leaves the port it announced itself on before. -/
def leavePort (port : Port) (id : DeviceId) : Polling P where
  manager :=
    { m with
      reverseDevicePorts := m.reverseDevicePorts.insert port
        ((m.reverseDevicePorts[port]?.getD []).filter (· ≠ id))
      registeredDevices := m.registeredDevices.erase id }
  changes := [.disconnected id]

def handleAnnounce (port : Port) (from_ : DeviceId) (firmwareDigest : Sha256Digest) : Polling P :=
  let m' :=
    { m with
      devicePorts := m.devicePorts.insert from_ { port := port, firmwareDigest := firmwareDigest } }
  let p := match m.devicePorts[from_]? with
    | none => m'.quietly
    | some oldPort => m'.leavePort oldPort.port from_
  { manager :=
      { p.manager with
        portOutbox := p.manager.portOutbox ++ [.to from_ .announceAck]
        reverseDevicePorts := p.manager.reverseDevicePorts.insert port
          (p.manager.reverseDevicePorts[port]?.getD [] ++ [from_]) }
    changes := p.changes ++
      [.connected from_ firmwareDigest (m.firmwareBin.map ValidatedFirmwareBin.digest)] }

/-- A message of a device. -/
def receive (port : Port) (message : DeviceSendMessage P) : Polling P :=
  let tell (change : DeviceChange P) : Polling P := { manager := m, changes := [change] }
  match message.body with
  | .error _ => m.quietly
  | .ok .needName => tell (.needsName message.from_)
  | .ok .disconnectDownstream => m.disconnectDownstream port message.from_
  | .ok (.setName name) =>
      if m.deviceNames[message.from_]? = some name.inner then m.quietly
      else tell (.nameChange message.from_ name.inner)
  | .ok (.announce firmwareDigest) => m.handleAnnounce port message.from_ firmwareDigest
  | .ok (.debug _) => m.quietly
  | .ok (.core message') => tell (.appMessage message.from_ (.core message'))
  | .ok .legacyAckUpgradeMode => tell (.appMessage message.from_ (.misc .ackUpgradeMode))
  | .ok (.misc inner) => tell (.appMessage message.from_ (.misc inner))
  | .ok (.legacySignedChallenge _) => m.quietly
  | .ok (.genuineCheck genuine) => tell (.genuineCheck message.from_ genuine)

/-- A ready port is read. -/
def readFrame (port : Port) (read : Except String (Option (ReceiveSerial P))) : Polling P :=
  match read with
  | .error _ => m.disconnect port
  | .ok none => m.quietly
  | .ok (some frame) =>
      let m' := { m with ready := m.ready.modify port (·.received frame) }
      match frame with
      | .magicBytes => m'.disconnect port
      | .message message => m'.receive port message
      | .reset => m'.disconnect port
      | _ => m'.quietly

/-- A device with a name is registered. -/
def register (id : DeviceId) : Polling P :=
  if id ∈ m.registeredDevices then m.quietly
  else
    match m.deviceNames[id]? with
    | none => m.quietly
    | some deviceLabel =>
        { manager := { m with registeredDevices := m.registeredDevices.insert id }
          changes := [.registered id deviceLabel] }

/-- The ports of some devices. -/
def portsOf (ids : List DeviceId) : BTreeSet Port :=
  (ids.filterMap fun id => m.devicePorts[id]?.map DevicePort.port).foldl
    (fun ports port => ports.insert port) ∅

/-- The ports a message is sent on, and what becomes of its destinations: those that are there. -/
def narrow (destination : Destination) : BTreeSet Port × Destination :=
  match destination with
  | .all => (m.portsOf m.devicePorts.keys, .all)
  | .particular devices =>
      (m.portsOf devices.toList, .particular (devices.filter (· ∈ m.devicePorts)))

/-- The first message of the outbox is queued on the ports it is sent on. -/
def sendNext : Polling P :=
  match m.portOutbox with
  | [] => m.quietly
  | send :: outbox =>
      let (ports, wireDestinations) := m.narrow send.targetDestinations
      let message := { send with targetDestinations := wireDestinations }
      { m with
        portOutbox := outbox
        ready := ports.toList.foldl (fun ready port => ready.modify port (·.queueSend message))
          m.ready }.quietly

/-- A ready port sends what was queued. A poll finds every port it visits here still ready. -/
def pollSend (port : Port) (message conch : Except String Unit) : Polling P :=
  match m.ready[port]? with
  | none => m.quietly
  | some framed =>
      match framed.pollSend message conch with
      | .error _ => m.disconnect port
      | .ok framed => { m with ready := m.ready.insert port framed }.quietly

end UsbSerialManager

/-! ### Polls -/

/-- One visit of a loop, or one call from outside. -/
inductive SerialEvent (P : Payloads) where
  | appear (port : Port)
  | disconnect (port : Port)
  | openPort (port : Port) (opened : Except PortOpenError Unit)
  | readMagic (port : Port) (now : ℕ) (read : Except String (Option DeviceSupportedFeatures))
      (written : Except String Unit)
  | readFrame (port : Port) (read : Except String (Option (ReceiveSerial P)))
  | register (id : DeviceId)
  | sendNext
  | pollSend (port : Port) (message conch : Except String Unit)
  /-- `accept_device_name` -/
  | acceptDeviceName (id : DeviceId) (name : String)
  /-- `UsbSender::send` -/
  | send (message : Outgoing P)

/-- What an event does to a manager. A device is registered only while it is in `device_ports`. -/
def UsbSerialManager.handle (m : UsbSerialManager P) : SerialEvent P → Polling P
  | .appear port => m.appear port
  | .disconnect port => m.disconnect port
  | .openPort port opened => m.openPort port opened
  | .readMagic port now read written => m.readMagic port now read written
  | .readFrame port read => m.readFrame port read
  | .register id => if id ∈ m.devicePorts then m.register id else m.quietly
  | .sendNext => m.sendNext
  | .pollSend port message conch => m.pollSend port message conch
  | .acceptDeviceName id name => { m with deviceNames := m.deviceNames.insert id name }.quietly
  | .send message => { m with portOutbox := m.portOutbox ++ [message] }.quietly

/-- One more event. -/
def Polling.handle (p : Polling P) (event : SerialEvent P) : Polling P where
  manager := (p.manager.handle event).manager
  changes := p.changes ++ (p.manager.handle event).changes

/-- What the serial system and other threads do in a poll, and the order each loop goes in. -/
structure SerialIo (P : Payloads) where
  availablePorts : List PortDesc
  openDevicePort : Port → Except PortOpenError Unit
  now : ℕ
  readForMagicBytes : Port → Except String (Option DeviceSupportedFeatures)
  writeMagicBytes : Port → Except String Unit
  tryReadMessage : Port → Except String (Option (ReceiveSerial P))
  /-- What other threads put in the outbox until it is found empty. -/
  arriving : List (Outgoing P)
  sendMessage : Port → Except String Unit
  sendConch : Port → Except String Unit
  newOrder : HashOrder Port
  goneOrder : HashOrder Port
  pendingOrder : HashOrder Port
  awaitingOrder : HashOrder Port
  readOrder : HashOrder Port
  deviceOrder : HashOrder DeviceId
  sendOrder : HashOrder Port

/-- The ports of devices that are there now. -/
def SerialIo.connectedNow (io : SerialIo P) : BTreeSet Port :=
  ((io.availablePorts.filter fun desc => desc.vid = USB_VID ∧ desc.pid = USB_PID).map
    PortDesc.id).foldl (fun ports port => ports.insert port) ∅

/-- A pass of a poll: the events of its loop, fixed when it begins. -/
abbrev Pass (P : Payloads) := UsbSerialManager P → List (SerialEvent P)

/-- The passes of `poll_ports`, in their order. -/
def passes (io : SerialIo P) : List (Pass P) :=
  [fun m => (io.newOrder.order (io.connectedNow.toList.filter (· ∉ m.connected))).map .appear,
    fun m => (io.goneOrder.order (m.connected.toList.filter (· ∉ io.connectedNow))).map .disconnect,
    fun m => (io.pendingOrder.order m.pending.toList).map fun port =>
      .openPort port (io.openDevicePort port),
    fun m => (io.awaitingOrder.order m.awaitingMagic.keys).map fun port =>
      .readMagic port io.now (io.readForMagicBytes port) (io.writeMagicBytes port),
    fun m => (io.readOrder.order m.ready.keys).map fun port =>
      .readFrame port (io.tryReadMessage port),
    fun m => (io.deviceOrder.order m.devicePorts.keys).map .register,
    fun _ => io.arriving.map .send,
    fun m => List.replicate m.portOutbox.length .sendNext,
    fun m => (io.sendOrder.order m.ready.keys).map fun port =>
      .pollSend port (io.sendMessage port) (io.sendConch port)]

/-- Makes one pass after another. -/
def makePasses (p : Polling P) (passes : List (Pass P)) : Polling P :=
  passes.foldl (fun p pass => (pass p.manager).foldl Polling.handle p) p

def pollPorts (m : UsbSerialManager P) (io : SerialIo P) : Polling P :=
  makePasses m.quietly (passes io)

/-- What the coordinator loop does with the manager. -/
inductive Input (P : Payloads) where
  | pollPorts (io : SerialIo P)
  | acceptDeviceName (id : DeviceId) (name : String)
  | send (message : Outgoing P)

/-- What changes after something else has. -/
def Polling.andThen (p q : Polling P) : Polling P where
  manager := q.manager
  changes := p.changes ++ q.changes

def Polling.input (p : Polling P) : Input P → Polling P
  | .pollPorts io => p.andThen (pollPorts p.manager io)
  | .acceptDeviceName id name => p.handle (.acceptDeviceName id name)
  | .send message => p.handle (.send message)

def runInputs (firmwareBin : Option ValidatedFirmwareBin) (inputs : List (Input P)) : Polling P :=
  inputs.foldl Polling.input (UsbSerialManager.new firmwareBin).quietly

/-! ### The events of a run -/

/-- Handles one event after another. -/
def Polling.handleAll (p : Polling P) (events : List (SerialEvent P)) : Polling P :=
  events.foldl Polling.handle p

@[simp] theorem Polling.handleAll_nil (p : Polling P) : p.handleAll [] = p := rfl

@[simp] theorem Polling.handleAll_cons (p : Polling P) (event : SerialEvent P)
    (events : List (SerialEvent P)) :
    p.handleAll (event :: events) = (p.handle event).handleAll events := rfl

theorem Polling.handleAll_append (p : Polling P) (events events' : List (SerialEvent P)) :
    p.handleAll (events ++ events') = (p.handleAll events).handleAll events' :=
  List.foldl_append

theorem Polling.andThen_handle (p q : Polling P) (event : SerialEvent P) :
    (p.andThen q).handle event = p.andThen (q.handle event) := by
  simp only [andThen, handle, List.append_assoc]

theorem Polling.andThen_handleAll (p q : Polling P) (events : List (SerialEvent P)) :
    (p.andThen q).handleAll events = p.andThen (q.handleAll events) := by
  induction events generalizing q with
  | nil => rfl
  | cons event events ih => rw [handleAll_cons, andThen_handle, ih, handleAll_cons]

/-- What was handed on before does not matter. -/
theorem Polling.handleAll_eq (p : Polling P) (events : List (SerialEvent P)) :
    p.handleAll events = p.andThen (p.manager.quietly.handleAll events) := by
  rw [← andThen_handleAll]
  congr 1
  simp only [andThen, UsbSerialManager.quietly, List.append_nil]

/-- The events of some passes. -/
def passEvents (m : UsbSerialManager P) : List (Pass P) → List (SerialEvent P)
  | [] => []
  | pass :: passes =>
      pass m ++ passEvents (m.quietly.handleAll (pass m)).manager passes

/-- The events of an input. -/
def Input.events (m : UsbSerialManager P) : Input P → List (SerialEvent P)
  | .pollPorts io => passEvents m (passes io)
  | .acceptDeviceName id name => [.acceptDeviceName id name]
  | .send message => [.send message]

/-- The events of some inputs. -/
def runEvents (m : UsbSerialManager P) : List (Input P) → List (SerialEvent P)
  | [] => []
  | input :: inputs =>
      input.events m ++ runEvents (m.quietly.handleAll (input.events m)).manager inputs

theorem makePasses_eq (p : Polling P) (passes : List (Pass P)) :
    makePasses p passes = p.handleAll (passEvents p.manager passes) := by
  induction passes generalizing p with
  | nil => rfl
  | cons pass passes ih =>
      have hmanager : (p.manager.quietly.handleAll (pass p.manager)).manager =
          (p.handleAll (pass p.manager)).manager := by
        rw [Polling.handleAll_eq p]
        rfl
      rw [passEvents, Polling.handleAll_append, hmanager]
      exact ih (p.handleAll (pass p.manager))

theorem Polling.input_eq (p : Polling P) (input : Input P) :
    p.input input = p.handleAll (input.events p.manager) := by
  cases input with
  | pollPorts io =>
      rw [Polling.handleAll_eq]
      exact congrArg p.andThen (makePasses_eq p.manager.quietly (passes io))
  | acceptDeviceName id name => rfl
  | send message => rfl

theorem foldl_input_eq (p : Polling P) (inputs : List (Input P)) :
    inputs.foldl Polling.input p = p.handleAll (runEvents p.manager inputs) := by
  induction inputs generalizing p with
  | nil => rfl
  | cons input inputs ih =>
      have hmanager : (p.manager.quietly.handleAll (input.events p.manager)).manager =
          (p.handleAll (input.events p.manager)).manager := by
        rw [Polling.handleAll_eq p]
        rfl
      rw [List.foldl_cons, ih, p.input_eq, runEvents, Polling.handleAll_append, hmanager]

/-- **A run** handles its events one by one. -/
theorem runInputs_eq (firmwareBin : Option ValidatedFirmwareBin) (inputs : List (Input P)) :
    runInputs firmwareBin inputs =
      (UsbSerialManager.new firmwareBin).quietly.handleAll
        (runEvents (UsbSerialManager.new firmwareBin) inputs) :=
  foldl_input_eq _ inputs

end Frostsnap.Usb
