import Frostsnap.Embedded.AbWrite
import Frostsnap.Firmware.Image
import Frostsnap.Lib.Run

/-!
# Firmware upgrades over the air

This module embeds `ota.rs` and the part of `firmware.rs` that drives it. There are two partitions
for firmware, and a partition `otadata` with one sector for each of them; the one whose sector has
the greater sequence number, under a right checksum, is active. An upgrade erases the partition that
is next, downloads the image into it, and if `decide_upgrade` accepts the image writes the sector of
that partition.

Calls on the device are `FlashM` calls, so power may be lost at any point inside them. What a call
leaves when it is interrupted is a state without firmware running, and so is what it leaves when it
panics, waits for bytes that never come, resets the device, or parks it.
-/

namespace Frostsnap.Firmware

/-! ### The partitions -/

/-- The partitions of an upgrade, none of them empty, one after the other. -/
structure OtaPartitions where
  otadata : FlashPartition
  ota0 : FlashPartition
  ota1 : FlashPartition
  otadata_nonempty : 0 < otadata.nSectors
  ota0_nonempty : 0 < ota0.nSectors
  ota1_nonempty : 0 < ota1.nSectors
  otadata_before : otadata.start + otadata.size ≤ ota0.start
  ota0_before : ota0.start + ota0.size ≤ ota1.start

/-- The partitions of `partitions.csv`. -/
def OtaPartitions.ofCsv : OtaPartitions where
  otadata := ⟨0x12000 / sectorSize, 8 * 1024 / sectorSize, by decide⟩
  ota0 := ⟨0x20000 / sectorSize, 1724 * 1024 / sectorSize, by decide⟩
  ota1 := ⟨0x1d0000 / sectorSize, 1724 * 1024 / sectorSize, by decide⟩
  otadata_nonempty := by decide
  ota0_nonempty := by decide
  ota1_nonempty := by decide
  otadata_before := by decide
  ota0_before := by decide

/-- The layout of each of the two otadata slots. -/
structure EspOtadataSlot where
  seq : ℕ
  reserved : BitVec (8 * 24)
  seqCrc : ℕ
  deriving DecidableEq

namespace EspOtadataSlot

def codec : FixedCodec (4 + 24 + 4) ((ℕ × BitVec (8 * 24)) × ℕ) :=
  ((FixedCodec.uint 4).prod (FixedCodec.bits 24)).prod (FixedCodec.uint 4)

def encode (slot : EspOtadataSlot) : List UInt8 :=
  codec.toBytes ((slot.seq, slot.reserved), slot.seqCrc)

/-- `bincode::decode_from_reader` at the start of a partition. -/
def decode (p : FlashPartition) (f : Flash) : Option EspOtadataSlot :=
  (codec.decode (p.contents f)).map fun (((seq, reserved), seqCrc), _) => ⟨seq, reserved, seqCrc⟩

end EspOtadataSlot

/-- `CRC.checksum` of a sequence number. -/
def seqChecksum (seq : ℕ) : ℕ := crcChecksum 0 (leBytes 4 seq)

abbrev FIRMWARE_UPGRADE_CHUNK_LEN : ℕ := 4096
abbrev FIRMWARE_NEXT_CHUNK_READY_SIGNAL : UInt8 := 0x11

/-! ### What the device shows -/

inductive Workflow where
  | confirmFirmwareUpgrade (firmwareDigest : Sha256Digest) (size : ℕ)
  | erase (progress total : ℕ)
  | download (progress total : ℕ)
  | passive
  | rejected (reason : RefuseReason)

/-! ### The modes of an upgrade -/

inductive State where
  | waitingForConfirm (sentPrompt : Bool)
  | erase (seq : ℕ)
  | waitingToEnterUpgradeMode
  deriving DecidableEq

inductive FirmwareUpgradeMode where
  | upgrading (otaSlot : Fin 2) (expectedDigest : Sha256Digest) (size : ℕ) (state : State)
  | passive (size : ℕ) (sentAck : Bool)

inductive UpgradeOutcome where
  | committed
  | rejected
  deriving DecidableEq

namespace OtaPartitions

variable (o : OtaPartitions)

def otaPartitions : Fin 2 → FlashPartition := ![o.ota0, o.ota1]

def otadataSectors : Fin 2 → FlashPartition :=
  ![o.otadata.dropEnd 1 o.otadata_nonempty, o.otadata.takeEnd 1 o.otadata_nonempty]

/-- One round of the loop of `current_slot`. -/
def consider (f : Flash) (bestPartition : Option (Fin 2 × EspOtadataSlot)) (i : Fin 2) :
    Option (Fin 2 × EspOtadataSlot) :=
  match EspOtadataSlot.decode (o.otadataSectors i) f with
  | none => bestPartition
  | some otadataSlot =>
      if seqChecksum otadataSlot.seq ≠ otadataSlot.seqCrc then bestPartition
      else
        match bestPartition with
        | none => some (i, otadataSlot)
        | some (best, data) =>
            if data.seq < otadataSlot.seq then some (i, otadataSlot) else some (best, data)

def currentSlot (f : Flash) : Option (Fin 2 × EspOtadataSlot) := [0, 1].foldl (o.consider f) none

def nextSlot (f : Flash) : Fin 2 :=
  match o.currentSlot f with
  | some (i, _) => i + 1
  | none => 0

def activePartition (f : Flash) : FlashPartition :=
  match o.currentSlot f with
  | some (slot, _) => o.otaPartitions slot
  | none => o.ota0

/-- Erase the sector of a slot, write the sequence number to it, and read it back. -/
def writeOtadata (slot : Fin 2) (nextSeq : ℕ) : FlashM Unit := do
  let otadata : EspOtadataSlot :=
    { seq := nextSeq, reserved := 0, seqCrc := seqChecksum nextSeq }
  let target := o.otadataSectors slot
  FlashM.lift (Exec.expectOk (← target.eraseAll) "failed to erase")
  let writer := target.bincodeWriter 64
  let writer ← FlashM.lift (Exec.expectOk (← writer.write otadata.encode) "failed to write otadata")
  let _ ← FlashM.lift (Exec.expectOk (← writer.flush) "failed to switch parition")
  let f ← FlashM.get
  let whatWasWritten ← FlashM.lift
    (Exec.expect (EspOtadataSlot.decode target f) "failed to read back what was written")
  FlashM.lift (Exec.assert (whatWasWritten = otadata) "check that what was written was right")

/-- Write to the otadata partition to indicate that a different partition should be the main one. -/
def switchPartition (slot : Fin 2) : FlashM Unit := do
  let f ← FlashM.get
  match o.currentSlot f with
  | some (currentSlot, otadataSlot) =>
      if slot = currentSlot then return ()
      else do
        let nextSeq ← FlashM.lift (Exec.expect (checkedAdd otadataSlot.seq 1)
          "practically unreachable")
        o.writeOtadata slot nextSeq
  | none => o.writeOtadata slot 1

def startUpgrade (f : Flash) (size : ℕ) (expectedDigest activePartitionDigest : Sha256Digest) :
    Exec FirmwareUpgradeMode := do
  let slot := o.nextSlot f
  let partition := o.otaPartitions slot
  Exec.assert (size ≤ partition.size) "new firmware size should fit inside the partition"
  Exec.assert (FIRMWARE_UPGRADE_CHUNK_LEN ∣ partition.size)
    "these should match up to avoid overwriting"
  if expectedDigest = activePartitionDigest then return .passive size false
  else return .upgrading slot expectedDigest size (.waitingForConfirm false)

end OtaPartitions

/-! ### The download -/

/-- What one round of the download loop finds on the links: the next byte from upstream, the bytes
that have come from downstream, and whether writing to a link works. -/
structure LinkInput where
  upstream : Option UInt8
  downstream : List UInt8
  writes : Bool

/-- The variables of the download loop. -/
structure Download where
  /-- the bytes of `in_buf` below `i` -/
  inBuf : List UInt8
  byteCount : ℕ
  sector : ℕ
  finishedWriting : Bool
  downstreamReady : Bool
  toldUpstreamImReady : Bool
  /-- the bytes that were sent on -/
  forwarded : List UInt8
  /-- the signals that were sent upstream -/
  signals : List UInt8
  shown : List Workflow

namespace Download

def start (hasDownstream : Bool) : Download where
  inBuf := []
  byteCount := 0
  sector := 0
  finishedWriting := false
  downstreamReady := !hasDownstream
  toldUpstreamImReady := false
  forwarded := []
  signals := []
  shown := []

variable (target : Option FlashPartition) (upgradeSize : ℕ) (hasDownstream : Bool)

/-- Writing to a link. -/
def writeBytes (input : LinkInput) : Exec Unit :=
  Exec.assert (input.writes = true) "called Result::unwrap() on an Err value"

/-- Write the sector that is in the buffer, when the device is upgrading itself. -/
def writeSector (d : Download) : FlashM Download :=
  match target with
  | some partition => do
      FlashM.lift (Exec.expectOk (← partition.norWrite (d.sector * sectorSize)
        (fill sectorSize d.inBuf)) "called Result::unwrap() on an Err value")
      return { d with shown := d.shown ++ [.download d.byteCount upgradeSize] }
  | none => return d

/-- A byte is sent on downstream. -/
def forward (input : LinkInput) (byte : UInt8) (d : Download) : Exec Download :=
  if hasDownstream then do
    writeBytes input
    return { d with forwarded := d.forwarded ++ [byte] }
  else return d

/-- A full sector, or the last one. The device downstream may be writing to flash too, and the one
upstream assumes the same of this one. -/
def endOfSector (d : Download) : FlashM Download :=
  if d.inBuf.length = sectorSize ∨ d.finishedWriting = true then do
    let d ← writeSector target upgradeSize
      { d with downstreamReady := !hasDownstream, toldUpstreamImReady := false }
    return { d with inBuf := [], sector := d.sector + 1 }
  else return d

/-- A byte from upstream. The count of them is a `u32`, and wraps. -/
def takeByte (input : LinkInput) (byte : UInt8) (d : Download) : FlashM Download := do
  let byteCount := (d.byteCount + 1) % (u32Max + 1)
  let d ← FlashM.lift (forward hasDownstream input byte { d with
    inBuf := d.inBuf ++ [byte]
    byteCount := byteCount
    finishedWriting := byteCount == upgradeSize })
  endOfSector target upgradeSize hasDownstream d

/-- What comes from downstream. -/
def readDownstream (input : LinkInput) (d : Download) : Exec Download :=
  if hasDownstream ∧ input.downstream ≠ [] then do
    Exec.assert (∀ byte ∈ input.downstream, byte = FIRMWARE_NEXT_CHUNK_READY_SIGNAL)
      "invalid control byte sent by downstream"
    return { d with downstreamReady := true }
  else return d

/-- The signal to upstream that this device is ready. -/
def tellUpstream (input : LinkInput) (d : Download) : Exec Download :=
  if d.downstreamReady = true ∧ d.toldUpstreamImReady = false then do
    writeBytes input
    return { d with
      signals := d.signals ++ [FIRMWARE_NEXT_CHUNK_READY_SIGNAL]
      toldUpstreamImReady := true }
  else return d

def handshake (input : LinkInput) (d : Download) : Exec Download :=
  if d.finishedWriting then return d
  else do
    let d ← readDownstream hasDownstream input d
    tellUpstream input d

/-- Nothing is read from upstream before the device downstream is ready. -/
def readUpstream (input : LinkInput) (d : Download) : FlashM Download :=
  match d.downstreamReady, input.upstream with
  | true, some byte => takeByte target upgradeSize hasDownstream input byte d
  | _, _ => return d

/-- One round of the loop. -/
def round (input : LinkInput) (d : Download) : FlashM Download := do
  let d ← readUpstream target upgradeSize hasDownstream input d
  FlashM.lift (handshake hasDownstream input d)

/-- The loop, on what the links bring. It goes on waiting when they bring no more. -/
def loop : List LinkInput → Download → FlashM (Option Download)
  | [], d => pure (if d.finishedWriting then some d else none)
  | input :: inputs, d =>
      if d.finishedWriting then pure (some d)
      else do
        let d ← round target upgradeSize hasDownstream input d
        loop inputs d

end Download

namespace FirmwareUpgradeMode

variable (o : OtaPartitions) (chip : Peripherals)

/-- What `poll` leaves, shows, and sends to the coordinator. -/
structure Polled where
  mode : FirmwareUpgradeMode
  shown : Option Workflow
  sent : Option (DeviceSendBody plainPayloads)

def poll : FirmwareUpgradeMode → FlashM Polled
  | upgrading otaSlot expectedDigest size (.waitingForConfirm false) =>
      return {
        mode := upgrading otaSlot expectedDigest size (.waitingForConfirm true)
        shown := some (.confirmFirmwareUpgrade expectedDigest size)
        sent := none }
  | upgrading otaSlot expectedDigest size (.erase seq) => do
      let partition := o.otaPartitions otaSlot
      let lastSectorIndex := partition.nSectors - 1
      FlashM.lift (Exec.expectOk (← partition.eraseSector seq) "must erase sector")
      if seq = lastSectorIndex then
        return {
          mode := upgrading otaSlot expectedDigest size .waitingToEnterUpgradeMode
          shown := some (.erase seq lastSectorIndex)
          sent := some (.misc .ackUpgradeMode) }
      else
        return {
          mode := upgrading otaSlot expectedDigest size (.erase (seq + 1))
          shown := some (.erase (seq + 1) lastSectorIndex)
          sent := none }
  | upgrading otaSlot expectedDigest size state =>
      return { mode := upgrading otaSlot expectedDigest size state, shown := none, sent := none }
  | passive size false =>
      return { mode := passive size true, shown := some .passive,
               sent := some (.misc .ackUpgradeMode) }
  | passive size true => return { mode := passive size true, shown := none, sent := none }

def upgradeConfirm : FirmwareUpgradeMode → Exec FirmwareUpgradeMode
  | upgrading otaSlot expectedDigest size (.waitingForConfirm true) =>
      .ret (upgrading otaSlot expectedDigest size (.erase 0))
  | _ => .panic "Upgrade confirmed while not waiting for a confirmation. "

/-- The partition that is written, when the device is upgrading itself. -/
def target : FirmwareUpgradeMode → Option FlashPartition
  | upgrading otaSlot _ _ _ => some (o.otaPartitions otaSlot)
  | passive _ _ => none

def size : FirmwareUpgradeMode → ℕ
  | upgrading _ _ size _ => size
  | passive size _ => size

/-- A device that is upgrading itself must have erased the partition first. -/
def prepared : FirmwareUpgradeMode → Exec Unit
  | upgrading _ _ _ state => Exec.assert (state = .waitingToEnterUpgradeMode)
      "can't start upgrade while still preparing"
  | passive _ _ => .ret ()

/-- Everything up to the end of the download; nothing when the download does not end. -/
def receive (mode : FirmwareUpgradeMode) (hasDownstream : Bool) (inputs : List LinkInput) :
    FlashM (Option Download) := do
  FlashM.lift mode.prepared
  Download.loop (mode.target o) mode.size hasDownstream inputs (Download.start hasDownstream)

/-- What follows the download: the written image is committed to or refused. -/
def conclude (mode : FirmwareUpgradeMode) (d : Download) :
    FlashM (UpgradeOutcome × List Workflow) :=
  match mode with
  | upgrading otaSlot expectedDigest _ _ => do
      let f ← FlashM.get
      match decideUpgrade chip (o.otaPartitions otaSlot) f expectedDigest with
      | .commit => do
          o.switchPartition otaSlot
          return (.committed, d.shown)
      | .refuse reason => return (.rejected, d.shown ++ [.rejected reason])
  | passive _ _ => return (.committed, d.shown)

def enterUpgradeMode (mode : FirmwareUpgradeMode) (hasDownstream : Bool)
    (inputs : List LinkInput) : FlashM (Option (UpgradeOutcome × List Workflow)) := do
  match ← mode.receive o hasDownstream inputs with
  | some d => do
      let outcome ← mode.conclude o chip d
      return some outcome
  | none => return none

end FirmwareUpgradeMode

/-! ### The device -/

/-- What `firmware.rs` keeps while the firmware runs. -/
structure EspFirmware where
  activeFirmwareDigest : Sha256Digest
  upgrade : Option FirmwareUpgradeMode

/-- `EspFirmware::new`. -/
def EspFirmware.new (o : OtaPartitions) (chip : Peripherals) (f : Flash) : Exec EspFirmware :=
  let activePartition := o.activePartition f
  match firmwareSize (readerOf activePartition f) with
  | .ok (firmwareSize, _) => .ret {
      activeFirmwareDigest := sha256Digest chip activePartition f (some firmwareSize)
      upgrade := none }
  | .error _ => .panic "called Result::unwrap() on an Err value"

/-- The calls on the firmware. -/
inductive Call where
  | prepareUpgrade (size : ℕ) (firmwareDigest : Sha256Digest)
  | poll
  | confirmUpgrade
  | cancel
  | enterUpgradeMode (hasDownstream : Bool) (inputs : List LinkInput)

/-- A call, and the firmware after it. There is none after `enter_upgrade_mode`: the device resets,
or parks, or still waits for bytes. -/
def Call.run (o : OtaPartitions) (chip : Peripherals) (e : EspFirmware) :
    Call → FlashM (Option EspFirmware)
  | prepareUpgrade size firmwareDigest => do
      let f ← FlashM.get
      let mode ← FlashM.lift (o.startUpgrade f size firmwareDigest e.activeFirmwareDigest)
      return some { e with upgrade := some mode }
  | poll =>
      match e.upgrade with
      | some mode => do
          let polled ← mode.poll o
          return some { e with upgrade := some polled.mode }
      | none => return some e
  | confirmUpgrade =>
      match e.upgrade with
      | some mode => do
          let mode ← FlashM.lift mode.upgradeConfirm
          return some { e with upgrade := some mode }
      | none => return some e
  | cancel => return some { e with upgrade := none }
  | enterUpgradeMode hasDownstream inputs => do
      let mode ← FlashM.lift
        (Exec.expect e.upgrade "upgrade cannot start because we were not warned about it")
      let _ ← mode.enterUpgradeMode o chip hasDownstream inputs
      return none

/-- The flash, and the firmware while it runs. -/
structure Device where
  flash : Flash
  firmware : Option EspFirmware

/-- Power comes on, or a call is made, during which power may be lost. -/
inductive Event where
  | powerOn
  | call (c : Call) (powerLoss : Option (ℕ × ℕ))

/-- The firmware that is left by a call. -/
def firmwareAfter : Exec (Option EspFirmware) → Option (ℕ × ℕ) → Option EspFirmware
  | .ret e, none => e
  | _, _ => none

def Device.step (o : OtaPartitions) (chip : Peripherals) (g : FlashGeometry) (d : Device) :
    Event → Device
  | .powerOn => {
      flash := d.flash
      firmware := match EspFirmware.new o chip d.flash with
        | .ret e => some e
        | .panic _ => none }
  | .call c powerLoss =>
      match d.firmware with
      | some e => {
          flash := (c.run o chip e).flashAfter g d.flash powerLoss
          firmware := firmwareAfter (c.run o chip e d.flash).result powerLoss }
      | none => d

end Frostsnap.Firmware
