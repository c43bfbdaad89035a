import Frostsnap.Firmware.Ota
import Frostsnap.Lib.Link
import Frostsnap.Lib.Words
import Mathlib.Logic.Function.Basic

/-!
# Relaying firmware over a chain

A coordinator and a chain of devices that are all in upgrade mode: `run_firmware_upgrade` writes one
chunk after the other to the first device and reads one signal after each, and every device runs the
loop of `enter_upgrade_mode`. Each device has a link from upstream, on which the firmware comes, and
one to upstream, for its signals. The parties take turns in any order, and bytes arrive at any time.

A device takes turns inside one round of its loop: it takes a byte from upstream and sends it on, it
writes a sector if that was the last byte of one, and it reads the signals from downstream one by
one and then tells upstream that it is ready.
-/

namespace Frostsnap.Firmware

/-- Links that work, with these bytes from downstream. -/
def LinkInput.working (downstream : List UInt8) : LinkInput where
  upstream := none
  downstream := downstream
  writes := true

namespace Download

variable (upgradeSize : ℕ) (hasDownstream : Bool)

/-- A byte from upstream is counted and sent on. -/
def acceptByte (byte : UInt8) (d : Download) : Exec Download :=
  let byteCount := (d.byteCount + 1) % (u32Max + 1)
  forward hasDownstream (.working []) byte { d with
    inBuf := d.inBuf ++ [byte]
    byteCount := byteCount
    finishedWriting := byteCount == upgradeSize }

end Download

/-! ### A device -/

/-- Where a device is in a round of its loop. -/
inductive Phase where
  /-- It looks for a byte from upstream. -/
  | upstream
  /-- It has taken a byte, which may have been the last of a sector. -/
  | sector
  /-- It looks for signals from downstream, and may tell upstream that it is ready. -/
  | downstream
  | finished
  | panicked (message : String)
  deriving DecidableEq

structure Station where
  phase : Phase
  download : Download
  flash : Flash
  /-- what was done to the flash -/
  written : List FlashOp

/-- A turn of a device: what it is then, what has become of the links that it reads, and what it has
written to downstream and to upstream. -/
structure Turn where
  station : Station
  incoming : Link UInt8
  below : Link UInt8
  down : List UInt8
  up : List UInt8

namespace Station

def start (hasDownstream : Bool) (flash : Flash) : Station where
  phase := .upstream
  download := Download.start hasDownstream
  flash := flash
  written := []

variable (target : Option FlashPartition) (upgradeSize : ℕ) (hasDownstream : Bool)

/-- A turn that changes the download loop, and what it wrote to its links. -/
def proceed (s : Station) (incoming below : Link UInt8) (phase : Phase) : Exec Download → Turn
  | .ret d => {
      station := { s with phase := phase, download := d }
      incoming := incoming
      below := below
      down := d.forwarded.drop s.download.forwarded.length
      up := d.signals.drop s.download.signals.length }
  | .panic message => {
      station := { s with phase := .panicked message }
      incoming := incoming
      below := below
      down := []
      up := [] }

/-- Write the sector that is complete. -/
def writeTurn (s : Station) (incoming below : Link UInt8) : Turn :=
  let call := Download.endOfSector target upgradeSize hasDownstream s.download s.flash
  { s with
    flash := s.flash.exec call.ops
    written := s.written ++ call.ops }.proceed incoming below .downstream call.result

/-- The byte that is read from a link, when it is looked at. -/
def readByte (looks : Bool) (l : Link UInt8) : Option UInt8 :=
  if looks then l.arrived.head? else none

def turn (s : Station) (incoming below : Link UInt8) : Turn :=
  match s.phase with
  | .upstream =>
      match readByte s.download.downstreamReady incoming with
      | some byte =>
          s.proceed incoming.read below .sector
            (Download.acceptByte upgradeSize hasDownstream byte s.download)
      | none => s.proceed incoming below .downstream (.ret s.download)
  | .sector => s.writeTurn target upgradeSize hasDownstream incoming below
  | .downstream =>
      if s.download.finishedWriting then s.proceed incoming below .finished (.ret s.download)
      else
        match readByte hasDownstream below with
        | some byte =>
            s.proceed incoming below.read .downstream
              (Download.readDownstream hasDownstream (.working [byte]) s.download)
        | none =>
            s.proceed incoming below .upstream (Download.tellUpstream (.working []) s.download)
  | .finished => s.proceed incoming below .finished (.ret s.download)
  | .panicked message => s.proceed incoming below (.panicked message) (.ret s.download)

end Station

/-! ### The chain -/

/-- A coordinator, the devices, and the links into and out of each of them. -/
structure Relay where
  /-- the chunks that are still to be written -/
  chunks : List (List UInt8)
  /-- the coordinator waits for a signal -/
  awaiting : Bool
  station : ℕ → Station
  /-- into a device, from upstream -/
  data : ℕ → Link UInt8
  /-- out of a device, to upstream -/
  ready : ℕ → Link UInt8

inductive RelayEvent where
  | coordinator
  | device (i : ℕ)
  /-- A byte arrives at a device. -/
  | deliverData (i : ℕ)
  /-- A signal from a device arrives. -/
  | deliverReady (i : ℕ)

namespace Relay

/-- The iterator of `run_firmware_upgrade`, up to where it writes or reads. What it reads instead of
a signal is only logged. -/
def coordinatorTurn (r : Relay) : Relay :=
  if r.awaiting then
    match (r.ready 0).arrived with
    | [] => r
    | _ :: _ => { r with
        awaiting := false
        ready := Function.update r.ready 0 (r.ready 0).read }
  else
    match r.chunks with
    | [] => r
    | chunk :: chunks => { r with
        chunks := chunks
        awaiting := true
        data := Function.update r.data 0 ((r.data 0).send chunk) }

variable (chain : List (Option FlashPartition)) (firmware : List UInt8)

/-- The partition that a device writes, none for a device that is passive. -/
def target (i : ℕ) : Option FlashPartition := (chain[i]?).join

def hasDownstream (i : ℕ) : Bool := decide (i + 1 < chain.length)

def deviceTurn (i : ℕ) (r : Relay) : Turn :=
  (r.station i).turn (target chain i) firmware.length (hasDownstream chain i) (r.data i)
    (r.ready (i + 1))

/-- A device takes its turn. -/
def device (i : ℕ) (r : Relay) : Relay :=
  let turn := r.deviceTurn chain firmware i
  { r with
    station := Function.update r.station i turn.station
    data := Function.update (Function.update r.data i turn.incoming) (i + 1)
      ((r.data (i + 1)).send turn.down)
    ready := Function.update (Function.update r.ready (i + 1) turn.below) i
      ((r.ready i).send turn.up) }

def step (r : Relay) : RelayEvent → Relay
  | .coordinator => r.coordinatorTurn
  | .device i => if i < chain.length then r.device chain firmware i else r
  | .deliverData i => { r with data := Function.update r.data i (r.data i).deliver }
  | .deliverReady i => { r with ready := Function.update r.ready i (r.ready i).deliver }

/-- All are in upgrade mode, and the links are empty. -/
def start (flash : ℕ → Flash) : Relay where
  chunks := firmware.toChunks FIRMWARE_UPGRADE_CHUNK_LEN
  awaiting := false
  station i := Station.start (hasDownstream chain i) (flash i)
  data _ := Link.empty
  ready _ := Link.empty

end Relay

end Frostsnap.Firmware
