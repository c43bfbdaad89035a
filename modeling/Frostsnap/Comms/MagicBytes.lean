import Frostsnap.Comms.UsbSerialManager
import Frostsnap.Comms.WireRoundTrip
import Frostsnap.Lib.Exec
import Frostsnap.Lib.PrefixMatch

/-!
# Finding magic bytes

A port is read for the magic bytes of the other end before messages are read from it
(`make_progress_on_magic_bytes` of `frostsnap_comms/src/lib.rs`). Between two reads only the number
of magic bytes that were just seen is kept. A byte that does not go on with them puts it to zero,
also when it is the first of the magic bytes.

The device reads through a `FramedSerial`, a coordinator through a `FramedSerialPort`, and
`find_and_remove_magic_bytes` looks through a buffer.

## Main results

* `magicBytes_detected_iff`: what each of them reports is magic bytes that were read, and the first
  ones are reported when they have been read exactly when the stream before them ends in an even
  number of beginnings of the magic bytes.
-/

namespace Frostsnap.MagicBytes

/-! ### Making progress -/

/-- The directions with a port that is read for magic bytes. -/
inductive Direction where
  | wire (d : Wire.Direction)
  | factoryUpstream
  | factoryDownstream

/-- `MAGIC_BYTES`. -/
def Direction.magicBytes : Direction → List UInt8
  | wire d => d.magicBytes.toList
  | factoryUpstream => [0x66, 0x61, 0x63, 0x74, 0x75, 0x70, 0x30]
  | factoryDownstream => [0x66, 0x61, 0x63, 0x74, 0x64, 0x6e, 0x30]

/-- `_make_progress_on_magic_bytes`, and what is left of `remaining`. -/
def makeProgressOnMagicBytes (magicBytes : List UInt8) :
    List UInt8 → ℕ → Exec ((ℕ × Option UInt8) × List UInt8)
  | [], progress => .ret ((progress, none), [])
  | byte :: remaining, progress => do
      -- the last byte is used for version signaling -- doesn't need to be exact match
      let isLastByte := progress = magicBytes.length - 1
      let expectedByte ← Exec.expect magicBytes[progress]? "index out of bounds"
      if isLastByte ∧ expectedByte ≤ byte then
        return ((0, some (byte - expectedByte)), remaining)
      else if byte = expectedByte then
        makeProgressOnMagicBytes magicBytes remaining (progress + 1)
      else
        makeProgressOnMagicBytes magicBytes remaining 0

/-- `find_and_remove_magic_bytes` of a buffer. -/
def findAndRemoveMagicBytes (d : Direction) (buff : List UInt8) :
    Exec (List UInt8 × Option UInt8) := do
  let ((_, found), remaining) ← makeProgressOnMagicBytes d.magicBytes buff 0
  let consumed := buff.length - remaining.length
  return (if found.isSome then buff.drop consumed else buff, found)

/-- `FramedSerial` of a device. -/
structure FramedSerial where
  /-- what can be read without waiting -/
  io : List UInt8
  magicBytesProgress : ℕ

def FramedSerial.new : FramedSerial where
  io := []
  magicBytesProgress := 0

/-- `FramedSerial::find_and_remove_magic_bytes`, when `filled` has arrived. -/
def FramedSerial.findAndRemoveMagicBytes (d : Direction) (s : FramedSerial)
    (filled : List UInt8) : Exec (FramedSerial × Bool) := do
  let io := s.io ++ filled
  if io = [] then
    return ({ s with io }, false)
  let ((progress, found), io) ← makeProgressOnMagicBytes d.magicBytes io s.magicBytesProgress
  return ({ io, magicBytesProgress := progress }, found.isSome)

/-- `FramedSerialPort` of a coordinator. -/
structure FramedSerialPort where
  /-- the buffer of the `BufReader` -/
  inner : List UInt8
  magicBytesProgress : ℕ

def FramedSerialPort.new : FramedSerialPort where
  inner := []
  magicBytesProgress := 0

/-- `DeviceSupportedFeatures::from_version`. -/
def DeviceSupportedFeatures.fromVersion (version : UInt8) : Usb.DeviceSupportedFeatures where
  conchEnabled := version = 1

/-- `FramedSerialPort::read_for_magic_bytes`, where `read` is what the port gives to fill the
buffer. The buffer is filled when it is empty. -/
def FramedSerialPort.readForMagicBytes (d : Direction) (s : FramedSerialPort)
    (read : Except String (List UInt8)) :
    Exec (Except String (FramedSerialPort × Option Usb.DeviceSupportedFeatures)) := do
  match read with
  | .error e => return .error e
  | .ok read =>
      if read = [] then
        return .ok (s, none)
      let buffer := if s.inner = [] then read else s.inner
      let ((progress, found), inner) ←
        makeProgressOnMagicBytes d.magicBytes buffer s.magicBytesProgress
      return .ok ({ inner, magicBytesProgress := progress },
        found.map DeviceSupportedFeatures.fromVersion)

/-! ### What is reported -/

/-- A port is read until magic bytes are found: how many bytes of the stream have been read then.
`arrived` is how many have arrived so far, and `unread` what is buffered of them. -/
def untilFound {σ : Type} (find : σ → List UInt8 → Exec (σ × Bool)) (unread : σ → List UInt8) :
    ℕ → σ → List (List UInt8) → Exec (Option ℕ)
  | _, _, [] => .ret none
  | arrived, s, read :: reads => do
      let (s, found) ← find s read
      if found then
        return some (arrived + read.length - (unread s).length)
      untilFound find unread (arrived + read.length) s reads

/-- A device reads a port, so much at a time. -/
def FramedSerial.detect (d : Direction) (reads : List (List UInt8)) : Exec (Option ℕ) :=
  untilFound (FramedSerial.findAndRemoveMagicBytes d) FramedSerial.io 0 .new reads

/-- A coordinator reads a port, so much at a time; the port is closed when that fails. -/
def FramedSerialPort.detect (d : Direction) (reads : List (List UInt8)) : Exec (Option ℕ) :=
  untilFound (fun s read => do
      match ← FramedSerialPort.readForMagicBytes d s (.ok read) with
      | .error _ => return (s, false)
      | .ok (s, found) => return (s, found.isSome))
    FramedSerialPort.inner 0 .new reads

/-- A buffer is looked through. -/
def detectInBuffer (d : Direction) (buff : List UInt8) : Exec (Option ℕ) := do
  let (left, found) ← findAndRemoveMagicBytes d buff
  return if found.isSome then some (buff.length - left.length) else none

/-! ### The magic bytes as a pattern -/

/-- The last of the magic bytes, of version zero. -/
def Direction.lastByte (d : Direction) : UInt8 := d.magicBytes.getLastD 0

/-- Magic bytes of any version. -/
def Direction.pattern (d : Direction) : Pattern UInt8 where
  first := d.magicBytes.headD 0
  rest := d.magicBytes.tail.dropLast
  accepts byte := d.lastByte ≤ byte
  first_not_mem := by rcases d with (_ | _) | _ | _ <;> decide
  accepts_first := by rcases d with (_ | _) | _ | _ <;> decide

theorem Direction.magicBytes_eq (d : Direction) :
    d.magicBytes = d.pattern.body ++ [d.lastByte] := by
  rcases d with (_ | _) | _ | _ <;> rfl

/-- One byte, in terms of the pattern. -/
theorem makeProgress_cons {d : Direction} {progress : ℕ} (h : progress ≤ d.pattern.body.length)
    (byte : UInt8) (remaining : List UInt8) :
    makeProgressOnMagicBytes d.magicBytes (byte :: remaining) progress =
      match d.pattern.step progress byte with
      | none => .ret ((0, some (byte - d.lastByte)), remaining)
      | some progress => makeProgressOnMagicBytes d.magicBytes remaining progress := by
  have hlen : d.magicBytes.length - 1 = d.pattern.body.length := by
    rw [d.magicBytes_eq, List.length_append, List.length_singleton, Nat.add_sub_cancel]
  rw [makeProgressOnMagicBytes, Pattern.step, hlen]
  by_cases hlast : progress = d.pattern.body.length
  · have hget : d.magicBytes[progress]? = some d.lastByte := by
      rw [d.magicBytes_eq, hlast, List.getElem?_concat_length]
    have haccepts : d.pattern.accepts byte = decide (d.lastByte ≤ byte) := rfl
    rw [hget, Exec.expect_some, Exec.ret_bind, if_pos hlast, haccepts]
    by_cases hbyte : d.lastByte ≤ byte
    · rw [if_pos ⟨hlast, hbyte⟩, if_pos (decide_eq_true hbyte)]
      rfl
    · have hne : byte ≠ d.lastByte := by
        rintro rfl
        exact hbyte (UInt8.le_refl _)
      rw [if_neg fun h => hbyte h.2, if_neg hne, if_neg fun h => hbyte (of_decide_eq_true h)]
  · have hlt : progress < d.pattern.body.length := lt_of_le_of_ne h hlast
    have hget : d.magicBytes[progress]? = d.pattern.body[progress]? := by
      rw [d.magicBytes_eq, List.getElem?_append_left hlt]
    rw [hget, List.getElem?_eq_getElem hlt, Exec.expect_some, Exec.ret_bind, if_neg hlast,
      if_neg fun h => hlast h.1]
    simp only [Option.some_inj, eq_comm (a := byte)]
    split
    · rfl
    · rfl

theorem step_le {d : Direction} {progress progress' : ℕ} {byte : UInt8}
    (h : progress ≤ d.pattern.body.length) (hstep : d.pattern.step progress byte = some progress') :
    progress' ≤ d.pattern.body.length := by
  rw [Pattern.step] at hstep
  split at hstep
  · split at hstep
    · cases hstep
    · obtain rfl := Option.some.inj hstep
      exact Nat.zero_le _
  · split at hstep
    · obtain rfl := Option.some.inj hstep
      omega
    · obtain rfl := Option.some.inj hstep
      exact Nat.zero_le _

/-- Bytes that nothing is found in. -/
theorem makeProgress_of_scan {d : Direction} {s t : List UInt8} {progress progress' : ℕ}
    (h : progress ≤ d.pattern.body.length)
    (hscan : d.pattern.scan progress s = (some progress', t)) :
    progress' ≤ d.pattern.body.length ∧ t = [] ∧
      makeProgressOnMagicBytes d.magicBytes s progress = .ret ((progress', none), []) := by
  induction s generalizing progress with
  | nil =>
      obtain ⟨hp, rfl⟩ := Prod.mk.inj hscan
      obtain rfl := Option.some.inj hp
      exact ⟨h, rfl, rfl⟩
  | cons byte s ih =>
      rw [Pattern.scan] at hscan
      rw [makeProgress_cons h]
      cases hstep : d.pattern.step progress byte with
      | none =>
          rw [hstep] at hscan
          cases hscan
      | some p =>
          rw [hstep] at hscan
          exact ih (step_le h hstep) hscan

/-- Bytes that the magic bytes are found in. -/
theorem makeProgress_of_scan_none {d : Direction} {s t : List UInt8} {progress : ℕ}
    (h : progress ≤ d.pattern.body.length) (hscan : d.pattern.scan progress s = (none, t)) :
    ∃ version, makeProgressOnMagicBytes d.magicBytes s progress =
      .ret ((0, some version), t) := by
  induction s generalizing progress with
  | nil => cases hscan
  | cons byte s ih =>
      rw [Pattern.scan] at hscan
      rw [makeProgress_cons h]
      cases hstep : d.pattern.step progress byte with
      | none =>
          rw [hstep] at hscan
          obtain ⟨-, rfl⟩ := Prod.mk.inj hscan
          exact ⟨_, rfl⟩
      | some p =>
          rw [hstep] at hscan
          exact ih (step_le h hstep) hscan

/-! ### The three detectors -/

/-- A call that looks through what it reads, from the progress that the port keeps. -/
structure Finds {σ : Type} (d : Direction) (find : σ → List UInt8 → Exec (σ × Bool))
    (unread : σ → List UInt8) (progress : σ → ℕ) : Prop where
  passes : ∀ s read p, unread s = [] → progress s ≤ d.pattern.body.length →
    d.pattern.scan (progress s) read = (some p, []) →
    ∃ s', find s read = .ret (s', false) ∧ unread s' = [] ∧ progress s' = p
  finds : ∀ s read t, unread s = [] → progress s ≤ d.pattern.body.length →
    d.pattern.scan (progress s) read = (none, t) →
    ∃ s', find s read = .ret (s', true) ∧ unread s' = t

/-- However the stream is split, it is looked through as a whole. -/
theorem Finds.untilFound_eq {σ : Type} {d : Direction} {find : σ → List UInt8 → Exec (σ × Bool)}
    {unread : σ → List UInt8} {progress : σ → ℕ} (h : Finds d find unread progress)
    (reads : List (List UInt8)) (arrived : ℕ) {s : σ} (hunread : unread s = [])
    (hprogress : progress s ≤ d.pattern.body.length) :
    untilFound find unread arrived s reads =
      .ret ((d.pattern.reportedFrom (progress s) reads.flatten).map (arrived + ·)) := by
  induction reads generalizing arrived s with
  | nil => rfl
  | cons read reads ih =>
      rw [untilFound, List.flatten_cons]
      generalize hscan : d.pattern.scan (progress s) read = result
      obtain ⟨p, t⟩ := result
      cases p with
      | none =>
          obtain ⟨s', hfind, rfl⟩ := h.finds s read t hunread hprogress hscan
          have hlt := Pattern.length_lt_of_scan_none hscan
          rw [hfind, Exec.ret_bind,
            Pattern.reportedFrom_of_scan_none (Pattern.scan_append_of_none hscan)]
          simp only [if_true, Exec.pure_eq, List.length_append, Option.map_some]
          congr 2
          omega
      | some p =>
          obtain ⟨hp, rfl, -⟩ := makeProgress_of_scan hprogress hscan
          obtain ⟨s', hfind, hunread', rfl⟩ := h.passes s read p hunread hprogress hscan
          rw [hfind, Exec.ret_bind]
          simp only [Bool.false_eq_true, if_false]
          rw [ih (arrived + read.length) hunread' hp]
          generalize hrest : d.pattern.scan (progress s') reads.flatten = result
          have hall : d.pattern.scan (progress s) (read ++ reads.flatten) = result := by
            rw [Pattern.scan_append hscan, hrest]
          obtain ⟨_ | q, u⟩ := result
          · have hlt := Pattern.length_lt_of_scan_none hrest
            rw [Pattern.reportedFrom_of_scan_none hrest, Pattern.reportedFrom_of_scan_none hall,
              Option.map_some, Option.map_some, List.length_append]
            congr 2
            omega
          · rw [Pattern.reportedFrom_of_scan hrest, Pattern.reportedFrom_of_scan hall]
            rfl

theorem FramedSerial.finds (d : Direction) :
    Finds d (FramedSerial.findAndRemoveMagicBytes d) FramedSerial.io
      FramedSerial.magicBytesProgress := by
  constructor
  · rintro ⟨io, progress⟩ read p rfl hprogress hscan
    rw [FramedSerial.findAndRemoveMagicBytes, List.nil_append]
    by_cases hread : read = []
    · subst hread
      obtain ⟨hp, -⟩ := Prod.mk.inj hscan
      exact ⟨_, by rw [if_pos rfl]; rfl, rfl, Option.some.inj hp⟩
    · obtain ⟨-, -, heq⟩ := makeProgress_of_scan hprogress hscan
      simp only [hread, if_false, heq, Exec.ret_bind]
      exact ⟨_, rfl, rfl, rfl⟩
  · rintro ⟨io, progress⟩ read t rfl hprogress hscan
    obtain ⟨version, heq⟩ := makeProgress_of_scan_none hprogress hscan
    have hread : read ≠ [] := by
      rintro rfl
      cases hscan
    rw [FramedSerial.findAndRemoveMagicBytes, List.nil_append]
    simp only [hread, if_false, heq, Exec.ret_bind]
    exact ⟨_, rfl, rfl⟩

/-- A coordinator's call, as a call that cannot fail. -/
theorem FramedSerialPort.finds (d : Direction) :
    Finds d (fun s read => do
        match ← FramedSerialPort.readForMagicBytes d s (.ok read) with
        | .error _ => return (s, false)
        | .ok (s, found) => return (s, found.isSome))
      FramedSerialPort.inner FramedSerialPort.magicBytesProgress := by
  constructor
  · rintro ⟨inner, progress⟩ read p rfl hprogress hscan
    rw [FramedSerialPort.readForMagicBytes]
    by_cases hread : read = []
    · subst hread
      obtain ⟨hp, -⟩ := Prod.mk.inj hscan
      simp only [if_true]
      exact ⟨_, rfl, rfl, Option.some.inj hp⟩
    · obtain ⟨-, -, heq⟩ := makeProgress_of_scan hprogress hscan
      simp only [hread, if_false, if_true, heq, Exec.ret_bind]
      exact ⟨_, rfl, rfl, rfl⟩
  · rintro ⟨inner, progress⟩ read t rfl hprogress hscan
    obtain ⟨version, heq⟩ := makeProgress_of_scan_none hprogress hscan
    have hread : read ≠ [] := by
      rintro rfl
      cases hscan
    rw [FramedSerialPort.readForMagicBytes]
    simp only [hread, if_false, if_true, heq, Exec.ret_bind]
    exact ⟨_, rfl, rfl⟩

/-- Nothing has arrived at the start. -/
theorem map_zero_add (o : Option ℕ) : o.map (0 + ·) = o := by
  simp only [Nat.zero_add, Option.map_id']

theorem FramedSerial.detect_eq (d : Direction) (reads : List (List UInt8)) :
    FramedSerial.detect d reads = .ret (d.pattern.reported reads.flatten) := by
  rw [FramedSerial.detect, (FramedSerial.finds d).untilFound_eq reads 0 rfl (Nat.zero_le _),
    map_zero_add]
  rfl

theorem FramedSerialPort.detect_eq (d : Direction) (reads : List (List UInt8)) :
    FramedSerialPort.detect d reads = .ret (d.pattern.reported reads.flatten) := by
  rw [FramedSerialPort.detect, (FramedSerialPort.finds d).untilFound_eq reads 0 rfl
    (Nat.zero_le _), map_zero_add]
  rfl

theorem detectInBuffer_eq (d : Direction) (buff : List UInt8) :
    detectInBuffer d buff = .ret (d.pattern.reported buff) := by
  rw [detectInBuffer, findAndRemoveMagicBytes, Pattern.reported]
  generalize hscan : d.pattern.scan 0 buff = result
  obtain ⟨_ | p, t⟩ := result
  · obtain ⟨version, heq⟩ := makeProgress_of_scan_none (Nat.zero_le _) hscan
    have hlt := Pattern.length_lt_of_scan_none hscan
    rw [heq, Pattern.reportedFrom_of_scan_none hscan]
    simp only [Exec.ret_bind, Exec.pure_eq, Option.isSome_some, if_true, List.length_drop]
    congr 2
    omega
  · obtain ⟨-, -, heq⟩ := makeProgress_of_scan (Nat.zero_le _) hscan
    rw [heq, Pattern.reportedFrom_of_scan hscan]
    rfl

/-! ### When the first magic bytes are reported -/

/-- What a detector does with a stream: it does not panic, it reports the first magic bytes no later
than when they have been read, and it reports nothing before there were magic bytes. -/
def Detects (d : Direction) (stream : List UInt8) (run : Exec (Option ℕ)) : Prop :=
  ∃ report, run = .ret report ∧
    (∀ before, d.pattern.OccursFirst stream before →
      ∃ m ∈ report, m ≤ before.length + d.magicBytes.length) ∧
    ∀ m ∈ report, ∃ before, d.pattern.Occurs stream before ∧
      before.length + d.magicBytes.length ≤ m

/-- The stream before the first magic bytes ends in an even number of beginnings of the magic
bytes, one right after the other. -/
def Unmasked (d : Direction) (stream : List UInt8) : Prop :=
  ∀ before, d.pattern.OccursFirst stream before → ∃ n, Even n ∧ d.pattern.Partials n before

theorem detects_reported_iff (d : Direction) (stream : List UInt8) :
    Detects d stream (.ret (d.pattern.reported stream)) ↔ Unmasked d stream := by
  have hlen : d.magicBytes.length = d.pattern.body.length + 1 := by
    rw [d.magicBytes_eq, List.length_append, List.length_singleton]
  constructor
  · rintro ⟨report, heq, hintime, -⟩ before hfirst
    obtain rfl := Exec.ret.inj heq
    have hreported := hintime before hfirst
    rw [hlen, ← Nat.add_assoc] at hreported
    exact (Pattern.reported_le_iff hfirst).1 hreported
  · intro h
    refine ⟨_, rfl, fun before hfirst => ?_, fun m hm => ?_⟩
    · rw [hlen, ← Nat.add_assoc]
      exact (Pattern.reported_le_iff hfirst).2 (h before hfirst)
    · obtain ⟨before, hoccurs, rfl⟩ := Pattern.exists_occurs_of_reported hm
      refine ⟨before, hoccurs, ?_⟩
      rw [hlen, ← Nat.add_assoc]

/-- **When magic bytes are detected**: by a device, by a coordinator and in a buffer, for every
stream and however it is split into reads. -/
theorem magicBytes_detected_iff (d : Direction) (reads : List (List UInt8)) :
    (Detects d reads.flatten (FramedSerial.detect d reads) ↔ Unmasked d reads.flatten) ∧
      (Detects d reads.flatten (FramedSerialPort.detect d reads) ↔ Unmasked d reads.flatten) ∧
      (Detects d reads.flatten (detectInBuffer d reads.flatten) ↔ Unmasked d reads.flatten) := by
  rw [FramedSerial.detect_eq, FramedSerialPort.detect_eq, detectInBuffer_eq]
  exact ⟨detects_reported_iff d _, detects_reported_iff d _, detects_reported_iff d _⟩

/-- The first of the magic bytes, and then the magic bytes. -/
theorem magicBytes_after_first_byte_missed :
    ¬ Detects (.wire .downstream) [0xff, 0xff, 0xe4, 0x31, 0xb8, 0x02, 0x8b, 0x06]
      (FramedSerial.detect (.wire .downstream)
        [[0xff], [0xff, 0xe4, 0x31, 0xb8, 0x02, 0x8b, 0x06]]) := by
  rintro ⟨report, heq, hintime, -⟩
  have hnone : FramedSerial.detect (.wire .downstream)
      [[0xff], [0xff, 0xe4, 0x31, 0xb8, 0x02, 0x8b, 0x06]] = .ret none := by decide
  obtain rfl := Exec.ret.inj (hnone.symm.trans heq)
  obtain ⟨m, hm, -⟩ := hintime [0xff] ⟨⟨0x06, [], by decide, rfl⟩, fun before' h => by
    obtain ⟨a, after, -, heq⟩ := h
    cases before' with
    | nil =>
        obtain ⟨-, heq⟩ := List.cons.inj heq
        cases (List.cons.inj heq).1
    | cons b before' => exact Nat.succ_le_succ (Nat.zero_le _)⟩
  cases hm

end Frostsnap.MagicBytes
