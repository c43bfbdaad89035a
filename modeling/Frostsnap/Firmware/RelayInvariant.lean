import Frostsnap.Firmware.Relay

/-!
# What holds while firmware is relayed

Between a device and the one upstream of it, the bytes that were sent are those that were taken from
further upstream, and the signals that came back say how many chunks may be sent. A device has sent
one signal for each sector that it has written, and one more when it is ready for the next.

## Main results

* `Station.turn_moves`: what a turn of a device does.
* `Relay.Inv.step`: the invariant is kept, whoever takes a turn and whatever arrives.
-/

namespace Frostsnap.Firmware

/-- The sectors that an image has. -/
def sectorCount (size : ℕ) : ℕ := (size + (sectorSize - 1)) / sectorSize

/-- The first sectors of an image, the last of all filled up. -/
def sectorWrites (target : Option FlashPartition) (firmware : List UInt8) (sectors : ℕ) :
    List FlashOp :=
  match target with
  | some p => (List.range sectors).map fun sector =>
      .program (p.start + sector * sectorSize)
        (fill sectorSize ((firmware.drop (sector * sectorSize)).take sectorSize))
  | none => []

/-- One more sector. -/
theorem sectorWrites_succ (target : Option FlashPartition) (firmware : List UInt8)
    (sectors : ℕ) :
    sectorWrites target firmware (sectors + 1) = sectorWrites target firmware sectors ++
      match target with
      | some p => [.program (p.start + sectors * sectorSize)
          (fill sectorSize ((firmware.drop (sectors * sectorSize)).take sectorSize))]
      | none => [] := by
  cases target with
  | none => rfl
  | some p => simp only [sectorWrites, List.range_succ, List.map_append, List.map_singleton]

/-- What was taken of a sector that is complete is the sector. -/
theorem drop_eq_sector {firmware taken : List UInt8} {sector : ℕ} (hstart : taken <+: firmware)
    (hle : taken.length ≤ (sector + 1) * 4096)
    (hfull : (sector + 1) * 4096 ≤ taken.length ∨ firmware.length ≤ taken.length) :
    taken.drop (sector * 4096) = (firmware.drop (sector * 4096)).take 4096 := by
  have htake : taken = firmware.take taken.length := List.prefix_iff_eq_take.mp hstart
  generalize taken.length = n at htake hle hfull
  subst htake
  rw [List.drop_take]
  rcases hfull with hfull | hall
  · congr 1
    omega
  · have hlen : (firmware.drop (sector * 4096)).length ≤ n - sector * 4096 := by
      rw [List.length_drop]
      omega
    rw [List.take_of_length_le hlen, List.take_of_length_le (hlen.trans (by omega))]

/-! ### The parts of a round -/

namespace Download

variable {target : Option FlashPartition} {upgradeSize : ℕ} {hasDownstream : Bool} {byte : UInt8}
  {d : Download}

/-- A byte is counted, kept for its sector, and handed on. -/
theorem acceptByte_eq (h : d.byteCount < u32Max) :
    acceptByte upgradeSize hasDownstream byte d = .ret { d with
      inBuf := d.inBuf ++ [byte]
      byteCount := d.byteCount + 1
      finishedWriting := d.byteCount + 1 == upgradeSize
      forwarded := if hasDownstream then d.forwarded ++ [byte] else d.forwarded } := by
  have hmod : (d.byteCount + 1) % (u32Max + 1) = d.byteCount + 1 := Nat.mod_eq_of_lt (by omega)
  rw [acceptByte, hmod]
  cases hasDownstream <;> rfl

/-- In the middle of a sector nothing happens. -/
theorem endOfSector_of_incomplete (hlen : d.inBuf.length ≠ sectorSize)
    (hfinished : d.finishedWriting = false) (f : Flash) :
    endOfSector target upgradeSize hasDownstream d f = ⟨[], .ret d⟩ := by
  rw [endOfSector, if_neg]
  · rfl
  · rw [hfinished]
    simp [hlen]

/-- What is written when a sector is complete. -/
def sectorOps (target : Option FlashPartition) (d : Download) : List FlashOp :=
  match target with
  | some p => [.program (p.start + d.sector * sectorSize) (fill sectorSize d.inBuf)]
  | none => []

/-- What is written is the sector of the firmware that has come. -/
theorem sectorOps_eq {firmware : List UInt8}
    (h : d.inBuf = (firmware.drop (d.sector * sectorSize)).take sectorSize) :
    sectorOps target d = match target with
      | some p => [.program (p.start + d.sector * sectorSize)
          (fill sectorSize ((firmware.drop (d.sector * sectorSize)).take sectorSize))]
      | none => [] := by
  cases target with
  | none => rfl
  | some p => rw [sectorOps, h]

/-- At the end of a sector it is written, and the next one is waited for. -/
theorem endOfSector_of_complete (hfull : d.inBuf.length = sectorSize ∨ d.finishedWriting = true)
    (hlen : d.inBuf.length ≤ sectorSize)
    (hfits : ∀ p, target = some p → (d.sector + 1) * sectorSize ≤ p.size) (f : Flash) :
    ∃ shown, endOfSector target upgradeSize hasDownstream d f = ⟨sectorOps target d, .ret { d with
      inBuf := []
      sector := d.sector + 1
      downstreamReady := !hasDownstream
      toldUpstreamImReady := false
      shown := shown }⟩ := by
  rw [endOfSector, if_pos hfull]
  rcases target with - | p
  · exact ⟨d.shown, rfl⟩
  · have hfit := hfits p rfl
    have hin : ¬ p.size < saturatingAddU32 (d.sector * sectorSize)
        (fill sectorSize d.inBuf).length := by
      rw [length_fill hlen]
      refine not_lt.mpr ((Nat.min_le_left _ _).trans ?_)
      rw [← Nat.succ_mul]
      exact hfit
    refine ⟨d.shown ++ [.download d.byteCount upgradeSize], ?_⟩
    simp only [writeSector, FlashPartition.norWrite, if_neg hin]
    rfl

end Download

/-! ### The turns of a device -/

namespace Station

open Download

variable (target : Option FlashPartition) (upgradeSize : ℕ) (hasDownstream : Bool)

/-- Everything that a turn can do, when nothing panics. -/
inductive Moves (s : Station) (incoming below : Link UInt8) : Turn → Prop
  | take {byte : UInt8} {rest : List UInt8} (hphase : s.phase = .upstream)
      (hready : s.download.downstreamReady = true) (harrived : incoming.arrived = byte :: rest) :
      Moves s incoming below {
        station := { s with
          phase := .sector
          download := { s.download with
            inBuf := s.download.inBuf ++ [byte]
            byteCount := s.download.byteCount + 1
            finishedWriting := s.download.byteCount + 1 == upgradeSize
            forwarded :=
              if hasDownstream then s.download.forwarded ++ [byte] else s.download.forwarded } }
        incoming := incoming.read
        below := below
        down := if hasDownstream then [byte] else []
        up := [] }
  | look (hphase : s.phase = .upstream)
      (hnone : s.download.downstreamReady = false ∨ incoming.arrived = []) :
      Moves s incoming below ⟨{ s with phase := .downstream }, incoming, below, [], []⟩
  | gather (hphase : s.phase = .sector) (hlen : s.download.inBuf.length ≠ sectorSize)
      (hfinished : s.download.finishedWriting = false) :
      Moves s incoming below ⟨{ s with phase := .downstream }, incoming, below, [], []⟩
  | write {shown : List Workflow} (hphase : s.phase = .sector)
      (hfull : s.download.inBuf.length = sectorSize ∨ s.download.finishedWriting = true) :
      Moves s incoming below {
        station := {
          phase := .downstream
          download := { s.download with
            inBuf := []
            sector := s.download.sector + 1
            downstreamReady := !hasDownstream
            toldUpstreamImReady := false
            shown := shown }
          flash := s.flash.exec (sectorOps target s.download)
          written := s.written ++ sectorOps target s.download }
        incoming := incoming
        below := below
        down := []
        up := [] }
  | finish (hphase : s.phase = .downstream) (hfinished : s.download.finishedWriting = true) :
      Moves s incoming below ⟨{ s with phase := .finished }, incoming, below, [], []⟩
  | hear {rest : List UInt8} (hphase : s.phase = .downstream)
      (hfinished : s.download.finishedWriting = false) (hdown : hasDownstream = true)
      (harrived : below.arrived = FIRMWARE_NEXT_CHUNK_READY_SIGNAL :: rest) :
      Moves s incoming below {
        station := { s with download := { s.download with downstreamReady := true } }
        incoming := incoming
        below := below.read
        down := []
        up := [] }
  | tell (hphase : s.phase = .downstream) (hfinished : s.download.finishedWriting = false)
      (hquiet : hasDownstream = true → below.arrived = [])
      (hready : s.download.downstreamReady = true)
      (htold : s.download.toldUpstreamImReady = false) :
      Moves s incoming below {
        station := { s with
          phase := .upstream
          download := { s.download with
            signals := s.download.signals ++ [FIRMWARE_NEXT_CHUNK_READY_SIGNAL]
            toldUpstreamImReady := true } }
        incoming := incoming
        below := below
        down := []
        up := [FIRMWARE_NEXT_CHUNK_READY_SIGNAL] }
  | wait (hphase : s.phase = .downstream) (hfinished : s.download.finishedWriting = false)
      (hquiet : hasDownstream = true → below.arrived = [])
      (hnot : s.download.downstreamReady = false ∨ s.download.toldUpstreamImReady = true) :
      Moves s incoming below ⟨{ s with phase := .upstream }, incoming, below, [], []⟩
  | stay (hphase : s.phase = .finished) : Moves s incoming below ⟨s, incoming, below, [], []⟩

variable {target upgradeSize hasDownstream} {s : Station} {incoming below : Link UInt8} {t : Turn}

/-- A turn that changes nothing in the loop. -/
theorem proceed_same {phase : Phase} :
    s.proceed incoming below phase (.ret s.download) =
      ⟨{ s with phase := phase }, incoming, below, [], []⟩ := by
  simp only [proceed, List.drop_length]

/-- A byte that is read was the first to arrive. -/
theorem readByte_eq_some {looks : Bool} {l : Link UInt8} {byte : UInt8}
    (h : readByte looks l = some byte) : looks = true ∧ ∃ rest, l.arrived = byte :: rest := by
  rw [readByte] at h
  split at h
  · rename_i hlooks
    exact ⟨hlooks, List.head?_eq_some_iff.mp h⟩
  · cases h

/-- If none is read although it was looked for, none has arrived. -/
theorem readByte_eq_none {looks : Bool} {l : Link UInt8} (h : readByte looks l = none) :
    looks = true → l.arrived = [] := by
  rintro rfl
  exact List.head?_eq_none_iff.mp h

/-- **What a turn does.** -/
theorem turn_moves (hpanicked : ∀ message, s.phase ≠ .panicked message)
    (hcount : s.phase = .upstream → s.download.byteCount < u32Max)
    (hlen : s.download.inBuf.length ≤ sectorSize)
    (hfits : s.phase = .sector → ∀ p, target = some p →
      (s.download.sector + 1) * sectorSize ≤ p.size)
    (hsignals : hasDownstream = true →
      ∀ byte ∈ below.arrived, byte = FIRMWARE_NEXT_CHUNK_READY_SIGNAL) :
    Moves target upgradeSize hasDownstream s incoming below
      (s.turn target upgradeSize hasDownstream incoming below) := by
  rw [turn]
  rcases hphase : s.phase with - | - | - | - | message
  · rcases hread : readByte s.download.downstreamReady incoming with - | byte
    · rw [proceed_same]
      refine .look hphase ?_
      rcases hready : s.download.downstreamReady with - | -
      · exact .inl rfl
      · exact .inr (readByte_eq_none hread hready)
    · obtain ⟨hready, rest, harrived⟩ := readByte_eq_some hread
      have htake := @Moves.take target upgradeSize hasDownstream s incoming below byte rest hphase
        hready harrived
      dsimp only
      rw [acceptByte_eq (hcount hphase)]
      cases hasDownstream with
      | true => simpa only [proceed, if_true, List.drop_left, List.drop_length] using htake
      | false =>
          simpa only [proceed, Bool.false_eq_true, if_false, List.drop_length] using htake
  · dsimp only
    rw [writeTurn]
    by_cases hfull : s.download.inBuf.length = sectorSize ∨ s.download.finishedWriting = true
    · obtain ⟨shown, hcall⟩ := @endOfSector_of_complete target upgradeSize hasDownstream s.download
        hfull hlen (hfits hphase) s.flash
      simp only [hcall, proceed, List.drop_length]
      exact .write hphase hfull
    · rw [not_or, Bool.not_eq_true] at hfull
      simp only [endOfSector_of_incomplete hfull.1 hfull.2, proceed, List.drop_length,
        List.append_nil]
      exact .gather hphase hfull.1 hfull.2
  · dsimp only
    rcases hfinished : s.download.finishedWriting with - | -
    · rw [if_neg Bool.false_ne_true]
      rcases hread : readByte hasDownstream below with - | byte
      · have hquiet := readByte_eq_none hread
        by_cases htell : s.download.downstreamReady = true ∧
            s.download.toldUpstreamImReady = false
        · have htold : tellUpstream (.working []) s.download = .ret { s.download with
              signals := s.download.signals ++ [FIRMWARE_NEXT_CHUNK_READY_SIGNAL]
              toldUpstreamImReady := true } := by
            rw [tellUpstream, if_pos htell]
            rfl
          simpa only [htold, proceed, List.drop_length, List.drop_left] using
            Moves.tell hphase hfinished hquiet htell.1 htell.2
        · have hnot : tellUpstream (.working []) s.download = .ret s.download := by
            rw [tellUpstream, if_neg htell]
            rfl
          rw [not_and_or, Bool.not_eq_true, Bool.not_eq_false] at htell
          dsimp only
          rw [hnot, proceed_same]
          exact .wait hphase hfinished hquiet htell
      · obtain ⟨hdown, rest, harrived⟩ := readByte_eq_some hread
        obtain rfl := hsignals hdown byte (harrived ▸ List.mem_cons_self)
        have hheard : readDownstream true (.working [FIRMWARE_NEXT_CHUNK_READY_SIGNAL]) s.download =
            .ret { s.download with downstreamReady := true } := by
          rw [readDownstream, if_pos ⟨rfl, List.cons_ne_nil _ _⟩]
          simp [LinkInput.working, Exec.assert]
        have hhear := @Moves.hear target upgradeSize hasDownstream s incoming below rest hphase
          hfinished hdown harrived
        subst hdown
        simpa only [hheard, proceed, List.drop_length, hphase] using hhear
    · rw [if_pos rfl, proceed_same]
      exact .finish hphase hfinished
  · dsimp only
    rw [proceed_same, ← hphase]
    exact .stay hphase
  · exact absurd hphase (hpanicked message)

/-- A device sends nothing on its own incoming link. -/
theorem Moves.sent_incoming (h : Moves target upgradeSize hasDownstream s incoming below t) :
    t.incoming.sent = incoming.sent := by
  cases h <;> first | rfl | exact Link.sent_read _

/-- Nor on the one by which it hears from below. -/
theorem Moves.sent_below (h : Moves target upgradeSize hasDownstream s incoming below t) :
    t.below.sent = below.sent := by
  cases h <;> first | rfl | exact Link.sent_read _

/-- What is taken is sent on. -/
theorem Moves.taken_incoming (h : Moves target upgradeSize true s incoming below t) :
    t.incoming.taken = incoming.taken ++ t.down := by
  cases h with
  | take _ _ harrived => exact Link.taken_read harrived
  | _ => exact (List.append_nil _).symm

/-- What it signals goes up. -/
theorem Moves.signals_eq (h : Moves target upgradeSize hasDownstream s incoming below t) :
    t.station.download.signals = s.download.signals ++ t.up := by
  cases h with
  | tell => rfl
  | _ => exact (List.append_nil _).symm

/-! ### The invariant of a device -/

/-- What holds of a device that has taken these bytes and has heard so many signals. -/
structure Inv (target : Option FlashPartition) (firmware : List UInt8) (hasDownstream : Bool)
    (taken : List UInt8) (heard : ℕ) (s : Station) : Prop where
  byteCount : s.download.byteCount = taken.length
  inBuf : s.download.inBuf = taken.drop (s.download.sector * 4096)
  forwarded : hasDownstream = true → s.download.forwarded = taken
  finishedWriting : s.download.finishedWriting = decide (taken.length = firmware.length)
  /-- a signal for each sector, and one when it is ready for the next -/
  signals : s.download.signals = List.replicate
    (s.download.sector + s.download.toldUpstreamImReady.toNat) FIRMWARE_NEXT_CHUNK_READY_SIGNAL
  heard : hasDownstream = true → heard = s.download.sector + s.download.downstreamReady.toNat
  ready : hasDownstream = false → s.download.downstreamReady = true
  /-- nothing of a chunk was taken before the device downstream was ready for it -/
  begun : taken.length ≤ s.download.sector * 4096 ∨ s.download.downstreamReady = true
  written : s.written = sectorWrites target firmware s.download.sector
  phase : match s.phase with
    | .upstream => taken.length < firmware.length ∧ s.download.sector * 4096 ≤ taken.length ∧
        taken.length < (s.download.sector + 1) * 4096 ∧
        (s.download.downstreamReady = false ∨ s.download.toldUpstreamImReady = true ∨
          hasDownstream = false ∧ taken.length = 0)
    | .sector => s.download.sector * 4096 < taken.length ∧
        taken.length ≤ (s.download.sector + 1) * 4096 ∧ taken.length ≤ firmware.length ∧
        (s.download.toldUpstreamImReady = true ∨ taken.length = 1 ∧ 1 < firmware.length)
    | .downstream =>
        (taken.length < firmware.length ∧ s.download.sector * 4096 ≤ taken.length ∧
          taken.length < (s.download.sector + 1) * 4096) ∨
        (taken.length = firmware.length ∧ s.download.sector = sectorCount firmware.length ∧
          s.download.toldUpstreamImReady = false ∧
          s.download.downstreamReady = !hasDownstream)
    | .finished => taken.length = firmware.length ∧
        s.download.sector = sectorCount firmware.length ∧
        s.download.toldUpstreamImReady = false ∧ s.download.downstreamReady = !hasDownstream
    | .panicked _ => False

variable {firmware taken : List UInt8} {heard : ℕ}

/-- The invariant at the start. -/
theorem Inv.start (hpos : 0 < firmware.length) (flash : Flash) :
    Inv target firmware hasDownstream [] 0 (Station.start hasDownstream flash) where
  byteCount := rfl
  inBuf := List.drop_nil.symm
  forwarded _ := rfl
  finishedWriting := (decide_eq_false (by rw [List.length_nil]; omega)).symm
  signals := rfl
  heard h := by subst h; rfl
  ready h := by subst h; rfl
  begun := .inl (Nat.zero_le _)
  written := by cases target <;> rfl
  phase := by
    refine ⟨hpos, ?_, ?_, ?_⟩ <;> cases hasDownstream <;> simp [Station.start, Download.start]

/-- **A device keeps its invariant**, when what it takes is the firmware and what it hears are
signals that it waits for. -/
theorem Inv.moves (h : Inv target firmware hasDownstream incoming.taken below.taken.length s)
    (hmoves : Moves target firmware.length hasDownstream s incoming below t)
    (hstart : incoming.sent <+: firmware)
    (hearly : hasDownstream = false → incoming.arrived ≠ [] →
      1 < firmware.length ∨ s.download.signals ≠ [])
    (hfresh : s.phase = .downstream → s.download.finishedWriting = false → hasDownstream = true →
      below.arrived ≠ [] → s.download.downstreamReady = false) :
    Inv target firmware hasDownstream t.incoming.taken t.below.taken.length t.station := by
  have hphase := h.phase
  cases hmoves with
  | @take byte rest hup hready harrived =>
      rw [hup] at hphase
      obtain ⟨hlt, hle, hlt', htold⟩ := hphase
      have htaken := Link.taken_read harrived
      have hlen : (incoming.taken ++ [byte]).length = incoming.taken.length + 1 := by
        rw [List.length_append, List.length_singleton]
      rw [htaken]
      exact
        { byteCount := by rw [hlen]; exact congrArg (· + 1) h.byteCount
          inBuf := by
            dsimp only
            rw [h.inBuf, List.drop_append_of_le_length hle]
          forwarded := by
            rintro rfl
            exact congrArg (· ++ [byte]) (h.forwarded rfl)
          finishedWriting := by
            dsimp only
            rw [hlen, h.byteCount]
            rfl
          signals := h.signals
          heard := h.heard
          ready := h.ready
          begun := .inr hready
          written := h.written
          phase := by
            dsimp only
            rw [hlen]
            refine ⟨by omega, by omega, by omega, ?_⟩
            rcases htold with hnot | htold | ⟨hlast, hzero⟩
            · rw [hready] at hnot
              cases hnot
            · exact .inl htold
            · rcases hearly hlast (harrived ▸ List.cons_ne_nil _ _) with hsize | hsignals
              · exact .inr ⟨by omega, hsize⟩
              · -- the signal that was sent is the one for the first chunk
                refine .inl (Bool.of_not_eq_false fun hnot => hsignals ?_)
                rw [h.signals, hnot, Bool.toNat_false, show s.download.sector = 0 by omega]
                rfl }
  | look hup _ =>
      rw [hup] at hphase
      exact { h with phase := .inl ⟨hphase.1, hphase.2.1, hphase.2.2.1⟩ }
  | gather hsector hlen hfinished =>
      rw [hsector] at hphase
      obtain ⟨hlt, hle, hsize, -⟩ := hphase
      rw [h.finishedWriting, decide_eq_false_iff_not] at hfinished
      rw [h.inBuf, List.length_drop, sectorSize] at hlen
      have hpartial : incoming.taken.length < firmware.length ∧
          s.download.sector * 4096 ≤ incoming.taken.length ∧
          incoming.taken.length < (s.download.sector + 1) * 4096 := by omega
      exact { h with phase := .inl hpartial }
  | write hsector hfull =>
      rw [hsector] at hphase
      obtain ⟨hlt, hle, hsize, htold⟩ := hphase
      rw [h.inBuf, List.length_drop, sectorSize, h.finishedWriting, decide_eq_true_iff] at hfull
      have htold' : s.download.toldUpstreamImReady = true := by
        rcases htold with htold | ⟨hone, hsize⟩
        · exact htold
        · omega
      have hready : s.download.downstreamReady = true := by
        rcases h.begun with hbegun | hready
        · omega
        · exact hready
      exact
        { byteCount := h.byteCount
          inBuf := (List.drop_of_length_le hle).symm
          forwarded := h.forwarded
          finishedWriting := h.finishedWriting
          signals := by
            dsimp only
            rw [h.signals, htold']
            rfl
          heard := by
            rintro rfl
            dsimp only
            rw [h.heard rfl, hready]
            rfl
          ready := by
            rintro rfl
            rfl
          begun := .inl hle
          written := by
            dsimp only
            have hbuf := drop_eq_sector ((Link.taken_prefix _).trans hstart) hle (by omega)
            rw [← h.inBuf] at hbuf
            rw [h.written, sectorWrites_succ, sectorOps_eq hbuf]
          phase := by
            dsimp only
            rcases Nat.lt_or_ge incoming.taken.length firmware.length with hmore | hall
            · exact .inl (by omega)
            · refine .inr ⟨by omega, ?_, rfl, rfl⟩
              rw [sectorCount, sectorSize]
              omega }
  | finish hdown hfinished =>
      rw [hdown] at hphase
      rw [h.finishedWriting, decide_eq_true_iff] at hfinished
      rcases hphase with hphase | hphase
      · omega
      · exact { h with phase := hphase }
  | hear hdown hfinished hhas harrived =>
      have hnot := hfresh hdown hfinished hhas (harrived ▸ List.cons_ne_nil _ _)
      have hheard := h.heard hhas
      rw [hdown] at hphase
      rw [h.finishedWriting, decide_eq_false_iff_not] at hfinished
      rw [hnot, Bool.toNat_false] at hheard
      have htaken := congrArg List.length (Link.taken_read harrived)
      rw [List.length_append, List.length_singleton] at htaken
      rw [htaken, hheard]
      exact
        { byteCount := h.byteCount
          inBuf := h.inBuf
          forwarded := h.forwarded
          finishedWriting := h.finishedWriting
          signals := h.signals
          heard := fun _ => rfl
          ready := fun _ => rfl
          begun := .inr rfl
          written := h.written
          phase := by
            dsimp only
            rw [hdown]
            rcases hphase with hphase | hphase
            · exact .inl hphase
            · exact absurd hphase.1 hfinished }
  | tell hdown hfinished _ hready htold =>
      have hsignals := h.signals
      rw [htold, Bool.toNat_false, Nat.add_zero] at hsignals
      rw [hdown] at hphase
      rw [h.finishedWriting, decide_eq_false_iff_not] at hfinished
      rcases hphase with hphase | hphase
      · exact
          { h with
            signals := by
              dsimp only
              rw [hsignals, Bool.toNat_true, List.replicate_succ']
            phase := ⟨hphase.1, hphase.2.1, hphase.2.2, .inr (.inl rfl)⟩ }
      · exact absurd hphase.1 hfinished
  | wait hdown hfinished _ hnot =>
      rw [hdown] at hphase
      rw [h.finishedWriting, decide_eq_false_iff_not] at hfinished
      rcases hphase with hphase | hphase
      · refine { h with phase := ⟨hphase.1, hphase.2.1, hphase.2.2, ?_⟩ }
        rcases hnot with hnot | htold
        · exact .inl hnot
        · exact .inr (.inl htold)
      · exact absurd hphase.1 hfinished
  | stay _ => exact h

end Station

end Frostsnap.Firmware
