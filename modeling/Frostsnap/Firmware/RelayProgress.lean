import Frostsnap.Firmware.RelaySafety
import Mathlib.Algebra.Order.BigOperators.Group.Finset

/-!
# Relayed firmware arrives

As long as not all devices are done, something can still happen. A state from which nothing more
comes of any turns or deliveries is one in which every device waits for a byte, up from the last,
and none does, down from the first.

## Main results

* `Relay.Still.finished`: in a state in which nothing can happen, all devices are done.
* `relayed_firmware_arrives`: every device writes the firmware, and no state is stuck.
-/

namespace Frostsnap.Firmware

/-- What a device has to show: its signals, and that it is done. -/
def Station.tally (s : Station) : ℕ :=
  s.download.signals.length + if s.phase = .finished then 1 else 0

namespace Station

variable {target : Option FlashPartition} {upgradeSize : ℕ} {hasDownstream : Bool} {s : Station}
  {incoming below : Link UInt8} {t : Turn}

theorem Moves.le_tally (h : Moves target upgradeSize hasDownstream s incoming below t) :
    s.tally ≤ t.station.tally := by
  cases h with
  | tell hphase => simp [tally, hphase]
  | stay => exact le_refl _
  | finish hphase => simp [tally, hphase]
  | take hphase | look hphase | gather hphase | write hphase | hear hphase | wait hphase =>
      simp [tally, hphase]

theorem Moves.le_progress (h : Moves target upgradeSize hasDownstream s incoming below t) :
    incoming.progress ≤ t.incoming.progress ∧ below.progress ≤ t.below.progress := by
  cases h with
  | take => exact ⟨Link.le_progress_read _, le_refl _⟩
  | hear => exact ⟨le_refl _, Link.le_progress_read _⟩
  | _ => exact ⟨le_refl _, le_refl _⟩

/-- **A turn that achieves nothing**: the device only goes on in its loop. -/
theorem Moves.idle (h : Moves target upgradeSize hasDownstream s incoming below t)
    (hincoming : t.incoming.progress ≤ incoming.progress)
    (hbelow : hasDownstream = true → t.below.progress ≤ below.progress)
    (htally : t.station.tally ≤ s.tally) :
    (s.phase = .upstream ∧ (s.download.downstreamReady = false ∨ incoming.arrived = []) ∧
      t.station = { s with phase := .downstream } ∧ t.below = below) ∨
    (s.phase = .sector ∧ t.station.phase = .downstream) ∨
    (s.phase = .downstream ∧ (hasDownstream = true → below.arrived = []) ∧
      (s.download.downstreamReady = false ∨ s.download.toldUpstreamImReady = true) ∧
      t.station.phase = .upstream) ∨
    s.phase = .finished := by
  cases h with
  | take _ _ harrived =>
      dsimp only at hincoming
      rw [Link.progress_read harrived] at hincoming
      omega
  | look hphase hnone => exact .inl ⟨hphase, hnone, rfl, rfl⟩
  | gather hphase => exact .inr (.inl ⟨hphase, rfl⟩)
  | write hphase => exact .inr (.inl ⟨hphase, rfl⟩)
  | finish hphase => simp [tally, hphase] at htally
  | hear _ _ hdown harrived =>
      have hle := hbelow hdown
      dsimp only at hle
      rw [Link.progress_read harrived] at hle
      omega
  | tell hphase => simp [tally, hphase] at htally
  | wait hphase _ hquiet hnot => exact .inr (.inr (.inl ⟨hphase, hquiet, hnot, rfl⟩))
  | stay hphase => exact .inr (.inr (.inr hphase))

/-- A device that looks for a byte from upstream, or is done. -/
def Settled (s : Station) : Prop := s.phase = .upstream ∨ s.phase = .finished

end Station

namespace Relay

variable {chain : List (Option FlashPartition)} {firmware : List UInt8} {r r' : Relay} {i : ℕ}

/-! ### How far a chain has come -/

/-- How far a device and its links have come. -/
def share (r : Relay) (i : ℕ) : ℕ :=
  (r.data i).progress + (r.ready i).progress + (r.station i).tally

def work (devices : ℕ) (r : Relay) : ℕ :=
  r.chunksWritten + ∑ i ∈ Finset.range devices, r.share i

/-- A chain that has come at least as far, all along. -/
structure Grows (devices : ℕ) (r r' : Relay) : Prop where
  chunksWritten : r.chunksWritten ≤ r'.chunksWritten
  data : ∀ i < devices, (r.data i).progress ≤ (r'.data i).progress
  ready : ∀ i < devices, (r.ready i).progress ≤ (r'.ready i).progress
  tally : ∀ i < devices, (r.station i).tally ≤ (r'.station i).tally

theorem Grows.share_le {devices : ℕ} (h : Grows devices r r') :
    ∀ i ∈ Finset.range devices, r.share i ≤ r'.share i := by
  intro i hi
  have hlt := Finset.mem_range.mp hi
  exact Nat.add_le_add (Nat.add_le_add (h.data i hlt) (h.ready i hlt)) (h.tally i hlt)

theorem Grows.work_le {devices : ℕ} (h : Grows devices r r') : r.work devices ≤ r'.work devices :=
  Nat.add_le_add h.chunksWritten (Finset.sum_le_sum h.share_le)

/-- Where the whole has not come further, no part has. -/
theorem Grows.antisymm {devices : ℕ} (h : Grows devices r r')
    (hwork : r'.work devices ≤ r.work devices) : Grows devices r' r := by
  have hchunks := h.chunksWritten
  have hsum := Finset.sum_le_sum h.share_le
  rw [work, work] at hwork
  have hshare := (Finset.sum_eq_sum_iff_of_le h.share_le).mp (by omega)
  refine ⟨by omega, fun i hi => ?_, fun i hi => ?_, fun i hi => ?_⟩ <;>
  · have heq := hshare i (Finset.mem_range.mpr hi)
    have hdata := h.data i hi
    have hready := h.ready i hi
    have htally := h.tally i hi
    rw [share, share] at heq
    omega

theorem grows_coordinatorTurn (r : Relay) (devices : ℕ) :
    Grows devices r r.coordinatorTurn := by
  have hrefl : Grows devices r r :=
    ⟨le_refl _, fun _ _ => le_refl _, fun _ _ => le_refl _, fun _ _ => le_refl _⟩
  rw [Relay.coordinatorTurn]
  rcases hawaiting : r.awaiting with - | -
  · rw [if_neg Bool.false_ne_true]
    rcases r.chunks with - | ⟨chunk, chunks⟩
    · exact hrefl
    · refine { hrefl with chunksWritten := ?_, data := fun i _ => ?_ }
      · rw [Relay.chunksWritten, Relay.chunksWritten, hawaiting]
        exact Nat.le_succ _
      · dsimp only
        rw [Function.update_apply]
        split
        · rename_i hzero
          rw [hzero, Link.progress_send]
        · exact le_refl _
  · rw [if_pos rfl]
    rcases harrived : (r.ready 0).arrived with - | ⟨byte, rest⟩
    · exact hrefl
    · refine { hrefl with chunksWritten := ?_, ready := fun i _ => ?_ }
      · simp only [Relay.chunksWritten, Function.update_self, hawaiting, Link.taken_read harrived,
          List.length_append, List.length_singleton, Bool.toNat_false, Bool.toNat_true]
        exact le_refl _
      · dsimp only
        rw [Function.update_apply]
        split
        · rename_i hzero
          rw [hzero]
          exact Link.le_progress_read _
        · exact le_refl _

theorem Inv.grows_device (h : Inv chain firmware r) (htold : Told chain firmware)
    (hi : i < chain.length) (devices : ℕ) : Grows devices r (r.device chain firmware i) := by
  have hmoves := h.turn_moves htold hi
  refine ⟨?_, fun j _ => ?_, fun j _ => ?_, fun j _ => ?_⟩
  · rw [Relay.chunksWritten, Relay.chunksWritten, taken_ready_device, if_neg (by omega)]
    exact le_refl _
  · rw [map_data_device Link.progress_send]
    split
    · rename_i hsame
      exact hsame ▸ hmoves.le_progress.1
    · exact le_refl _
  · rw [map_ready_device Link.progress_send]
    split
    · rename_i hnext
      exact hnext ▸ hmoves.le_progress.2
    · exact le_refl _
  · rw [station_device]
    split
    · rename_i hsame
      exact hsame ▸ hmoves.le_tally
    · exact le_refl _

/-- **Nothing is undone**, whoever takes a turn and whatever arrives. -/
theorem Inv.grows (h : Inv chain firmware r) (htold : Told chain firmware) (event : RelayEvent)
    (devices : ℕ) : Grows devices r (r.step chain firmware event) := by
  have hrefl : Grows devices r r :=
    ⟨le_refl _, fun _ _ => le_refl _, fun _ _ => le_refl _, fun _ _ => le_refl _⟩
  cases event with
  | coordinator => exact grows_coordinatorTurn r devices
  | device i =>
      rw [Relay.step]
      split
      · rename_i hi
        exact h.grows_device htold hi devices
      · exact hrefl
  | deliverData i =>
      refine { hrefl with data := fun j _ => ?_ }
      simp only [Relay.step, Function.update_apply]
      split
      · rename_i hsame
        rw [hsame]
        exact Link.le_progress_deliver _
      · exact le_refl _
  | deliverReady i =>
      refine ⟨?_, hrefl.data, fun j _ => ?_, hrefl.tally⟩
      · simp only [Relay.step, Relay.chunksWritten, Function.update_apply]
        split
        · rename_i hsame
          rw [← hsame, Link.taken_deliver]
        · exact le_refl _
      · simp only [Relay.step, Function.update_apply]
        split
        · rename_i hsame
          rw [hsame]
          exact Link.le_progress_deliver _
        · exact le_refl _

/-- There is only so much to do. -/
theorem Inv.work_le (h : Inv chain firmware r) :
    r.work chain.length ≤ sectorCount firmware.length +
      chain.length * (2 * firmware.length + 3 * (sectorCount firmware.length + 1) + 1) := by
  refine Nat.add_le_add ?_ ?_
  · have hwritten := h.chunksWritten
    rw [sectorCount, sectorSize]
    omega
  · have hshare : ∀ i ∈ Finset.range chain.length, r.share i ≤
        2 * firmware.length + 3 * (sectorCount firmware.length + 1) + 1 := by
      intro i hi
      have hlt := Finset.mem_range.mp hi
      have hdata := (r.data i).progress_le
      have hready := (r.ready i).progress_le
      have hsent := (h.sent_prefix hlt).length_le
      have hsignals := congrArg List.length (h.station i hlt).signals
      have hsector := (h.station i hlt).sector_le_sectorCount (h.taken_le hlt)
      have htold := Bool.toNat_le (r.station i).download.toldUpstreamImReady
      rw [List.length_replicate] at hsignals
      rw [h.signals i hlt] at hready
      rw [share, Station.tally]
      generalize Bool.toNat _ = told at hsignals htold
      split <;> omega
    have hsum := Finset.sum_le_card_nsmul _ _ _ hshare
    rwa [Finset.card_range, smul_eq_mul] at hsum

/-! ### A chain at rest -/

/-- A state in which nothing more comes of any turns or deliveries. -/
structure AtRest (chain : List (Option FlashPartition)) (firmware : List UInt8) (r : Relay) :
    Prop where
  inv : Inv chain firmware r
  rest : ∀ events, (run (Relay.step chain firmware) r events).work chain.length ≤
    r.work chain.length

section AtRest

variable (hrest : AtRest chain firmware r) (htold : Told chain firmware)
  (hone : firmware.length = 1 → chain.length ≠ 1)

include hrest htold

theorem AtRest.step_grows (event : RelayEvent) :
    Grows chain.length (r.step chain firmware event) r :=
  (hrest.inv.grows htold event chain.length).antisymm (hrest.rest [event])

include hone in
theorem AtRest.step (event : RelayEvent) :
    AtRest chain firmware (r.step chain firmware event) where
  inv := hrest.inv.step htold hone event
  rest events :=
    (hrest.rest (event :: events)).trans (hrest.inv.grows htold event chain.length).work_le

theorem AtRest.inFlight_data (hi : i < chain.length) : (r.data i).inFlight = [] := by
  rcases hinFlight : (r.data i).inFlight with - | ⟨byte, rest⟩
  · rfl
  · have hle := (hrest.step_grows htold (.deliverData i)).data i hi
    simp only [Relay.step, Function.update_self, Link.progress_deliver hinFlight] at hle
    omega

theorem AtRest.inFlight_ready (hi : i < chain.length) : (r.ready i).inFlight = [] := by
  rcases hinFlight : (r.ready i).inFlight with - | ⟨byte, rest⟩
  · rfl
  · have hle := (hrest.step_grows htold (.deliverReady i)).ready i hi
    simp only [Relay.step, Function.update_self, Link.progress_deliver hinFlight] at hle
    omega

/-- The coordinator waits for a signal that does not come, or is done. -/
theorem AtRest.coordinator (hpos : 0 < chain.length) :
    (r.awaiting = true ∧ (r.ready 0).arrived = []) ∨ (r.awaiting = false ∧ r.chunks = []) := by
  have hgrows := hrest.step_grows htold .coordinator
  simp only [Relay.step, Relay.coordinatorTurn] at hgrows
  rcases hawaiting : r.awaiting with - | -
  · rw [hawaiting, if_neg Bool.false_ne_true] at hgrows
    rcases hchunks : r.chunks with - | ⟨chunk, chunks⟩
    · exact .inr ⟨rfl, rfl⟩
    · rw [hchunks] at hgrows
      have hle := hgrows.chunksWritten
      simp only [Relay.chunksWritten, hawaiting, Bool.toNat_true, Bool.toNat_false] at hle
      omega
  · rw [hawaiting, if_pos rfl] at hgrows
    rcases harrived : (r.ready 0).arrived with - | ⟨byte, rest⟩
    · exact .inl ⟨rfl, rfl⟩
    · rw [harrived] at hgrows
      have hle := hgrows.ready 0 hpos
      simp only [Function.update_self, Link.progress_read harrived] at hle
      omega

/-- **A device only goes on in its loop.** -/
theorem AtRest.turn (hi : i < chain.length) :
    ((r.station i).phase = .upstream ∧
      ((r.station i).download.downstreamReady = false ∨ (r.data i).arrived = []) ∧
      (r.deviceTurn chain firmware i).station = { r.station i with phase := .downstream } ∧
      (r.deviceTurn chain firmware i).below = r.ready (i + 1)) ∨
    ((r.station i).phase = .sector ∧
      (r.deviceTurn chain firmware i).station.phase = .downstream) ∨
    ((r.station i).phase = .downstream ∧
      (hasDownstream chain i = true → (r.ready (i + 1)).arrived = []) ∧
      ((r.station i).download.downstreamReady = false ∨
        (r.station i).download.toldUpstreamImReady = true) ∧
      (r.deviceTurn chain firmware i).station.phase = .upstream) ∨
    (r.station i).phase = .finished := by
  have hgrows := hrest.step_grows htold (.device i)
  rw [Relay.step, if_pos hi] at hgrows
  refine (hrest.inv.turn_moves htold hi).idle ?_ (fun hdown => ?_) ?_
  · have hle := hgrows.data i hi
    rwa [map_data_device Link.progress_send, if_pos rfl] at hle
  · have hle := hgrows.ready (i + 1) (of_decide_eq_true hdown)
    rwa [map_ready_device Link.progress_send, if_pos rfl] at hle
  · have hle := hgrows.tally i hi
    rwa [station_device, if_pos rfl] at hle

/-- A device that is told what comes from downstream soon looks for a byte again. -/
theorem AtRest.settle_downstream (hi : i < chain.length)
    (hphase : (r.station i).phase = .downstream) :
    ((r.step chain firmware (.device i)).station i).phase = .upstream := by
  rw [Relay.step, if_pos hi, station_device, if_pos rfl]
  obtain ⟨hup, -⟩ | ⟨hsector, -⟩ | ⟨-, -, -, hup⟩ | hfinished := hrest.turn htold hi
  · rw [hphase] at hup
    cases hup
  · rw [hphase] at hsector
    cases hsector
  · exact hup
  · rw [hphase] at hfinished
    cases hfinished

include hone

/-- What a device waits for that looks for a byte from upstream. -/
theorem AtRest.upstream (hi : i < chain.length) (hphase : (r.station i).phase = .upstream) :
    ((r.station i).download.downstreamReady = false ∨ (r.data i).arrived = []) ∧
    (hasDownstream chain i = true → (r.ready (i + 1)).arrived = []) ∧
    ((r.station i).download.downstreamReady = false ∨
      (r.station i).download.toldUpstreamImReady = true) := by
  obtain ⟨-, hnone, hstation, hbelow⟩ | ⟨hsector, -⟩ | ⟨hdown, -⟩ | hfinished :=
    hrest.turn htold hi
  · -- the next turn tells the rest
    have hnext := (hrest.step htold hone (.device i)).turn htold hi
    have hready : (r.device chain firmware i).ready (i + 1) = r.ready (i + 1) := by
      rw [Relay.device]
      dsimp only
      rw [Function.update_of_ne (Nat.succ_ne_self i), Function.update_self, hbelow]
    rw [Relay.step, if_pos hi, station_device, if_pos rfl, hready, hstation] at hnext
    obtain ⟨hup, -⟩ | ⟨hsector, -⟩ | ⟨-, hquiet, htold', -⟩ | hfinished := hnext
    · cases hup
    · cases hsector
    · exact ⟨hnone, hquiet, htold'⟩
    · cases hfinished
  · rw [hphase] at hsector
    cases hsector
  · rw [hphase] at hdown
    cases hdown
  · rw [hphase] at hfinished
    cases hfinished

/-- A device gets to where it looks for a byte, while the others stay where they are. -/
theorem AtRest.settle (hi : i < chain.length) :
    ∃ events, AtRest chain firmware (run (Relay.step chain firmware) r events) ∧
      ((run (Relay.step chain firmware) r events).station i).Settled ∧
      ∀ j ≠ i, (run (Relay.step chain firmware) r events).station j = r.station j := by
  have hother : ∀ r : Relay, ∀ j ≠ i,
      (r.step chain firmware (.device i)).station j = r.station j := by
    intro r j hj
    rw [Relay.step, if_pos hi, station_device, if_neg hj]
  obtain ⟨hup, -⟩ | ⟨-, hdown⟩ | ⟨hdown, -⟩ | hfinished := hrest.turn htold hi
  · exact ⟨[], hrest, .inl hup, fun _ _ => rfl⟩
  · have hnext := hrest.step htold hone (.device i)
    have hphase : ((r.step chain firmware (.device i)).station i).phase = .downstream := by
      rwa [Relay.step, if_pos hi, station_device, if_pos rfl]
    exact ⟨[.device i, .device i], hnext.step htold hone (.device i),
      .inl (hnext.settle_downstream htold hi hphase),
      fun j hj => (hother _ j hj).trans (hother r j hj)⟩
  · exact ⟨[.device i], hrest.step htold hone (.device i),
      .inl (hrest.settle_downstream htold hi hdown), hother r⟩
  · exact ⟨[], hrest, .inr hfinished, fun _ _ => rfl⟩

theorem AtRest.exists_settled :
    ∃ events, AtRest chain firmware (run (Relay.step chain firmware) r events) ∧
      ∀ i < chain.length, ((run (Relay.step chain firmware) r events).station i).Settled := by
  have hfirst : ∀ k ≤ chain.length, ∃ events,
      AtRest chain firmware (run (Relay.step chain firmware) r events) ∧
      ∀ i < k, ((run (Relay.step chain firmware) r events).station i).Settled := by
    intro k hk
    induction k with
    | zero => exact ⟨[], hrest, fun i hi => absurd hi (Nat.not_lt_zero i)⟩
    | succ k ih =>
        obtain ⟨events, hrest', hsettled⟩ := ih (by omega)
        obtain ⟨more, hmore, hlast, hothers⟩ := hrest'.settle htold hone (i := k) (by omega)
        refine ⟨events ++ more, by rwa [run_append], fun i hi => ?_⟩
        rw [run_append]
        rcases Nat.lt_succ_iff_lt_or_eq.mp hi with hlt | rfl
        · rw [hothers i (by omega)]
          exact hsettled i hlt
        · exact hlast
  exact hfirst chain.length (le_refl _)

/-! ### Nothing is stuck -/

section Settled

variable (hsettled : ∀ i < chain.length, (r.station i).Settled)

include hsettled

/-- **Up from the last device**, each that is not done waits for a byte. -/
theorem AtRest.waits (hi : i < chain.length) (hphase : (r.station i).phase = .upstream) :
    (r.data i).arrived = [] ∧ (r.station i).download.downstreamReady = true ∧
      (r.station i).download.toldUpstreamImReady = true := by
  obtain ⟨devices, hdevices⟩ : ∃ k, chain.length = i + 1 + k := ⟨chain.length - (i + 1), by omega⟩
  induction devices generalizing i with
  | zero =>
      obtain ⟨hnone, -, htold'⟩ := hrest.upstream htold hone hi hphase
      have hready := (hrest.inv.station i hi).ready (decide_eq_false (by omega))
      exact ⟨hnone.resolve_left (by simp [hready]), hready, htold'.resolve_left (by simp [hready])⟩
  | succ devices ih =>
      have hi' : i + 1 < chain.length := by omega
      have hdown : hasDownstream chain i = true := decide_eq_true hi'
      obtain ⟨hnone, hquiet, htold'⟩ := hrest.upstream htold hone hi hphase
      have hstation := hrest.inv.station i hi
      have hbelow := hrest.inv.station (i + 1) hi'
      have hready : (r.station i).download.downstreamReady = true := by
        refine Bool.of_not_eq_false fun hnot => ?_
        -- all signals from downstream were heard, but they are too few
        have hheard := hstation.heard hdown
        have hup := hstation.phase
        rw [hphase] at hup
        rw [Link.taken_of_drained (hrest.inFlight_ready htold hi') (hquiet hdown),
          hrest.inv.signals (i + 1) hi', hbelow.signals, List.length_replicate, hnot,
          Bool.toNat_false, Nat.add_zero] at hheard
        have hstate := hbelow.phase
        rcases hsettled (i + 1) hi' with hwaits | hfinished
        · obtain ⟨harrived, -, htrue⟩ := ih hi' hwaits (by omega)
          rw [hwaits] at hstate
          rw [htrue, Bool.toNat_true] at hheard
          rw [Link.taken_of_drained (hrest.inFlight_data htold hi') harrived,
            hrest.inv.next i hi'] at hstate
          omega
        · rw [hfinished] at hstate
          rw [hstate.2.1, hstate.2.2.1, Bool.toNat_false, sectorCount, sectorSize] at hheard
          omega
      exact ⟨hnone.resolve_left (by simp [hready]), hready, htold'.resolve_left (by simp [hready])⟩

/-- A device that waits has taken everything that it was sent. -/
theorem AtRest.taken_eq_sent (hi : i < chain.length) (hphase : (r.station i).phase = .upstream) :
    (r.data i).taken = (r.data i).sent :=
  Link.taken_of_drained (hrest.inFlight_data htold hi)
    (hrest.waits htold hone hsettled hi hphase).1

/-- **Down from the first device**, none waits. -/
theorem AtRest.finished (hi : i < chain.length) : (r.station i).phase = .finished := by
  induction i with
  | zero =>
      refine (hsettled 0 hi).resolve_left fun hphase => ?_
      have htaken := hrest.taken_eq_sent htold hone hsettled hi hphase
      have hstation := hrest.inv.station 0 hi
      have hup := hstation.phase
      rw [hphase, htaken, hrest.inv.first, List.length_take] at hup
      obtain ⟨hawaiting, harrived⟩ | ⟨hawaiting, hchunks⟩ := hrest.coordinator htold hi
      · -- the coordinator has read as many signals as the device has sent
        have hsignals := Link.taken_of_drained (hrest.inFlight_ready htold hi) harrived
        have htold' := (hrest.waits htold hone hsettled hi hphase).2.2
        rw [Relay.chunksWritten, hsignals, hrest.inv.signals 0 hi, hstation.signals,
          List.length_replicate, hawaiting, htold', Bool.toNat_true] at hup
        omega
      · have hheard := hrest.inv.heard_of_written hawaiting hchunks
        rw [Relay.chunksWritten, hawaiting, hheard, Bool.toNat_false, sectorCount,
          sectorSize] at hup
        omega
  | succ i ih =>
      refine (hsettled (i + 1) hi).resolve_left fun hphase => ?_
      have hup := (hrest.inv.station (i + 1) hi).phase
      have habove := (hrest.inv.station i (by omega)).phase
      rw [ih (by omega)] at habove
      rw [hphase, hrest.taken_eq_sent htold hone hsettled hi hphase, hrest.inv.next i hi,
        habove.1] at hup
      omega

/-- Then the coordinator has nothing more to write and nothing to wait for. -/
theorem AtRest.coordinator_done (hpos : 0 < chain.length) :
    r.awaiting = false ∧ r.chunks = [] := by
  refine (hrest.coordinator htold hpos).resolve_left fun ⟨hawaiting, harrived⟩ => ?_
  have hfinished := hrest.finished htold hone hsettled hpos
  have hsignals := Link.taken_of_drained (hrest.inFlight_ready htold hpos) harrived
  have hwritten := hrest.inv.chunksWritten
  rw [Relay.chunksWritten, hsignals, hrest.inv.signals 0 hpos,
    (hrest.inv.signals_of_finished hpos hfinished).2, List.length_replicate, hawaiting,
    Bool.toNat_true, sectorCount, sectorSize] at hwritten
  omega

end Settled

end AtRest

/-! ### What the chain promises -/

/-- What holds in every state. -/
structure Correct (chain : List (Option FlashPartition)) (firmware : List UInt8) (r : Relay) :
    Prop where
  /-- A device has written the first sectors, in order. -/
  written : ∀ i < chain.length, (r.station i).written =
    sectorWrites (target chain i) firmware (r.station i).download.sector
  /-- A device is sent nothing of a chunk before it has written the chunk before. -/
  inStep : ∀ i, i + 1 < chain.length → ∀ chunk,
    (chunk + 1) * FIRMWARE_UPGRADE_CHUNK_LEN < (r.data (i + 1)).sent.length →
      chunk < (r.station (i + 1)).download.sector
  /-- What comes from downstream is a signal. -/
  noPanic : ∀ i < chain.length, ∀ message, (r.station i).phase ≠ .panicked message
  /-- A device that is done has written all sectors, and has sent a signal for each. -/
  finished : ∀ i < chain.length, (r.station i).phase = .finished →
    (r.station i).written = sectorWrites (target chain i) firmware (sectorCount firmware.length) ∧
    (r.ready i).sent =
      List.replicate (sectorCount firmware.length) FIRMWARE_NEXT_CHUNK_READY_SIGNAL
  /-- It has read as many. -/
  heard : ∀ i, i + 1 < chain.length → (r.station i).phase = .finished →
    (r.ready (i + 1)).taken.length = sectorCount firmware.length

/-- All devices are done, and the coordinator has read a signal for each chunk. -/
structure Done (chain : List (Option FlashPartition)) (firmware : List UInt8) (r : Relay) :
    Prop where
  finished : ∀ i < chain.length, (r.station i).phase = .finished
  coordinator : 0 < chain.length → r.awaiting = false ∧ r.chunks = [] ∧
    (r.ready 0).taken.length = sectorCount firmware.length

theorem Inv.correct (h : Inv chain firmware r) : Correct chain firmware r where
  written i hi := (h.station i hi).written
  inStep i hi chunk hsent := by
    have hdown : hasDownstream chain i = true := decide_eq_true hi
    rw [h.next i hi, ← (h.station i (by omega)).forwarded hdown] at hsent
    exact h.sector_of_sent hi hsent
  noPanic i hi message hpanicked := by
    have hphase := (h.station i hi).phase
    rw [hpanicked] at hphase
    exact hphase
  finished i hi hfinished := by
    obtain ⟨hsector, hsignals⟩ := h.signals_of_finished hi hfinished
    exact ⟨hsector ▸ (h.station i hi).written, (h.signals i hi).trans hsignals⟩
  heard _ hi hfinished := h.heard_of_finished hi hfinished

theorem Inv.run (h : Inv chain firmware r) (htold : Told chain firmware)
    (hone : firmware.length = 1 → chain.length ≠ 1) (events : List RelayEvent) :
    Inv chain firmware (run (Relay.step chain firmware) r events) :=
  @run_invariant Relay RelayEvent (Relay.step chain firmware) (Inv chain firmware) (fun _ => True)
    (fun _ _ _ => trivial) (fun _ event _ hr => hr.step htold hone event) r events trivial h

/-- **No state is stuck**: from each, turns and deliveries lead to the end. -/
theorem Inv.exists_done (h : Inv chain firmware r) (htold : Told chain firmware)
    (hone : firmware.length = 1 → chain.length ≠ 1) :
    ∃ events, Done chain firmware (Frostsnap.run (Relay.step chain firmware) r events) := by
  obtain ⟨events, hquiet⟩ :=
    @exists_run_at_rest Relay RelayEvent (Relay.step chain firmware) (Inv chain firmware)
      (work chain.length) _ (fun _ event hr => hr.step htold hone event)
      (fun _ hr => hr.work_le) r h
  have hrest : AtRest chain firmware (Frostsnap.run (Relay.step chain firmware) r events) :=
    ⟨h.run htold hone events, hquiet⟩
  obtain ⟨more, hmore, hsettled⟩ := hrest.exists_settled htold hone
  refine ⟨events ++ more, ?_⟩
  rw [run_append]
  refine ⟨fun i hi => hmore.finished htold hone hsettled hi, fun hpos => ?_⟩
  obtain ⟨hawaiting, hchunks⟩ := hmore.coordinator_done htold hone hsettled hpos
  exact ⟨hawaiting, hchunks, hmore.inv.heard_of_written hawaiting hchunks⟩

end Relay

/-- **Relayed firmware arrives.** Whatever order the parties take turns in and bytes arrive in,
every device writes the firmware from its first sector on, and all can still come to the end. -/
theorem relayed_firmware_arrives {chain : List (Option FlashPartition)} {firmware : List UInt8}
    (htold : Relay.Told chain firmware) (hone : firmware.length = 1 → chain.length ≠ 1)
    (flash : ℕ → Flash) (events : List RelayEvent) :
    (run (Relay.step chain firmware) (Relay.start chain firmware flash) events).Correct
      chain firmware ∧
    ∃ rest, (run (Relay.step chain firmware)
      (run (Relay.step chain firmware) (Relay.start chain firmware flash) events) rest).Done
        chain firmware := by
  have hinv := (@Relay.Inv.start chain firmware htold.pos flash).run htold hone events
  exact ⟨hinv.correct, hinv.exists_done htold hone⟩

/-- The first device of a chain is upgraded, and those behind it only hand the firmware on. -/
theorem told_first {p : FlashPartition} {firmware : List UInt8} (hpos : 0 < firmware.length)
    (hmax : firmware.length ≤ u32Max) (hle : firmware.length ≤ p.size) (passive : ℕ) :
    Relay.Told (some p :: List.replicate passive none) firmware where
  pos := hpos
  le_u32Max := hmax
  fits i p' hp := by
    rcases i with - | i
    · obtain rfl : p = p' := Option.some.inj hp
      exact hle
    · rw [Relay.target, List.getElem?_cons_succ, List.getElem?_replicate] at hp
      split at hp <;> cases hp

theorem twoSectors_inBounds : (0 + 2) * sectorSize ≤ u32Max := by decide

/-- A partition of two sectors. -/
def twoSectors : FlashPartition := ⟨0, 2, twoSectors_inBounds⟩

/-- An image of more than a sector. -/
def overOneSector : List UInt8 := List.replicate 5000 7

theorem length_overOneSector : overOneSector.length = 5000 := List.length_replicate

/-- Turns of the parties, and bytes that arrive in between. -/
def someTurns : List RelayEvent :=
  [.device 1, .device 1, .deliverReady 1, .device 0, .deliverReady 0, .coordinator, .deliverData 0,
    .deliverData 0, .device 0, .coordinator]

/-- The second device has sent its first signal, and the coordinator has written a chunk of an
image that takes two. -/
theorem relayed_firmware_arrives_of_two :
    (run (Relay.step [some twoSectors, none] overOneSector)
      (Relay.start [some twoSectors, none] overOneSector fun _ _ => 0xff) someTurns).Correct
        [some twoSectors, none] overOneSector ∧
    ∃ rest, (run (Relay.step [some twoSectors, none] overOneSector)
      (run (Relay.step [some twoSectors, none] overOneSector)
        (Relay.start [some twoSectors, none] overOneSector fun _ _ => 0xff) someTurns) rest).Done
          [some twoSectors, none] overOneSector := by
  have htold : Relay.Told [some twoSectors, none] overOneSector := by
    refine told_first ?_ ?_ ?_ 1
    · rw [length_overOneSector]
      decide
    · rw [length_overOneSector]
      decide
    · rw [length_overOneSector]
      decide
  have hlong : overOneSector.length ≠ 1 := by
    rw [length_overOneSector]
    decide
  exact relayed_firmware_arrives htold (fun hone => absurd hone hlong) _ someTurns

/-- A coordinator waits for ever for a device that is done and has not sent a signal. -/
theorem Relay.awaiting_forever {chain : List (Option FlashPartition)} {firmware : List UInt8}
    {r : Relay} (hlen : chain.length = 1) (hfinished : (r.station 0).phase = .finished)
    (hready : r.ready 0 = Link.empty) (hawaiting : r.awaiting = true) (events : List RelayEvent) :
    (run (Relay.step chain firmware) r events).awaiting = true := by
  have hkept := @run_invariant Relay RelayEvent (Relay.step chain firmware)
    (fun r => (r.station 0).phase = .finished ∧ r.ready 0 = Link.empty ∧ r.awaiting = true)
    (fun _ => True) (fun _ _ _ => trivial) ?_ r events trivial ⟨hfinished, hready, hawaiting⟩
  · exact hkept.2.2
  · rintro r event - ⟨hfinished, hready, hawaiting⟩
    cases event with
    | coordinator =>
        rw [Relay.step, Relay.coordinatorTurn, if_pos hawaiting, hready]
        exact ⟨hfinished, hready, hawaiting⟩
    | device i =>
        rw [Relay.step]
        split
        · obtain rfl : i = 0 := by omega
          have hturn : r.deviceTurn chain firmware 0 =
              ⟨r.station 0, r.data 0, r.ready 1, [], []⟩ := by
            rw [Relay.deviceTurn, Station.turn, hfinished]
            dsimp only
            rw [Station.proceed_same, ← hfinished]
          refine ⟨?_, ?_, hawaiting⟩
          · rw [Relay.station_device, if_pos rfl, hturn]
            exact hfinished
          · rw [Relay.device]
            dsimp only
            rw [Function.update_self, hturn, hready]
            rfl
        · exact ⟨hfinished, hready, hawaiting⟩
    | deliverData i => exact ⟨hfinished, hready, hawaiting⟩
    | deliverReady i =>
        refine ⟨hfinished, ?_, hawaiting⟩
        simp only [Relay.step, Function.update_apply]
        split
        · rename_i hzero
          rw [← hzero, hready]
          rfl
        · exact hready

theorem oneSector_inBounds : (0 + 1) * sectorSize ≤ u32Max := by decide

/-- A partition of a single sector. -/
def oneSector : FlashPartition := ⟨0, 1, oneSector_inBounds⟩

/-- A single device has taken the only byte of an image before it looked at its links. -/
def unsignalled : Relay :=
  run (Relay.step [some oneSector] [7]) (Relay.start [some oneSector] [7] fun _ _ => 0xff)
    [.coordinator, .deliverData 0, .device 0, .device 0, .device 0]

/-- It sends no signal, and the coordinator waits for one ever after. -/
theorem unsignalled_never_done :
    Relay.Told [some oneSector] [7] ∧
    (unsignalled.station 0).phase = .finished ∧ (unsignalled.ready 0).sent = [] ∧
    ¬ unsignalled.Correct [some oneSector] [7] ∧
    ∀ rest, ¬ (run (Relay.step [some oneSector] [7]) unsignalled rest).Done
      [some oneSector] [7] := by
  have hfinished : (unsignalled.station 0).phase = .finished := by decide +kernel
  have hsent : (unsignalled.ready 0).sent = [] := by decide +kernel
  refine ⟨told_first (by decide) (by decide) (by decide) 0, hfinished, hsent, fun h => ?_,
    fun rest h => ?_⟩
  · have hsignals := (h.finished 0 Nat.one_pos hfinished).2
    rw [hsent] at hsignals
    cases hsignals
  · have hready : unsignalled.ready 0 = Link.empty := by
      rw [Link.sent, List.append_eq_nil_iff, List.append_eq_nil_iff] at hsent
      exact Link.ext hsent.2 hsent.1.2 hsent.1.1
    have hawaiting := @Relay.awaiting_forever [some oneSector] [7] unsignalled rfl hfinished hready
      (by decide +kernel) rest
    rw [(h.coordinator Nat.one_pos).1] at hawaiting
    cases hawaiting

end Frostsnap.Firmware
