import Frostsnap.Firmware.RelayInvariant

/-!
# Relaying firmware is safe

Whatever order the parties take turns in and bytes arrive in, what each device has taken is the
start of the firmware, and no device is sent a chunk before it has written the one before it. There
is one case in which a device does not tell that it is ready: a chain of a single device may take an
image of a single byte before it has looked at the links for the first time.

## Main results

* `Relay.Inv.step`: the invariant is kept.
* `Relay.Inv.sector_of_sent`: a chunk is only sent on when the one before it was written.
-/

namespace Frostsnap.Firmware

namespace Relay

variable {chain : List (Option FlashPartition)} {firmware : List UInt8} {r : Relay}

/-- The chunks that the coordinator has written: those for which it has read a signal, and the one
for which it waits. -/
def chunksWritten (r : Relay) : ℕ := (r.ready 0).taken.length + r.awaiting.toNat

/-- What holds of a chain in upgrade mode. -/
structure Inv (chain : List (Option FlashPartition)) (firmware : List UInt8)
    (r : Relay) : Prop where
  station : ∀ i < chain.length, (r.station i).Inv (target chain i) firmware (hasDownstream chain i)
    (r.data i).taken (r.ready (i + 1)).taken.length
  /-- what the coordinator has sent, and what is left -/
  first : (r.data 0).sent = firmware.take (r.chunksWritten * 4096)
  chunks : r.chunks = (firmware.drop (r.chunksWritten * 4096)).toChunks FIRMWARE_UPGRADE_CHUNK_LEN
  chunksWritten : r.chunksWritten * 4096 < firmware.length + 4096
  /-- a device sends on what it takes -/
  next : ∀ i, i + 1 < chain.length → (r.data (i + 1)).sent = (r.data i).taken
  signals : ∀ i < chain.length, (r.ready i).sent = (r.station i).download.signals

theorem Inv.start (hpos : 0 < firmware.length) (flash : ℕ → Flash) :
    Inv chain firmware (Relay.start chain firmware flash) where
  station i _ := Station.Inv.start hpos (flash i)
  first := by simp [Relay.start, Relay.chunksWritten]
  chunks := by simp [Relay.start, Relay.chunksWritten]
  chunksWritten := by simp [Relay.start, Relay.chunksWritten]
  next _ _ := rfl
  signals _ _ := rfl

/-! ### What a device is sent -/

/-- **What is sent to a device** is the start of the firmware. -/
theorem Inv.sent_prefix (h : Inv chain firmware r) {i : ℕ} (hi : i < chain.length) :
    (r.data i).sent <+: firmware := by
  induction i with
  | zero =>
      rw [h.first]
      exact List.take_prefix _ _
  | succ i ih =>
      rw [h.next i hi]
      exact (Link.taken_prefix _).trans (ih (by omega))

theorem Inv.taken_le (h : Inv chain firmware r) {i : ℕ} (hi : i < chain.length) :
    (r.data i).taken.length ≤ firmware.length :=
  ((Link.taken_prefix _).trans (h.sent_prefix hi)).length_le

/-- A device has taken no more than the one upstream of it. -/
theorem Inv.taken_le_taken (h : Inv chain firmware r) {i : ℕ} (hi : i + 1 < chain.length) :
    (r.data (i + 1)).taken.length ≤ (r.data i).taken.length := by
  rw [← h.next i hi]
  exact (Link.taken_prefix _).length_le

/-- A device has heard no more signals than were sent. -/
theorem Inv.heard_le (h : Inv chain firmware r) {i : ℕ} (hi : i < chain.length) :
    (r.ready i).taken.length ≤ (r.station i).download.sector +
      (r.station i).download.toldUpstreamImReady.toNat := by
  have hle := (Link.taken_prefix (r.ready i)).length_le
  rwa [h.signals i hi, (h.station i hi).signals, List.length_replicate] at hle

theorem Inv.arrived_signal (h : Inv chain firmware r) {i : ℕ} (hi : i < chain.length) :
    ∀ byte ∈ (r.ready i).arrived, byte = FIRMWARE_NEXT_CHUNK_READY_SIGNAL := by
  intro byte hmem
  have hsent : byte ∈ (r.ready i).sent :=
    List.mem_append_left _ (List.mem_append_right _ hmem)
  rw [h.signals i hi, (h.station i hi).signals] at hsent
  exact List.eq_of_mem_replicate hsent

end Relay

namespace Station.Inv

variable {target : Option FlashPartition} {firmware taken : List UInt8} {hasDownstream : Bool}
  {heard : ℕ} {s : Station}

/-- The sectors that a device has written are those that it has taken. -/
theorem sector_le (h : s.Inv target firmware hasDownstream taken heard) :
    s.download.sector * 4096 ≤ taken.length ∨
      taken.length = firmware.length ∧ s.download.sector = sectorCount firmware.length := by
  have hphase := h.phase
  rcases hs : s.phase with - | - | - | - | message <;> rw [hs] at hphase
  · exact .inl hphase.2.1
  · exact .inl hphase.1.le
  · rcases hphase with hphase | hphase
    · exact .inl hphase.2.1
    · exact .inr ⟨hphase.1, hphase.2.1⟩
  · exact .inr ⟨hphase.1, hphase.2.1⟩
  · exact hphase.elim

theorem sector_le_sectorCount (h : s.Inv target firmware hasDownstream taken heard)
    (hle : taken.length ≤ firmware.length) : s.download.sector ≤ sectorCount firmware.length := by
  rcases h.sector_le with hsector | hsector
  · rw [sectorCount, sectorSize]
    omega
  · exact hsector.2.le

theorem le_sector_succ (h : s.Inv target firmware hasDownstream taken heard) :
    taken.length ≤ (s.download.sector + 1) * 4096 := by
  have hphase := h.phase
  rcases hs : s.phase with - | - | - | - | message <;> rw [hs] at hphase
  · exact hphase.2.2.1.le
  · exact hphase.2.1
  · rcases hphase with hphase | ⟨hall, hsector, -⟩
    · exact hphase.2.2.le
    · rw [sectorCount, sectorSize] at hsector
      omega
  · obtain ⟨hall, hsector, -⟩ := hphase
    rw [sectorCount, sectorSize] at hsector
    omega
  · exact hphase.elim

/-- A device has heard a signal for each chunk that it has sent anything of. -/
theorem taken_le_heard (h : s.Inv target firmware true taken heard) :
    taken.length ≤ heard * 4096 := by
  have hheard := h.heard rfl
  rcases h.begun with hbegun | hbegun
  · exact hbegun.trans (Nat.mul_le_mul_right _ (hheard ▸ Nat.le_add_right _ _))
  · rw [hbegun, Bool.toNat_true] at hheard
    rw [hheard]
    exact h.le_sector_succ

end Station.Inv

namespace Relay

variable {chain : List (Option FlashPartition)} {firmware : List UInt8} {r : Relay} {i : ℕ}

/-! ### The turn of a device in the chain -/

section Device

variable (hmoves : Station.Moves (target chain i) firmware.length (hasDownstream chain i)
  (r.station i) (r.data i) (r.ready (i + 1)) (r.deviceTurn chain firmware i))

theorem station_device (j : ℕ) : (r.device chain firmware i).station j =
    if j = i then (r.deviceTurn chain firmware i).station else r.station j :=
  Function.update_apply _ _ _ _

/-- What sending does not change in a link from upstream. -/
theorem map_data_device {β : Type*} {f : Link UInt8 → β} (hf : ∀ ms l, f (l.send ms) = f l)
    (j : ℕ) : f ((r.device chain firmware i).data j) =
      if j = i then f (r.deviceTurn chain firmware i).incoming else f (r.data j) := by
  simp only [device, Function.update_apply]
  by_cases hnext : j = i + 1
  · subst hnext
    rw [if_pos rfl, if_neg (by omega), hf]
  · rw [if_neg hnext, apply_ite f]

/-- What sending does not change in a link to upstream. -/
theorem map_ready_device {β : Type*} {f : Link UInt8 → β} (hf : ∀ ms l, f (l.send ms) = f l)
    (j : ℕ) : f ((r.device chain firmware i).ready j) =
      if j = i + 1 then f (r.deviceTurn chain firmware i).below else f (r.ready j) := by
  simp only [device, Function.update_apply]
  by_cases hsame : j = i
  · subst hsame
    rw [if_pos rfl, if_neg (by omega), hf]
  · rw [if_neg hsame, apply_ite f]

theorem taken_data_device (j : ℕ) : ((r.device chain firmware i).data j).taken =
    if j = i then (r.deviceTurn chain firmware i).incoming.taken else (r.data j).taken :=
  map_data_device Link.taken_send j

theorem taken_ready_device (j : ℕ) : ((r.device chain firmware i).ready j).taken =
    if j = i + 1 then (r.deviceTurn chain firmware i).below.taken else (r.ready j).taken :=
  map_ready_device Link.taken_send j

include hmoves

theorem sent_data_device (j : ℕ) : ((r.device chain firmware i).data j).sent =
    if j = i + 1 then (r.data j).sent ++ (r.deviceTurn chain firmware i).down
    else (r.data j).sent := by
  simp only [device, Function.update_apply]
  by_cases hnext : j = i + 1
  · subst hnext
    rw [if_pos rfl, if_pos rfl, Link.sent_send]
  · rw [if_neg hnext, if_neg hnext, apply_ite Link.sent, hmoves.sent_incoming]
    by_cases hsame : j = i
    · rw [if_pos hsame, hsame]
    · rw [if_neg hsame]

theorem sent_ready_device (j : ℕ) : ((r.device chain firmware i).ready j).sent =
    if j = i then (r.ready j).sent ++ (r.deviceTurn chain firmware i).up
    else (r.ready j).sent := by
  simp only [device, Function.update_apply]
  by_cases hsame : j = i
  · subst hsame
    rw [if_pos rfl, if_pos rfl, Link.sent_send]
  · rw [if_neg hsame, if_neg hsame, apply_ite Link.sent, hmoves.sent_below]
    by_cases hnext : j = i + 1
    · rw [if_pos hnext, hnext]
    · rw [if_neg hnext]

end Device

/-- What the devices of a chain were told: the size of the firmware, which fits what they write. -/
structure Told (chain : List (Option FlashPartition)) (firmware : List UInt8) : Prop where
  pos : 0 < firmware.length
  le_u32Max : firmware.length ≤ u32Max
  fits : ∀ i p, target chain i = some p → firmware.length ≤ p.size

theorem Inv.turn_moves (h : Inv chain firmware r) (htold : Told chain firmware)
    (hi : i < chain.length) :
    Station.Moves (target chain i) firmware.length (hasDownstream chain i) (r.station i) (r.data i)
      (r.ready (i + 1)) (r.deviceTurn chain firmware i) := by
  have hstation := h.station i hi
  have hphase := hstation.phase
  refine Station.turn_moves ?_ ?_ ?_ ?_ ?_
  · intro message hpanicked
    rw [hpanicked] at hphase
    exact hphase
  · intro hup
    rw [hup] at hphase
    rw [hstation.byteCount]
    exact hphase.1.trans_le htold.le_u32Max
  · have hle := hstation.le_sector_succ
    rw [hstation.inBuf, List.length_drop, sectorSize]
    omega
  · intro hsector p hp
    rw [hsector] at hphase
    have hfits := hphase.1.trans_le (hphase.2.2.1.trans (htold.fits i p hp))
    rw [FlashPartition.size, sectorSize] at hfits ⊢
    exact Nat.mul_le_mul_right _ (Nat.lt_of_mul_lt_mul_right hfits)
  · intro hdown
    exact h.arrived_signal (of_decide_eq_true hdown)

/-- A device at the end of a chain only takes a byte that nobody asked for when the image has more
than that byte. -/
theorem Inv.early (h : Inv chain firmware r) (hone : firmware.length = 1 → chain.length ≠ 1)
    (hi : i < chain.length) (hlast : hasDownstream chain i = false)
    (harrived : (r.data i).arrived ≠ []) (hpos : 0 < firmware.length) :
    1 < firmware.length ∨ (r.station i).download.signals ≠ [] := by
  rcases Nat.lt_or_ge 1 firmware.length with hlt | hle
  · exact .inl hlt
  · have hlen : chain.length ≠ 1 := hone (by omega)
    have hend : ¬ i + 1 < chain.length := of_decide_eq_false hlast
    obtain ⟨k, rfl⟩ : ∃ k, i = k + 1 := ⟨i - 1, by omega⟩
    -- the byte was sent on by a device that had heard a signal
    have hsent : 0 < (r.data (k + 1)).sent.length := by
      have hpos := List.length_pos_iff.mpr harrived
      rw [Link.sent, List.length_append, List.length_append]
      omega
    rw [h.next k hi] at hsent
    have hstation := h.station k (by omega)
    have hdown : hasDownstream chain k = true := decide_eq_true hi
    rw [hdown] at hstation
    have hheard := hsent.trans_le hstation.taken_le_heard
    have hle := h.heard_le hi
    refine .inr fun hnil => ?_
    have hsignals := congrArg List.length (h.station (k + 1) hi).signals
    rw [hnil, List.length_nil, List.length_replicate] at hsignals
    rw [← hsignals, Nat.le_zero] at hle
    rw [hle, Nat.zero_mul] at hheard
    exact absurd hheard (Nat.lt_irrefl 0)

/-- A device that hears a signal was waiting for it. -/
theorem Inv.fresh (h : Inv chain firmware r) (hi : i < chain.length)
    (hphase : (r.station i).phase = .downstream)
    (hfinished : (r.station i).download.finishedWriting = false)
    (hdown : hasDownstream chain i = true) (harrived : (r.ready (i + 1)).arrived ≠ []) :
    (r.station i).download.downstreamReady = false := by
  have hi' : i + 1 < chain.length := of_decide_eq_true hdown
  have hstation := h.station i hi
  have hstate := hstation.phase
  rw [hphase] at hstate
  rw [hstation.finishedWriting, decide_eq_false_iff_not] at hfinished
  have hstate' : (r.data i).taken.length < firmware.length ∧
      (r.data i).taken.length < ((r.station i).download.sector + 1) * 4096 := by
    rcases hstate with hstate | hstate
    · exact ⟨hstate.1, hstate.2.2⟩
    · exact absurd hstate.1 hfinished
  refine Bool.of_not_eq_true fun hready => ?_
  have hheard := hstation.heard hdown
  rw [hready, Bool.toNat_true] at hheard
  -- a signal that has not been heard is one for the sector that is still being filled
  have hmore : (r.ready (i + 1)).taken.length < (r.ready (i + 1)).sent.length := by
    have hpos := List.length_pos_iff.mpr harrived
    rw [Link.sent, List.length_append, List.length_append]
    omega
  rw [h.signals (i + 1) hi', (h.station (i + 1) hi').signals, List.length_replicate,
    hheard] at hmore
  have htold := Bool.toNat_le (r.station (i + 1)).download.toldUpstreamImReady
  have hle := h.taken_le_taken hi'
  rcases (h.station (i + 1) hi').sector_le with hsector | hsector
  · generalize Bool.toNat _ = told at hmore htold
    omega
  · generalize Bool.toNat _ = told at hmore htold
    omega

/-- **The turn of a device** keeps the invariant. -/
theorem Inv.device (h : Inv chain firmware r) (htold : Told chain firmware)
    (hone : firmware.length = 1 → chain.length ≠ 1) (hi : i < chain.length) :
    Inv chain firmware (r.device chain firmware i) := by
  have hmoves := h.turn_moves htold hi
  have hstation := (h.station i hi).moves hmoves (h.sent_prefix hi)
    (fun hlast harrived => h.early hone hi hlast harrived htold.pos) (h.fresh hi)
  have hchunks : (r.device chain firmware i).chunksWritten = r.chunksWritten := by
    rw [Relay.chunksWritten, Relay.chunksWritten, taken_ready_device, if_neg (by omega)]
    rfl
  refine
    { station := fun j hj => ?_
      first := ?_
      chunks := ?_
      chunksWritten := ?_
      next := fun j hj => ?_
      signals := fun j hj => ?_ }
  · rw [station_device, taken_data_device, taken_ready_device]
    by_cases hsame : j = i
    · subst hsame
      rw [if_pos rfl, if_pos rfl, if_pos rfl]
      exact hstation
    · rw [if_neg hsame, if_neg hsame, if_neg (by omega)]
      exact h.station j hj
  · rw [sent_data_device hmoves, if_neg (by omega), hchunks]
    exact h.first
  · rw [hchunks]
    exact h.chunks
  · rw [hchunks]
    exact h.chunksWritten
  · rw [sent_data_device hmoves, taken_data_device]
    by_cases hsame : j = i
    · subst hsame
      have hdown : hasDownstream chain j = true := decide_eq_true hj
      rw [hdown] at hmoves
      rw [if_pos rfl, if_pos rfl, h.next j hj, hmoves.taken_incoming]
    · rw [if_neg (by omega), if_neg hsame]
      exact h.next j hj
  · rw [sent_ready_device hmoves, station_device]
    by_cases hsame : j = i
    · subst hsame
      rw [if_pos rfl, if_pos rfl, h.signals j hj, hmoves.signals_eq]
    · rw [if_neg hsame, if_neg hsame]
      exact h.signals j hj

/-- Whatever arrives, the invariant is kept. -/
theorem Inv.congr {r' : Relay} (h : Inv chain firmware r) (hchunks : r'.chunks = r.chunks)
    (hawaiting : r'.awaiting = r.awaiting) (hstation : r'.station = r.station)
    (hdata : ∀ j, (r'.data j).taken = (r.data j).taken ∧ (r'.data j).sent = (r.data j).sent)
    (hready : ∀ j, (r'.ready j).taken = (r.ready j).taken ∧ (r'.ready j).sent = (r.ready j).sent) :
    Inv chain firmware r' := by
  have hwritten : r'.chunksWritten = r.chunksWritten := by
    rw [Relay.chunksWritten, Relay.chunksWritten, hawaiting, (hready 0).1]
  exact
    { station := fun j hj => by
        rw [hstation, (hdata j).1, (hready (j + 1)).1]
        exact h.station j hj
      first := by rw [(hdata 0).2, hwritten]; exact h.first
      chunks := by rw [hchunks, hwritten]; exact h.chunks
      chunksWritten := by rw [hwritten]; exact h.chunksWritten
      next := fun j hj => by rw [(hdata (j + 1)).2, (hdata j).1]; exact h.next j hj
      signals := fun j hj => by rw [(hready j).2, hstation]; exact h.signals j hj }

theorem Inv.writeChunk {chunk : List UInt8} {chunks : List (List UInt8)}
    (h : Inv chain firmware r) (hawaiting : r.awaiting = false)
    (hchunks : r.chunks = chunk :: chunks) :
    Inv chain firmware { r with
      chunks := chunks
      awaiting := true
      data := Function.update r.data 0 ((r.data 0).send chunk) } := by
  have hleft := h.chunks
  have hsent := h.first
  have hwritten : r.chunksWritten = (r.ready 0).taken.length := by
    rw [Relay.chunksWritten, hawaiting]
    rfl
  rw [hwritten] at hleft hsent
  have hmore : firmware.drop ((r.ready 0).taken.length * 4096) ≠ [] := by
    intro hnil
    rw [hnil, hchunks] at hleft
    cases hleft
  have hlt : (r.ready 0).taken.length * 4096 < firmware.length := by
    rw [ne_eq, List.drop_eq_nil_iff] at hmore
    omega
  rw [hchunks, toChunks_eq_cons (by decide) hmore, List.cons.injEq, List.drop_drop] at hleft
  have htaken : ∀ j, (Function.update r.data 0 ((r.data 0).send chunk) j).taken =
      (r.data j).taken := by
    intro j
    rw [Function.update_apply]
    split
    · rename_i hzero
      rw [hzero, Link.taken_send]
    · rfl
  exact
    { station := fun j hj => by
        dsimp only
        rw [htaken]
        exact h.station j hj
      first := by
        simp only [Relay.chunksWritten, Function.update_self, Bool.toNat_true, Nat.succ_mul]
        rw [Link.sent_send, hsent, hleft.1, List.take_add]
      chunks := by
        simp only [Relay.chunksWritten, Bool.toNat_true, Nat.succ_mul]
        exact hleft.2
      chunksWritten := by
        simp only [Relay.chunksWritten, Bool.toNat_true, Nat.succ_mul]
        exact Nat.add_lt_add_right hlt _
      next := fun j hj => by
        dsimp only
        rw [htaken, Function.update_of_ne (Nat.succ_ne_zero j)]
        exact h.next j hj
      signals := h.signals }

theorem Inv.readSignal {byte : UInt8} {rest : List UInt8} (h : Inv chain firmware r)
    (hawaiting : r.awaiting = true) (harrived : (r.ready 0).arrived = byte :: rest) :
    Inv chain firmware { r with
      awaiting := false
      ready := Function.update r.ready 0 (r.ready 0).read } := by
  have hwritten : Relay.chunksWritten { r with
      awaiting := false
      ready := Function.update r.ready 0 (r.ready 0).read } = r.chunksWritten := by
    simp only [Relay.chunksWritten, Function.update_self, hawaiting, Link.taken_read harrived,
      List.length_append, List.length_singleton, Bool.toNat_false, Bool.toNat_true, Nat.add_zero]
  exact
    { station := fun j hj => by
        dsimp only
        rw [Function.update_of_ne (Nat.succ_ne_zero j)]
        exact h.station j hj
      first := by rw [hwritten]; exact h.first
      chunks := by rw [hwritten]; exact h.chunks
      chunksWritten := by rw [hwritten]; exact h.chunksWritten
      next := h.next
      signals := fun j hj => by
        dsimp only
        rw [Function.update_apply]
        split
        · rename_i hzero
          subst hzero
          rw [Link.sent_read]
          exact h.signals 0 hj
        · exact h.signals j hj }

/-- **The turn of the coordinator** keeps the invariant. -/
theorem Inv.coordinatorTurn (h : Inv chain firmware r) :
    Inv chain firmware r.coordinatorTurn := by
  rw [Relay.coordinatorTurn]
  rcases hawaiting : r.awaiting with - | -
  · rw [if_neg Bool.false_ne_true]
    rcases hchunks : r.chunks with - | ⟨chunk, chunks⟩
    · exact h
    · exact h.writeChunk hawaiting hchunks
  · rw [if_pos rfl]
    rcases harrived : (r.ready 0).arrived with - | ⟨byte, rest⟩
    · exact h
    · exact h.readSignal hawaiting harrived

/-- **The invariant is kept**, whoever takes a turn and whatever arrives. -/
theorem Inv.step (h : Inv chain firmware r) (htold : Told chain firmware)
    (hone : firmware.length = 1 → chain.length ≠ 1) (event : RelayEvent) :
    Inv chain firmware (r.step chain firmware event) := by
  cases event with
  | coordinator => exact h.coordinatorTurn
  | device i =>
      rw [Relay.step]
      split
      · rename_i hi
        exact h.device htold hone hi
      · exact h
  | deliverData i =>
      refine h.congr rfl rfl rfl (fun j => ?_) fun j => ⟨rfl, rfl⟩
      simp only [Relay.step, Function.update_apply]
      by_cases hsame : j = i
      · subst hsame
        rw [if_pos rfl]
        exact ⟨Link.taken_deliver _, Link.sent_deliver _⟩
      · rw [if_neg hsame]
        exact ⟨rfl, rfl⟩
  | deliverReady i =>
      refine h.congr rfl rfl rfl (fun j => ⟨rfl, rfl⟩) fun j => ?_
      simp only [Relay.step, Function.update_apply]
      by_cases hsame : j = i
      · subst hsame
        rw [if_pos rfl]
        exact ⟨Link.taken_deliver _, Link.sent_deliver _⟩
      · rw [if_neg hsame]
        exact ⟨rfl, rfl⟩

/-! ### Safety -/

/-- **A chunk is sent on** only when the device downstream has written the one before it. -/
theorem Inv.sector_of_sent (h : Inv chain firmware r) (hi : i + 1 < chain.length) {chunk : ℕ}
    (hsent : (chunk + 1) * 4096 < (r.station i).download.forwarded.length) :
    chunk < (r.station (i + 1)).download.sector := by
  have hdown : hasDownstream chain i = true := decide_eq_true hi
  have hstation := h.station i (by omega)
  rw [hdown] at hstation
  rw [hstation.forwarded rfl] at hsent
  have hchunk := Nat.lt_of_mul_lt_mul_right (hsent.trans_le hstation.taken_le_heard)
  have hheard := h.heard_le hi
  have htold := Bool.toNat_le (r.station (i + 1)).download.toldUpstreamImReady
  generalize Bool.toNat _ = told at hheard htold
  omega

/-- A device that has left its loop has sent as many signals as there are sectors. -/
theorem Inv.signals_of_finished (h : Inv chain firmware r) (hi : i < chain.length)
    (hfinished : (r.station i).phase = .finished) :
    (r.station i).download.sector = sectorCount firmware.length ∧
      (r.station i).download.signals = List.replicate (sectorCount firmware.length)
        FIRMWARE_NEXT_CHUNK_READY_SIGNAL := by
  have hphase := (h.station i hi).phase
  rw [hfinished] at hphase
  have hsignals := (h.station i hi).signals
  rw [hphase.2.1, hphase.2.2.1, Bool.toNat_false, Nat.add_zero] at hsignals
  exact ⟨hphase.2.1, hsignals⟩

/-- It has heard as many. -/
theorem Inv.heard_of_finished (h : Inv chain firmware r) (hi : i + 1 < chain.length)
    (hfinished : (r.station i).phase = .finished) :
    (r.ready (i + 1)).taken.length = sectorCount firmware.length := by
  have hdown : hasDownstream chain i = true := decide_eq_true hi
  have hstation := h.station i (by omega)
  have hphase := hstation.phase
  rw [hfinished] at hphase
  have hheard := hstation.heard hdown
  rwa [hphase.2.1, hphase.2.2.2, hdown, Bool.not_true, Bool.toNat_false, Nat.add_zero] at hheard

/-- The coordinator has read as many, once it has nothing more to write or read. -/
theorem Inv.heard_of_written (h : Inv chain firmware r) (hawaiting : r.awaiting = false)
    (hchunks : r.chunks = []) : (r.ready 0).taken.length = sectorCount firmware.length := by
  have hwritten : r.chunksWritten = (r.ready 0).taken.length := by
    rw [Relay.chunksWritten, hawaiting]
    rfl
  have hleft := h.chunks
  have hlt := h.chunksWritten
  rw [hwritten] at hleft hlt
  have hall : firmware.length ≤ (r.ready 0).taken.length * 4096 := by
    rcases Nat.lt_or_ge ((r.ready 0).taken.length * 4096) firmware.length with hmore | hall
    · have hne : firmware.drop ((r.ready 0).taken.length * 4096) ≠ [] := by
        rw [ne_eq, List.drop_eq_nil_iff]
        omega
      rw [hchunks, toChunks_eq_cons (by decide) hne] at hleft
      cases hleft
    · exact hall
  rw [sectorCount, sectorSize]
  omega

end Relay

end Frostsnap.Firmware
