import Frostsnap.Embedded.AbCrash
import Frostsnap.Firmware.Ota

/-!
# An upgrade and the running image

`next_slot` and `active_partition` both go by the otadata sectors. As long as one of the sectors is
valid they name different partitions, and everything that an upgrade does before it commits is
inside the partition that is not active. Committing writes the sector of the other partition only,
so the sector of the active one stays valid, and whatever is left of the other when power is lost,
one of the two images is active: the one that was, or the one that was accepted.

When no sector is valid both go by their defaults, and the defaults are the same partition.

## Main results

* `OtaPartitions.currentSlot_cases`: the sector that was current is overtaken by the other or stays
  current, whatever becomes of the other.
* `Settled.step`: what one event does.
* `running_image_is_kept`: an upgrade never touches the running image exactly when some otadata
  sector is valid.
-/

namespace Frostsnap.Firmware

namespace OtaPartitions

variable {o : OtaPartitions} {f f' : Flash}

/-- What a sector of otadata says under a right checksum. -/
def validSlot (o : OtaPartitions) (f : Flash) (i : Fin 2) : Option EspOtadataSlot :=
  match EspOtadataSlot.decode (o.otadataSectors i) f with
  | some slot => if seqChecksum slot.seq = slot.seqCrc then some slot else none
  | none => none

/-! ### Which slot is current -/

/-- The slots that are valid, in the terms of the source. -/
theorem validSlot_eq_some_iff {i : Fin 2} {slot : EspOtadataSlot} :
    o.validSlot f i = some slot ↔
      EspOtadataSlot.decode (o.otadataSectors i) f = some slot ∧
        seqChecksum slot.seq = slot.seqCrc := by
  unfold validSlot
  rcases EspOtadataSlot.decode (o.otadataSectors i) f with _ | slot'
  · simp only [reduceCtorEq, false_and]
  · by_cases hcrc : seqChecksum slot'.seq = slot'.seqCrc
    · simp only [hcrc, if_true, Option.some.injEq, iff_self_and]
      rintro rfl
      exact hcrc
    · simp only [hcrc, if_false, reduceCtorEq, Option.some.injEq, false_iff, not_and]
      rintro rfl
      exact hcrc

theorem consider_eq (best : Option (Fin 2 × EspOtadataSlot)) (i : Fin 2) :
    o.consider f best i =
      match o.validSlot f i, best with
      | none, best => best
      | some slot, none => some (i, slot)
      | some slot, some (j, data) =>
          if data.seq < slot.seq then some (i, slot) else some (j, data) := by
  unfold consider validSlot
  rcases EspOtadataSlot.decode (o.otadataSectors i) f with _ | slot
  · rfl
  · by_cases hcrc : seqChecksum slot.seq = slot.seqCrc
    · simp only [hcrc, ne_eq, not_true_eq_false, if_false, if_true]
      rcases best with _ | ⟨j, data⟩
      · rfl
      · rfl
    · simp only [hcrc, ne_eq, not_false_eq_true, if_true, if_false]

/-- The slot that is current is valid. -/
theorem validSlot_of_current {i : Fin 2} {slot : EspOtadataSlot}
    (h : o.currentSlot f = some (i, slot)) : o.validSlot f i = some slot := by
  simp only [currentSlot, List.foldl_cons, List.foldl_nil, consider_eq] at h
  rcases h0 : o.validSlot f 0 with _ | slot0
  · rcases h1 : o.validSlot f 1 with _ | slot1
    · rw [h0, h1] at h
      cases h
    · rw [h0, h1] at h
      cases h
      exact h1
  · rcases h1 : o.validSlot f 1 with _ | slot1
    · rw [h0, h1] at h
      cases h
      exact h0
    · rw [h0, h1] at h
      dsimp only at h
      split at h
      · cases h
        exact h1
      · cases h
        exact h0

/-- Some slot is current when some slot is valid. -/
theorem exists_current {i : Fin 2} {slot : EspOtadataSlot} (h : o.validSlot f i = some slot) :
    ∃ j slot', o.currentSlot f = some (j, slot') := by
  simp only [currentSlot, List.foldl_cons, List.foldl_nil, consider_eq]
  rcases h0 : o.validSlot f 0 with _ | slot0
  · rcases h1 : o.validSlot f 1 with _ | slot1
    · rcases AbSlot.eq_zero_or_one i with rfl | rfl
      · cases h0.symm.trans h
      · cases h1.symm.trans h
    · exact ⟨1, slot1, rfl⟩
  · rcases h1 : o.validSlot f 1 with _ | slot1
    · exact ⟨0, slot0, rfl⟩
    · dsimp only
      split
      · exact ⟨1, slot1, rfl⟩
      · exact ⟨0, slot0, rfl⟩

theorem currentSlot_congr (h : ∀ i, o.validSlot f i = o.validSlot f' i) :
    o.currentSlot f = o.currentSlot f' := by
  simp only [currentSlot, List.foldl_cons, List.foldl_nil, consider_eq, h]

theorem validSlot_congr {i : Fin 2}
    (h : (o.otadataSectors i).contents f = (o.otadataSectors i).contents f') :
    o.validSlot f i = o.validSlot f' i := by
  simp only [validSlot, EspOtadataSlot.decode, h]

/-- **A sector that is left alone** stays current, unless the other one overtakes it. -/
theorem currentSlot_cases {i : Fin 2} {slot : EspOtadataSlot}
    (h : o.validSlot f i = some slot) :
    (∃ slot', o.currentSlot f = some (i, slot')) ∨
      ∃ slot', o.currentSlot f = some (i + 1, slot') := by
  obtain ⟨j, slot', hj⟩ := exists_current h
  rcases AbSlot.eq_zero_or_one i with rfl | rfl
  · rcases AbSlot.eq_zero_or_one j with rfl | rfl
    · exact .inl ⟨slot', hj⟩
    · exact .inr ⟨slot', hj⟩
  · rcases AbSlot.eq_zero_or_one j with rfl | rfl
    · exact .inr ⟨slot', hj⟩
    · exact .inl ⟨slot', hj⟩

theorem activePartition_of_current {i : Fin 2} {slot : EspOtadataSlot}
    (h : o.currentSlot f = some (i, slot)) : o.activePartition f = o.otaPartitions i := by
  rw [activePartition, h]

theorem nextSlot_of_current {i : Fin 2} {slot : EspOtadataSlot}
    (h : o.currentSlot f = some (i, slot)) : o.nextSlot f = i + 1 := by
  rw [nextSlot, h]

/-! ### Where the partitions are -/

theorem ne_of_apart {p q : FlashPartition} (hp : 0 < p.nSectors) (h : p.Apart q) : p ≠ q := by
  rintro rfl
  have hsize : 0 < p.size := Nat.mul_pos hp (by decide)
  rcases h with h | h
  · omega
  · omega

theorem otaPartitions_nonempty (o : OtaPartitions) (i : Fin 2) :
    0 < (o.otaPartitions i).nSectors := by
  rcases AbSlot.eq_zero_or_one i with rfl | rfl
  · exact o.ota0_nonempty
  · exact o.ota1_nonempty

theorem otaPartitions_apart (o : OtaPartitions) (i : Fin 2) :
    (o.otaPartitions i).Apart (o.otaPartitions (i + 1)) := by
  rcases AbSlot.eq_zero_or_one i with rfl | rfl
  · exact .inl o.ota0_before
  · exact .inr o.ota0_before

theorem otaPartitions_ne (o : OtaPartitions) (i : Fin 2) :
    o.otaPartitions (i + 1) ≠ o.otaPartitions i := by
  have h := ne_of_apart (o.otaPartitions_nonempty i) (o.otaPartitions_apart i)
  exact h.symm

/-- Both sectors are inside `otadata`, one after the other. -/
theorem otadataSectors_bounds (o : OtaPartitions) :
    (o.otadataSectors 0).start + (o.otadataSectors 0).size = (o.otadataSectors 1).start ∧
      (o.otadataSectors 1).start + (o.otadataSectors 1).size =
        o.otadata.start + o.otadata.size := by
  have h := o.otadata_nonempty
  simp only [otadataSectors, Matrix.cons_val_zero, Matrix.cons_val_one, FlashPartition.start,
    FlashPartition.size, FlashPartition.dropEnd, FlashPartition.takeEnd, sectorSize]
  omega

theorem otadataSectors_apart (o : OtaPartitions) (i : Fin 2) :
    (o.otadataSectors i).Apart (o.otadataSectors (i + 1)) := by
  obtain ⟨h, -⟩ := o.otadataSectors_bounds
  rcases AbSlot.eq_zero_or_one i with rfl | rfl
  · exact .inl h.le
  · exact .inr h.le

/-- The firmware is in none of the sectors. -/
theorem otaPartitions_otadataSectors_apart (o : OtaPartitions) (i j : Fin 2) :
    (o.otaPartitions i).Apart (o.otadataSectors j) := by
  obtain ⟨h₀, h₁⟩ := o.otadataSectors_bounds
  have hbefore := o.otadata_before
  have hbefore' := o.ota0_before
  right
  rcases AbSlot.eq_zero_or_one i with rfl | rfl
  · rcases AbSlot.eq_zero_or_one j with rfl | rfl
    · show _ ≤ o.ota0.start
      omega
    · show _ ≤ o.ota0.start
      omega
  · rcases AbSlot.eq_zero_or_one j with rfl | rfl
    · show _ ≤ o.ota1.start
      omega
    · show _ ≤ o.ota1.start
      omega

/-! ### Switching -/

theorem writeOtadata_confined (o : OtaPartitions) (slot : Fin 2) (nextSeq : ℕ) :
    (o.otadataSectors slot).Confines (o.writeOtadata slot nextSeq) := by
  unfold writeOtadata
  refine FlashM.Confined.bind' (FlashPartition.eraseAll_confined _) fun _ => ?_
  refine FlashM.Confined.bind' (FlashM.confined_lift _) fun _ => ?_
  refine FlashM.Confined.bind (BincodeFlashWriter.write_confined
    ((o.otadataSectors slot).bincodeWriter 64) _) fun f ops written hwritten => ?_
  rcases written with e | writer
  · exact FlashM.Confined.bind (FlashM.confined_lift _) fun f ops w h => by cases h
  · have hflash := BincodeFlashWriter.flash_write (congrArg FlashTrace.result hwritten)
    refine FlashM.Confined.bind (FlashM.confined_lift _) fun f ops w h => ?_
    cases h
    have hflush := writer.flush_confined
    rw [hflash] at hflush
    refine FlashM.Confined.bind' hflush fun _ => ?_
    refine FlashM.Confined.bind' (FlashM.confined_lift _) fun _ => ?_
    refine FlashM.Confined.bind' FlashM.confined_get fun f => ?_
    exact FlashM.Confined.bind' (FlashM.confined_lift _) fun _ => FlashM.confined_lift _

/-- Switching writes the sector of the slot that is switched to, and nothing else. -/
theorem switchPartition_confined (o : OtaPartitions) (slot : Fin 2) :
    (o.otadataSectors slot).Confines (o.switchPartition slot) := by
  unfold switchPartition
  refine FlashM.Confined.bind' FlashM.confined_get fun f => ?_
  rcases o.currentSlot f with _ | ⟨current, otadataSlot⟩
  · exact o.writeOtadata_confined slot 1
  · dsimp only
    split
    · exact FlashM.confined_pure _
    · exact FlashM.Confined.bind' (FlashM.confined_lift _) fun nextSeq =>
        o.writeOtadata_confined slot nextSeq

/-- A slot that is valid with a greater sequence number than the other is current. -/
theorem current_of_lt {i : Fin 2} {slot : EspOtadataSlot} (h : o.validSlot f i = some slot)
    (hlt : ∀ other, o.validSlot f (i + 1) = some other → other.seq < slot.seq) :
    o.currentSlot f = some (i, slot) := by
  simp only [currentSlot, List.foldl_cons, List.foldl_nil, consider_eq]
  rcases AbSlot.eq_zero_or_one i with rfl | rfl
  · rw [h]
    rcases h1 : o.validSlot f 1 with _ | other
    · rfl
    · exact if_neg (hlt other h1).le.not_gt
  · rw [h]
    rcases h0 : o.validSlot f 0 with _ | other
    · rfl
    · exact if_pos (hlt other h0)

/-- What was written is read back. -/
theorem validSlot_writeOtadata {slot : Fin 2} {nextSeq : ℕ}
    (h : (o.writeOtadata slot nextSeq f).result = .ret ()) :
    o.validSlot ((o.writeOtadata slot nextSeq).after f) slot =
      some { seq := nextSeq, reserved := 0, seqCrc := seqChecksum nextSeq } := by
  unfold writeOtadata at h ⊢
  obtain ⟨_, -, h, hafter⟩ := FlashM.bind_returns h
  rw [hafter]
  obtain ⟨_, -, h, hafter⟩ := FlashM.bind_returns h
  rw [hafter]
  obtain ⟨_, -, h, hafter⟩ := FlashM.bind_returns h
  rw [hafter]
  obtain ⟨writer, -, h, hafter⟩ := FlashM.bind_returns h
  rw [hafter]
  obtain ⟨_, -, h, hafter⟩ := FlashM.bind_returns h
  rw [hafter]
  obtain ⟨_, -, h, hafter⟩ := FlashM.bind_returns h
  rw [hafter]
  obtain ⟨written, hread, h, hafter⟩ := FlashM.bind_returns h
  rw [hafter]
  obtain ⟨whatWasWritten, hdecode, hassert, hafter⟩ := FlashM.bind_returns h
  rw [hafter, FlashM.after_lift, FlashM.after_lift]
  obtain rfl := Exec.assert_eq_ret_iff.1 hassert
  rw [FlashM.get_apply, Exec.ret.injEq] at hread
  rw [← hread] at hdecode
  rw [FlashM.after_get]
  exact validSlot_eq_some_iff.2 ⟨Exec.expect_eq_ret_iff.1 hdecode, rfl⟩

/-- **A switch that returns** makes the slot the active one. -/
theorem activePartition_switchPartition {slot : Fin 2}
    (h : (o.switchPartition slot f).result = .ret ()) :
    o.activePartition ((o.switchPartition slot).after f) = o.otaPartitions slot := by
  have hother : o.validSlot ((o.switchPartition slot).after f) (slot + 1) =
      o.validSlot f (slot + 1) :=
    validSlot_congr
      ((o.switchPartition_confined slot).contents_after (o.otadataSectors_apart slot) f)
  have hswitch : ∀ g : FlashM Unit, (o.switchPartition slot f) = g f →
      (o.switchPartition slot).after f = g.after f := by
    intro g hg
    rw [FlashM.after, FlashM.after, hg]
  rcases hcur : o.currentSlot f with _ | ⟨current, otadataSlot⟩
  · have hrun : o.switchPartition slot f = o.writeOtadata slot 1 f := by
      rw [switchPartition, FlashM.get_bind_apply, hcur]
    have hvalid := validSlot_writeOtadata (hrun ▸ h)
    rw [← hswitch _ hrun] at hvalid
    refine activePartition_of_current (current_of_lt hvalid fun other hslot => ?_)
    obtain ⟨j, slot', hj⟩ := exists_current (hother.symm.trans hslot)
    cases hcur.symm.trans hj
  · by_cases hsame : slot = current
    · have hrun : o.switchPartition slot f = (pure () : FlashM Unit) f := by
        rw [switchPartition, FlashM.get_bind_apply, hcur]
        simp only [if_pos hsame]
      rw [hswitch _ hrun, hsame]
      exact activePartition_of_current hcur
    · have hrun : o.switchPartition slot f = (FlashM.lift (Exec.expect
          (checkedAdd otadataSlot.seq 1) "practically unreachable") >>=
            o.writeOtadata slot) f := by
        rw [switchPartition, FlashM.get_bind_apply, hcur]
        simp only [if_neg hsame]
      rw [hrun] at h
      obtain ⟨nextSeq, hseq, hwrite, hafter⟩ := FlashM.bind_returns h
      have hvalid := validSlot_writeOtadata hwrite
      rw [← hafter, ← hswitch _ hrun] at hvalid
      have hnext : checkedAdd otadataSlot.seq 1 = some nextSeq := Exec.expect_eq_ret_iff.1 hseq
      refine activePartition_of_current (current_of_lt hvalid fun other hslot => ?_)
      have hcurrent : slot + 1 = current := by
        rcases AbSlot.eq_zero_or_one slot with rfl | rfl <;>
          rcases AbSlot.eq_zero_or_one current with rfl | rfl
        · exact absurd rfl hsame
        · rfl
        · rfl
        · exact absurd rfl hsame
      rw [hother, hcurrent, validSlot_of_current hcur] at hslot
      obtain rfl := Option.some.inj hslot
      unfold checkedAdd at hnext
      split at hnext
      · cases hnext
        exact Nat.lt_succ_self _
      · cases hnext

end OtaPartitions

/-! ### Downloading -/

namespace Download

variable {p : FlashPartition} {target : Option FlashPartition} {upgradeSize : ℕ}
  {hasDownstream : Bool}

/-- A download writes the partition that is upgraded, if there is one. -/
theorem writeSector_confined (h : ∀ q ∈ target, q = p) (d : Download) :
    p.Confines (writeSector target upgradeSize d) := by
  unfold writeSector
  rcases target with _ | q
  · exact FlashM.confined_pure _
  · obtain rfl := h q rfl
    refine FlashM.Confined.bind' (q.norWrite_confined _ _) fun _ => ?_
    exact FlashM.Confined.bind' (FlashM.confined_lift _) fun _ => FlashM.confined_pure _

theorem takeByte_confined (h : ∀ q ∈ target, q = p) (input : LinkInput) (byte : UInt8)
    (d : Download) : p.Confines (takeByte target upgradeSize hasDownstream input byte d) := by
  unfold takeByte
  refine FlashM.Confined.bind' (FlashM.confined_lift _) fun d => ?_
  unfold endOfSector
  split
  · exact FlashM.Confined.bind' (writeSector_confined h _) fun _ => FlashM.confined_pure _
  · exact FlashM.confined_pure _

theorem round_confined (h : ∀ q ∈ target, q = p) (input : LinkInput) (d : Download) :
    p.Confines (round target upgradeSize hasDownstream input d) := by
  unfold round
  refine FlashM.Confined.bind' ?_ fun _ => FlashM.confined_lift _
  unfold readUpstream
  split
  · exact takeByte_confined h input _ d
  · exact FlashM.confined_pure _

theorem loop_confined (h : ∀ q ∈ target, q = p) (inputs : List LinkInput) (d : Download) :
    p.Confines (loop target upgradeSize hasDownstream inputs d) := by
  induction inputs generalizing d with
  | nil => exact FlashM.confined_pure _
  | cons input inputs ih =>
      unfold loop
      split
      · exact FlashM.confined_pure _
      · exact FlashM.Confined.bind' (round_confined h input d) ih

end Download

/-! ### An upgrade before it commits -/

namespace FirmwareUpgradeMode

variable {o : OtaPartitions} {chip : Peripherals} {slot : Fin 2} {mode : FirmwareUpgradeMode}

/-- The upgrade is to a slot, if the device is upgrading itself at all. -/
def AimsAt (slot : Fin 2) : FirmwareUpgradeMode → Prop
  | upgrading otaSlot _ _ _ => otaSlot = slot
  | passive _ _ => True

theorem AimsAt.target (h : mode.AimsAt slot) :
    ∀ q ∈ mode.target o, q = o.otaPartitions slot := by
  intro q hq
  cases mode with
  | upgrading otaSlot expectedDigest size state =>
      obtain rfl : otaSlot = slot := h
      exact (Option.some.inj hq).symm
  | passive size sentAck => cases hq

theorem AimsAt.poll_confined (h : mode.AimsAt slot) :
    (o.otaPartitions slot).Confines (mode.poll o) := by
  unfold poll
  split
  · exact FlashM.confined_pure _
  · obtain rfl : _ = slot := h
    refine FlashM.Confined.bind' (FlashPartition.eraseSector_confined _ _) fun _ => ?_
    refine FlashM.Confined.bind' (FlashM.confined_lift _) fun _ => ?_
    split
    · exact FlashM.confined_pure _
    · exact FlashM.confined_pure _
  · exact FlashM.confined_pure _
  · exact FlashM.confined_pure _
  · exact FlashM.confined_pure _

theorem AimsAt.poll {f : Flash} {polled : Polled} (h : mode.AimsAt slot)
    (hpoll : (mode.poll o f).result = .ret polled) : polled.mode.AimsAt slot := by
  unfold FirmwareUpgradeMode.poll at hpoll
  split at hpoll
  · cases hpoll
    exact h
  · obtain ⟨ops₁, r, -, hpoll⟩ := FlashM.bind_result_eq_ret hpoll
    obtain ⟨ops₂, u, -, hpoll⟩ := FlashM.bind_result_eq_ret hpoll
    split at hpoll
    · cases hpoll
      exact h
    · cases hpoll
      exact h
  · cases hpoll
    exact h
  · cases hpoll
    exact h
  · cases hpoll
    exact h

theorem AimsAt.upgradeConfirm {mode' : FirmwareUpgradeMode} (h : mode.AimsAt slot)
    (hconfirm : mode.upgradeConfirm = .ret mode') : mode'.AimsAt slot := by
  unfold FirmwareUpgradeMode.upgradeConfirm at hconfirm
  split at hconfirm
  · cases hconfirm
    exact h
  · cases hconfirm

/-- An upgrade that starts is to the next slot. -/
theorem aimsAt_of_startUpgrade {f : Flash} {size : ℕ} {expected active : Sha256Digest}
    (h : o.startUpgrade f size expected active = .ret mode) : mode.AimsAt (o.nextSlot f) := by
  obtain ⟨-, -, h⟩ := Exec.bind_eq_ret_iff.1 h
  obtain ⟨-, -, h⟩ := Exec.bind_eq_ret_iff.1 h
  split at h
  · cases h
    trivial
  · cases h
    exact Eq.refl _

theorem AimsAt.receive_confined (h : mode.AimsAt slot) (hasDownstream : Bool)
    (inputs : List LinkInput) :
    (o.otaPartitions slot).Confines (mode.receive o hasDownstream inputs) := by
  unfold receive
  refine FlashM.Confined.bind' (FlashM.confined_lift _) fun _ => ?_
  exact Download.loop_confined h.target inputs _

end FirmwareUpgradeMode

variable {o : OtaPartitions} {chip : Peripherals} {g : FlashGeometry} {f f' : Flash}

/-! ### What a call leaves -/

/-- The image that is active, and its bytes, are what they were. -/
def Intact (o : OtaPartitions) (f f' : Flash) : Prop :=
  o.activePartition f' = o.activePartition f ∧
    (o.activePartition f).contents f' = (o.activePartition f).contents f

/-- Nothing changes but the partition of a slot. -/
structure OnlyImage (o : OtaPartitions) (slot : Fin 2) (f f' : Flash) : Prop where
  otadata : ∀ i, (o.otadataSectors i).contents f' = (o.otadataSectors i).contents f
  other : (o.otaPartitions (slot + 1)).contents f' = (o.otaPartitions (slot + 1)).contents f

/-- What stays inside the partition of a slot, interrupted or not. -/
theorem onlyImage_of_confines {α : Type} {m : FlashM α} {slot : Fin 2}
    (h : (o.otaPartitions slot).Confines m) (f : Flash) (crash : Option (ℕ × ℕ)) :
    OnlyImage o slot f (m.flashAfter g f crash) where
  otadata i := h.contents_flashAfter (o.otaPartitions_otadataSectors_apart slot i) g f crash
  other := h.contents_flashAfter (o.otaPartitions_apart slot) g f crash

namespace OnlyImage

variable {slot : Fin 2}

theorem currentSlot (h : OnlyImage o slot f f') : o.currentSlot f' = o.currentSlot f :=
  OtaPartitions.currentSlot_congr fun i => OtaPartitions.validSlot_congr (h.otadata i)

theorem nextSlot (h : OnlyImage o slot f f') : o.nextSlot f' = o.nextSlot f := by
  rw [OtaPartitions.nextSlot, OtaPartitions.nextSlot, h.currentSlot]

/-- When the slot is the one that is next, the active image is left alone. -/
theorem intact {i : Fin 2} {slot' : EspOtadataSlot} (hcur : o.currentSlot f = some (i, slot'))
    (h : OnlyImage o (i + 1) f f') : Intact o f f' := by
  have hcur' := h.currentSlot.trans hcur
  rw [Intact, OtaPartitions.activePartition_of_current hcur,
    OtaPartitions.activePartition_of_current hcur']
  have hother := h.other
  rw [AbSlot.add_one_add_one] at hother
  exact ⟨rfl, hother⟩

end OnlyImage

/-- Everything but the sector of a slot is what it was, and the slot is not the current one: one of
the two partitions is active afterwards, and both have their bytes. -/
theorem active_cases {α : Type} {m : FlashM α} {i : Fin 2} {slot' : EspOtadataSlot}
    (hcur : o.currentSlot f = some (i, slot')) (h : (o.otadataSectors (i + 1)).Confines m)
    (crash : Option (ℕ × ℕ)) :
    (o.activePartition (m.flashAfter g f crash) = o.otaPartitions i ∨
      o.activePartition (m.flashAfter g f crash) = o.otaPartitions (i + 1)) ∧
      ((∃ slot, o.validSlot (m.flashAfter g f crash) i = some slot) ∧
        ∀ j, (o.otaPartitions j).contents (m.flashAfter g f crash) =
          (o.otaPartitions j).contents f) := by
  have hsector : (o.otadataSectors i).contents (m.flashAfter g f crash) =
      (o.otadataSectors i).contents f := by
    have hapart := (o.otadataSectors_apart i).symm
    exact h.contents_flashAfter hapart g f crash
  have hvalid : o.validSlot (m.flashAfter g f crash) i = some slot' :=
    (OtaPartitions.validSlot_congr hsector).trans (OtaPartitions.validSlot_of_current hcur)
  refine ⟨?_, ⟨slot', hvalid⟩, fun j => ?_⟩
  · rcases OtaPartitions.currentSlot_cases hvalid with ⟨slot, hslot⟩ | ⟨slot, hslot⟩
    · exact .inl (OtaPartitions.activePartition_of_current hslot)
    · exact .inr (OtaPartitions.activePartition_of_current hslot)
  · exact h.contents_flashAfter (o.otaPartitions_otadataSectors_apart j (i + 1)).symm g f crash

/-- The call downloads an image to a partition in full, and `decide_upgrade` accepts it. -/
def Accepts (o : OtaPartitions) (chip : Peripherals) (d : Device) (c : Call) (p : FlashPartition)
    (image : List UInt8) : Prop :=
  ∃ e otaSlot expectedDigest size state hasDownstream inputs ops download,
    d.firmware = some e ∧
    e.upgrade = some (.upgrading otaSlot expectedDigest size state) ∧
    c = .enterUpgradeMode hasDownstream inputs ∧
    (FirmwareUpgradeMode.upgrading otaSlot expectedDigest size state).receive o hasDownstream inputs
      d.flash = ⟨ops, .ret (some download)⟩ ∧
    p = o.otaPartitions otaSlot ∧
    p.contents (d.flash.exec ops) = image ∧
    decideUpgrade chip p (d.flash.exec ops) expectedDigest = .commit

/-- Some slot is valid, and an upgrade that is under way is to the next slot. -/
structure Settled (o : OtaPartitions) (d : Device) : Prop where
  valid : ∃ i slot, o.validSlot d.flash i = some slot
  aims : ∀ e ∈ d.firmware, ∀ mode ∈ e.upgrade, mode.AimsAt (o.nextSlot d.flash)

/-- No firmware runs after `enter_upgrade_mode`. -/
theorem Call.enterUpgradeMode_ne {hasDownstream : Bool} {inputs : List LinkInput}
    {e e' : EspFirmware} :
    ((Call.enterUpgradeMode hasDownstream inputs).run o chip e f).result ≠ .ret (some e') := by
  intro h
  obtain ⟨ops, mode, -, h⟩ := FlashM.bind_result_eq_ret h
  obtain ⟨ops', outcome, -, h⟩ := FlashM.bind_result_eq_ret h
  cases h

/-- The mode of an upgrade after a call. -/
theorem Call.run_aims {c : Call} {e e' : EspFirmware}
    (haims : ∀ mode ∈ e.upgrade, mode.AimsAt (o.nextSlot f))
    (h : (c.run o chip e f).result = .ret (some e')) :
    ∀ mode ∈ e'.upgrade, mode.AimsAt (o.nextSlot f) := by
  cases c with
  | prepareUpgrade size firmwareDigest =>
      obtain ⟨ops, mode, hmode, h⟩ := FlashM.bind_result_eq_ret
        (show ((FlashM.lift _ >>= _) f).result = _ from h)
      cases h
      rintro mode' ⟨⟩
      exact FirmwareUpgradeMode.aimsAt_of_startUpgrade (congrArg FlashTrace.result hmode)
  | poll =>
      unfold Call.run at h
      rcases hup : e.upgrade with _ | mode
      · rw [hup] at h
        cases h
        exact haims
      · rw [hup] at h
        obtain ⟨ops, polled, hpoll, h⟩ := FlashM.bind_result_eq_ret h
        cases h
        rintro mode' ⟨⟩
        exact (haims mode hup).poll (congrArg FlashTrace.result hpoll)
  | confirmUpgrade =>
      unfold Call.run at h
      rcases hup : e.upgrade with _ | mode
      · rw [hup] at h
        cases h
        exact haims
      · rw [hup] at h
        obtain ⟨ops, mode₁, hconfirm, h⟩ := FlashM.bind_result_eq_ret h
        cases h
        rintro mode' ⟨⟩
        exact (haims mode hup).upgradeConfirm (congrArg FlashTrace.result hconfirm)
  | cancel =>
      cases h
      rintro mode' ⟨⟩
  | enterUpgradeMode hasDownstream inputs => exact absurd h Call.enterUpgradeMode_ne

/-- A call other than `enter_upgrade_mode` changes nothing but the partition of the next slot. -/
theorem Call.run_confined {c : Call} {e : EspFirmware} {slot : Fin 2}
    (haims : ∀ mode ∈ e.upgrade, mode.AimsAt slot)
    (hc : ∀ hasDownstream inputs, c ≠ .enterUpgradeMode hasDownstream inputs) :
    (o.otaPartitions slot).Confines (c.run o chip e) := by
  cases c with
  | prepareUpgrade size firmwareDigest =>
      refine FlashM.Confined.bind' FlashM.confined_get fun _ => ?_
      exact FlashM.Confined.bind' (FlashM.confined_lift _) fun _ => FlashM.confined_pure _
  | poll =>
      unfold Call.run
      rcases hup : e.upgrade with _ | mode
      · exact FlashM.confined_pure _
      · exact FlashM.Confined.bind' (haims mode hup).poll_confined fun _ => FlashM.confined_pure _
  | confirmUpgrade =>
      unfold Call.run
      rcases e.upgrade with _ | mode
      · exact FlashM.confined_pure _
      · exact FlashM.Confined.bind' (FlashM.confined_lift _) fun _ => FlashM.confined_pure _
  | cancel => exact FlashM.confined_pure _
  | enterUpgradeMode hasDownstream inputs => exact absurd rfl (hc _ _)

/-- What an outcome leaves: the flash as it was, or a call that writes the sector of the slot, and
then the image in the slot was accepted. -/
theorem FirmwareUpgradeMode.conclude_cases (mode : FirmwareUpgradeMode) (d : Download) (f : Flash) :
    ((mode.conclude o chip d f).ops = []) ∨
      ∃ otaSlot expectedDigest size state,
        mode = .upgrading otaSlot expectedDigest size state ∧
        decideUpgrade chip (o.otaPartitions otaSlot) f expectedDigest = .commit ∧
        (mode.conclude o chip d f).ops = (o.switchPartition otaSlot f).ops := by
  cases mode with
  | passive size sentAck => exact .inl rfl
  | upgrading otaSlot expectedDigest size state =>
      rw [conclude, FlashM.get_bind_apply]
      rcases hverdict : decideUpgrade chip (o.otaPartitions otaSlot) f expectedDigest
        with _ | reason
      · refine .inr ⟨otaSlot, expectedDigest, size, state, rfl, hverdict, ?_⟩
        exact FlashM.ops_bind fun _ _ => rfl
      · exact .inl rfl

/-- **Entering upgrade mode**, interrupted or not: only the partition of the slot is written, or the
image in it was accepted and its sector is written too. -/
theorem enterUpgradeMode_cases {mode : FirmwareUpgradeMode} {slot : Fin 2}
    (h : mode.AimsAt slot) (hasDownstream : Bool) (inputs : List LinkInput)
    (crash : Option (ℕ × ℕ)) :
    OnlyImage o slot f ((mode.enterUpgradeMode o chip hasDownstream inputs).flashAfter g f crash) ∨
      ∃ ops download expectedDigest size state crash',
        mode = .upgrading slot expectedDigest size state ∧
        mode.receive o hasDownstream inputs f = ⟨ops, .ret (some download)⟩ ∧
        OnlyImage o slot f (f.exec ops) ∧
        decideUpgrade chip (o.otaPartitions slot) (f.exec ops) expectedDigest = .commit ∧
        (mode.enterUpgradeMode o chip hasDownstream inputs).flashAfter g f crash =
          (o.switchPartition slot).flashAfter g (f.exec ops) crash' := by
  have hreceive := fun crash' =>
    @onlyImage_of_confines o g _ _ _ (h.receive_confined hasDownstream inputs) f crash'
  unfold FirmwareUpgradeMode.enterUpgradeMode
  rcases hrun : mode.receive o hasDownstream inputs f with ⟨ops, received | msg⟩
  · rcases FlashM.flashAfter_bind_of_ret hrun crash with ⟨crash', heq⟩ | ⟨crash', heq⟩
    · left
      rw [heq]
      exact hreceive crash'
    · rw [heq]
      have hafter : (mode.receive o hasDownstream inputs).after f = f.exec ops := by
        rw [FlashM.after, hrun]
      rcases received with _ | download
      · left
        rw [FlashM.flashAfter_of_nil rfl]
        exact hreceive none
      · have hops : ((mode.conclude o chip download >>= fun outcome => pure (some outcome))
            (f.exec ops)).ops = (mode.conclude o chip download (f.exec ops)).ops :=
          FlashM.ops_bind fun _ _ => rfl
        dsimp only
        rw [hafter, FlashM.flashAfter_congr hops]
        rcases @FirmwareUpgradeMode.conclude_cases o chip mode download (f.exec ops) with
          hnil | ⟨otaSlot, expectedDigest, size, state, rfl, hcommit, hswitch⟩
        · left
          rw [FlashM.flashAfter_of_nil hnil, ← hafter]
          exact hreceive none
        · obtain rfl : otaSlot = slot := h
          refine .inr ⟨ops, download, expectedDigest, size, state, crash', rfl, rfl, ?_, hcommit,
            FlashM.flashAfter_congr hswitch crash'⟩
          rw [← hafter]
          exact hreceive none
  · left
    rw [FlashM.flashAfter_bind_of_panic hrun]
    exact hreceive crash

/-! ### What an event does -/

/-- The event leaves the active image as it is, or it is a call in which the image that is active
afterwards was accepted. -/
def Safe (o : OtaPartitions) (chip : Peripherals) (d d' : Device) (event : Event) : Prop :=
  Intact o d.flash d'.flash ∨ ∃ c powerLoss, event = .call c powerLoss ∧
    Accepts o chip d c (o.activePartition d'.flash)
      ((o.activePartition d'.flash).contents d'.flash)

theorem Intact.refl (o : OtaPartitions) (f : Flash) : Intact o f f := ⟨rfl, rfl⟩

theorem Intact.trans {f₁ f₂ f₃ : Flash} (h : Intact o f₁ f₂) (h' : Intact o f₂ f₃) :
    Intact o f₁ f₃ := by
  obtain ⟨hactive, hcontents⟩ := h
  obtain ⟨hactive', hcontents'⟩ := h'
  rw [hactive] at hcontents'
  exact ⟨hactive'.trans hactive, hcontents'.trans hcontents⟩

theorem firmwareAfter_eq_some {result : Exec (Option EspFirmware)} {powerLoss : Option (ℕ × ℕ)}
    {e : EspFirmware} (h : firmwareAfter result powerLoss = some e) : result = .ret (some e) := by
  unfold firmwareAfter at h
  split at h
  · rw [h]
  · cases h

/-- A call that changes nothing but the partition of the next slot. -/
theorem Settled.of_onlyImage {d : Device} {e : EspFirmware} (h : Settled o d)
    (he : d.firmware = some e) (c : Call) (powerLoss : Option (ℕ × ℕ))
    (honly : OnlyImage o (o.nextSlot d.flash) d.flash
      ((c.run o chip e).flashAfter g d.flash powerLoss)) :
    Settled o (d.step o chip g (.call c powerLoss)) ∧
      Intact o d.flash (d.step o chip g (.call c powerLoss)).flash := by
  simp only [Device.step, he]
  obtain ⟨i, slot, hvalid⟩ := h.valid
  refine ⟨⟨⟨i, slot, ?_⟩, fun e' he' => ?_⟩, ?_⟩
  · rw [← hvalid]
    exact OtaPartitions.validSlot_congr (honly.otadata i)
  · rw [honly.nextSlot]
    exact Call.run_aims (h.aims e he) (firmwareAfter_eq_some he')
  · obtain ⟨j, slot', hcur⟩ := OtaPartitions.exists_current hvalid
    rw [OtaPartitions.nextSlot_of_current hcur] at honly
    exact honly.intact hcur

/-- `enter_upgrade_mode`, up to what follows it. -/
theorem run_enterUpgradeMode_flashAfter {e : EspFirmware} {mode : FirmwareUpgradeMode}
    (hmode : e.upgrade = some mode) (hasDownstream : Bool) (inputs : List LinkInput)
    (crash : Option (ℕ × ℕ)) :
    ((Call.enterUpgradeMode hasDownstream inputs).run o chip e).flashAfter g f crash =
      (mode.enterUpgradeMode o chip hasDownstream inputs).flashAfter g f crash := by
  refine FlashM.flashAfter_congr ?_ crash
  have hrun : (Call.enterUpgradeMode hasDownstream inputs).run o chip e f =
      (mode.enterUpgradeMode o chip hasDownstream inputs >>= fun _ => pure none) f := by
    unfold Call.run
    rw [hmode]
    rfl
  rw [hrun]
  exact FlashM.ops_bind fun _ _ => rfl

/-- The event that enters upgrade mode. -/
theorem Settled.enterUpgradeMode {d : Device} {e : EspFirmware} (h : Settled o d)
    (he : d.firmware = some e) {mode : FirmwareUpgradeMode} (hmode : e.upgrade = some mode)
    (hasDownstream : Bool) (inputs : List LinkInput) (powerLoss : Option (ℕ × ℕ)) :
    let event : Event := .call (.enterUpgradeMode hasDownstream inputs) powerLoss
    Settled o (d.step o chip g event) ∧ Safe o chip d (d.step o chip g event) event := by
  intro event
  have hflash := @run_enterUpgradeMode_flashAfter o chip g d.flash e mode hmode hasDownstream inputs
    powerLoss
  rcases @enterUpgradeMode_cases o chip g d.flash mode _ (h.aims e he mode hmode) hasDownstream
      inputs powerLoss with
    honly | ⟨ops, download, expectedDigest, size, state, crash, rfl, hreceive, honly, hcommit,
      hswitch⟩
  · rw [← hflash] at honly
    exact (h.of_onlyImage he _ powerLoss honly).imp_right .inl
  · obtain ⟨j, slot, hvalid⟩ := h.valid
    obtain ⟨i, slot', hcur⟩ := OtaPartitions.exists_current hvalid
    have hnext := OtaPartitions.nextSlot_of_current hcur
    rw [hnext] at hmode hreceive honly hcommit hswitch
    have hcur' : o.currentSlot (d.flash.exec ops) = some (i, slot') :=
      honly.currentSlot.trans hcur
    obtain ⟨hactive, ⟨slot₁, hslot₁⟩, hcontents⟩ := @active_cases o g _ _ _ _ _ hcur'
      (o.switchPartition_confined (i + 1)) crash
    have hstep : (d.step o chip g event).flash =
        (o.switchPartition (i + 1)).flashAfter g (d.flash.exec ops) crash := by
      simp only [Device.step, event, he]
      rw [hflash, hnext, hswitch]
    rw [← hstep] at hactive hslot₁ hcontents
    refine ⟨⟨⟨i, slot₁, hslot₁⟩, fun e' he' => ?_⟩, ?_⟩
    · simp only [Device.step, event, he] at he'
      exact absurd (firmwareAfter_eq_some he') Call.enterUpgradeMode_ne
    · rcases hactive with hactive | hactive
      · left
        have hreceived := honly.intact hcur
        have hsame := OtaPartitions.activePartition_of_current hcur
        refine ⟨hactive.trans hsame.symm, ?_⟩
        rw [hsame, hcontents i]
        have hother := hreceived.2
        rwa [hsame] at hother
      · right
        rw [hactive]
        exact ⟨_, powerLoss, rfl, e, i + 1, expectedDigest, size, state, hasDownstream, inputs, ops,
          download, he, hmode, rfl, hreceive, rfl, (hcontents (i + 1)).symm, hcommit⟩

/-- **What one event does**: some slot stays valid, an upgrade stays an upgrade to the next slot,
and the image that is active is the one that was, or one that was accepted. -/
theorem Settled.step {d : Device} (h : Settled o d) (event : Event) :
    Settled o (d.step o chip g event) ∧ Safe o chip d (d.step o chip g event) event := by
  rcases event with _ | ⟨c, powerLoss⟩
  · refine ⟨⟨h.valid, fun e he => ?_⟩, .inl (Intact.refl o d.flash)⟩
    simp only [Device.step, EspFirmware.new] at he
    split at he
    · rename_i hnew
      split at hnew
      · cases hnew
        obtain rfl := Option.some.inj he
        rintro mode ⟨⟩
      · cases hnew
    · cases he
  · rcases he : d.firmware with _ | e
    · have hstay : d.step o chip g (.call c powerLoss) = d := by simp only [Device.step, he]
      rw [hstay]
      exact ⟨h, .inl (Intact.refl o d.flash)⟩
    · have hconfined (hc : (o.otaPartitions (o.nextSlot d.flash)).Confines (c.run o chip e)) :
          Settled o (d.step o chip g (.call c powerLoss)) ∧
            Safe o chip d (d.step o chip g (.call c powerLoss)) (.call c powerLoss) := by
        have honly := @onlyImage_of_confines o g _ _ _ hc d.flash powerLoss
        exact (h.of_onlyImage he c powerLoss honly).imp_right .inl
      rcases c with ⟨size, firmwareDigest⟩ | _ | _ | _ | ⟨hasDownstream, inputs⟩
      · exact hconfined (Call.run_confined (h.aims e he) nofun)
      · exact hconfined (Call.run_confined (h.aims e he) nofun)
      · exact hconfined (Call.run_confined (h.aims e he) nofun)
      · exact hconfined (Call.run_confined (h.aims e he) nofun)
      · rcases hmode : e.upgrade with _ | mode
        · refine hconfined (FlashM.confined_of_nil fun f => ?_)
          unfold Call.run
          rw [hmode]
          rfl
        · exact h.enterUpgradeMode he hmode hasDownstream inputs powerLoss

/-! ### Runs -/

/-- Somewhere in the run the active image was accepted, and it has been active since. -/
def Accepted (o : OtaPartitions) (chip : Peripherals) (g : FlashGeometry) (d : Device)
    (events : List Event) (f : Flash) : Prop :=
  ∃ before c powerLoss after, events = before ++ .call c powerLoss :: after ∧
    Accepts o chip (run (Device.step o chip g) d before) c (o.activePartition f)
      ((o.activePartition f).contents f)

/-- **What a run does**: the image that is active at its end was active at its start, or was
accepted on the way. -/
theorem Settled.run {d : Device} (h : Settled o d) (events : List Event) :
    Settled o (run (Device.step o chip g) d events) ∧
      (Intact o d.flash (run (Device.step o chip g) d events).flash ∨
        Accepted o chip g d events (run (Device.step o chip g) d events).flash) := by
  induction events generalizing d with
  | nil => exact ⟨h, .inl (Intact.refl o d.flash)⟩
  | cons event events ih =>
      obtain ⟨hsettled, hsafe⟩ := @Settled.step o chip g d h event
      obtain ⟨hend, hrun⟩ := ih hsettled
      refine ⟨hend, ?_⟩
      rcases hrun with hintact | ⟨before, c, powerLoss, after, rfl, haccepts⟩
      · rcases hsafe with hfirst | ⟨c, powerLoss, rfl, haccepts⟩
        · exact .inl (hfirst.trans hintact)
        · right
          refine ⟨[], c, powerLoss, events, rfl, ?_⟩
          obtain ⟨hactive, hcontents⟩ := hintact
          rw [run_cons, hactive, hcontents]
          exact haccepts
      · exact .inr ⟨event :: before, c, powerLoss, after, rfl, haccepts⟩

/-- Over every content of the two otadata sectors and everything that can happen from there: the
partition that an upgrade erases and writes is not the active one, and the active image, however
often power is lost, is the one that was active before, with its bytes, or one that was accepted
in between. -/
structure NeverTouchesRunning (o : OtaPartitions) (chip : Peripherals) (g : FlashGeometry)
    (f : Flash) : Prop where
  selects : ∀ size expected active otaSlot digest size' state,
    o.startUpgrade f size expected active = .ret (.upgrading otaSlot digest size' state) →
      o.otaPartitions otaSlot ≠ o.activePartition f
  keeps : ∀ before after, let d := run (Device.step o chip g) ⟨f, none⟩ before
    let d' := run (Device.step o chip g) d after
    Intact o d.flash d'.flash ∨ Accepted o chip g d after d'.flash

/-- Without a valid slot an upgrade is to the partition that is active: both are the default. -/
theorem not_neverTouchesRunning (h : ∀ i slot, o.validSlot f i ≠ some slot) :
    ¬ NeverTouchesRunning o chip g f := by
  rintro ⟨hselects, -⟩
  have hcur : o.currentSlot f = none := by
    rcases hcur : o.currentSlot f with _ | ⟨i, slot⟩
    · rfl
    · exact absurd (OtaPartitions.validSlot_of_current hcur) (h i slot)
  have hnext : o.nextSlot f = 0 := by rw [OtaPartitions.nextSlot, hcur]
  have hdvd : FIRMWARE_UPGRADE_CHUNK_LEN ∣ (o.otaPartitions (o.nextSlot f)).size :=
    Nat.dvd_mul_left _ _
  refine hselects 0 0 1 0 0 0 (.waitingForConfirm false) ?_ ?_
  · unfold OtaPartitions.startUpgrade
    dsimp only
    rw [Exec.assert_of _ (Nat.zero_le _), Exec.ret_bind, Exec.assert_of _ hdvd, Exec.ret_bind,
      hnext, if_neg (by decide)]
    rfl
  · rw [OtaPartitions.activePartition, hcur]
    rfl

/-- **An upgrade never touches the running image**, exactly when some otadata sector has a slot
whose checksum is right. -/
theorem running_image_is_kept (o : OtaPartitions) (chip : Peripherals) (g : FlashGeometry)
    (f : Flash) : NeverTouchesRunning o chip g f ↔
      ∃ i slot, EspOtadataSlot.decode (o.otadataSectors i) f = some slot ∧
        seqChecksum slot.seq = slot.seqCrc := by
  simp only [← OtaPartitions.validSlot_eq_some_iff]
  constructor
  · intro hkept
    by_contra hnone
    push Not at hnone
    exact not_neverTouchesRunning hnone hkept
  · rintro ⟨i, slot, hslot⟩
    have hsettled : Settled o ⟨f, none⟩ := ⟨⟨i, slot, hslot⟩, nofun⟩
    refine ⟨fun size expected active otaSlot digest size' state hstart => ?_,
      fun before after => ?_⟩
    · obtain rfl : otaSlot = o.nextSlot f := FirmwareUpgradeMode.aimsAt_of_startUpgrade hstart
      obtain ⟨j, slot', hcur⟩ := OtaPartitions.exists_current hslot
      rw [OtaPartitions.nextSlot_of_current hcur, OtaPartitions.activePartition_of_current hcur]
      exact o.otaPartitions_ne j
    · exact ((hsettled.run before).1.run after).2

/-- What a blank sector reads as. -/
theorem decode_blank (i : Fin 2) :
    EspOtadataSlot.decode (OtaPartitions.ofCsv.otadataSectors i) (fun _ => 0xff) =
      some ⟨0xffffffff, BitVec.allOnes _, 0xffffffff⟩ := by
  rcases AbSlot.eq_zero_or_one i with rfl | rfl
  · decide +kernel
  · decide +kernel

/-- With both sectors blank, as provisioning leaves them, the upgrade is to the partition that is
running. -/
theorem blank_otadata_touches_running : ¬ ∀ (chip : Peripherals) (g : FlashGeometry) (f : Flash),
    NeverTouchesRunning .ofCsv chip g f := by
  intro h
  let chip : Peripherals := {
    sha256 := fun _ => 0
    modularExponentiation := fun _ _ _ _ _ => []
    keyPurpose := fun _ => 0
    secureBootKeyRevoke := fun _ => false
    blockKey := fun _ => 0 }
  refine not_neverTouchesRunning (fun i slot hvalid => ?_)
    (h chip ⟨writeSize, sectorSize⟩ fun _ => 0xff)
  obtain ⟨hdecode, hcrc⟩ := OtaPartitions.validSlot_eq_some_iff.1 hvalid
  obtain rfl := Option.some.inj ((decode_blank i).symm.trans hdecode)
  exact absurd hcrc (by decide +kernel)

end Frostsnap.Firmware
