import Frostsnap.Core.Device
import Frostsnap.Embedded.AbCrash
import Frostsnap.Embedded.NorFlashLog

/-!
# The mutation log

This module embeds `flash_log.rs` and the replay at the start of `device_loop.rs`. Mutations
that carry a share go to an A/B slot, which holds one of them, to enforce the one secret share
per device rule; all others are appended to a log. A restart applies the log in order and then
the slot.

## Main results

* `MutationLog.Holds.append`: after mutations have been pushed, the log holds those without a
  share and the slot the last one with a share.
* `MutationLog.Holds.seekIter_eq`: which mutations a restart then reads.
* `LogContents.append_eq`: the same without the flash, for a device that runs from one start to
  the next.
-/

namespace Frostsnap

variable {S Cipher Backup : Type}

/-- `flash_log::Mutation`. -/
inductive LogMutation (Cipher Backup : Type) where
  | core (mutation : Mutation Cipher Backup)
  | name (name : String)
  deriving DecidableEq

/-- What the share slot can hold. -/
inductive ShareSlot (Cipher Backup : Type) where
  | secretShare (mutation : SaveShareMutation Cipher)
  | savedBackup (legacy : SavedBackup Backup)
  | savedBackup2 (savedBackup : SavedBackup2 Backup)
  deriving DecidableEq

/-- `into_mutations`: the mutation a slot is replayed as. -/
def ShareSlot.intoMutation : ShareSlot Cipher Backup → Mutation Cipher Backup
  | .secretShare m => .keygen (.saveShare m)
  | .savedBackup legacy => .restoration (.save legacy)
  | .savedBackup2 backup => .restoration (.save2 backup)

/-- The log of a device, which lies behind its share slot. -/
structure MutationLog where
  log : NorFlashLog
  shareSlot : AbSlot
  apart : shareSlot.stop ≤ log.flash.start

namespace MutationLog

/-- The mutation log of two partitions of which the first lies before the second. -/
def new (shareSlot : AbSlot) (logFlash : FlashPartition)
    (apart : shareSlot.stop ≤ logFlash.start) : MutationLog where
  log := NorFlashLog.new logFlash
  shareSlot := shareSlot
  apart := apart

variable (C : Codec (LogMutation Cipher Backup)) (D : Codec (ShareSlot Cipher Backup))

/-- Persist a mutation. -/
def push (log : MutationLog) :
    LogMutation Cipher Backup → FlashM (Except NorFlashErrorKind MutationLog)
  | .core (.keygen (.saveShare m)) => do
      log.shareSlot.write D (.secretShare m)
      return .ok log
  | .core (.restoration (.save legacy)) => do
      log.shareSlot.write D (.savedBackup2 legacy.toSavedBackup2)
      return .ok log
  | .core (.restoration (.save2 backup)) => do
      log.shareSlot.write D (.savedBackup2 backup)
      return .ok log
  | value => do
      match ← log.log.push C value with
      | .error e => return .error e
      | .ok norLog =>
          return .ok { log with log := { log.log with wordPos := norLog.wordPos } }

/-- Persist mutations up to the first error. -/
def append (log : MutationLog) :
    List (LogMutation Cipher Backup) → FlashM (Except NorFlashErrorKind MutationLog)
  | [] => pure (.ok log)
  | value :: values => do
      match ← log.push C D value with
      | .error e => return .error e
      | .ok log => log.append values

/-- `seek_iter`, collected: the log and then the slot. -/
def seekIter (log : MutationLog) (f : Flash) :
    Option (Exec (Except LogDecodeError (List (LogMutation Cipher Backup) × MutationLog))) :=
  (log.log.seekIter C f).map fun
    | .panic msg => .panic msg
    | .ret (.error e) => .ret (.error e)
    | .ret (.ok (items, norLog)) =>
        .ret (.ok
          (items ++ ((log.shareSlot.read D f).map fun slot =>
            LogMutation.core slot.intoMutation).toList,
          { log with log := { log.log with wordPos := norLog.wordPos } }))

end MutationLog

/-- `DeviceName::truncate`. -/
def deviceNameTruncate (s : String) : String :=
  if 14 < s.length then String.ofList (s.toList.take 14) else s

section Replay

variable [ShareBackup Backup]

/-- One change of the replay: to the device and to its name. -/
def replayChange (s : FrostSigner S Cipher Backup × Option String) :
    LogMutation Cipher Backup → FrostSigner S Cipher Backup × Option String
  | .core m => ((s.1.applyMutation m).1, s.2)
  | .name name => (s.1, some (deviceNameTruncate name))

/-- A device after changes in order. -/
def replay (s : FrostSigner S Cipher Backup × Option String)
    (ms : List (LogMutation Cipher Backup)) : FrostSigner S Cipher Backup × Option String :=
  ms.foldl replayChange s

/-- The start of a device: a fresh signer, and the replay of what can be read. -/
def bootSigner (C : Codec (LogMutation Cipher Backup)) (D : Codec (ShareSlot Cipher Backup))
    (log : MutationLog) (deviceId : DeviceId) (nonceSlots : AbSlots S) (f : Flash) :
    Option (Exec (FrostSigner S Cipher Backup × Option String × MutationLog)) :=
  (log.seekIter C D f).map fun
    | .panic msg => .panic msg
    | .ret (.error _) => .panic "failed to read event"
    | .ret (.ok (items, log)) =>
        let (signer, name) := replay (FrostSigner.new deviceId nonceSlots, none) items
        .ret (signer, name, log)

end Replay

/-! ### Which storage a mutation goes to -/

namespace LogMutation

/-- What a mutation that carries a share puts in the slot. -/
def shareSlot : LogMutation Cipher Backup → Option (ShareSlot Cipher Backup)
  | .core (.keygen (.saveShare m)) => some (.secretShare m)
  | .core (.restoration (.save legacy)) => some (.savedBackup2 legacy.toSavedBackup2)
  | .core (.restoration (.save2 backup)) => some (.savedBackup2 backup)
  | _ => none

/-- The mutations that go to the log. -/
def logged (ms : List (LogMutation Cipher Backup)) : List (LogMutation Cipher Backup) :=
  ms.filter fun m => m.shareSlot.isNone

theorem shareSlot_of_mem_logged {ms : List (LogMutation Cipher Backup)}
    {m : LogMutation Cipher Backup} (h : m ∈ logged ms) : m.shareSlot = none :=
  Option.isNone_iff_eq_none.mp (List.mem_filter.mp h).2

/-- The mutations without a share. -/
theorem cases_of_logged {m : LogMutation Cipher Backup} (h : m.shareSlot = none) :
    (∃ keyId keyName purpose, m = .core (.keygen (.newKey keyId keyName purpose))) ∨
    (∃ ref threshold kind, m = .core (.keygen (.newAccessStructure ref threshold kind))) ∨
    (∃ image, m = .core (.restoration (.unSave image))) ∨
    ∃ name, m = .name name := by
  rcases m with (m | m) | name
  · cases m with
    | newKey keyId keyName purpose => exact .inl ⟨_, _, _, rfl⟩
    | newAccessStructure ref threshold kind => exact .inr (.inl ⟨_, _, _, rfl⟩)
    | saveShare m => cases h
  · cases m with
    | save legacy => cases h
    | unSave image => exact .inr (.inr (.inl ⟨_, rfl⟩))
    | save2 backup => cases h
  · exact .inr (.inr (.inr ⟨_, rfl⟩))

/-- The mutations with a share, and what they put in the slot. -/
theorem cases_of_share {m : LogMutation Cipher Backup} {slot : ShareSlot Cipher Backup}
    (h : m.shareSlot = some slot) :
    (∃ share, m = .core (.keygen (.saveShare share)) ∧ slot = .secretShare share) ∨
    (∃ legacy, m = .core (.restoration (.save legacy)) ∧
      slot = .savedBackup2 legacy.toSavedBackup2) ∨
    ∃ backup, m = .core (.restoration (.save2 backup)) ∧ slot = .savedBackup2 backup := by
  rcases m with (m | m) | name
  · cases m with
    | newKey keyId keyName purpose => cases h
    | newAccessStructure ref threshold kind => cases h
    | saveShare m => exact .inl ⟨_, rfl, (Option.some.inj h).symm⟩
  · cases m with
    | save legacy => exact .inr (.inl ⟨_, rfl, (Option.some.inj h).symm⟩)
    | unSave image => cases h
    | save2 backup => exact .inr (.inr ⟨_, rfl, (Option.some.inj h).symm⟩)
  · cases h

/-- A share of a key is put in the slot by the mutation that saves it. -/
theorem eq_of_secretShare {m : LogMutation Cipher Backup} {share : SaveShareMutation Cipher}
    (h : m.shareSlot = some (.secretShare share)) : m = .core (.keygen (.saveShare share)) := by
  obtain ⟨share', rfl, hslot⟩ | ⟨_, rfl, hslot⟩ | ⟨_, rfl, hslot⟩ := cases_of_share h
  · rw [ShareSlot.secretShare.inj hslot]
  · cases hslot
  · cases hslot

/-- What the slot holds after mutations in order. -/
def lastShare (ms : List (LogMutation Cipher Backup)) : Option (ShareSlot Cipher Backup) :=
  (ms.filterMap shareSlot).getLast?

end LogMutation

/-! ### What is stored -/

/-- What the two storages hold: the log, in which nothing carries a share, and the share slot. -/
@[ext]
structure LogContents (Cipher Backup : Type) where
  log : List (LogMutation Cipher Backup)
  shareSlot : Option (ShareSlot Cipher Backup)
  noShare : ∀ m ∈ log, m.shareSlot = none

namespace LogContents

open LogMutation

/-- Nothing was ever pushed. -/
def empty : LogContents Cipher Backup where
  log := []
  shareSlot := none
  noShare _ h := absurd h List.not_mem_nil

/-- A mutation with a share takes the slot, whatever was in it; all others are appended. -/
def push (c : LogContents Cipher Backup) (m : LogMutation Cipher Backup) :
    LogContents Cipher Backup :=
  match h : m.shareSlot with
  | some slot => { c with shareSlot := some slot }
  | none =>
      { c with
        log := c.log ++ [m]
        noShare := fun m' hm' => by
          rcases List.mem_append.mp hm' with hm' | hm'
          · exact c.noShare m' hm'
          · rwa [List.mem_singleton.mp hm'] }

/-- What is stored after pushes in order. -/
def append (c : LogContents Cipher Backup) (ms : List (LogMutation Cipher Backup)) :
    LogContents Cipher Backup :=
  ms.foldl push c

/-- What a start reads back: the log and then the slot. -/
def items (c : LogContents Cipher Backup) : List (LogMutation Cipher Backup) :=
  c.log ++ (c.shareSlot.map fun slot => LogMutation.core slot.intoMutation).toList

variable (c : LogContents Cipher Backup) {m : LogMutation Cipher Backup}

/-- A mutation with a share leaves the log alone. -/
theorem push_of_share {slot : ShareSlot Cipher Backup} (h : m.shareSlot = some slot) :
    (c.push m).log = c.log ∧ (c.push m).shareSlot = some slot := by
  rw [push]
  split
  · rename_i slot' h'
    exact ⟨rfl, h'.symm.trans h⟩
  · rename_i h'
    cases h'.symm.trans h

/-- A mutation without a share leaves the slot alone. -/
theorem push_of_logged (h : m.shareSlot = none) :
    (c.push m).log = c.log ++ [m] ∧ (c.push m).shareSlot = c.shareSlot := by
  rw [push]
  split
  · rename_i slot' h'
    cases h'.symm.trans h
  · exact ⟨rfl, rfl⟩

theorem append_append (ms ms' : List (LogMutation Cipher Backup)) :
    c.append (ms ++ ms') = (c.append ms).append ms' :=
  List.foldl_append

/-- **What is stored** after pushes: the log has grown by the mutations without a share, and the
slot has the last one with a share, if there was one. -/
theorem append_eq (ms : List (LogMutation Cipher Backup)) :
    (c.append ms).log = c.log ++ logged ms ∧
      (c.append ms).shareSlot = (lastShare ms).or c.shareSlot := by
  induction ms using List.reverseRecOn with
  | nil => exact ⟨(List.append_nil _).symm, rfl⟩
  | append_singleton ms m ih =>
      rw [append_append]
      cases hs : m.shareSlot with
      | some slot =>
          obtain ⟨hlog, hslot⟩ := (c.append ms).push_of_share hs
          refine ⟨hlog.trans (ih.1.trans ?_), hslot.trans ?_⟩
          · simp [logged, hs]
          · simp [lastShare, hs]
      | none =>
          obtain ⟨hlog, hslot⟩ := (c.append ms).push_of_logged hs
          refine ⟨hlog.trans ?_, hslot.trans (ih.2.trans ?_)⟩
          · simp [ih.1, logged, hs]
          · simp [lastShare, hs]

/-- What is in the slot was pushed, or was in it before. -/
theorem shareSlot_append {ms : List (LogMutation Cipher Backup)} {slot : ShareSlot Cipher Backup}
    (h : (c.append ms).shareSlot = some slot) :
    c.shareSlot = some slot ∨ ∃ m ∈ ms, m.shareSlot = some slot := by
  rw [(c.append_eq ms).2, Option.or_eq_some_iff] at h
  rcases h with h | ⟨-, h⟩
  · exact .inr (List.mem_filterMap.mp (List.mem_of_getLast? h))
  · exact .inl h

/-- What is read back when nothing was stored before. -/
theorem items_empty_append (ms : List (LogMutation Cipher Backup)) :
    (empty.append ms).items = logged ms ++
      ((lastShare ms).map fun slot => LogMutation.core slot.intoMutation).toList := by
  obtain ⟨hlog, hslot⟩ := empty.append_eq ms
  rw [items, hlog, hslot, empty, List.nil_append, Option.or_none]

end LogContents

namespace MutationLog

open LogMutation

variable {C : Codec (LogMutation Cipher Backup)} {D : Codec (ShareSlot Cipher Backup)}
  {log log' : MutationLog} {f : Flash} {value : LogMutation Cipher Backup}

/-- A mutation with a share is written to the slot. -/
theorem push_of_share {slot : ShareSlot Cipher Backup} (h : value.shareSlot = some slot) :
    log.push C D value = (do log.shareSlot.write D slot; return .ok log) := by
  obtain ⟨_, rfl, rfl⟩ | ⟨_, rfl, rfl⟩ | ⟨_, rfl, rfl⟩ := cases_of_share h
  · rfl
  · rfl
  · rfl

/-- A mutation without a share is appended to the log. -/
theorem push_of_logged (h : value.shareSlot = none) :
    log.push C D value = (do
      match ← log.log.push C value with
      | .error e => return .error e
      | .ok norLog =>
          return .ok { log with log := { log.log with wordPos := norLog.wordPos } }) := by
  obtain ⟨_, _, _, rfl⟩ | ⟨_, _, _, rfl⟩ | ⟨_, rfl⟩ | ⟨_, rfl⟩ := cases_of_logged h
  · rfl
  · rfl
  · rfl
  · rfl

/-! ### What the flash holds -/

/-- The flash holds mutations that were pushed: the log those without a share, behind which it
is erased, and the slot the last one with a share. -/
structure Holds (C : Codec (LogMutation Cipher Backup)) (D : Codec (ShareSlot Cipher Backup))
    (f : Flash) (log : MutationLog) (ms : List (LogMutation Cipher Backup)) : Prop where
  entries : NorFlashLog.Entries C log.log.flash f 0 (logged ms) log.log.wordPos
  tail : ∀ i, log.log.flash.start + log.log.wordPos * writeSize ≤ i →
    i < log.log.flash.start + log.log.flash.size → f i = 0xff
  share : log.shareSlot.read D f = lastShare ms

/-- The mutation can be encoded where it goes. -/
def Encodable (C : Codec (LogMutation Cipher Backup)) (D : Codec (ShareSlot Cipher Backup))
    (value : LogMutation Cipher Backup) : Prop :=
  match value.shareSlot with
  | some slot => D.Valid slot
  | none => C.Valid value

/-- An erased flash holds nothing. -/
theorem holds_of_erased (log : MutationLog) (h : log.log.wordPos = 0) :
    Holds C D (fun _ => 0xff) log [] := by
  refine ⟨?_, fun _ _ _ => rfl, ?_⟩
  · rw [h]
    exact .nil 0
  · have hread : ∀ j, (log.shareSlot.slots j).read D (fun _ => 0xff) = none := fun j =>
      Slot.read_eq_none (Slot.readIndex_of_fill_nil (FlashPartition.contents_erased _))
    rw [AbSlot.read, hread]
    rfl

theorem erasedWord_of_tail {ms : List (LogMutation Cipher Backup)} (h : Holds C D f log ms)
    (hroom : (log.log.wordPos + 1) * writeSize ≤ log.log.flash.size) :
    log.log.flash.ErasedWord f log.log.wordPos := by
  apply List.ext_getElem
  · rw [List.length_take, FlashPartition.length_bytesFrom, List.length_replicate]
    simp only [writeSize] at hroom ⊢
    omega
  · intro i h₁ h₂
    rw [List.length_replicate] at h₂
    rw [List.getElem_take, FlashPartition.getElem_bytesFrom, List.getElem_replicate]
    simp only [writeSize] at hroom h₂
    refine h.tail _ ?_ ?_ <;> simp only [writeSize] <;> omega

/-- **A push adds its mutation** to what the flash holds. -/
theorem Holds.push {ms : List (LogMutation Cipher Backup)} (h : Holds C D f log ms)
    (henc : Encodable C D value) (hret : (log.push C D value f).result = .ret (.ok log')) :
    Holds C D ((log.push C D value).after f) log' (ms ++ [value]) := by
  cases hs : value.shareSlot with
  | some slot =>
      have hlogged : logged (ms ++ [value]) = logged ms := by
        simp [logged, hs]
      have hlast : lastShare (ms ++ [value]) = some slot := by
        simp [lastShare, hs]
      rw [push_of_share hs] at hret ⊢
      obtain ⟨ops, u, hwrite, hret'⟩ := FlashM.bind_result_eq_ret hret
      cases hret'
      have hafter : (do log.shareSlot.write D slot; return .ok log :
          FlashM (Except NorFlashErrorKind MutationLog)).after f =
            (log.shareSlot.write D slot).after f :=
        FlashM.after_bind_of_ret hwrite
      rw [hafter]
      have hframe : ∀ i, log.log.flash.start ≤ i →
          (log.shareSlot.write D slot).after f i = f i := fun i hi =>
        Flash.exec_outside (AbSlot.write_within D _ slot f) (.inr (log.apart.trans hi))
      refine ⟨?_, fun i hi hlt => ?_, ?_⟩
      · rw [hlogged]
        exact h.entries.congr fun i hi _ => hframe i hi
      · rw [hframe i ((Nat.le_add_right _ _).trans hi)]
        exact h.tail i hi hlt
      · rw [hlast]
        exact AbSlot.read_write (by simpa only [Encodable, hs] using henc) (by rw [hwrite])
  | none =>
      have hlogged : logged (ms ++ [value]) = logged ms ++ [value] := by
        simp [logged, hs]
      have hlast : lastShare (ms ++ [value]) = lastShare ms := by
        simp [lastShare, hs]
      rw [push_of_logged hs] at hret ⊢
      obtain ⟨ops, r, hpush, hret'⟩ := FlashM.bind_result_eq_ret hret
      by_cases hfits : NorFlashLog.Fits C log.log value
      · obtain ⟨ps, -, -, hrun⟩ := NorFlashLog.push_of_fits hfits
        obtain rfl : r = .ok (log.log.behind C value) := by
          have hres := congrArg FlashTrace.result (hpush.symm.trans (hrun f))
          simpa using hres
        cases hret'
        rw [FlashM.after_bind_of_ret hpush]
        show Holds C D ((log.log.push C value).after f) _ _
        rw [NorFlashLog.after_of_fits hfits]
        have hend : (log.log.wordPos + 1 + NorFlashLog.bodyWords C value) * writeSize ≤
            log.log.flash.size := hfits
        have herased := erasedWord_of_tail h (by
          simp only [writeSize] at hend ⊢
          omega)
        have hback : NorFlashLog.ReadsBack C log.log.flash f log.log.wordPos value := by
          have hvalid : C.Valid value := by simpa only [Encodable, hs] using henc
          refine NorFlashLog.readsBack_of_set hvalid hfits fun i hi => ?_
          have hlen := NorFlashLog.length_body C value
          have hpad := length_padWord (C.encode value)
          rw [h.tail _ ?_ ?_, UInt8.ff_and] <;> simp only [writeSize] at hend hlen ⊢ <;> omega
        refine ⟨?_, fun i hi hlt => ?_, ?_⟩
        · rw [hlogged]
          exact h.entries.push herased hfits hback
        · have hi' : log.log.flash.start +
              (log.log.wordPos + 1 + NorFlashLog.bodyWords C value) * writeSize ≤ i := hi
          rw [NorFlashLog.pushed_of_le hi']
          refine h.tail i (le_trans ?_ hi') hlt
          simp only [writeSize]
          omega
        · rw [hlast, ← h.share]
          refine AbSlot.read_congr_current fun j => FlashPartition.contents_congr fun i _ h₂ => ?_
          have hj := (log.shareSlot.slot_within j).2
          have hapart := log.apart
          have hi : i < log.log.flash.start := by
            have : i < (log.shareSlot.slots j).flash.start + (log.shareSlot.slots j).flash.size :=
              h₂
            omega
          exact NorFlashLog.pushed_of_lt (hi.trans_le (Nat.le_add_right _ _))
      · obtain ⟨ps, -, hrun⟩ := NorFlashLog.push_of_not_fits hfits
        cases r with
        | error e => cases hret'
        | ok norLog => exact absurd (by rw [hpush]) ((hrun f).2 norLog)

/-- **Pushing mutations** one after the other adds them to what the flash holds. -/
theorem Holds.append {ms values : List (LogMutation Cipher Backup)} (h : Holds C D f log ms)
    (henc : ∀ value ∈ values, Encodable C D value)
    (hret : (log.append C D values f).result = .ret (.ok log')) :
    Holds C D ((log.append C D values).after f) log' (ms ++ values) := by
  induction values generalizing f log ms with
  | nil =>
      cases hret
      rwa [List.append_nil]
  | cons value values ih =>
      obtain ⟨ops, r, hpush, hrest⟩ := FlashM.bind_result_eq_ret hret
      cases r with
      | error e => cases hrest
      | ok mid =>
          have hmid := h.push (henc value List.mem_cons_self) (by rw [hpush])
          have hflash : (log.push C D value).after f = f.exec ops := by
            rw [FlashM.after, hpush]
          rw [hflash] at hmid
          have hall := ih hmid (fun v hv => henc v (List.mem_cons_of_mem _ hv)) hrest
          rw [List.append_assoc, List.singleton_append] at hall
          rw [MutationLog.append, FlashM.after_bind_of_ret hpush, hflash]
          exact hall

/-- Two logs of the same partitions. -/
def SamePlace (log log' : MutationLog) : Prop :=
  log.shareSlot = log'.shareSlot ∧ log.log.flash = log'.log.flash

/-- A push stays in its partitions. -/
theorem push_samePlace (h : (log.push C D value f).result = .ret (.ok log')) :
    log.SamePlace log' := by
  cases hs : value.shareSlot with
  | some slot =>
      rw [push_of_share hs] at h
      obtain ⟨_, _, -, hret⟩ := FlashM.bind_result_eq_ret h
      cases hret
      exact ⟨rfl, rfl⟩
  | none =>
      rw [push_of_logged hs] at h
      obtain ⟨_, r, -, hret⟩ := FlashM.bind_result_eq_ret h
      cases r with
      | error e => cases hret
      | ok norLog => cases hret; exact ⟨rfl, rfl⟩

theorem append_samePlace {values : List (LogMutation Cipher Backup)}
    (h : (log.append C D values f).result = .ret (.ok log')) : log.SamePlace log' := by
  induction values generalizing f log with
  | nil =>
      cases h
      exact ⟨rfl, rfl⟩
  | cons value values ih =>
      obtain ⟨ops, r, hpush, hrest⟩ := FlashM.bind_result_eq_ret h
      cases r with
      | error e => cases hrest
      | ok mid =>
          have hret : (log.push C D value f).result = .ret (.ok mid) := by rw [hpush]
          have hmid := push_samePlace hret
          exact ⟨hmid.1.trans (ih hrest).1, hmid.2.trans (ih hrest).2⟩

/-- **What a restart reads**: the log, as long as it is not full to the last word, and then
the slot. -/
theorem Holds.seekIter_eq {ms : List (LogMutation Cipher Backup)} (h : Holds C D f log' ms)
    (hplace : log.SamePlace log')
    (hroom : (log'.log.wordPos + 1) * writeSize ≤ log'.log.flash.size) :
    log.seekIter C D f = some (.ret (.ok
      (logged ms ++ ((lastShare ms).map fun slot => LogMutation.core slot.intoMutation).toList,
        log'))) := by
  obtain ⟨norLog, shareSlot, apart⟩ := log
  obtain ⟨norLog', shareSlot', apart'⟩ := log'
  obtain ⟨rfl, hflash⟩ : shareSlot = shareSlot' ∧ norLog.flash = norLog'.flash := hplace
  have hseek := NorFlashLog.seekIter_of_entries h.entries (erasedWord_of_tail h hroom)
  have hlog : norLog.seekIter C f = (NorFlashLog.new norLog'.flash).seekIter C f := by
    rw [← hflash]
    rfl
  have hshare : shareSlot.read D f = lastShare ms := h.share
  rw [seekIter, hlog, hseek, hshare]
  simp only [Option.map_some, hflash]

end MutationLog

end Frostsnap
