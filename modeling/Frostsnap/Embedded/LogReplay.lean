import Frostsnap.Embedded.FlashLog

/-!
# Replaying the mutation log

What a device that restarts has, compared with what it had in memory. Its keys and access
structures and its name are the same. Of its shares and backups only the last one is there,
since the slot holds one of them.

## Main results

* `replay_bare`: the mutations without a share give the same keys without their shares and the
  same name.
* `restart_equivalence`: what a restart finds after any mutations.
* `LogContents.restartEquivalence_append`: the same for a device that runs from one start to the
  next.
-/

namespace Frostsnap

open LogMutation (logged lastShare)

variable {S Cipher Backup : Type} [ShareBackup Backup]

/-! ### What mutations change -/

/-- The keys of a device without their shares, and its name. -/
def bareState (s : FrostSigner S Cipher Backup × Option String) : Keys Cipher × Option String :=
  (s.1.keys.bare, s.2)

/-- What a mutation of the log does to the keys without their shares, and to the name. -/
def changeBare (b : Keys Cipher × Option String) :
    LogMutation Cipher Backup → Keys Cipher × Option String
  | .core (.keygen (.newKey keyId keyName purpose)) =>
      (b.1.newKey keyId keyName purpose, b.2)
  | .core (.keygen (.newAccessStructure ref threshold kind)) =>
      (b.1.newAccessStructure ref threshold kind, b.2)
  | .core _ => b
  | .name name => (b.1, some (deviceNameTruncate name))

theorem replayChange_bare (s : FrostSigner S Cipher Backup × Option String)
    (m : LogMutation Cipher Backup) :
    bareState (replayChange s m) = changeBare (bareState s) m := by
  cases m with
  | name name => rfl
  | core m =>
      cases m with
      | keygen m =>
          cases m with
          | newKey keyId keyName purpose => exact congrArg (·, s.2) (Keys.bare_newKey _ _ _ _)
          | newAccessStructure ref threshold kind =>
              exact congrArg (·, s.2) (Keys.bare_newAccessStructure _ _ _ _)
          | saveShare m => exact congrArg (·, s.2) (Keys.bare_saveShare _ _)
      | restoration m => cases m <;> rfl

theorem replay_bare (s : FrostSigner S Cipher Backup × Option String)
    (ms : List (LogMutation Cipher Backup)) :
    bareState (replay s ms) = ms.foldl changeBare (bareState s) := by
  induction ms generalizing s with
  | nil => rfl
  | cons m ms ih =>
      rw [replay, List.foldl_cons, List.foldl_cons, ← replayChange_bare]
      exact ih _

omit [ShareBackup Backup] in
/-- A mutation with a share leaves the keys without their shares as they are. -/
theorem changeBare_of_share (b : Keys Cipher × Option String) {m : LogMutation Cipher Backup}
    {slot : ShareSlot Cipher Backup} (h : m.shareSlot = some slot) : changeBare b m = b := by
  obtain ⟨_, rfl, rfl⟩ | ⟨_, rfl, rfl⟩ | ⟨_, rfl, rfl⟩ := LogMutation.cases_of_share h
  · rfl
  · rfl
  · rfl

omit [ShareBackup Backup] in
theorem foldl_changeBare_logged (b : Keys Cipher × Option String)
    (ms : List (LogMutation Cipher Backup)) :
    (logged ms).foldl changeBare b = ms.foldl changeBare b := by
  induction ms generalizing b with
  | nil => rfl
  | cons m ms ih =>
      rw [logged, List.filter_cons, List.foldl_cons]
      cases h : m.shareSlot with
      | none => exact ih _
      | some slot =>
          rw [changeBare_of_share b h]
          exact ih b

/-- A device that holds no share of a key and no saved backup. -/
def Shareless (s : FrostSigner S Cipher Backup) : Prop :=
  s.keys.bare = s.keys ∧ s.restoration.savedBackups = ∅

theorem Shareless.replayChange {s : FrostSigner S Cipher Backup × Option String}
    (h : Shareless s.1) {m : LogMutation Cipher Backup} (hm : m.shareSlot = none) :
    Shareless (replayChange s m).1 := by
  obtain ⟨_, _, _, rfl⟩ | ⟨_, _, _, rfl⟩ | ⟨_, rfl⟩ | ⟨_, rfl⟩ := LogMutation.cases_of_logged hm
  · exact ⟨(Keys.bare_newKey _ _ _ _).trans (by rw [h.1]; rfl), h.2⟩
  · exact ⟨(Keys.bare_newAccessStructure _ _ _ _).trans (by rw [h.1]; rfl), h.2⟩
  · exact h
  · exact h

/-- Replaying the log alone gives a device without shares and backups. -/
theorem Shareless.replay {s : FrostSigner S Cipher Backup × Option String} (h : Shareless s.1)
    {ms : List (LogMutation Cipher Backup)} (hms : ∀ m ∈ ms, m.shareSlot = none) :
    Shareless (replay s ms).1 := by
  induction ms generalizing s with
  | nil => exact h
  | cons m ms ih =>
      exact ih (h.replayChange (hms m List.mem_cons_self))
        fun m' hm' => hms m' (List.mem_cons_of_mem _ hm')

omit [ShareBackup Backup] in
theorem shareless_new (deviceId : DeviceId) (nonceSlots : AbSlots S) :
    Shareless (FrostSigner.new deviceId nonceSlots : FrostSigner S Cipher Backup) :=
  ⟨Std.ExtTreeMap.ext_getElem? fun {keyId} => by
    simp only [Keys.bare, Std.ExtTreeMap.getElem?_map]; rfl, rfl⟩

theorem shareless_replay_logged (deviceId : DeviceId) (nonceSlots : AbSlots S)
    (ms : List (LogMutation Cipher Backup)) :
    Shareless (replay (FrostSigner.new deviceId nonceSlots, none) (logged ms)).1 :=
  (shareless_new deviceId nonceSlots).replay fun _ => LogMutation.shareSlot_of_mem_logged

theorem replayChange_restoration_of_logged (s : FrostSigner S Cipher Backup × Option String)
    {m : LogMutation Cipher Backup} (hm : m.shareSlot = none) :
    (replayChange s m).1.restoration = s.1.restoration := by
  obtain ⟨_, _, _, rfl⟩ | ⟨_, _, _, rfl⟩ | ⟨_, rfl⟩ | ⟨_, rfl⟩ := LogMutation.cases_of_logged hm
  · rfl
  · rfl
  · rfl
  · rfl

theorem replay_restoration_of_logged (s : FrostSigner S Cipher Backup × Option String)
    {ms : List (LogMutation Cipher Backup)} (hms : ∀ m ∈ ms, m.shareSlot = none) :
    (replay s ms).1.restoration = s.1.restoration := by
  induction ms generalizing s with
  | nil => rfl
  | cons m ms ih =>
      exact (ih _ fun m' hm' => hms m' (List.mem_cons_of_mem _ hm')).trans
        (replayChange_restoration_of_logged s (hms m List.mem_cons_self))

/-- The mutation creates the access structure, or its key, without shares. -/
def Creates : LogMutation Cipher Backup → AccessStructureRef → Prop
  | .core (.keygen (.newKey keyId _ _)), ref => keyId = ref.keyId
  | .core (.keygen (.newAccessStructure ref' _ _)), ref => ref' = ref
  | _, _ => False

/-- A mutation without a share keeps the access structures that it does not create. -/
theorem replayChange_accessStructure (s : FrostSigner S Cipher Backup × Option String)
    {m : LogMutation Cipher Backup} (hm : m.shareSlot = none) {ref : AccessStructureRef}
    (hno : ¬ Creates m ref) :
    (replayChange s m).1.keys.accessStructure ref = s.1.keys.accessStructure ref := by
  obtain ⟨_, _, _, rfl⟩ | ⟨_, _, _, rfl⟩ | ⟨_, rfl⟩ | ⟨_, rfl⟩ := LogMutation.cases_of_logged hm
  · exact (Keys.accessStructure_newKey _ _ _ _ _).trans (if_neg hno)
  · exact (Keys.accessStructure_newAccessStructure _ _ _ _ _).trans (if_neg hno)
  · rfl
  · rfl

/-- A mutation without a share brings no share. -/
theorem replayChange_getEncryptedShare (s : FrostSigner S Cipher Backup × Option String)
    {m : LogMutation Cipher Backup} (hm : m.shareSlot = none) {ref : AccessStructureRef}
    {index : ShareIndex} (hnone : s.1.getEncryptedShare ref index = none) :
    (replayChange s m).1.getEncryptedShare ref index = none := by
  obtain ⟨_, _, _, rfl⟩ | ⟨_, _, _, rfl⟩ | ⟨_, rfl⟩ | ⟨_, rfl⟩ := LogMutation.cases_of_logged hm
  · refine (Keys.getEncryptedShare_newKey _ _ _ _ _ _).trans ?_
    split
    · rfl
    · exact hnone
  · refine (Keys.getEncryptedShare_newAccessStructure _ _ _ _ _ _).trans ?_
    split
    · rfl
    · exact hnone
  · exact hnone
  · exact hnone

theorem replay_append (s : FrostSigner S Cipher Backup × Option String)
    (ms ms' : List (LogMutation Cipher Backup)) :
    replay s (ms ++ ms') = replay (replay s ms) ms' :=
  List.foldl_append

/-! ### The last share -/

section LastShare

omit [ShareBackup Backup]

/-- The last mutation with a share, and what followed it. -/
theorem lastShare_eq_some {ms : List (LogMutation Cipher Backup)} {slot : ShareSlot Cipher Backup}
    (h : lastShare ms = some slot) :
    ∃ before m after, ms = before ++ m :: after ∧ m.shareSlot = some slot ∧
      ∀ m' ∈ after, m'.shareSlot = none := by
  induction ms using List.reverseRecOn with
  | nil => cases h
  | append_singleton ms m ih =>
      rw [lastShare, List.filterMap_append, List.filterMap_cons, List.filterMap_nil] at h
      cases hm : m.shareSlot with
      | some slot' =>
          rw [hm, List.getLast?_concat] at h
          exact ⟨ms, m, [], rfl, hm.trans h, fun _ hmem => absurd hmem List.not_mem_nil⟩
      | none =>
          rw [hm, List.append_nil] at h
          obtain ⟨before, m', after, rfl, hslot, hafter⟩ := ih h
          refine ⟨before, m', after ++ [m], by simp, hslot, fun m'' hm'' => ?_⟩
          rcases List.mem_append.mp hm'' with hm'' | hm''
          · exact hafter m'' hm''
          · rw [List.mem_singleton.mp hm'', hm]

/-- No share was saved. -/
theorem lastShare_eq_none {ms : List (LogMutation Cipher Backup)} (h : lastShare ms = none) :
    ∀ m ∈ ms, m.shareSlot = none := by
  rw [lastShare, List.getLast?_eq_none_iff, List.filterMap_eq_nil_iff] at h
  exact h

end LastShare

/-- A mutation with a share does what the slot it is written to is replayed as. -/
theorem replayChange_of_share (s : FrostSigner S Cipher Backup × Option String)
    {m : LogMutation Cipher Backup} {slot : ShareSlot Cipher Backup}
    (h : m.shareSlot = some slot) :
    replayChange s m = replayChange s (.core slot.intoMutation) := by
  obtain ⟨_, rfl, rfl⟩ | ⟨_, rfl, rfl⟩ | ⟨_, rfl, rfl⟩ := LogMutation.cases_of_share h
  · rfl
  · rfl
  · rfl

theorem replayChange_save2_held (s : FrostSigner S Cipher Backup × Option String)
    (backup : SavedBackup2 Backup) :
    (replayChange s (.core (.restoration (.save2 backup)))).1.restoration.savedBackups[
      shareImage backup.shareBackup]? = some backup :=
  (BTreeMap.getElem?_insert _ _ _ _).trans (if_pos rfl)

/-! ### What a restart finds -/

/-- The one share of a key that is held. -/
def HoldsShare (keys : Keys Cipher) (last : Option (ShareSlot Cipher Backup))
    (ref : AccessStructureRef) (index : ShareIndex) (share : EncryptedSecretShare Cipher) : Prop :=
  last = some (.secretShare ⟨ref, share⟩) ∧ share.shareImage.index = index ∧
    (keys.accessStructure ref).isSome

/-- A device before and after a restart, when `last` is the last share or backup it saved. -/
structure RestartEquivalence (memory restarted : FrostSigner S Cipher Backup × Option String)
    (last : Option (ShareSlot Cipher Backup)) : Prop where
  /-- the keys and access structures are those in memory -/
  keys : restarted.1.keys.bare = memory.1.keys.bare
  name : restarted.2 = memory.2
  /-- the share that is held is the last one saved, as long as its access structure is known -/
  share : ∀ (ref : AccessStructureRef) (index : ShareIndex) (share : EncryptedSecretShare Cipher),
    restarted.1.getEncryptedShare ref index = some share ↔
      HoldsShare memory.1.keys last ref index share
  /-- the backup that is held is the last one saved -/
  backup : ∀ (image : ShareImage) (savedBackup : SavedBackup2 Backup),
    restarted.1.restoration.savedBackups[image]? = some savedBackup ↔
      last = some (.savedBackup2 savedBackup) ∧ shareImage savedBackup.shareBackup = image
  /-- which memory holds as well -/
  backup_in_memory : ∀ (image : ShareImage) (savedBackup : SavedBackup2 Backup),
    restarted.1.restoration.savedBackups[image]? = some savedBackup →
      memory.1.restoration.savedBackups[image]? = some savedBackup

/-- What a restart finds is determined by what was in memory and the last share or backup. -/
theorem RestartEquivalence.unique
    {memory restarted restarted' : FrostSigner S Cipher Backup × Option String}
    {last : Option (ShareSlot Cipher Backup)} (h : RestartEquivalence memory restarted last)
    (h' : RestartEquivalence memory restarted' last) :
    restarted.1.keys = restarted'.1.keys ∧
      restarted.1.restoration.savedBackups = restarted'.1.restoration.savedBackups := by
  constructor
  · refine Keys.eq_of_shares (h.keys.trans h'.keys.symm) fun ref index => Option.ext fun share => ?_
    exact (h.share ref index share).trans (h'.share ref index share).symm
  · refine Std.ExtTreeMap.ext_getElem? fun {image} => Option.ext fun savedBackup => ?_
    exact (h.backup image savedBackup).trans (h'.backup image savedBackup).symm

/-! ### The replay of a restart -/

section Slot

variable {base memory : FrostSigner S Cipher Backup × Option String}

omit [ShareBackup Backup] in
theorem Shareless.getEncryptedShare {s : FrostSigner S Cipher Backup} (h : Shareless s)
    (ref : AccessStructureRef) (index : ShareIndex) : s.getEncryptedShare ref index = none := by
  rw [FrostSigner.getEncryptedShare, ← h.1, Keys.getEncryptedShare_bare]

omit [ShareBackup Backup] in
theorem accessStructure_isSome (hbare : bareState base = bareState memory)
    (ref : AccessStructureRef) :
    (base.1.keys.accessStructure ref).isSome = (memory.1.keys.accessStructure ref).isSome := by
  have h := congrArg (fun b => (b.1.accessStructure ref).isSome) hbare
  simpa only [bareState, Keys.accessStructure_bare, Option.isSome_map] using h

omit [ShareBackup Backup] in
theorem Shareless.no_backup (h : Shareless base.1) {image : ShareImage}
    {savedBackup : SavedBackup2 Backup} :
    base.1.restoration.savedBackups[image]? ≠ some savedBackup := by
  rw [h.2]
  nofun

/-- Nothing is in the slot. -/
theorem restart_none (hbare : bareState base = bareState memory) (hless : Shareless base.1) :
    RestartEquivalence memory base none where
  keys := congrArg Prod.fst hbare
  name := (Prod.mk.inj hbare).2
  share ref index share := by
    rw [hless.getEncryptedShare]
    exact ⟨nofun, fun h => nomatch h.1⟩
  backup image savedBackup := ⟨fun h => absurd h hless.no_backup, fun h => nomatch h.1⟩
  backup_in_memory image savedBackup h := absurd h hless.no_backup

/-- A share of a key is in the slot. -/
theorem restart_share (hbare : bareState base = bareState memory) (hless : Shareless base.1)
    (m : SaveShareMutation Cipher) :
    RestartEquivalence memory (replayChange base (.core (.keygen (.saveShare m))))
      (some (.secretShare m)) := by
  have hno : ∀ (image : ShareImage) (savedBackup : SavedBackup2 Backup),
      (replayChange base (.core (.keygen (.saveShare m)))).1.restoration.savedBackups[image]? ≠
        some savedBackup := by
    intro image savedBackup h
    have herase := BTreeMap.getElem?_erase base.1.restoration.savedBackups
      m.encryptedSecretShare.shareImage image
    have hheld := herase.symm.trans h
    split at hheld
    · cases hheld
    · exact hless.no_backup hheld
  refine ⟨(Keys.bare_saveShare _ _).trans (congrArg Prod.fst hbare), (Prod.mk.inj hbare).2,
    fun ref index share => ?_, fun image savedBackup => ?_, fun image savedBackup h => ?_⟩
  · have hsave : (replayChange base (.core (.keygen (.saveShare m)))).1.getEncryptedShare
        ref index = _ := Keys.getEncryptedShare_saveShare base.1.keys m ref index
    have hnone : base.1.keys.getEncryptedShare ref index = none :=
      hless.getEncryptedShare ref index
    rw [hsave, hnone, accessStructure_isSome hbare]
    obtain ⟨ref', share'⟩ := m
    constructor
    · intro h
      split at h
      · rename_i hheld
        cases h
        obtain ⟨rfl, hindex, hsome⟩ := hheld
        exact ⟨rfl, hindex, hsome⟩
      · cases h
    · rintro ⟨hlast, hindex, hsome⟩
      cases hlast
      exact if_pos ⟨rfl, hindex, hsome⟩
  · exact ⟨fun h => absurd h (hno _ _), fun h => nomatch h.1⟩
  · exact absurd h (hno _ _)

/-- A backup is in the slot, and in memory. -/
theorem restart_backup (hbare : bareState base = bareState memory) (hless : Shareless base.1)
    {backup : SavedBackup2 Backup}
    (hmemory : memory.1.restoration.savedBackups[shareImage backup.shareBackup]? = some backup) :
    RestartEquivalence memory (replayChange base (.core (.restoration (.save2 backup))))
      (some (.savedBackup2 backup)) := by
  have hheld : ∀ (image : ShareImage) (savedBackup : SavedBackup2 Backup),
      (replayChange base (.core (.restoration (.save2 backup)))).1.restoration.savedBackups[
        image]? = some savedBackup ↔
        (some (.savedBackup2 backup) : Option (ShareSlot Cipher Backup)) =
            some (.savedBackup2 savedBackup) ∧
          shareImage savedBackup.shareBackup = image := by
    intro image savedBackup
    have hinsert := BTreeMap.getElem?_insert base.1.restoration.savedBackups
      (shareImage backup.shareBackup) image backup
    have hno : base.1.restoration.savedBackups[image]? ≠ some savedBackup := hless.no_backup
    rw [show (replayChange base (.core (.restoration (.save2 backup)))).1.restoration.savedBackups[
      image]? = _ from hinsert]
    constructor
    · intro h
      split at h
      · rename_i himage
        cases h
        exact ⟨rfl, himage⟩
      · exact absurd h hno
    · rintro ⟨hlast, himage⟩
      cases hlast
      exact if_pos himage
  refine ⟨congrArg Prod.fst hbare, (Prod.mk.inj hbare).2, fun ref index share => ?_, hheld,
    fun image savedBackup h => ?_⟩
  · have hnone : (replayChange base (.core (.restoration (.save2 backup)))).1.getEncryptedShare
        ref index = none := hless.getEncryptedShare ref index
    rw [hnone]
    exact ⟨nofun, fun h => nomatch h.1⟩
  · obtain ⟨hlast, himage⟩ := (hheld image savedBackup).mp h
    cases hlast
    rw [← himage]
    exact hmemory

/-- What a mutation puts in the slot. -/
theorem restart_slot (hbare : bareState base = bareState memory) (hless : Shareless base.1)
    {m : LogMutation Cipher Backup} {slot : ShareSlot Cipher Backup}
    (h : m.shareSlot = some slot)
    (hmemory : ∀ backup, slot = .savedBackup2 backup →
      memory.1.restoration.savedBackups[shareImage backup.shareBackup]? = some backup) :
    RestartEquivalence memory (replayChange base (.core slot.intoMutation)) (some slot) := by
  obtain ⟨share, rfl, rfl⟩ | ⟨legacy, rfl, rfl⟩ | ⟨backup, rfl, rfl⟩ :=
    LogMutation.cases_of_share h
  · exact restart_share hbare hless share
  · exact restart_backup hbare hless (hmemory _ rfl)
  · exact restart_backup hbare hless (hmemory _ rfl)

end Slot

section Restart

variable (deviceId : DeviceId) (nonceSlots : AbSlots S) (ms : List (LogMutation Cipher Backup))

/-- What a device has in memory after mutations. -/
def inMemory : FrostSigner S Cipher Backup × Option String :=
  replay (FrostSigner.new deviceId nonceSlots, none) ms

/-- What the log and the slot give back. -/
def afterRestart : FrostSigner S Cipher Backup × Option String :=
  replay (FrostSigner.new deviceId nonceSlots, none)
    (logged ms ++ ((lastShare ms).map fun slot => LogMutation.core slot.intoMutation).toList)

theorem inMemory_logged_bare :
    bareState (inMemory deviceId nonceSlots (logged ms)) =
      bareState (inMemory deviceId nonceSlots ms) := by
  rw [inMemory, inMemory, replay_bare, replay_bare, foldl_changeBare_logged]

/-- The backup that the slot holds is in memory. -/
theorem inMemory_backup {savedBackup : SavedBackup2 Backup}
    (h : lastShare ms = some (.savedBackup2 savedBackup)) :
    (inMemory deviceId nonceSlots ms).1.restoration.savedBackups[
      shareImage savedBackup.shareBackup]? = some savedBackup := by
  obtain ⟨before, m, after, rfl, hslot, hafter⟩ := lastShare_eq_some h
  have hrest : replay (FrostSigner.new deviceId nonceSlots, none) (before ++ m :: after) =
      replay (replayChange (inMemory deviceId nonceSlots before) m) after :=
    replay_append _ _ _
  rw [inMemory, hrest, replay_restoration_of_logged _ hafter, replayChange_of_share _ hslot]
  exact replayChange_save2_held _ savedBackup

/-- **The replay of a restart** gives back the keys, the name and the last share or backup. -/
theorem restartEquivalence_afterRestart :
    RestartEquivalence (inMemory deviceId nonceSlots ms) (afterRestart deviceId nonceSlots ms)
      (lastShare ms) := by
  have hbare := inMemory_logged_bare deviceId nonceSlots ms
  have hless : Shareless (inMemory deviceId nonceSlots (logged ms)).1 :=
    shareless_replay_logged deviceId nonceSlots ms
  rw [afterRestart, replay_append]
  cases hlast : lastShare ms with
  | none => exact restart_none hbare hless
  | some slot =>
      obtain ⟨_, m, _, _, hslot, _⟩ := lastShare_eq_some hlast
      refine restart_slot hbare hless hslot fun backup hbackup => ?_
      exact inMemory_backup _ _ _ (hlast.trans (congrArg some hbackup))

/-- At most one mutation has a share, and none after it creates its access structure. -/
def SavesAtMostOne (ms : List (LogMutation Cipher Backup)) : Prop :=
  ∀ before m slot after, ms = before ++ m :: after → m.shareSlot = some slot →
    (∀ m' ∈ before ++ after, m'.shareSlot = none) ∧
      ∀ share, slot = .secretShare share → ∀ m' ∈ after, ¬ Creates m' share.accessStructureRef

end Restart

section AtMostOne

variable {s : FrostSigner S Cipher Backup × Option String}
  {last : Option (ShareSlot Cipher Backup)} {ms : List (LogMutation Cipher Backup)}

/-- A mutation without a share, that does not create the access structure of the last share,
does not change which shares and backups are held. -/
theorem RestartEquivalence.replayChange (h : RestartEquivalence s s last)
    {m : LogMutation Cipher Backup} (hm : m.shareSlot = none)
    (hno : ∀ share, last = some (.secretShare share) → ¬ Creates m share.accessStructureRef) :
    RestartEquivalence (replayChange s m) (replayChange s m) last where
  keys := rfl
  name := rfl
  share ref index share := by
    -- at the access structure of the last share nothing has changed
    have hsame : ∀ share', last = some (.secretShare ⟨ref, share'⟩) →
        (Frostsnap.replayChange s m).1.keys.accessStructure ref =
          s.1.keys.accessStructure ref := fun share' hlast =>
      replayChange_accessStructure s hm (hno _ hlast)
    constructor
    · intro hheld
      cases hs : s.1.getEncryptedShare ref index with
      | none =>
          rw [replayChange_getEncryptedShare s hm hs] at hheld
          cases hheld
      | some share' =>
          obtain ⟨hlast, hindex, hsome⟩ := (h.share ref index share').mp hs
          have hstructure := hsame share' hlast
          have hshare : (Frostsnap.replayChange s m).1.getEncryptedShare ref index =
              some share' := by
            rw [← hs, FrostSigner.getEncryptedShare, FrostSigner.getEncryptedShare,
              Keys.getEncryptedShare, Keys.getEncryptedShare, hstructure]
          obtain rfl : share' = share := Option.some.inj (hshare.symm.trans hheld)
          exact ⟨hlast, hindex, by rw [hstructure]; exact hsome⟩
    · rintro ⟨hlast, hindex, hsome⟩
      have hstructure := hsame share hlast
      rw [hstructure] at hsome
      have hs := (h.share ref index share).mpr ⟨hlast, hindex, hsome⟩
      rw [← hs, FrostSigner.getEncryptedShare, FrostSigner.getEncryptedShare,
        Keys.getEncryptedShare, Keys.getEncryptedShare, hstructure]
  backup image savedBackup := by
    rw [replayChange_restoration_of_logged s hm]
    exact h.backup image savedBackup
  backup_in_memory _ _ hheld := hheld

omit [ShareBackup Backup] in
/-- A share that is saved last, after mutations without one. -/
theorem savesAtMostOne_append (hms : ∀ m ∈ ms, m.shareSlot = none)
    (m : LogMutation Cipher Backup) : SavesAtMostOne (ms ++ [m]) := by
  intro before m' slot after h hslot
  induction after using List.reverseRecOn with
  | nil =>
      obtain ⟨rfl, -⟩ := List.append_inj' h rfl
      exact ⟨by simpa using hms, fun _ _ => nofun⟩
  | append_singleton after x =>
      rw [← List.cons_append, ← List.append_assoc] at h
      obtain ⟨rfl, -⟩ := List.append_inj' h rfl
      have hnone := hms m' (by simp)
      rw [hslot] at hnone
      cases hnone

theorem RestartEquivalence.replay (h : RestartEquivalence s s last)
    (hms : ∀ m ∈ ms, m.shareSlot = none)
    (hno : ∀ share, last = some (.secretShare share) →
      ∀ m ∈ ms, ¬ Creates m share.accessStructureRef) :
    RestartEquivalence (replay s ms) (replay s ms) last := by
  induction ms generalizing s with
  | nil => exact h
  | cons m ms ih =>
      have hm := h.replayChange (hms m List.mem_cons_self) fun share hlast =>
        hno share hlast m List.mem_cons_self
      exact ih hm (fun m' hm' => hms m' (List.mem_cons_of_mem _ hm')) fun share hlast m' hm' =>
        hno share hlast m' (List.mem_cons_of_mem _ hm')

/-- A device that saved at most one share or backup has in memory what a restart finds. -/
theorem SavesAtMostOne.restartEquivalence (h : SavesAtMostOne ms) (deviceId : DeviceId)
    (nonceSlots : AbSlots S) :
    RestartEquivalence (inMemory deviceId nonceSlots ms) (inMemory deviceId nonceSlots ms)
      (lastShare ms) := by
  have hnew : Shareless (FrostSigner.new deviceId nonceSlots : FrostSigner S Cipher Backup) :=
    shareless_new deviceId nonceSlots
  cases hlast : lastShare ms with
  | none => exact restart_none rfl (hnew.replay (lastShare_eq_none hlast))
  | some slot =>
      obtain ⟨before, m, after, rfl, hslot, -⟩ := lastShare_eq_some hlast
      obtain ⟨hothers, hcreates⟩ := h before m slot after rfl hslot
      have hbase : Shareless (inMemory deviceId nonceSlots before).1 :=
        hnew.replay fun m' hm' => hothers m' (List.mem_append_left _ hm')
      have hrest : inMemory deviceId nonceSlots (before ++ m :: after) =
          Frostsnap.replay (Frostsnap.replayChange (inMemory deviceId nonceSlots before) m) after :=
        replay_append _ _ _
      rw [hrest]
      refine RestartEquivalence.replay ?_ (fun m' hm' => hothers m' (List.mem_append_right _ hm'))
        fun share hshare => hcreates share (Option.some.inj hshare)
      rw [replayChange_of_share _ hslot]
      refine restart_slot ?_ hbase hslot fun backup hbackup => ?_
      · rw [← replayChange_of_share _ hslot, replayChange_bare, changeBare_of_share _ hslot]
      · rw [hbackup]
        exact replayChange_save2_held _ backup

end AtMostOne

/-! ### From one start to the next -/

section Contents

/-- A share that is held after a change was held before it, or is the one that it saves. -/
theorem getEncryptedShare_of_replayChange {s : FrostSigner S Cipher Backup × Option String}
    {m : LogMutation Cipher Backup} {ref : AccessStructureRef} {index : ShareIndex}
    {share : EncryptedSecretShare Cipher}
    (h : (replayChange s m).1.getEncryptedShare ref index = some share) :
    s.1.getEncryptedShare ref index = some share ∨
      (m.shareSlot = some (.secretShare ⟨ref, share⟩) ∧ share.shareImage.index = index ∧
        (s.1.keys.accessStructure ref).isSome) := by
  cases m with
  | name name => exact .inl h
  | core m =>
      cases m with
      | restoration m => exact .inl (by cases m <;> exact h)
      | keygen m =>
          cases m with
          | newKey keyId keyName purpose =>
              have hnew := (Keys.getEncryptedShare_newKey _ _ _ _ _ _).symm.trans h
              split at hnew
              · cases hnew
              · exact .inl hnew
          | newAccessStructure ref' threshold kind =>
              have hnew := (Keys.getEncryptedShare_newAccessStructure _ _ _ _ _ _).symm.trans h
              split at hnew
              · cases hnew
              · exact .inl hnew
          | saveShare m =>
              have hsave := (Keys.getEncryptedShare_saveShare _ _ _ _).symm.trans h
              split at hsave
              · rename_i hsaves
                obtain ⟨rfl, hindex, hsome⟩ := hsaves
                obtain rfl := Option.some.inj hsave
                exact .inr ⟨rfl, hindex, hsome⟩
              · exact .inl hsave

/-- A backup that is saved after a change was saved before it, or is the one that it saves. -/
theorem savedBackup_of_replayChange {s : FrostSigner S Cipher Backup × Option String}
    {m : LogMutation Cipher Backup} {image : ShareImage} {savedBackup : SavedBackup2 Backup}
    (h : (replayChange s m).1.restoration.savedBackups[image]? = some savedBackup) :
    s.1.restoration.savedBackups[image]? = some savedBackup ∨
      (m.shareSlot = some (.savedBackup2 savedBackup) ∧
        shareImage savedBackup.shareBackup = image) := by
  have hinsert (backup : SavedBackup2 Backup)
      (h : (s.1.restoration.savedBackups.insert (shareImage backup.shareBackup) backup)[image]? =
        some savedBackup) :
      s.1.restoration.savedBackups[image]? = some savedBackup ∨
        (backup = savedBackup ∧ shareImage savedBackup.shareBackup = image) := by
    rw [BTreeMap.getElem?_insert] at h
    split at h
    · rename_i himage
      obtain rfl := Option.some.inj h
      exact .inr ⟨rfl, himage⟩
    · exact .inl h
  cases m with
  | name name => exact .inl h
  | core m =>
      cases m with
      | keygen m =>
          cases m with
          | newKey keyId keyName purpose => exact .inl h
          | newAccessStructure ref threshold kind => exact .inl h
          | saveShare m =>
              have herase := (BTreeMap.getElem?_erase _ _ _).symm.trans h
              split at herase
              · cases herase
              · exact .inl herase
      | restoration m =>
          cases m with
          | save legacy =>
              rcases hinsert legacy.toSavedBackup2 h with h | ⟨rfl, himage⟩
              · exact .inl h
              · exact .inr ⟨rfl, himage⟩
          | unSave image => exact .inl h
          | save2 backup =>
              rcases hinsert backup h with h | ⟨rfl, himage⟩
              · exact .inl h
              · exact .inr ⟨rfl, himage⟩

/-- A replay stages nothing, and enters no backups. -/
theorem inMemory_fresh (deviceId : DeviceId) (nonceSlots : AbSlots S)
    (ms : List (LogMutation Cipher Backup)) :
    (inMemory deviceId nonceSlots ms).1.mutations = [] ∧
      (inMemory deviceId nonceSlots ms).1.restoration.tmpLoadedBackups = ∅ := by
  induction ms using List.reverseRecOn with
  | nil => exact ⟨rfl, rfl⟩
  | append_singleton ms m ih =>
      have hlast : inMemory deviceId nonceSlots (ms ++ [m]) =
          replayChange (inMemory deviceId nonceSlots ms) m := replay_append _ _ _
      rw [hlast]
      refine ⟨?_, ?_⟩
      · rcases m with (m | m) | name
        · cases m <;> exact ih.1
        · cases m <;> exact ih.1
        · exact ih.1
      · rcases m with (m | m) | name
        · cases m with
          | newKey keyId keyName purpose => exact ih.2
          | newAccessStructure ref threshold kind => exact ih.2
          | saveShare m =>
              change (inMemory deviceId nonceSlots ms).1.restoration.tmpLoadedBackups.erase _ = ∅
              rw [ih.2, Std.ExtTreeMap.erase_empty]
        · cases m <;> exact ih.2
        · exact ih.2

/-- A replay is of the same device, with the same nonce slots. -/
theorem replay_device (s : FrostSigner S Cipher Backup × Option String)
    (ms : List (LogMutation Cipher Backup)) :
    (replay s ms).1.deviceId = s.1.deviceId ∧ (replay s ms).1.nonceSlots = s.1.nonceSlots := by
  induction ms generalizing s with
  | nil => exact ⟨rfl, rfl⟩
  | cons m ms ih =>
      obtain ⟨hid, hslots⟩ := ih (replayChange s m)
      have hsame : (replayChange s m).1.deviceId = s.1.deviceId ∧
          (replayChange s m).1.nonceSlots = s.1.nonceSlots := by
        rcases m with (m | m) | name
        · cases m <;> exact ⟨rfl, rfl⟩
        · cases m <;> exact ⟨rfl, rfl⟩
        · exact ⟨rfl, rfl⟩
      exact ⟨hid.trans hsame.1, hslots.trans hsame.2⟩

omit [ShareBackup Backup] in
/-- What a slot is replayed as would be written to a slot again. -/
theorem exists_shareSlot_intoMutation (slot : ShareSlot Cipher Backup) :
    ∃ slot', (LogMutation.core slot.intoMutation).shareSlot = some slot' := by
  cases slot <;> exact ⟨_, rfl⟩

namespace LogContents

variable (c : LogContents Cipher Backup) (deviceId : DeviceId) (nonceSlots : AbSlots S)
  {ms : List (LogMutation Cipher Backup)}

/-- What a start comes up with. -/
def restart : FrostSigner S Cipher Backup × Option String :=
  replay (FrostSigner.new deviceId nonceSlots, none) c.items

/-- A start stages nothing, and enters no backups. -/
theorem restart_fresh :
    (c.restart deviceId nonceSlots).1.mutations = [] ∧
      (c.restart deviceId nonceSlots).1.restoration.tmpLoadedBackups = ∅ :=
  inMemory_fresh deviceId nonceSlots c.items

omit [ShareBackup Backup] in
theorem logged_items_append : logged (c.items ++ ms) = c.log ++ logged ms := by
  have hlog : logged c.log = c.log :=
    List.filter_eq_self.mpr fun m hm => Option.isNone_iff_eq_none.mpr (c.noShare m hm)
  have hslot : logged ((c.shareSlot.map fun slot =>
      LogMutation.core slot.intoMutation).toList) = [] := by
    cases c.shareSlot with
    | none => rfl
    | some slot =>
        obtain ⟨slot', hslot'⟩ := exists_shareSlot_intoMutation slot
        simp [logged, hslot']
  rw [items, logged, List.filter_append, List.filter_append, ← logged, ← logged, ← logged, hlog,
    hslot, List.append_nil]

/-- **A start after pushes** comes up with what one would that had been there all along: it replays
what was found before, and then what was pushed. -/
theorem restart_append :
    (c.append ms).restart deviceId nonceSlots =
      afterRestart deviceId nonceSlots (c.items ++ ms) := by
  obtain ⟨hlog, hslot⟩ := c.append_eq ms
  have hlast : lastShare (c.items ++ ms) = (lastShare ms).or
      (c.shareSlot.bind fun slot => (LogMutation.core slot.intoMutation).shareSlot) := by
    have hnone : c.log.filterMap LogMutation.shareSlot = [] :=
      List.filterMap_eq_nil_iff.mpr c.noShare
    rw [lastShare, List.filterMap_append, items, List.filterMap_append, hnone, List.nil_append,
      List.getLast?_append]
    cases c.shareSlot with
    | none => rfl
    | some slot =>
        obtain ⟨slot', hslot'⟩ := exists_shareSlot_intoMutation slot
        simp [lastShare, hslot']
  rw [restart, afterRestart, logged_items_append, items, hlog, hslot, hlast,
    replay_append _ (c.log ++ logged ms), replay_append _ (c.log ++ logged ms)]
  cases lastShare ms with
  | some slot => rfl
  | none =>
      cases c.shareSlot with
      | none => rfl
      | some slot =>
          obtain ⟨slot', hslot'⟩ := exists_shareSlot_intoMutation slot
          rw [Option.none_or, Option.none_or, Option.bind_some, hslot']
          exact replayChange_of_share _ hslot'

/-- **What a start after pushes finds**, compared with what is in memory before it. -/
theorem restartEquivalence_append (ms : List (LogMutation Cipher Backup)) :
    RestartEquivalence (inMemory deviceId nonceSlots (c.items ++ ms))
      ((c.append ms).restart deviceId nonceSlots) (lastShare (c.items ++ ms)) := by
  rw [restart_append]
  exact restartEquivalence_afterRestart deviceId nonceSlots _

variable {c deviceId nonceSlots}

/-- The share that a start finds is the one in the slot. -/
theorem shareSlot_of_restart {ref : AccessStructureRef} {index : ShareIndex}
    {share : EncryptedSecretShare Cipher}
    (h : (c.restart deviceId nonceSlots).1.getEncryptedShare ref index = some share) :
    c.shareSlot = some (.secretShare ⟨ref, share⟩) ∧ share.shareImage.index = index := by
  have hless : Shareless (replay (FrostSigner.new deviceId nonceSlots, none) c.log).1 :=
    (shareless_new deviceId nonceSlots).replay c.noShare
  rw [restart, items, replay_append] at h
  cases hslot : c.shareSlot with
  | none =>
      rw [hslot] at h
      cases (hless.getEncryptedShare ref index).symm.trans h
  | some slot =>
      rw [hslot] at h
      change (replayChange (replay (FrostSigner.new deviceId nonceSlots, none) c.log)
        (.core slot.intoMutation)).1.getEncryptedShare ref index = some share at h
      rcases getEncryptedShare_of_replayChange h with h | ⟨hsaves, hindex, -⟩
      · cases (hless.getEncryptedShare ref index).symm.trans h
      · cases slot with
        | secretShare m =>
            exact ⟨congrArg some (Option.some.inj hsaves), hindex⟩
        | savedBackup legacy => cases hsaves
        | savedBackup2 backup => cases hsaves

/-- What memory holds after one more mutation. -/
theorem inMemory_concat (m : LogMutation Cipher Backup) :
    inMemory deviceId nonceSlots (c.items ++ (ms ++ [m])) =
      replayChange (inMemory deviceId nonceSlots (c.items ++ ms)) m := by
  rw [← List.append_assoc]
  exact replay_append _ _ _

/-- What holds of memory held at a start, or would have at one at some moment since, when it holds
after a mutation only because it did before or because a start then finds it. -/
theorem exists_restart {P : FrostSigner S Cipher Backup × Option String → Prop}
    (hstep : ∀ ms m, P (replayChange (inMemory deviceId nonceSlots (c.items ++ ms)) m) →
      P (inMemory deviceId nonceSlots (c.items ++ ms)) ∨
        P ((c.append (ms ++ [m])).restart deviceId nonceSlots))
    (h : P (inMemory deviceId nonceSlots (c.items ++ ms))) :
    ∃ before, before <+: ms ∧ P ((c.append before).restart deviceId nonceSlots) := by
  induction ms using List.reverseRecOn with
  | nil =>
      rw [List.append_nil] at h
      exact ⟨[], List.prefix_rfl, h⟩
  | append_singleton ms m ih =>
      rw [inMemory_concat] at h
      rcases hstep ms m h with hbefore | hnow
      · obtain ⟨before, hprefix, hfound⟩ := ih hbefore
        exact ⟨before, hprefix.trans (List.prefix_append _ _), hfound⟩
      · exact ⟨ms ++ [m], List.prefix_rfl, hnow⟩

/-- **A share in memory** was found by a start, or would have been by one at some moment since. -/
theorem exists_restart_of_share {ref : AccessStructureRef} {index : ShareIndex}
    {share : EncryptedSecretShare Cipher}
    (h : (inMemory deviceId nonceSlots (c.items ++ ms)).1.getEncryptedShare ref index =
      some share) :
    ∃ before, before <+: ms ∧
      ((c.append before).restart deviceId nonceSlots).1.getEncryptedShare ref index =
        some share := by
  refine exists_restart (P := fun held => held.1.getEncryptedShare ref index = some share)
    (fun ms m hafter => ?_) h
  have hrestart := c.restartEquivalence_append deviceId nonceSlots (ms ++ [m])
  rw [inMemory_concat] at hrestart
  rcases getEncryptedShare_of_replayChange hafter with hbefore | ⟨hsaves, hindex, hsome⟩
  · exact .inl hbefore
  · -- the share is in the slot now, and its access structure is in the log
    refine .inr ((hrestart.share ref index share).mpr ⟨?_, hindex, ?_⟩)
    · simp [lastShare, hsaves]
    · have hbare := replayChange_bare (inMemory deviceId nonceSlots (c.items ++ ms)) m
      rw [changeBare_of_share _ hsaves] at hbare
      rw [accessStructure_isSome hbare]
      exact hsome

/-- **A backup in memory** was found by a start, or would have been by one at some moment since. -/
theorem exists_restart_of_backup {image : ShareImage} {savedBackup : SavedBackup2 Backup}
    (h : (inMemory deviceId nonceSlots (c.items ++ ms)).1.restoration.savedBackups[image]? =
      some savedBackup) :
    ∃ before, before <+: ms ∧
      ((c.append before).restart deviceId nonceSlots).1.restoration.savedBackups[image]? =
        some savedBackup := by
  refine exists_restart (P := fun held => held.1.restoration.savedBackups[image]? =
    some savedBackup) (fun ms m hafter => ?_) h
  have hrestart := c.restartEquivalence_append deviceId nonceSlots (ms ++ [m])
  rw [inMemory_concat] at hrestart
  rcases savedBackup_of_replayChange hafter with hbefore | ⟨hsaves, himage⟩
  · exact .inl hbefore
  · refine .inr ((hrestart.backup image savedBackup).mpr ⟨?_, himage⟩)
    simp [lastShare, hsaves]

end LogContents

end Contents

/-! ### The restart of a device -/

section Boot

variable {C : Codec (LogMutation Cipher Backup)} {D : Codec (ShareSlot Cipher Backup)}
  {shareSlot : AbSlot} {logFlash : FlashPartition} {apart : shareSlot.stop ≤ logFlash.start}
  {ms : List (LogMutation Cipher Backup)} {log : MutationLog}

/-- **A start over flash** comes up with what is stored in it. -/
theorem bootSigner_of_holds {f : Flash} {started : MutationLog} (deviceId : DeviceId)
    (nonceSlots : AbSlots S) (h : MutationLog.Holds C D f log ms) (hplace : started.SamePlace log)
    (hroom : (log.log.wordPos + 1) * writeSize ≤ log.log.flash.size) :
    bootSigner C D started deviceId nonceSlots f =
      some (.ret (((LogContents.empty.append ms).restart deviceId nonceSlots).1,
        ((LogContents.empty.append ms).restart deviceId nonceSlots).2, log)) := by
  rw [bootSigner, h.seekIter_eq hplace hroom, LogContents.restart, LogContents.items_empty_append]
  rfl

/-- A device restarts with what the log and the slot give back. -/
theorem bootSigner_eq_afterRestart (deviceId : DeviceId) (nonceSlots : AbSlots S)
    (henc : ∀ m ∈ ms, MutationLog.Encodable C D m)
    (hpushed : ((MutationLog.new shareSlot logFlash apart).append C D ms fun _ => 0xff).result =
      .ret (.ok log))
    (hroom : (log.log.wordPos + 1) * writeSize ≤ log.log.flash.size) :
    bootSigner C D (MutationLog.new shareSlot logFlash apart) deviceId nonceSlots
        (((MutationLog.new shareSlot logFlash apart).append C D ms).after fun _ => 0xff) =
      some (.ret ((afterRestart deviceId nonceSlots ms).1,
        (afterRestart deviceId nonceSlots ms).2, log)) := by
  have hholds := (MutationLog.holds_of_erased (C := C) (D := D)
    (MutationLog.new shareSlot logFlash apart) rfl).append henc hpushed
  rw [bootSigner_of_holds deviceId nonceSlots hholds (MutationLog.append_samePlace hpushed) hroom,
    List.nil_append, LogContents.restart_append]
  rfl

/-- **Restart of a device**: mutations were pushed to an erased log and all fitted, with a word
of the log to spare. Then the device starts again with the keys, the access structures and the
name it has in memory. Of the shares and backups it has the last one that was saved and no
other; when it saved at most one, all its keys, shares and backups are those in memory. -/
theorem restart_equivalence (deviceId : DeviceId) (nonceSlots : AbSlots S)
    (henc : ∀ m ∈ ms, MutationLog.Encodable C D m)
    (hpushed : ((MutationLog.new shareSlot logFlash apart).append C D ms fun _ => 0xff).result =
      .ret (.ok log))
    (hroom : (log.log.wordPos + 1) * writeSize ≤ log.log.flash.size) :
    ∃ restarted : FrostSigner S Cipher Backup × Option String,
      bootSigner C D (MutationLog.new shareSlot logFlash apart) deviceId nonceSlots
          (((MutationLog.new shareSlot logFlash apart).append C D ms).after fun _ => 0xff) =
        some (.ret (restarted.1, restarted.2, log)) ∧
      RestartEquivalence (inMemory deviceId nonceSlots ms) restarted (lastShare ms) ∧
      (SavesAtMostOne ms →
        restarted.1.keys = (inMemory deviceId nonceSlots ms).1.keys ∧
          restarted.1.restoration.savedBackups =
            (inMemory deviceId nonceSlots ms).1.restoration.savedBackups) := by
  have hrestart := restartEquivalence_afterRestart deviceId nonceSlots ms
  refine ⟨_, bootSigner_eq_afterRestart deviceId nonceSlots henc hpushed hroom, hrestart,
    fun hone => ?_⟩
  exact hrestart.unique (hone.restartEquivalence deviceId nonceSlots)

end Boot

/-! ### A second share -/

/-- The bytes of a byte array. -/
def arrayBytes {n : ℕ} (v : BitVec (8 * n)) : List UInt8 := (leBytes n v.toNat).reverse

/-- The ciphertext of a share with its nonce and tag. -/
abbrev ShareCiphertext := BitVec (8 * 60)

instance : ShareBackup ShareImage := ⟨id⟩

/-- An access structure of a key. -/
def exampleRef : AccessStructureRef := ⟨1, 2⟩

/-- The share of it with an index. -/
def exampleShare (index : ShareIndex) : SaveShareMutation ShareCiphertext where
  accessStructureRef := exampleRef
  encryptedSecretShare := { shareImage := ⟨index, 3⟩, ciphertext := 4 }

/-- A key and an access structure of it. -/
def exampleKeys : List (LogMutation ShareCiphertext ShareImage) :=
  [.core (.keygen (.newKey 1 "k" .test)),
    .core (.keygen (.newAccessStructure exampleRef 1 .master))]

theorem exampleKeys_logged : ∀ m ∈ exampleKeys, m.shareSlot = none := by
  intro m hm
  obtain rfl | rfl : m = _ ∨ m = _ := by simpa [exampleKeys] using hm
  · rfl
  · rfl

/-- The mutations of `exampleKeys` with the bytes they have in the log. -/
def exampleLogTable : List (LogMutation ShareCiphertext ShareImage × List UInt8) :=
  exampleKeys.zip
    [[0, 0, 0] ++ arrayBytes (n := 32) 1 ++ [1, 0x6b] ++ [0],
      [0, 0, 1] ++ arrayBytes (n := 32) 1 ++ arrayBytes (n := 32) 2 ++ [1] ++ [0]]

/-- Two shares with the bytes they have in the slot. -/
def exampleSlotTable : List (ShareSlot ShareCiphertext ShareImage × List UInt8) :=
  [1, 2].map fun index =>
    (.secretShare (exampleShare index),
      [0, 0, 0, 0] ++ arrayBytes (n := 32) 1 ++ arrayBytes (n := 32) 2 ++
        arrayBytes (n := 32) index ++ arrayBytes (n := 33) 3 ++ arrayBytes (n := 60) 4)

def exampleLogCodec : Codec (LogMutation ShareCiphertext ShareImage) :=
  .ofTable exampleLogTable (by decide +kernel)

def exampleSlotCodec : Codec (ShareSlot ShareCiphertext ShareImage) :=
  .ofTable exampleSlotTable (by decide +kernel)

/-- The mutation log of a slot of two sectors and a log of one. -/
def exampleLog : MutationLog :=
  .new twoSectors { offsetSector := 2, nSectors := 1, inBounds := by decide } (by decide)

/-- The mutations that save shares of a new key. -/
def savingShares (indices : List ShareIndex) : List (LogMutation ShareCiphertext ShareImage) :=
  exampleKeys ++ indices.map fun index => .core (.keygen (.saveShare (exampleShare index)))

/-- The log that pushes ended with. -/
def pushedLog : Exec (Except NorFlashErrorKind MutationLog) → Option NorFlashLog
  | .ret (.ok log) => some log.log
  | _ => none

theorem eq_of_pushedLog {r : Exec (Except NorFlashErrorKind MutationLog)} {norLog : NorFlashLog}
    (h : pushedLog r = some norLog) : ∃ log, r = .ret (.ok log) ∧ log.log = norLog := by
  rcases r with (e | log) | msg
  · cases h
  · exact ⟨log, rfl, Option.some.inj h⟩
  · cases h

theorem savingShares_encodable {indices : List ShareIndex}
    (h : ∀ index ∈ indices, index = 1 ∨ index = 2) :
    ∀ m ∈ savingShares indices, MutationLog.Encodable exampleLogCodec exampleSlotCodec m := by
  have hlog : exampleLogTable.map Prod.fst = exampleKeys := List.map_fst_zip (by decide)
  intro m hm
  rcases List.mem_append.mp hm with hm | hm
  · rw [MutationLog.Encodable, exampleKeys_logged m hm]
    exact Codec.ofTable_valid.mpr (by rw [hlog]; exact hm)
  · obtain ⟨index, hindex, rfl⟩ := List.mem_map.mp hm
    refine Codec.ofTable_valid.mpr ?_
    rw [exampleSlotTable, List.map_map]
    exact List.mem_map.mpr ⟨index, by simpa using h index hindex, rfl⟩

theorem savingShares_pushed {indices : List ShareIndex}
    (h : indices ∈ ([[1], [1, 2]] : List (List ShareIndex))) :
    ∃ log, (exampleLog.append exampleLogCodec exampleSlotCodec (savingShares indices)
        fun _ => 0xff).result = .ret (.ok log) ∧
      (log.log.wordPos + 1) * writeSize ≤ log.log.flash.size := by
  have hlog : pushedLog (exampleLog.append exampleLogCodec exampleSlotCodec
      (savingShares indices) fun _ => 0xff).result =
        some { exampleLog.log with wordPos := 30 } := by
    revert indices
    decide +kernel
  obtain ⟨log, hret, hlog⟩ := eq_of_pushedLog hlog
  exact ⟨log, hret, by rw [hlog]; decide⟩

/-- A device without keys and nonce slots. -/
def exampleSigner : FrostSigner Unit ShareCiphertext ShareImage × Option String :=
  (.new 0 ⟨[], 0⟩, none)

/-- The restart of the device after it has saved shares. -/
def exampleBoot (indices : List ShareIndex) :
    Option (Exec (FrostSigner Unit ShareCiphertext ShareImage × Option String × MutationLog)) :=
  bootSigner exampleLogCodec exampleSlotCodec exampleLog 0 ⟨[], 0⟩
    ((exampleLog.append exampleLogCodec exampleSlotCodec
      (savingShares indices)).after fun _ => 0xff)

theorem inMemory_first_share :
    (replay exampleSigner (savingShares [1, 2])).1.getEncryptedShare exampleRef 1 =
      some (exampleShare 1).encryptedSecretShare := by
  decide +kernel

/-- A device with one share of its key restarts with all that it has in memory. -/
theorem restart_equivalence_of_one_share :
    ∃ (restarted : FrostSigner Unit ShareCiphertext ShareImage × Option String)
      (log : MutationLog), exampleBoot [1] = some (.ret (restarted.1, restarted.2, log)) ∧
      restarted.1.keys = (replay exampleSigner (savingShares [1])).1.keys ∧
      restarted.1.getEncryptedShare exampleRef 1 = some (exampleShare 1).encryptedSecretShare := by
  obtain ⟨log, hpushed, hroom⟩ := @savingShares_pushed [1] (by decide)
  obtain ⟨restarted, hboot, hrestart, hone⟩ := restart_equivalence 0 ⟨[], 0⟩
    (savingShares_encodable (by simp)) hpushed hroom
  have hsaves : SavesAtMostOne (savingShares [1]) := savesAtMostOne_append exampleKeys_logged _
  refine ⟨restarted, log, hboot, (hone hsaves).1, ?_⟩
  exact (hrestart.share _ _ _).mpr ⟨by decide +kernel, rfl, by decide +kernel⟩

/-- A device that saved two shares of its key has both in memory, and after a restart only the
second. -/
theorem restart_forgets_first_share :
    ∃ (restarted : FrostSigner Unit ShareCiphertext ShareImage × Option String)
      (log : MutationLog), exampleBoot [1, 2] = some (.ret (restarted.1, restarted.2, log)) ∧
      (replay exampleSigner (savingShares [1, 2])).1.getEncryptedShare exampleRef 1 =
        some (exampleShare 1).encryptedSecretShare ∧
      restarted.1.getEncryptedShare exampleRef 1 = none ∧
      restarted.1.keys ≠ (replay exampleSigner (savingShares [1, 2])).1.keys := by
  obtain ⟨log, hpushed, hroom⟩ := @savingShares_pushed [1, 2] (by decide)
  have hboot := bootSigner_eq_afterRestart (S := Unit) 0 ⟨[], 0⟩
    (savingShares_encodable (by simp)) hpushed hroom
  have hnone : (afterRestart 0 ⟨[], 0⟩ (savingShares [1, 2]) :
      FrostSigner Unit _ _ × _).1.getEncryptedShare exampleRef 1 = none := by decide +kernel
  refine ⟨_, log, hboot, inMemory_first_share, hnone, fun h => ?_⟩
  have hshare := inMemory_first_share
  rw [FrostSigner.getEncryptedShare, ← h, ← FrostSigner.getEncryptedShare, hnone] at hshare
  cases hshare

end Frostsnap
