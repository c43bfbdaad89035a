import Frostsnap.Device.HeldShares
import Frostsnap.Device.Staging
import Frostsnap.Embedded.DeviceLoop
import Frostsnap.Embedded.LogReplay
import Frostsnap.Lib.Replay

/-!
# What a device acknowledges is in its log

The main loop writes the staged mutations to the log before it goes through the outbox, so that
what it says of its keys and backups is in the log by the time it is written upstream. A
consolidation is the exception: it is finished while the outbox is gone through, its mutations are
written by the next iteration that gets that far, and its acknowledgement may be written upstream
before. An iteration gets that far unless the device leaves the loop in it, to upgrade or to be
reset, or an attestation is in flight.

What a device says was so of what it had in memory at some moment, by the mutations that were
written until then. A start reads back less, since the share slot holds one share or backup only:
each of them was what a start would have found, at one such moment or another.

## Main results

* `Inv`: the keys, the backups and the name of the device are what it started with, changed by
  what was written since and is staged, and everything that waits to be sent is backed by them.
* `Inv.pollNormal`, `Inv.poll`: one iteration.
* `writes_ahead`: every run.
-/

namespace Frostsnap

variable {S Cipher Backup : Type} [ShareBackup Backup]

/-! ### Replaying -/

/-- What a mutation of the log does to what is kept. -/
def Kept.applyLog (kept : Kept Cipher Backup) : LogMutation Cipher Backup → Kept Cipher Backup
  | .core m => kept.applyMutation m
  | .name _ => kept

theorem replay_kept (s : FrostSigner S Cipher Backup × Option String)
    (ms : List (LogMutation Cipher Backup)) :
    (replay s ms).1.kept = ms.foldl Kept.applyLog s.1.kept := by
  induction ms generalizing s with
  | nil => rfl
  | cons m ms ih =>
      refine (ih _).trans ?_
      rw [List.foldl_cons]
      congr 1
      cases m with
      | core m => exact s.1.kept_applyMutation m
      | name name => rfl

section InMemory

variable {deviceId : DeviceId} {nonceSlots : AbSlots S} (log : List (LogMutation Cipher Backup))

theorem inMemory_append (ms : List (LogMutation Cipher Backup)) :
    inMemory deviceId nonceSlots (log ++ ms) = replay (inMemory deviceId nonceSlots log) ms :=
  replay_append _ _ _

/-- A share that is replayed was saved. -/
theorem mem_of_getEncryptedShare {ref : AccessStructureRef} {index : ShareIndex}
    {share : EncryptedSecretShare Cipher}
    (h : (inMemory deviceId nonceSlots log).1.getEncryptedShare ref index = some share) :
    LogMutation.core (.keygen (.saveShare ⟨ref, share⟩)) ∈ log ∧
      share.shareImage.index = index := by
  induction log using List.reverseRecOn with
  | nil =>
      have hnone := (shareless_new deviceId nonceSlots :
        Shareless (FrostSigner.new deviceId nonceSlots :
          FrostSigner S Cipher Backup)).getEncryptedShare ref index
      cases hnone.symm.trans h
  | append_singleton log m ih =>
      rw [inMemory_append] at h
      rcases getEncryptedShare_of_replayChange h with h | ⟨hsaves, hindex, -⟩
      · exact ⟨List.mem_append_left _ (ih h).1, (ih h).2⟩
      · obtain rfl := LogMutation.eq_of_secretShare hsaves
        exact ⟨List.mem_append_right _ (List.mem_singleton.2 rfl), hindex⟩

end InMemory

namespace Device

open Wire (payloads ReceiveSerial)

attribute [local instance] Build.release

variable {L : FrostLib} {D : DeviceLib L}

/-! ### Between two starts -/

/-- How a device has started: its id, its nonce slots, and what its log held. -/
structure Boot (D : DeviceLib L) (S : Type) where
  deviceId : DeviceId
  nonceSlots : AbSlots S
  found : LogContents D.Cipher D.Backup

namespace Boot

variable (boot : Boot D S) (pushed : List (LogMutation D.Cipher D.Backup))

/-- What the device has in memory once mutations were pushed. -/
def memory : FrostSigner S D.Cipher D.Backup × Option String :=
  inMemory boot.deviceId boot.nonceSlots (boot.found.items ++ pushed)

/-- What it would start with again. -/
def restart : FrostSigner S D.Cipher D.Backup × Option String :=
  (boot.found.append pushed).restart boot.deviceId boot.nonceSlots

/-- Whatever is in memory, a start would have found it at some moment: when it was written, it was
in the share slot. -/
structure OnceStored : Prop where
  share : ∀ (ref : AccessStructureRef) (index : ShareIndex)
    (share : EncryptedSecretShare D.Cipher),
    (boot.memory pushed).1.getEncryptedShare ref index = some share →
      ∃ before, before <+: pushed ∧
        (boot.restart before).1.getEncryptedShare ref index = some share
  backup : ∀ (image : ShareImage) (savedBackup : SavedBackup2 D.Backup),
    (boot.memory pushed).1.restoration.savedBackups[image]? = some savedBackup →
      ∃ before, before <+: pushed ∧
        (boot.restart before).1.restoration.savedBackups[image]? = some savedBackup

theorem onceStored : boot.OnceStored pushed :=
  ⟨fun _ _ _ => LogContents.exists_restart_of_share,
    fun _ _ => LogContents.exists_restart_of_backup⟩

theorem memory_append (ms : List (LogMutation D.Cipher D.Backup)) :
    boot.memory (pushed ++ ms) = replay (boot.memory pushed) ms := by
  rw [memory, ← List.append_assoc, inMemory_append]
  rfl

/-- Staged mutations change what is kept. -/
theorem memory_append_core_kept (ms : List (Mutation D.Cipher D.Backup)) :
    (boot.memory (pushed ++ ms.map .core)).1.kept =
      ms.foldl Kept.applyMutation (boot.memory pushed).1.kept := by
  rw [memory_append, replay_kept, List.foldl_map]
  rfl

/-- They do not change the name. -/
theorem memory_append_core_name (ms : List (Mutation D.Cipher D.Backup)) :
    (boot.memory (pushed ++ ms.map .core)).2 = (boot.memory pushed).2 := by
  rw [memory_append, replay]
  generalize boot.memory pushed = s
  induction ms generalizing s with
  | nil => rfl
  | cons m ms ih => exact ih _

/-- A name changes nothing else, wherever among the mutations it is. -/
theorem memory_name_kept (name : String) (ms : List (LogMutation D.Cipher D.Backup)) :
    (boot.memory (pushed ++ .name name :: ms)).1.kept = (boot.memory (pushed ++ ms)).1.kept := by
  rw [memory_append, memory_append, replay_kept, replay_kept]
  rfl

end Boot

/-! ### What backs a message -/

section Backs

variable (boot : Boot D S) (pushed staged : List (LogMutation D.Cipher D.Backup))

/-- A message says what the device had in memory by mutations that were written. -/
def Backs (m : Coordinator.DeviceToCoordinatorMessage L) : Prop :=
  ∃ before, before <+: pushed ∧ Acknowledges (boot.memory before).1.kept m

/-- What a body says was so by mutations that were written. The share of a finished consolidation
was found by the start, or it was written, or it is staged. -/
def Acknowledged : DeviceSendBody (payloads L) → Prop
  | .core (.restoration (.finishedConsolidation ref index)) =>
      ∃ share, LogMutation.core (.keygen (.saveShare ⟨ref, share⟩)) ∈
          boot.found.items ++ (pushed ++ staged) ∧
        share.shareImage.index = index
  | .core m => Backs boot pushed m
  | .setName name =>
      ∃ before, before <+: pushed ∧ (boot.memory before).2 = some name.inner
  | _ => True

variable {boot pushed staged} {pushed' staged' : List (LogMutation D.Cipher D.Backup)}

theorem Backs.mono {m : Coordinator.DeviceToCoordinatorMessage L}
    (h : Backs boot pushed m) (hpushed : pushed <+: pushed') : Backs boot pushed' m := by
  obtain ⟨before, hbefore, hm⟩ := h
  exact ⟨before, hbefore.trans hpushed, hm⟩

/-- What was acknowledged stays so while more is written. -/
theorem Acknowledged.mono {body : DeviceSendBody (payloads L)}
    (h : Acknowledged boot pushed staged body) (hpushed : pushed <+: pushed')
    (hstaged : ∀ m ∈ pushed ++ staged, m ∈ pushed' ++ staged') :
    Acknowledged boot pushed' staged' body := by
  unfold Acknowledged at h ⊢
  split at h
  · obtain ⟨share, hmem, hindex⟩ := h
    rcases List.mem_append.1 hmem with hmem | hmem
    · exact ⟨share, List.mem_append_left _ hmem, hindex⟩
    · exact ⟨share, List.mem_append_right _ (hstaged _ hmem), hindex⟩
  · exact h.mono hpushed
  · obtain ⟨before, hbefore, hname⟩ := h
    exact ⟨before, hbefore.trans hpushed, hname⟩
  · trivial

/-- A share that memory has was found by the start, or was written. -/
theorem exists_saveShare {ref : AccessStructureRef} {index : ShareIndex}
    (h : ((boot.memory pushed).1.kept.keys.getEncryptedShare ref index).isSome)
    (hpushed : ∀ m ∈ pushed, m ∈ pushed' ++ staged') :
    ∃ share, LogMutation.core (.keygen (.saveShare ⟨ref, share⟩)) ∈
        boot.found.items ++ (pushed' ++ staged') ∧
      share.shareImage.index = index := by
  obtain ⟨share, hshare⟩ := Option.isSome_iff_exists.1 h
  obtain ⟨hmem, hindex⟩ := mem_of_getEncryptedShare _ hshare
  refine ⟨share, ?_, hindex⟩
  rcases List.mem_append.1 hmem with hmem | hmem
  · exact List.mem_append_left _ hmem
  · exact List.mem_append_right _ (hpushed _ hmem)

/-- What is backed is acknowledged. -/
theorem Backs.acknowledged {m : Coordinator.DeviceToCoordinatorMessage L}
    (h : Backs boot pushed m) : Acknowledged boot pushed staged (.core m) := by
  unfold Acknowledged
  split
  · rename_i ref index heq
    cases heq
    obtain ⟨before, hbefore, hshare⟩ := h
    exact exists_saveShare hshare fun m hm => List.mem_append_left _ (hbefore.subset hm)
  · rename_i heq
    cases heq
    exact h
  · rename_i heq
    cases heq
  · trivial

end Backs

namespace DeviceLoop

/-! ### The invariant -/

/-- A message waits to be written upstream. -/
def Waits (s : DeviceLoop D S) (m : UpstreamMessage L) : Prop :=
  m ∈ s.upstreamConnection.messages ∨ s.upstreamConnection.announcement = some m

section Inv

variable (boot : Boot D S) (received : List (UpstreamMessage L))

/-- A message was received from downstream, or is one of the device and backed by its log. -/
def Backed (s : DeviceLoop D S) (m : UpstreamMessage L) : Prop :=
  m ∈ received ∨ ∃ body, m = { from_ := boot.deviceId, body := .ok body } ∧
    Acknowledged boot s.mutationLog.pushed s.staged body

/-- What a device has is what it started with, changed by what was written since and is staged, and
what waits to be written upstream is backed by that. -/
structure Inv (s : DeviceLoop D S) : Prop where
  found : s.mutationLog.found = boot.found
  kept : s.signer.kept = (boot.memory (s.mutationLog.pushed ++ s.staged)).1.kept
  name : s.name.map DeviceName.inner = (boot.memory s.mutationLog.pushed).2
  loaded : s.signer.LoadedByImage
  myDeviceId : s.upstreamConnection.myDeviceId = boot.deviceId
  waiting : ∀ m, s.Waits m → s.Backed boot received m

/-- What is in the outbox is backed by the log together with what is staged. -/
def OutboxBacked (s : DeviceLoop D S) : Prop :=
  ∀ m, .toCoordinator m ∈ s.outbox → Backs boot (s.mutationLog.pushed ++ s.staged) m

/-- What is in the outbox may be sent. -/
def OutboxAcknowledged (s : DeviceLoop D S) : Prop :=
  ∀ m, .toCoordinator m ∈ s.outbox →
    Acknowledged boot s.mutationLog.pushed s.staged (.core m)

end Inv

variable {boot : Boot D S} {received : List (UpstreamMessage L)}
  {s s' t : DeviceLoop D S}

/-- The log and what is staged have grown. -/
structure Grows (s s' : DeviceLoop D S) : Prop where
  log : s.mutationLog.pushed <+: s'.mutationLog.pushed
  staged : ∀ m ∈ s.mutationLog.pushed ++ s.staged, m ∈ s'.mutationLog.pushed ++ s'.staged

theorem Grows.refl (s : DeviceLoop D S) : Grows s s := ⟨List.prefix_rfl, fun _ => id⟩

theorem Grows.trans (h : Grows s t) (h' : Grows t s') : Grows s s' :=
  ⟨h.log.trans h'.log, fun m hm => h'.staged m (h.staged m hm)⟩

theorem Backed.mono {m : UpstreamMessage L} (h : s.Backed boot received m)
    (hgrows : Grows s s') : s'.Backed boot received m := by
  rcases h with h | ⟨body, hm, hbody⟩
  · exact .inl h
  · exact .inr ⟨body, hm, hbody.mono hgrows.log hgrows.staged⟩

/-! ### Changes that leave what is kept alone -/

/-- A body says nothing of keys and backups, and of the name what it is. -/
def Plain (s : DeviceLoop D S) : DeviceSendBody (payloads L) → Prop
  | .core _ => False
  | .setName name => s.name = some name
  | _ => True

/-- Nothing that is kept has changed, and what is to be sent besides says nothing of it. -/
structure Quiet (received : List (UpstreamMessage L)) (s s' : DeviceLoop D S) : Prop where
  mutationLog : s'.mutationLog = s.mutationLog
  mutations : s'.signer.mutations = s.signer.mutations
  kept : s'.signer.kept = s.signer.kept
  name : s'.name = s.name
  loaded : s.signer.LoadedByImage → s'.signer.LoadedByImage
  myDeviceId : s'.upstreamConnection.myDeviceId = s.upstreamConnection.myDeviceId
  waiting : ∀ m, s'.Waits m → s.Waits m ∨ m ∈ received ∨
    ∃ body, m = s.upstreamConnection.own body ∧ s.Plain body
  outbox : s'.outbox ⊆ s.outbox

/-- What `Quiet` is about. -/
def outline (s : DeviceLoop D S) :=
  (s.mutationLog, s.signer, s.name, s.upstreamConnection, s.outbox)

namespace Quiet

theorem of_outline (h : s'.outline = s.outline) : Quiet received s s' := by
  simp only [outline, Prod.mk.injEq] at h
  obtain ⟨hlog, hsigner, hname, hconnection, houtbox⟩ := h
  refine ⟨hlog, hsigner ▸ rfl, hsigner ▸ rfl, hname, fun h => hsigner ▸ h, hconnection ▸ rfl,
    fun m hm => .inl ?_, houtbox ▸ List.Subset.refl _⟩
  rw [Waits, hconnection] at hm
  exact hm

theorem refl (s : DeviceLoop D S) : Quiet received s s := of_outline rfl

theorem staged (h : Quiet received s s') : s'.staged = s.staged := by
  rw [DeviceLoop.staged, h.mutations]
  rfl

theorem plain {body : DeviceSendBody (payloads L)} (h : Quiet received s s')
    (hplain : s'.Plain body) : s.Plain body := by
  cases body with
  | setName name => exact h.name.symm.trans hplain
  | core message => exact hplain
  | debug | announce | disconnectDownstream | needName | legacyAckUpgradeMode | misc
  | legacySignedChallenge | genuineCheck => trivial

theorem trans (h : Quiet received s t) (h' : Quiet received t s') : Quiet received s s' where
  mutationLog := h'.mutationLog.trans h.mutationLog
  mutations := h'.mutations.trans h.mutations
  kept := h'.kept.trans h.kept
  name := h'.name.trans h.name
  loaded hloaded := h'.loaded (h.loaded hloaded)
  myDeviceId := h'.myDeviceId.trans h.myDeviceId
  waiting m hm := by
    rcases h'.waiting m hm with hm | hm | ⟨body, hm, hplain⟩
    · exact h.waiting m hm
    · exact .inr (.inl hm)
    · refine .inr (.inr ⟨body, ?_, h.plain hplain⟩)
      rw [hm, UpstreamConnection.own, h.myDeviceId]
      rfl
  outbox _ hm := h.outbox (h'.outbox hm)

theorem grows (h : Quiet received s s') : Grows s s' where
  log := h.mutationLog ▸ List.prefix_rfl
  staged m hm := by rwa [h.mutationLog, h.staged]

theorem inv (h : Quiet received s s') (hs : s.Inv boot received) :
    s'.Inv boot received where
  found := h.mutationLog ▸ hs.found
  kept := by rw [h.kept, h.mutationLog, h.staged, hs.kept]
  name := by rw [h.name, h.mutationLog, hs.name]
  loaded := h.loaded hs.loaded
  myDeviceId := h.myDeviceId.trans hs.myDeviceId
  waiting m hm := by
    refine Backed.mono ?_ h.grows
    rcases h.waiting m hm with hm | hm | ⟨body, rfl, hplain⟩
    · exact hs.waiting m hm
    · exact .inl hm
    · refine .inr ⟨body, by rw [UpstreamConnection.own, hs.myDeviceId], ?_⟩
      cases body with
      | core message => exact hplain.elim
      | setName name =>
          refine ⟨_, List.prefix_rfl, ?_⟩
          rw [← hs.name, show s.name = some name from hplain]
          rfl
      | debug | announce | disconnectDownstream | needName | legacyAckUpgradeMode | misc
      | legacySignedChallenge | genuineCheck => trivial

theorem outboxBacked (h : Quiet received s s') (hs : s.OutboxBacked boot) :
    s'.OutboxBacked boot := fun m hm => by
  rw [h.mutationLog, h.staged]
  exact hs m (h.outbox hm)

/-- Sending what says nothing. -/
theorem sendToCoordinator {bodies : List (DeviceSendBody (payloads L))}
    (hbodies : ∀ body ∈ bodies, s.Plain body) : Quiet received s (s.sendToCoordinator bodies) where
  mutationLog := rfl
  mutations := rfl
  kept := rfl
  name := rfl
  loaded := id
  myDeviceId := rfl
  waiting m hm := by
    rcases hm with hm | hm
    · rcases List.mem_append.1 hm with hm | hm
      · exact .inl (.inl hm)
      · obtain ⟨body, hbody, rfl⟩ := List.mem_map.1 hm
        exact .inr (.inr ⟨body, rfl, hbodies body hbody⟩)
    · exact .inl (.inr hm)
  outbox := List.Subset.refl _

theorem sendOne {body : DeviceSendBody (payloads L)} (hbody : s.Plain body) :
    Quiet received s (s.sendToCoordinator [body]) :=
  sendToCoordinator fun _ h => List.mem_singleton.1 h ▸ hbody

theorem sendDebug (s : DeviceLoop D S) (message : String) :
    Quiet received s (s.sendDebug message) := by
  rw [DeviceLoop.sendDebug, UpstreamConnection.sendDebug]
  split
  · exact sendOne trivial
  · exact refl s
  · exact refl s

/-- A change of state of the upstream connection. -/
theorem setState (state : UpstreamConnectionState) :
    Quiet received s
      { s with upstreamConnection := s.upstreamConnection.setState state } where
  mutationLog := rfl
  mutations := rfl
  kept := rfl
  name := rfl
  loaded := id
  myDeviceId := by cases state <;> rfl
  waiting m hm := by
    cases state with
    | powerOn => exact .inl (hm.imp_left fun h => (List.mem_filter.1 h).1)
    | established => exact .inl hm
    | establishedAndCoordAck => exact .inl hm
  outbox := List.Subset.refl _

end Quiet

/-! ### The connections -/

theorem resetSoftly_quiet (s : DeviceLoop D S) : Quiet received s s.resetSoftly := by
  rw [resetSoftly]
  split
  · have hstate := @Quiet.setState S L D received s .powerOn
    exact
      { mutationLog := rfl
        mutations := rfl
        kept := rfl
        name := rfl
        loaded := fun _ image backup h => absurd h (by rw [Signer.clearTmpData]; nofun)
        myDeviceId := hstate.myDeviceId
        waiting := hstate.waiting
        outbox := List.nil_subset _ }
  · exact .refl s

theorem disconnectDownstream_quiet (s : DeviceLoop D S) :
    Quiet received s s.disconnectDownstream :=
  (@Quiet.sendOne S L D received s .disconnectDownstream trivial).trans (.of_outline rfl)

/-- What the downstream port gives. -/
def messagesOf (items : List (Except String (ReceiveSerial (UpstreamMessage L)))) :
    List (UpstreamMessage L) :=
  items.filterMap fun
    | .ok (.message message) => some message
    | _ => none

theorem receiveDownstream_quiet
    {items : List (Except String (ReceiveSerial (UpstreamMessage L)))}
    (hreceived : messagesOf items ⊆ received) :
    Quiet received s (s.receiveDownstream items) := by
  induction s, items using receiveDownstream.induct with
  | case1 s => exact .refl s
  | case2 s rest ih =>
      exact ((Quiet.sendDebug s _).trans (disconnectDownstream_quiet _)).trans (ih hreceived)
  | case3 s message rest ih =>
      have hforward : Quiet received s
          { s with upstreamConnection := s.upstreamConnection.forwardToCoordinator message } :=
        { mutationLog := rfl
          mutations := rfl
          kept := rfl
          name := rfl
          loaded := id
          myDeviceId := rfl
          waiting := fun m hm => by
            rcases hm with hm | hm
            · rcases List.mem_append.1 hm with hm | hm
              · exact .inl (.inl hm)
              · rw [List.mem_singleton.1 hm]
                exact .inr (.inl (hreceived List.mem_cons_self))
            · exact .inl (.inr hm)
          outbox := List.Subset.refl _ }
      exact hforward.trans (ih fun m hm => hreceived (List.mem_cons_of_mem _ hm))
  | case4 s rest => exact disconnectDownstream_quiet s
  | case5 s received' rest hmagic hmessage hreset ih =>
      rw [receiveDownstream]
      · refine ih fun m hm => hreceived ?_
        obtain ⟨item, hitem, hsome⟩ := List.mem_filterMap.1 hm
        exact List.mem_filterMap.2 ⟨item, List.mem_cons_of_mem _ hitem, hsome⟩
      · exact hmagic
      · exact hmessage
      · exact hreset
  | case6 s e rest => exact (Quiet.sendDebug s _).trans (disconnectDownstream_quiet _)

theorem connectDownstream_quiet (s : DeviceLoop D S) (tick : Tick D) :
    Quiet received s (s.connectDownstream tick) := by
  have hwrites : Quiet received s
      (if s.nextWriteMagicBytesDownstreamMs < tick.nowMs then
        { s with nextWriteMagicBytesDownstreamMs := tick.nowMs + MAGIC_BYTES_PERIOD }
      else s) := by
    split
    · exact .of_outline rfl
    · exact .refl s
  rw [connectDownstream]
  split
  · exact .of_outline rfl
  · dsimp only
    generalize hwritten : (if s.nextWriteMagicBytesDownstreamMs < tick.nowMs then
        { s with nextWriteMagicBytesDownstreamMs := tick.nowMs + MAGIC_BYTES_PERIOD }
      else s) = written at hwrites ⊢
    split
    · have hestablished : Quiet received written
          { written with downstreamConnectionState := .established } := .of_outline rfl
      exact (hwrites.trans hestablished).trans (.sendDebug _ _)
    · exact hwrites
  · exact disconnectDownstream_quiet s
  · exact .of_outline rfl
  · exact .refl s
  · exact .refl s

theorem pollDownstream_quiet {tick : Tick D}
    (hreceived : messagesOf tick.downstreamReceived ⊆ received) :
    Quiet received s (s.pollDownstream tick) := by
  rw [pollDownstream]
  split
  · exact (connectDownstream_quiet s tick).trans (receiveDownstream_quiet hreceived)
  · exact connectDownstream_quiet s tick

/-- The device says what it is called, and that it is there. -/
theorem announce_quiet (s : DeviceLoop D S) (tick : Tick D) :
    Quiet received s (s.announce tick) where
  mutationLog := rfl
  mutations := rfl
  kept := rfl
  name := rfl
  loaded := id
  myDeviceId := rfl
  waiting m hm := by
    rcases hm with hm | hm
    · rcases List.mem_append.1 hm with hm | hm
      · exact .inl (.inl hm)
      · rw [List.map_singleton, List.mem_singleton] at hm
        refine .inr (.inr ⟨_, hm, ?_⟩)
        cases hname : s.name with
        | none => trivial
        | some name => exact hname
    · obtain rfl := Option.some.inj hm
      exact .inr (.inr ⟨.announce tick.firmwareDigest, rfl, trivial⟩)
  outbox := List.Subset.refl _

variable {H : Peripherals D} {tick : Tick D}

theorem receiveUpstream_quiet {last last' left : Bool} {sent : List DaisyChain.Message}
    {items : List (Except String
      (ReceiveSerial (CoordinatorSendMessage WireCoordinatorSendBody)))}
    (h : s.receiveUpstream H last items = .ret (s', sent, last', left)) :
    Quiet received s s' := by
  induction items generalizing s last sent last' left with
  | nil =>
      cases h
      exact .refl _
  | cons item rest ih =>
      cases item with
      | error e => cases h
      | ok item =>
          cases item with
          | message message =>
              rw [receiveUpstream] at h
              dsimp only at h
              split at h
              · cases h
                exact .of_outline rfl
              · obtain ⟨⟨t, sent', last'', left'⟩, hrest, h⟩ := Exec.bind_eq_ret_iff.1 h
                obtain rfl := (Prod.mk.inj (Exec.ret.inj h)).1
                refine Quiet.trans ?_ (ih hrest)
                exact .of_outline rfl
          | magicBytes => exact ih h
          | conch | reset | unused8 | unused7 | unused6 | unused5 | unused4 | unused3 | unused2
          | unused1 | unused0 => exact ih h

theorem countMagicBytes_quiet (s : DeviceLoop D S) : Quiet received s s.countMagicBytes := by
  rw [countMagicBytes]
  split
  · exact .of_outline rfl
  · split
    · exact (Quiet.setState .powerOn).trans (.of_outline rfl)
    · exact .of_outline rfl
  · split
    · exact (Quiet.setState .powerOn).trans (.of_outline rfl)
    · exact .of_outline rfl

theorem pollServices_quiet (s : DeviceLoop D S) (tick : Tick D) :
    Quiet received s (s.pollServices tick).1 := by
  have hacks : Quiet received s
      (if tick.acksUpgradeMode then s.sendToCoordinator [.misc .ackUpgradeMode] else s) := by
    split
    · exact .sendOne trivial
    · exact .refl s
  rw [pollServices]
  split
  · exact hacks.trans (.sendOne trivial)
  · exact hacks
  · exact hacks

theorem pollUpstream_quiet {sent : List DaisyChain.Message} {poll : Poll}
    (h : s.pollUpstream H tick = .ret (s', sent, poll)) : Quiet received s s' := by
  have hlistening : ∀ {t : DeviceLoop D S} {sent' : List DaisyChain.Message} {last left : Bool},
      s.receiveUpstream H false tick.upstreamReceived = .ret (t, sent', last, left) →
      Quiet received s ((if last then t.countMagicBytes else t).pollServices tick).1 := by
    intro t sent' last left hreceive
    have hcount : Quiet received t (if last then t.countMagicBytes else t) := by
      split
      · exact countMagicBytes_quiet t
      · exact .refl t
    exact ((receiveUpstream_quiet hreceive).trans hcount).trans (pollServices_quiet _ tick)
  rw [pollUpstream] at h
  split at h
  · cases h
    split
    · exact announce_quiet s tick
    · exact .refl s
  all_goals
    obtain ⟨⟨t, sent', last, left⟩, hreceive, h⟩ := Exec.bind_eq_ret_iff.1 h
    dsimp only at h
    split at h
    · cases h
      exact receiveUpstream_quiet hreceive
    · cases h
      exact hlistening hreceive

/-! ### What is written upstream -/

/-- A message that is taken from the queue was in it, and what is left was. -/
theorem dequeueMessage_waits {c c' : UpstreamConnection L} {message : Option (UpstreamMessage L)}
    (h : c.dequeueMessage = (message, c')) :
    (∀ m ∈ message, m ∈ c.messages ∨ c.announcement = some m) ∧
      c'.myDeviceId = c.myDeviceId ∧
      (∀ m, m ∈ c'.messages ∨ c'.announcement = some m →
        m ∈ c.messages ∨ c.announcement = some m) := by
  rw [UpstreamConnection.dequeueMessage] at h
  split at h
  · rename_i announcement hannouncement hstate
    cases h
    refine ⟨fun m hm => ?_, rfl, fun m hm => hm.imp_right nofun⟩
    exact .inr (hannouncement.trans hm)
  · rename_i announcement hannouncement hstate
    cases h
    refine ⟨fun m hm => ?_, rfl, fun m hm => hm.imp_right nofun⟩
    exact .inr (hannouncement.trans hm)
  · cases h
    refine ⟨fun m hm => .inl (List.mem_of_head? hm), rfl, fun m hm => ?_⟩
    exact hm.imp_left List.mem_of_mem_tail
  · cases h
    exact ⟨fun m hm => absurd hm (Option.not_mem_none m), rfl, fun m hm => hm⟩

theorem dequeueMessage_quiet {message : Option (UpstreamMessage L)}
    {connection : UpstreamConnection L}
    (h : s.upstreamConnection.dequeueMessage = (message, connection))
    (uiEvents : List (UiEvent D)) :
    Quiet received s { s with upstreamConnection := connection, uiEvents := uiEvents } := by
  obtain ⟨-, hid, hwaits⟩ := dequeueMessage_waits h
  exact
    { mutationLog := rfl
      mutations := rfl
      kept := rfl
      name := rfl
      loaded := id
      myDeviceId := hid
      waiting := fun m hm => .inl (hwaits m hm)
      outbox := List.Subset.refl _ }

/-! ### The genuine check -/

theorem sendFactoryAttestation_quiet (s : DeviceLoop D S) (tick : Tick D)
    (outcome : Except AttestError Genuine.DsSignature) :
    Quiet received s (s.sendFactoryAttestation tick outcome) := by
  unfold sendFactoryAttestation
  split
  · exact .sendOne trivial
  · exact .refl s

theorem pollAttestation_quiet (s : DeviceLoop D S) (tick : Tick D) :
    Quiet received s (s.pollAttestation tick) := by
  rw [pollAttestation]
  split
  · exact sendFactoryAttestation_quiet s tick _
  · exact .refl s
  · exact .refl s

theorem genuineCheck_quiet (s : DeviceLoop D S) (message : Genuine.CoordinatorMessage) :
    Quiet received s (s.genuineCheck H tick message) := by
  rw [genuineCheck]
  split
  · exact .refl s
  · dsimp only
    split
    · exact .refl s
    · exact .sendOne trivial

/-! ### The signer -/

/-- The signer has handled something: what it has staged is behind what was staged before. -/
theorem staged_of_stages {signer : Signer D S} {ms : List (Mutation D.Cipher D.Backup)}
    (h : Stages s.signer signer ms) (outbox : List (DeviceSend D)) :
    ({ s with signer := signer, outbox := outbox } : DeviceLoop D S).staged =
      s.staged ++ ms.map .core := by
  rw [staged, staged, ← List.map_append, ← h.mutations]

theorem grows_of_stages {signer : Signer D S} {ms : List (Mutation D.Cipher D.Backup)}
    (h : Stages s.signer signer ms) (outbox : List (DeviceSend D)) :
    Grows s { s with signer := signer, outbox := outbox } where
  log := List.prefix_rfl
  staged m hm := by
    rw [staged_of_stages h, ← List.append_assoc]
    exact List.mem_append_left _ hm

theorem Inv.of_stages {signer : Signer D S} {ms : List (Mutation D.Cipher D.Backup)}
    (hs : s.Inv boot received) (h : Stages s.signer signer ms)
    (hloaded : signer.LoadedByImage) (outbox : List (DeviceSend D)) :
    ({ s with signer := signer, outbox := outbox } : DeviceLoop D S).Inv boot
      received where
  found := hs.found
  kept := by
    rw [staged_of_stages h, ← List.append_assoc, Boot.memory_append_core_kept, ← hs.kept]
    exact h.kept
  name := hs.name
  loaded := hloaded
  myDeviceId := hs.myDeviceId
  waiting m hm := (hs.waiting m hm).mono (grows_of_stages h outbox)

/-- What is so of what is kept is backed by the log and what is staged. -/
theorem Inv.backs (hs : s.Inv boot received)
    {m : Coordinator.DeviceToCoordinatorMessage L} (hm : Acknowledges s.signer.kept m) :
    Backs boot (s.mutationLog.pushed ++ s.staged) m :=
  ⟨_, List.prefix_rfl, hs.kept ▸ hm⟩

/-- Before the outbox is gone through: nothing is written, and what is put into the outbox is
backed. -/
structure Advances (boot : Boot D S) (received : List (UpstreamMessage L))
    (s s' : DeviceLoop D S) : Prop where
  inv : s'.Inv boot received
  outbox : s'.OutboxBacked boot
  log : s'.mutationLog = s.mutationLog
  staged : s.staged <+: s'.staged

theorem Advances.trans (h : Advances boot received s t)
    (h' : Advances boot received t s') : Advances boot received s s' :=
  ⟨h'.inv, h'.outbox, h'.log.trans h.log, h.staged.trans h'.staged⟩

theorem Quiet.advances (h : Quiet received s s') (hs : s.Inv boot received)
    (hout : s.OutboxBacked boot) : Advances boot received s s' :=
  ⟨h.inv hs, h.outboxBacked hout, h.mutationLog, h.staged ▸ List.prefix_rfl⟩

/-- What the signer sends is put into the outbox. -/
theorem advances_of_handled {signer : Signer D S} {sends : List (DeviceSend D)}
    (hs : s.Inv boot received) (hout : s.OutboxBacked boot)
    (h : Handled s.signer signer sends) :
    Advances boot received s
      { s with signer := signer, outbox := s.outbox ++ sends } := by
  obtain ⟨ms, hms⟩ := h.stages
  have hinv := hs.of_stages hms h.loaded (s.outbox ++ sends)
  refine ⟨hinv, fun m hm => ?_, rfl, ?_⟩
  · rcases List.mem_append.1 hm with hm | hm
    · refine (hout m hm).mono ?_
      rw [staged_of_stages hms, ← List.append_assoc]
      exact List.prefix_append _ _
    · exact hinv.backs (h.acknowledges m hm)
  · rw [staged_of_stages hms]
    exact List.prefix_append _ _

section Messages

variable [NonceStreamSlot S SeedMaterial SignatureShare]

/-- **One message.** -/
theorem processMessage_advances {i : ℕ} {message : CoordinatorSendBody (payloads L)}
    (hs : s.Inv boot received) (hout : s.OutboxBacked boot)
    (h : s.processMessage tick i message = .ret s') :
    Advances boot received s s' := by
  cases message with
  | core coreMessage =>
      obtain ⟨⟨answer, signer⟩, hrecv, h⟩ := Exec.bind_eq_ret_iff.1 h
      cases answer with
      | error e => cases h
      | ok sends =>
          cases h
          exact advances_of_handled hs hout (Signer.recvCoordinatorMessage_handled hs.loaded hrecv)
  | cancel =>
      cases h
      refine Quiet.advances ?_ hs hout
      exact
        { mutationLog := rfl
          mutations := rfl
          kept := rfl
          name := rfl
          loaded := fun _ image backup h => absurd h (by rw [Signer.clearTmpData]; nofun)
          myDeviceId := rfl
          waiting := fun _ => .inl
          outbox := List.Subset.refl _ }
  | announceAck =>
      cases h
      exact (Quiet.setState .establishedAndCoordAck).advances hs hout
  | naming command =>
      cases command with
      | preview name =>
          cases h
          exact Quiet.advances (.of_outline rfl) hs hout
      | prompt name =>
          cases h
          exact (Quiet.refl s).advances hs hout
  | upgrade | dataErase | legacyChallenge | genuineCheck =>
      cases h
      exact (Quiet.refl s).advances hs hout

/-- **All messages.** -/
theorem processMessages_advances {i : ℕ} {messages : List (CoordinatorSendBody (payloads L))}
    (hs : s.Inv boot received) (hout : s.OutboxBacked boot)
    (h : s.processMessages tick i messages = .ret s') :
    Advances boot received s s' := by
  induction messages generalizing s i with
  | nil =>
      cases h
      exact (Quiet.refl _).advances hs hout
  | cons message rest ih =>
      obtain ⟨t, hmessage, hrest⟩ := Exec.bind_eq_ret_iff.1 h
      have hstep := processMessage_advances hs hout hmessage
      exact hstep.trans (ih hstep.inv hstep.outbox hrest)

end Messages

/-! ### The log -/

theorem append_eq_ret {msg : String} {ms : List (LogMutation D.Cipher D.Backup)}
    (h : s.append H msg ms = .ret s') : s' = { s with mutationLog := s.mutationLog.append ms } := by
  induction ms generalizing s with
  | nil =>
      cases h
      rfl
  | cons m ms ih =>
      obtain ⟨t, hpush, hrest⟩ := Exec.bind_eq_ret_iff.1 h
      obtain rfl := push_eq_ret hpush
      exact ih hrest

/-- **Everything that is staged is written.** -/
theorem appendStaged_spec (hs : s.Inv boot received)
    (hout : s.OutboxBacked boot) (h : s.appendStaged H tick = .ret s') :
    s'.Inv boot received ∧ s'.OutboxBacked boot ∧
      s'.mutationLog.pushed = s.mutationLog.pushed ++ s.staged ∧ s'.staged = [] := by
  rw [appendStaged] at h
  split at h
  · rename_i hempty
    cases h
    have hstaged : s.staged = [] := by rw [staged, List.isEmpty_iff.1 hempty, List.map_nil]
    exact ⟨hs, hout, by rw [hstaged, List.append_nil], hstaged⟩
  · obtain ⟨t, happend, h⟩ := Exec.bind_eq_ret_iff.1 h
    obtain rfl := append_eq_ret happend
    cases h
    obtain ⟨hfound, hpushed⟩ := s.mutationLog.append_eq s.staged
    set written : DeviceLoop D S :=
      { s with
        signer := { s.signer with mutations := [] }
        mutationLog := s.mutationLog.append s.staged } with hwritten
    have hlog : written.mutationLog.pushed = s.mutationLog.pushed ++ s.staged := hpushed
    have hdebug := @Quiet.sendDebug S L D received written
      ("core mutations took " ++ toString tick.elapsedMs ++ "ms")
    have hgrows : Grows s written :=
      ⟨hlog ▸ List.prefix_append _ _, fun m hm => List.mem_append_left _ (hlog ▸ hm)⟩
    have hinv : written.Inv boot received :=
      { found := hfound.trans hs.found
        kept := hs.kept.trans (by
          rw [hlog, staged, staged, hwritten, List.map_nil, List.append_nil])
        name := hs.name.trans (by
          rw [hlog, staged, Boot.memory_append_core_name])
        loaded := hs.loaded
        myDeviceId := hs.myDeviceId
        waiting := fun m hm => (hs.waiting m hm).mono hgrows }
    refine ⟨hdebug.inv hinv, hdebug.outboxBacked fun m hm => ?_, ?_, hdebug.staged⟩
    · refine (hout m hm).mono ?_
      rw [hlog]
      exact List.prefix_append _ _
    · exact (congrArg StoredLog.pushed hdebug.mutationLog).trans hlog

/-- The nonces that are done are sent. -/
theorem pollNonceBatch_spec (hs : s.Inv boot received)
    (hout : s.OutboxBacked boot) (h : s.pollNonceBatch H = .ret s') :
    Advances boot received s s' ∧ s'.staged = s.staged := by
  rw [pollNonceBatch] at h
  split at h
  · cases h
    exact ⟨(Quiet.refl s).advances hs hout, rfl⟩
  · dsimp only at h
    split at h
    · obtain ⟨segments, -, h⟩ := Exec.bind_eq_ret_iff.1 h
      cases h
      have hhandled : Handled s.signer s.signer
          [.toCoordinator (.signing (.nonceResponse segments))] :=
        .of_same rfl rfl hs.loaded fun _ => forall_toCoordinator_singleton trivial
      have hsend := advances_of_handled hs hout hhandled
      exact ⟨hsend.trans (Quiet.advances (.of_outline rfl) hsend.inv hsend.outbox), rfl⟩
    · cases h
      exact ⟨Quiet.advances (.of_outline rfl) hs hout, rfl⟩

/-! ### The outbox -/

/-- While the outbox is gone through, what is said is backed by the log. -/
structure Sending (boot : Boot D S) (received : List (UpstreamMessage L))
    (s s' : DeviceLoop D S) : Prop where
  inv : s'.Inv boot received
  outbox : s'.OutboxAcknowledged boot
  grows : Grows s s'

theorem Sending.trans (h : Sending boot received s t)
    (h' : Sending boot received t s') : Sending boot received s s' :=
  ⟨h'.inv, h'.outbox, h.grows.trans h'.grows⟩

theorem Quiet.sending (h : Quiet received s s') (hs : s.Inv boot received)
    (hout : s.OutboxAcknowledged boot) : Sending boot received s s' :=
  ⟨h.inv hs, fun m hm => (hout m (h.outbox hm)).mono h.grows.log h.grows.staged, h.grows⟩

/-- A message that is backed may be sent. -/
theorem inv_sendToCoordinator {body : DeviceSendBody (payloads L)}
    (hs : s.Inv boot received)
    (hbody : Acknowledged boot s.mutationLog.pushed s.staged body) :
    (s.sendToCoordinator [body]).Inv boot received where
  found := hs.found
  kept := hs.kept
  name := hs.name
  loaded := hs.loaded
  myDeviceId := hs.myDeviceId
  waiting m hm := by
    rcases hm with hm | hm
    · rcases List.mem_append.1 hm with hm | hm
      · exact hs.waiting m (.inl hm)
      · rw [List.map_singleton, List.mem_singleton] at hm
        refine .inr ⟨body, ?_, hbody⟩
        rw [hm, UpstreamConnection.own, hs.myDeviceId]
    · exact hs.waiting m (.inr hm)

/-- **A name is in the log before it is sent.** -/
theorem savePendingDeviceName_sending {named : Bool} (hs : s.Inv boot received)
    (hout : s.OutboxAcknowledged boot)
    (h : s.savePendingDeviceName H = .ret (named, s')) :
    Sending boot received s s' := by
  obtain ⟨-, -, rfl⟩ | ⟨newName, -, -, rfl⟩ := savePendingDeviceName_eq_ret h
  · exact (Quiet.refl _).sending hs hout
  · have hgrows : Grows s
        { s with
          pendingDeviceName := none
          name := some newName
          mutationLog := s.mutationLog.push (.name newName.inner) } :=
      { log := List.prefix_append _ _
        staged := fun m hm => by
          rcases List.mem_append.1 hm with hm | hm
          · exact List.mem_append_left _ (List.mem_append_left _ hm)
          · exact List.mem_append_right _ hm }
    have hname : (boot.memory
        (s.mutationLog.pushed ++ [LogMutation.name newName.inner])).2 = some newName.inner := by
      rw [Boot.memory_append]
      exact congrArg some (if_neg (Nat.not_lt.2 newName.short))
    refine ⟨inv_sendToCoordinator ?_ ⟨_, List.prefix_rfl, hname⟩, fun m hm => ?_,
      hgrows.log, hgrows.staged⟩
    · exact
        { found := hs.found
          kept := hs.kept.trans (by
            show _ = (boot.memory
              (s.mutationLog.pushed ++ [LogMutation.name newName.inner] ++ s.staged)).1.kept
            rw [List.append_assoc, List.singleton_append, Boot.memory_name_kept])
          name := hname.symm
          loaded := hs.loaded
          myDeviceId := hs.myDeviceId
          waiting := fun m hm => (hs.waiting m hm).mono hgrows }
    · exact (hout m hm).mono hgrows.log hgrows.staged

/-- A finished consolidation is put into the outbox once its share is staged. -/
theorem sending_of_finished {signer : Signer D S} {sends : List (DeviceSend D)}
    (hs : s.Inv boot received) (hout : s.OutboxAcknowledged boot)
    (h : Handled s.signer signer sends)
    (hsends : ∀ m, .toCoordinator m ∈ sends →
      ∃ ref index, m = .restoration (.finishedConsolidation ref index)) :
    Sending boot received s
      { s with signer := signer, outbox := s.outbox ++ sends } := by
  obtain ⟨ms, hms⟩ := h.stages
  have hinv := hs.of_stages hms h.loaded (s.outbox ++ sends)
  have hgrows := grows_of_stages hms (s.outbox ++ sends)
  refine ⟨hinv, fun m hm => ?_, hgrows⟩
  rcases List.mem_append.1 hm with hm | hm
  · exact (hout m hm).mono hgrows.log hgrows.staged
  · have hshare := hinv.backs (h.acknowledges m hm)
    obtain ⟨ref, index, rfl⟩ := hsends m hm
    obtain ⟨before, hbefore, hshare⟩ := hshare
    exact exists_saveShare hshare fun m hm => hbefore.subset hm

/-- **One send.** -/
theorem handleSend_sending {rng : L.Rng} {send : DeviceSend D}
    (hs : s.Inv boot received) (hout : s.OutboxAcknowledged boot)
    (hsend : ∀ m, send = .toCoordinator m →
      Acknowledged boot s.mutationLog.pushed s.staged (.core m))
    (h : s.handleSend H rng send = .ret s') : Sending boot received s s' := by
  cases send with
  | toCoordinator message =>
      cases h
      exact ⟨inv_sendToCoordinator hs (hsend message rfl), hout, List.prefix_rfl, fun _ => id⟩
  | toUser message =>
      cases message with
      | finalizeKeyGen keyName =>
          obtain ⟨⟨named, t⟩, hsave, h⟩ := Exec.bind_eq_ret_iff.1 h
          obtain ⟨-, -, h⟩ := Exec.bind_eq_ret_iff.1 h
          cases h
          exact savePendingDeviceName_sending hs hout hsave
      | nonceJobs batch =>
          cases h
          exact Quiet.sending (.of_outline rfl) hs hout
      | checkKeyGen phase =>
          cases h
          exact (Quiet.refl s).sending hs hout
      | signatureRequest phase =>
          cases h
          exact (Quiet.refl s).sending hs hout
      | verifyAddress address bip32Path =>
          cases h
          exact (Quiet.refl s).sending hs hout
      | restoration message =>
          cases message with
          | enterBackup phase =>
              cases h
              exact (Quiet.refl s).sending hs hout
          | backupSaved image keyName purpose threshold =>
              obtain ⟨⟨named, t⟩, hsave, h⟩ := Exec.bind_eq_ret_iff.1 h
              obtain ⟨-, -, h⟩ := Exec.bind_eq_ret_iff.1 h
              cases h
              exact savePendingDeviceName_sending hs hout hsave
          | displayBackup keyName ref phase =>
              rw [handleSend] at h
              split at h
              · cases h
              · cases h
                exact (Quiet.refl _).sending hs hout
          | checkBackup keyName ref phase =>
              rw [handleSend] at h
              split at h
              · cases h
              · cases h
                exact (Quiet.refl _).sending hs hout
          | consolidateBackup phase =>
              obtain ⟨⟨named, t⟩, hsave, h⟩ := Exec.bind_eq_ret_iff.1 h
              cases h
              have hhandled := Signer.finishConsolidation_handled hs.loaded H.symmKeygen phase rng
              have hmid := sending_of_finished hs hout hhandled
                (forall_toCoordinator_singleton ⟨_, _, rfl⟩)
              exact hmid.trans (savePendingDeviceName_sending hmid.inv hmid.outbox hsave)

theorem Inv.of_outbox (hs : s.Inv boot received) (outbox : List (DeviceSend D)) :
    ({ s with outbox := outbox } : DeviceLoop D S).Inv boot received :=
  ⟨hs.found, hs.kept, hs.name, hs.loaded, hs.myDeviceId, hs.waiting⟩

/-- **The whole outbox.** -/
theorem handleOutbox_sending {i : ℕ} (hs : s.Inv boot received)
    (hout : s.OutboxAcknowledged boot) (h : s.handleOutbox H tick i = .ret s') :
    Sending boot received s s' ∧ s'.outbox = [] := by
  induction s, i using handleOutbox.induct H tick with
  | case1 s i hnil =>
      rw [handleOutbox_nil hnil] at h
      cases h
      exact ⟨(Quiet.refl _).sending hs hout, hnil⟩
  | case2 s i send rest hcons msg hsend =>
      rw [handleOutbox_cons hcons, hsend] at h
      cases h
  | case3 s i send rest hcons t hsend hwork ih =>
      rw [handleOutbox_cons hcons, hsend] at h
      have hrest : Sending boot received s { s with outbox := rest } :=
        ⟨hs.of_outbox rest, fun m hm => hout m (hcons ▸ List.mem_cons_of_mem _ hm),
          List.prefix_rfl, fun _ => id⟩
      have hone := handleSend_sending hrest.inv hrest.outbox
        (fun m hm => hout m (hcons ▸ hm ▸ List.mem_cons_self)) hsend
      obtain ⟨hall, hnil⟩ := ih hone.inv hone.outbox h
      exact ⟨(hrest.trans hone).trans hall, hnil⟩

/-! ### What an iteration does -/

/-- What an iteration does: what it writes upstream is backed by the log as it was before. -/
structure Polled (boot : Boot D S) (received : List (UpstreamMessage L))
    (s : DeviceLoop D S) (tick : Tick D) (poll : Poll) (sent : Sent L) (s' : DeviceLoop D S) :
    Prop where
  inv : s'.Inv boot received
  outbox : s'.OutboxBacked boot
  upstream : ∀ m ∈ sent.upstream, s.Backed boot received m
  staged : poll = .continue → tick.normalMode = true →
    s.mutationLog.pushed ++ s.staged <+: s'.mutationLog.pushed

/-- The device leaves the loop and writes nothing. -/
theorem polled_of_left {poll : Poll} {downstream : List DaisyChain.Message} {t : DeviceLoop D S}
    (hs : s.Inv boot received) (hout : s.OutboxBacked boot)
    (h : Quiet received s t) (hpoll : poll ≠ .continue) :
    Polled boot received s tick poll { upstream := none, downstream := downstream } t :=
  ⟨h.inv hs, h.outboxBacked hout, fun m hm => absurd hm (Option.not_mem_none m),
    fun hcontinue => absurd hcontinue hpoll⟩

/-! ### The start -/

/-- What was received from downstream in a run. -/
def receivedIn (ticks : List (Tick D)) : List (UpstreamMessage L) :=
  ticks.flatMap fun tick => messagesOf tick.downstreamReceived

theorem receivedIn_snoc (ticks : List (Tick D)) (tick : Tick D) :
    receivedIn (ticks ++ [tick]) = receivedIn ticks ++ messagesOf tick.downstreamReceived := by
  rw [receivedIn, List.flatMap_append, List.flatMap_singleton]
  rfl

theorem Inv.of_received {received' : List (UpstreamMessage L)}
    (hs : s.Inv boot received) (hsub : received ⊆ received') :
    s.Inv boot received' :=
  { hs with waiting := fun m hm => (hs.waiting m hm).imp_left fun h => hsub h }

/-- A device that has just started. -/
theorem inv_new {signer : Signer D S} {name : Option DeviceName}
    (hsigner : signer.toFrostSigner = (boot.restart []).1) (hid : signer.deviceId = boot.deviceId)
    (hname : name.map DeviceName.inner = (boot.restart []).2) :
    (DeviceLoop.new signer name boot.found).Inv boot [] := by
  have hmemory : boot.restart [] = boot.memory [] := by
    rw [Boot.memory, List.append_nil]
    rfl
  have hfresh : (boot.memory []).1.mutations = [] ∧
      (boot.memory []).1.restoration.tmpLoadedBackups = ∅ := inMemory_fresh _ _ _
  rw [hmemory] at hsigner hname
  rw [← hsigner] at hfresh
  have hstaged : (DeviceLoop.new signer name boot.found).staged = [] :=
    congrArg (List.map LogMutation.core) hfresh.1
  exact
    { found := rfl
      kept := by
        rw [hstaged, List.append_nil]
        exact congrArg FrostSigner.kept hsigner
      name := hname
      loaded := fun image backup h => by
        change signer.restoration.tmpLoadedBackups[image]? = some backup at h
        rw [hfresh.2] at h
        cases h
      myDeviceId := hid
      waiting := fun m hm => by
        rcases hm with hm | hm
        · exact absurd hm List.not_mem_nil
        · cases hm }

/-- What the device would start with again is what its log holds. -/
theorem Inv.restart_eq (hs : s.Inv boot received) :
    boot.restart s.mutationLog.pushed =
      s.mutationLog.contents.restart boot.deviceId boot.nonceSlots := by
  rw [Boot.restart, ← hs.found, ← s.mutationLog.contents_eq]

/-- **A restart** of a device that has written what it had staged, over flash: it comes up with the
name, the keys and the access structures in memory, and with the last share or backup it saved. -/
theorem Inv.restarts {C : Codec (LogMutation D.Cipher D.Backup)}
    {C' : Codec (ShareSlot D.Cipher D.Backup)} {f : Flash} {fresh started log : MutationLog}
    {ms : List (LogMutation D.Cipher D.Backup)}
    (hs : s.Inv boot received) (hstaged : s.staged = [])
    (hholds : MutationLog.Holds C C' f started ms) (hplace : fresh.SamePlace started)
    (hfound : LogContents.empty.append ms = boot.found)
    (henc : ∀ m ∈ s.mutationLog.pushed, MutationLog.Encodable C C' m)
    (hpushed : (started.append C C' s.mutationLog.pushed f).result = .ret (.ok log))
    (hroom : (log.log.wordPos + 1) * writeSize ≤ log.log.flash.size) :
    ∃ restarted : FrostSigner S D.Cipher D.Backup × Option String,
      bootSigner C C' fresh boot.deviceId boot.nonceSlots
          ((started.append C C' s.mutationLog.pushed).after f) =
        some (.ret (restarted.1, restarted.2, log)) ∧
      RestartEquivalence (s.signer.toFrostSigner, s.name.map DeviceName.inner) restarted
        (LogMutation.lastShare (boot.found.items ++ s.mutationLog.pushed)) := by
  have hsame := MutationLog.append_samePlace hpushed
  refine ⟨_, bootSigner_of_holds boot.deviceId boot.nonceSlots (hholds.append henc hpushed)
    ⟨hplace.1.trans hsame.1, hplace.2.trans hsame.2⟩ hroom, ?_⟩
  rw [LogContents.append_append, hfound]
  have hrestart := boot.found.restartEquivalence_append boot.deviceId boot.nonceSlots
    s.mutationLog.pushed
  have hkept := hs.kept
  rw [hstaged, List.append_nil] at hkept
  have hkeys : s.signer.keys = (boot.memory s.mutationLog.pushed).1.keys :=
    congrArg Kept.keys hkept
  have hbackups : s.signer.restoration.savedBackups =
      (boot.memory s.mutationLog.pushed).1.restoration.savedBackups :=
    congrArg Kept.savedBackups hkept
  exact
    { keys := hrestart.keys.trans (congrArg Keys.bare hkeys.symm)
      name := hrestart.name.trans hs.name.symm
      share := by
        intro ref index share
        show _ ↔ HoldsShare s.signer.keys _ ref index share
        rw [hkeys]
        exact hrestart.share ref index share
      backup := hrestart.backup
      backup_in_memory := by
        intro image savedBackup h
        show s.signer.restoration.savedBackups[image]? = some savedBackup
        rw [hbackups]
        exact hrestart.backup_in_memory image savedBackup h }

variable [NonceStreamSlot S SeedMaterial SignatureShare]

/-! ### What the user has done -/

/-- **One event.** -/
theorem handleUiEvent_advances {rng : L.Rng} {event : UiEvent D}
    (hs : s.Inv boot received) (hout : s.OutboxBacked boot)
    (h : s.handleUiEvent H rng event = .ret s') : Advances boot received s s' := by
  cases event with
  | keyGenConfirm phase =>
      obtain ⟨⟨ack, signer⟩, hack, h⟩ := Exec.bind_eq_ret_iff.1 h
      cases ack with
      | error e => cases h
      | ok ack =>
          cases h
          exact advances_of_handled hs hout (Signer.keygenAck_handled hs.loaded hack)
  | signingConfirm phase =>
      obtain ⟨⟨sends, signer⟩, hack, h⟩ := Exec.bind_eq_ret_iff.1 h
      cases sends with
      | error e => cases h
      | ok sends =>
          cases h
          exact advances_of_handled hs hout (Signer.signAck_handled hs.loaded hack)
  | enteredShareBackup phase shareBackup =>
      cases h
      exact advances_of_handled hs hout
        (Signer.tellCoordinatorAboutBackupLoadResult_handled hs.loaded phase shareBackup)
  | backupRecorded =>
      cases h
      exact Quiet.advances (.sendOne trivial) hs hout
  | backupChecked ref index =>
      cases h
      exact Quiet.advances (.sendOne trivial) hs hout
  | upgradeConfirm =>
      cases h
      exact (Quiet.refl s).advances hs hout
  | eraseDataConfirm =>
      cases h
      exact Quiet.advances (.of_outline rfl) hs hout

/-- **All events.** -/
theorem handleUiEvents_advances {i : ℕ} {events : List (UiEvent D)}
    (hs : s.Inv boot received) (hout : s.OutboxBacked boot)
    (h : s.handleUiEvents H tick i events = .ret s') :
    Advances boot received s s' := by
  induction events generalizing s i with
  | nil =>
      cases h
      exact (Quiet.refl _).advances hs hout
  | cons event rest ih =>
      obtain ⟨t, hevent, hrest⟩ := Exec.bind_eq_ret_iff.1 h
      have hstep := handleUiEvent_advances hs hout hevent
      exact hstep.trans (ih hstep.inv hstep.outbox hrest)

/-! ### An iteration -/

/-- **The rest of an iteration** writes everything that was staged before it. -/
theorem pollNormal_spec (hs : s.Inv boot received)
    (hout : s.OutboxBacked boot) (h : s.pollNormal H tick = .ret s') :
    s'.Inv boot received ∧ s'.OutboxBacked boot ∧
      s.mutationLog.pushed ++ s.staged <+: s'.mutationLog.pushed := by
  obtain ⟨s₁, hmessages, h⟩ := Exec.bind_eq_ret_iff.1 h
  obtain ⟨s₂, happend, h⟩ := Exec.bind_eq_ret_iff.1 h
  obtain ⟨s₃, hbatch, h⟩ := Exec.bind_eq_ret_iff.1 h
  obtain ⟨s₄, houtbox, h⟩ := Exec.bind_eq_ret_iff.1 h
  obtain ⟨s₅, hevents, h⟩ := Exec.bind_eq_ret_iff.1 h
  have hdrain : Advances boot received s { s with inbox := [] } :=
    Quiet.advances (.of_outline rfl) hs hout
  have h₁ := hdrain.trans (processMessages_advances hdrain.inv hdrain.outbox hmessages)
  obtain ⟨hinv₂, hout₂, hlog₂, hstaged₂⟩ := appendStaged_spec h₁.inv h₁.outbox happend
  obtain ⟨h₃, hstaged₃⟩ := pollNonceBatch_spec hinv₂ hout₂ hbatch
  -- nothing is staged any more, so that the log alone backs what is in the outbox
  have hacknowledged : s₃.OutboxAcknowledged boot := fun m hm => by
    have hbacks := h₃.outbox m hm
    rw [hstaged₃, hstaged₂, List.append_nil] at hbacks
    exact hbacks.acknowledged
  obtain ⟨h₄, hnil⟩ := handleOutbox_sending h₃.inv hacknowledged houtbox
  have hout₄ : s₄.OutboxBacked boot := fun m hm => by
    rw [hnil] at hm
    exact absurd hm List.not_mem_nil
  have hdrained : Advances boot received s₄ { s₄ with uiEvents := [] } :=
    Quiet.advances (.of_outline rfl) h₄.inv hout₄
  have h₅ := hdrained.trans (handleUiEvents_advances hdrained.inv hdrained.outbox hevents)
  have hlog : s.mutationLog.pushed ++ s.staged <+: s₅.mutationLog.pushed := by
    rw [h₅.log]
    refine List.IsPrefix.trans ?_ h₄.grows.log
    rw [h₃.log, hlog₂, h₁.log]
    exact (List.prefix_append_right_inj _).2 h₁.staged
  split at h
  · cases h
    exact ⟨h₅.inv, h₅.outbox, hlog⟩
  · rename_i message _
    cases h
    have hcheck : Quiet received s₅ (s₅.genuineCheck H tick message) := genuineCheck_quiet s₅ _
    exact ⟨hcheck.inv h₅.inv, hcheck.outboxBacked h₅.outbox, hcheck.mutationLog ▸ hlog⟩

/-- **One iteration.** -/
theorem poll_spec {poll : Poll} {sent : Sent L} (hs : s.Inv boot received)
    (hout : s.OutboxBacked boot)
    (hreceived : messagesOf tick.downstreamReceived ⊆ received)
    (h : s.poll H tick = .ret (poll, sent, s')) :
    Polled boot received s tick poll sent s' := by
  obtain ⟨⟨s₁, downstream, poll₁⟩, hupstream, h⟩ := Exec.bind_eq_ret_iff.1 h
  have h₁ : Quiet received s s₁ :=
    ((resetSoftly_quiet s).trans (pollDownstream_quiet hreceived)).trans
      (pollUpstream_quiet hupstream)
  dsimp only at h
  split at h
  · cases h
    exact polled_of_left hs hout h₁ Poll.noConfusion
  · cases h
    exact polled_of_left hs hout h₁ Poll.noConfusion
  · generalize hdequeue : s₁.upstreamConnection.dequeueMessage = dequeued at h
    obtain ⟨message, connection⟩ := dequeued
    have h₂ := h₁.trans ((dequeueMessage_quiet hdequeue
      (s₁.uiEvents ++ tick.uiEvent.toList)).trans (pollAttestation_quiet _ tick))
    have hwritten : ∀ m ∈ message, s.Backed boot received m := fun m hm => by
      have hbacked := (h₁.inv hs).waiting m ((dequeueMessage_waits hdequeue).1 m hm)
      rw [Backed, h₁.mutationLog, h₁.staged] at hbacked
      exact hbacked
    split at h
    · obtain ⟨t, hnormal, h⟩ := Exec.bind_eq_ret_iff.1 h
      cases h
      obtain ⟨hinv, hout', hlog⟩ := pollNormal_spec (h₂.inv hs) (h₂.outboxBacked hout) hnormal
      rw [h₂.mutationLog, h₂.staged] at hlog
      exact ⟨hinv, hout', hwritten, fun _ _ => hlog⟩
    · rename_i hmode
      cases h
      exact ⟨h₂.inv hs, h₂.outboxBacked hout, hwritten, fun _ hnormal => absurd hnormal hmode⟩

/-! ### Runs -/

/-- An iteration that the loop goes on after. -/
def Iterates (H : Peripherals D) (s : DeviceLoop D S) (tick : Tick D) (s' : DeviceLoop D S) :
    Prop :=
  ∃ sent, s.poll H tick = .ret (.continue, sent, s')

/-- An iteration after a run. -/
theorem polled_snoc {ticks : List (Tick D)} {poll : Poll} {sent : Sent L}
    (hs : s.Inv boot (receivedIn ticks)) (hout : s.OutboxBacked boot)
    (hpoll : s.poll H tick = .ret (poll, sent, s')) :
    Polled boot (receivedIn (ticks ++ [tick])) s tick poll sent s' := by
  rw [receivedIn_snoc]
  exact poll_spec (hs.of_received (List.subset_append_left _ _)) hout
    (List.subset_append_right _ _) hpoll

/-- **Every run** keeps the invariant. -/
theorem Replays.inv {s₀ : DeviceLoop D S} {ticks : List (Tick D)}
    (hs₀ : s₀.Inv boot []) (hout₀ : s₀.OutboxBacked boot)
    (h : Replays (Iterates H) s₀ ticks s) :
    s.Inv boot (receivedIn ticks) ∧ s.OutboxBacked boot := by
  induction h with
  | nil => exact ⟨hs₀, hout₀⟩
  | snoc h hstep ih =>
      obtain ⟨sent, hpoll⟩ := hstep
      have hpolled := polled_snoc ih.1 ih.2 hpoll
      exact ⟨hpolled.inv, hpolled.outbox⟩

/-- **Written ahead.** In every run of a device from a start, whatever its ports receive and its
user does: a message that an iteration writes upstream was received from downstream, or it is one
of the device, and what it says of its keys, its backups and its name was so in memory by what was
written to the log already; only the share of a finished consolidation may still be staged. An
iteration that the loop goes on after, with no attestation in flight, writes what was staged before
it. What the device has in memory is what it started with, changed by what was written since and is
staged. Each share and each backup that it had in memory by what was written was once what a start
would have found, and a start finds the last of them. -/
theorem writes_ahead {signer : Signer D S} {name : Option DeviceName} {ticks : List (Tick D)}
    {poll : Poll} {sent : Sent L} (hsigner : signer.toFrostSigner = (boot.restart []).1)
    (hid : signer.deviceId = boot.deviceId)
    (hname : name.map DeviceName.inner = (boot.restart []).2)
    (hrun : Replays (Iterates H) (DeviceLoop.new signer name boot.found) ticks s)
    (hpoll : s.poll H tick = .ret (poll, sent, s')) :
    (∀ m ∈ sent.upstream, m ∈ receivedIn (ticks ++ [tick]) ∨
      ∃ body, m = { from_ := boot.deviceId, body := .ok body } ∧
        Acknowledged boot s.mutationLog.pushed s.staged body) ∧
    (poll = .continue → tick.normalMode = true →
      s.mutationLog.pushed ++ s.staged <+: s'.mutationLog.pushed) ∧
    s'.signer.kept = (boot.memory (s'.mutationLog.pushed ++ s'.staged)).1.kept ∧
    s'.name.map DeviceName.inner = (boot.memory s'.mutationLog.pushed).2 ∧
    (∀ before, before <+: s'.mutationLog.pushed → boot.OnceStored before) ∧
    RestartEquivalence (boot.memory s'.mutationLog.pushed)
      (s'.mutationLog.contents.restart boot.deviceId boot.nonceSlots)
      (LogMutation.lastShare (boot.found.items ++ s'.mutationLog.pushed)) := by
  have hout₀ : (DeviceLoop.new signer name boot.found).OutboxBacked boot :=
    fun m hm => absurd hm List.not_mem_nil
  obtain ⟨hs, hout⟩ := Replays.inv (inv_new hsigner hid hname) hout₀ hrun
  have hpolled := polled_snoc hs hout hpoll
  refine ⟨hpolled.upstream, hpolled.staged, hpolled.inv.kept, hpolled.inv.name,
    fun before _ => boot.onceStored before, ?_⟩
  rw [← hpolled.inv.restart_eq]
  exact boot.found.restartEquivalence_append boot.deviceId boot.nonceSlots _

/-! ### A consolidation that is acknowledged while it is staged -/

section Concrete

variable (H)

/-- The device after an iteration. -/
def after (s : DeviceLoop D S) (tick : Tick D) : DeviceLoop D S :=
  match s.poll H tick with
  | .ret (_, _, s') => s'
  | .panic _ => s

/-- What an iteration sends, when the loop goes on after it. -/
def sentIn (s : DeviceLoop D S) (tick : Tick D) : Option (Sent L) :=
  match s.poll H tick with
  | .ret (.continue, sent, _) => some sent
  | _ => none

/-- The loop goes on after each iteration. -/
def runs (s : DeviceLoop D S) : List (Tick D) → Bool
  | [] => true
  | tick :: rest => (s.sentIn H tick).isSome && (s.after H tick).runs rest

theorem poll_of_sentIn {sent : Sent L} (h : s.sentIn H tick = some sent) :
    s.poll H tick = .ret (.continue, sent, s.after H tick) := by
  unfold sentIn at h
  split at h
  · rename_i hpoll
    obtain rfl := Option.some.inj h
    rw [after, hpoll]
  · cases h

theorem replays_of_runs {s₀ : DeviceLoop D S} {before ticks : List (Tick D)}
    (h : Replays (Iterates H) s₀ before s) (hruns : s.runs H ticks = true) :
    Replays (Iterates H) s₀ (before ++ ticks) (ticks.foldl (after H) s) := by
  induction ticks generalizing s before with
  | nil => rwa [List.append_nil]
  | cons tick rest ih =>
      rw [runs, Bool.and_eq_true] at hruns
      obtain ⟨sent, hsent⟩ := Option.isSome_iff_exists.1 hruns.1
      have hrest := ih (h.snoc ⟨sent, poll_of_sentIn H hsent⟩) hruns.2
      rwa [List.append_assoc] at hrest

end Concrete

/-- An iteration in which nothing happens. -/
def quietTick : Tick plainDeviceLib where
  downstreamPresent := false
  nowMs := 0
  downstreamMagicBytes := false
  downstreamReceived := []
  upstreamMagicBytes := false
  upstreamReceived := []
  firmwareDigest := 0
  upgrades := false
  acksUpgradeMode := false
  erasePoll := .pending
  uiEvent := none
  attest := .normal
  normalMode := true
  certificate := none
  messageRng _ := (0 : ℕ)
  seeds _ _ := 0
  sendRng _ := (0 : ℕ)
  eventRng _ := (0 : ℕ)
  elapsedMs := 0

/-- Every encapsulated message asks to consolidate the first share of `twoKey`. -/
def consolidatingPeripherals : Peripherals plainDeviceLib where
  symmKeygen := plainDerivation
  decodeEncaps _ := some (.core (.restoration (.consolidate
    { shareIndex := 1
      rootSharedKey := twoKey
      keyName := "key"
      purpose := .test })))
  takes _ _ := true
  genuine :=
    { evenY := fun _ => none
      schnorrVerify := fun _ _ _ _ => false
      isPkcs1Der := fun _ => false
      rsaVerify := fun _ _ _ => false
      sha256 := fun _ => .replicate 32 0
      encodeBody := fun _ => []
      encodeAttested := fun _ => []
      encodeSigned := fun _ => [] }
  schnorrSign _ _ _ := 0

/-- The device announces itself, is acknowledged, its user enters a backup of the share, and it is
asked to consolidate it. -/
def consolidatingTicks : List (Tick plainDeviceLib) :=
  [{ quietTick with upstreamMagicBytes := true },
   { quietTick with
     upstreamReceived :=
      [.ok (.message { targetDestinations := .all, messageBody := .announceAck })]
     uiEvent := some (.enteredShareBackup { enterPhysicalId := 0 } firstShare) },
   quietTick,
   { quietTick with
     upstreamReceived :=
      [.ok (.message { targetDestinations := .all, messageBody := .encapsV0 [] })] }]

/-- The device then. -/
def consolidatingLoop : DeviceLoop plainDeviceLib PlainSlot :=
  consolidatingTicks.foldl (after consolidatingPeripherals) (.new (plainSigner 0) none .empty)

/-- An iteration writes upstream that a consolidation is finished. -/
def writesFinished (sent : Sent plainLib) : Bool :=
  match sent.upstream with
  | some { body := .ok (.core (.restoration (.finishedConsolidation ..))), .. } => true
  | _ => false

/-- The device has started with nothing in its log. -/
def blankBoot : Boot plainDeviceLib PlainSlot where
  deviceId := 1
  nonceSlots := (plainSigner 0).nonceSlots
  found := .empty

/-- The next iteration writes that the consolidation is finished, and nothing is in the log. -/
theorem writes_ahead_while_staged :
    ∃ sent, (consolidatingLoop.sentIn consolidatingPeripherals quietTick = some sent ∧
      writesFinished sent = true ∧ consolidatingLoop.mutationLog.pushed = []) ∧
      ∀ m ∈ sent.upstream, m ∈ receivedIn (consolidatingTicks ++ [quietTick]) ∨
        ∃ body, m = { from_ := 1, body := .ok body } ∧
          Acknowledged blankBoot consolidatingLoop.mutationLog.pushed consolidatingLoop.staged
            body := by
  have hsent : ((consolidatingLoop.sentIn consolidatingPeripherals quietTick).any
      writesFinished) = true := by decide +kernel
  obtain ⟨sent, hsome, hfinished⟩ := (Option.any_eq_true _ _).1 hsent
  have hrun : Replays (Iterates consolidatingPeripherals)
      (DeviceLoop.new (plainSigner 0) none .empty) ([] ++ consolidatingTicks) consolidatingLoop :=
    replays_of_runs _ .nil (by decide +kernel)
  have hlog : consolidatingLoop.mutationLog.pushed = [] :=
    List.isEmpty_iff.1 (by decide +kernel)
  have hstart : (plainSigner 0).toFrostSigner = (blankBoot.restart []).1 := rfl
  have hahead := writes_ahead hstart rfl rfl hrun (poll_of_sentIn _ hsome)
  exact ⟨sent, ⟨hsome, hfinished, hlog⟩, hahead.1⟩

end DeviceLoop

end Device

end Frostsnap
