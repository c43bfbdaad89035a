import Frostsnap.Lib.LockOrder
import Mathlib.Data.Fin.VecNotation

/-!
# The mutexes of the app's coordinator

This module embeds `coordinator.rs` of the app as far as its mutexes go: for each method of
`FfiCoordinator`, on each of its branches, and for each iteration of the thread that polls the
devices, the mutexes that are acquired and released, in order. What a sink does when a state is
sent to it is part of it: the sink of a signing protocol locks `signing_session_signals`, and that
of the entering of a physical backup, once the backup is saved, locks `device_list`, and then
`coordinator` and `key_event_stream`.

A guard that is a temporary lives to the end of its statement. In
`for device in self.device_list.lock().unwrap().devices()` that is the end of the loop, and in
`if let Some(stream) = &*self.key_event_stream.lock().unwrap()` the end of the block.
-/

namespace Frostsnap.App

open LockOrder Program

inductive Mutex where
  | coordinator
  | db
  | uiStack
  | deviceList
  | deviceNames
  | backupState
  | keyEventStream
  | signingSessionSignals
  | genuineCheck
  | firmwareUpgradeProgress
  | deviceListStream
  | backupRunStreams
  | usbManager
  | threadHandle
  deriving DecidableEq

open Mutex

instance : Finite Mutex := by
  refine Finite.of_surjective (![coordinator, db, uiStack, deviceList, deviceNames, backupState,
    keyEventStream, signingSessionSignals, genuineCheck, firmwareUpgradeProgress, deviceListStream,
    backupRunStreams, usbManager, threadHandle] : Fin 14 → Mutex) fun m => ?_
  cases m with
  | coordinator => exact ⟨0, rfl⟩
  | db => exact ⟨1, rfl⟩
  | uiStack => exact ⟨2, rfl⟩
  | deviceList => exact ⟨3, rfl⟩
  | deviceNames => exact ⟨4, rfl⟩
  | backupState => exact ⟨5, rfl⟩
  | keyEventStream => exact ⟨6, rfl⟩
  | signingSessionSignals => exact ⟨7, rfl⟩
  | genuineCheck => exact ⟨8, rfl⟩
  | firmwareUpgradeProgress => exact ⟨9, rfl⟩
  | deviceListStream => exact ⟨10, rfl⟩
  | backupRunStreams => exact ⟨11, rfl⟩
  | usbManager => exact ⟨12, rfl⟩
  | threadHandle => exact ⟨13, rfl⟩

/-- What a method or an iteration acquires and releases. -/
abbrev Locks := Program Mutex

/-- The sink of a signing protocol. -/
def signingSignal : Locks := brief signingSessionSignals

/-! ### What several methods do -/

/-- `emit_key_state`. -/
def emitKeyState : Locks := locked coordinator (brief keyEventStream)

/-- `start_protocol`, of a protocol that sends a number of signals for the devices connected. -/
def startProtocol (signals : ℕ) : Locks :=
  locked deviceList (repeated signals signingSignal) ++ brief uiStack

/-- `commit_device_name_locally`. -/
def commitDeviceNameLocally : Locks := brief deviceNames

/-- `build_backup_run`. -/
def buildBackupRun : Locks := locked backupState (brief coordinator)

/-- `backup_stream_emit`. -/
def backupStreamEmit : Locks := buildBackupRun ++ brief backupRunStreams

/-- How far `exit_recovery_mode` comes. -/
inductive ExitRecoveryMode where
  | absent
  | nothingPending
  | unplugged
  | otherWalletPending
  | ready (signals : ℕ)

def exitRecoveryMode : ExitRecoveryMode → Locks
  | .absent => brief deviceList
  | .nothingPending => brief deviceList ++ brief coordinator
  | .unplugged => brief deviceList ++ brief coordinator ++ startProtocol 0
  | .otherWalletPending =>
      brief deviceList ++ brief coordinator ++ startProtocol 0 ++ brief coordinator
  | .ready signals =>
      brief deviceList ++ brief coordinator ++ startProtocol 0 ++ brief coordinator ++
        brief deviceList ++ locked uiStack (repeated signals signingSignal)

/-! ### The methods -/

inductive RequestDeviceSign where
  | notSigning
  | refused
  | requested (wasWaiting : Bool)

inductive FinalizeKeygen where
  | failed
  | finalized (names : ℕ) (backupRunStarted : Bool)

inductive StartFromDeviceShare where
  | alreadyKnown
  | failed
  | started

inductive DeleteKey where
  | failed
  | deleted (backupRunCleared : Bool)

/-- A call of a method, with what decides between its branches. -/
inductive Call where
  | new
  | inner
  | start
  | subKeyEvents
  | updateNamePreview
  | sendCancel
  | generateNewKey
  | frostKeys
  | noncesAvailable
  | nonceReplenishRequest
  | replenishNonces
  /-- the number of signals for connected devices, when the session starts -/
  | startSigning (started : Option ℕ)
  | requestDeviceSign (branch : RequestDeviceSign)
  /-- the number of signals for connected devices, when the session exists -/
  | tryRestoreSigningSession (found : Option ℕ)
  | beginUpgradeFirmware (bundled : Bool)
  | upgradeFirmwareDigest
  | upgradeFirmwareVersionName
  | startProtocol (signals : ℕ)
  /-- the number of signing protocols on the stack -/
  | cancelProtocol (signals : ℕ)
  | enterFirmwareUpgradeMode
  | getDeviceName
  | getDeviceCaseColor (enabled : Bool)
  | genuineCheckEnabled
  | finalizeKeygen (branch : FinalizeKeygen)
  | getAccessStructure
  | getFrostKey
  | verifyAddress (started : Bool)
  | keyState
  | waitForSingleDevice
  | startRestoringWallet (persisted : Bool)
  | startRestoringWalletFromDeviceShare (branch : StartFromDeviceShare)
  | continueRestoringWalletFromDeviceShare (added : Bool)
  | recoverShare (exit : Option ExitRecoveryMode)
  | getRestorationState
  | finishRestoring (exits : Option (List ExitRecoveryMode))
  | deleteKey (branch : DeleteKey)
  | deleteShare (deleted : Bool)
  | subDeviceEvents
  | deviceAtIndex
  | deviceListState
  | getConnectedDevice
  | eraseDevice
  | eraseAllDevices
  | cancelSignSession (canceled : Bool)
  | forgetFinishedSignSession (forgotten : Bool)
  | cancelRestoration (canceled : Bool)
  | subSigningSessionSignals
  | emitSigningSignal
  | tellDeviceToEnterPhysicalBackup
  /-- whether the device is connected, and then whether the protocol starts -/
  | tellDeviceToCheckBackup (connected started : Bool)
  | tellDeviceToSavePhysicalBackup (saved : Bool)
  /-- whether the messages are made, and then whether the device answers -/
  | tellDeviceToConsolidatePhysicalBackup (sent consolidated : Bool)
  | blockForToUserMessage
  | exitRecoveryMode (exit : ExitRecoveryMode)
  | deleteRestorationShare (deleted : Bool)
  | emitKeyState
  | buildBackupRun
  | backupStreamEmit

/-- What a call acquires and releases. -/
def Call.program : Call → Locks
  | new => brief db
  | inner => brief coordinator
  | start => brief threadHandle ++ brief usbManager ++ brief threadHandle
  | subKeyEvents => locked keyEventStream (brief coordinator)
  | updateNamePreview | sendCancel => nil
  | generateNewKey => brief deviceList ++ brief coordinator ++ App.startProtocol 0
  | frostKeys | noncesAvailable | nonceReplenishRequest => brief coordinator
  | replenishNonces => App.startProtocol 0
  | startSigning none => locked coordinator (brief db)
  | startSigning (some signals) =>
      locked coordinator (brief db ++ signingSignal ++ App.startProtocol signals)
  | requestDeviceSign .notSigning => brief uiStack
  | requestDeviceSign .refused => locked uiStack (locked db (brief coordinator))
  | requestDeviceSign (.requested wasWaiting) =>
      locked uiStack (locked db (brief coordinator ++ if wasWaiting then signingSignal else nil))
  | tryRestoreSigningSession none => brief coordinator
  | tryRestoreSigningSession (some signals) =>
      locked coordinator (signingSignal ++ App.startProtocol signals)
  | beginUpgradeFirmware bundled =>
      if bundled then brief deviceList ++ App.startProtocol 0 else nil
  | upgradeFirmwareDigest | upgradeFirmwareVersionName => nil
  | startProtocol signals => App.startProtocol signals
  | cancelProtocol signals =>
      locked coordinator (locked uiStack (repeated signals signingSignal))
  | enterFirmwareUpgradeMode => brief firmwareUpgradeProgress
  | getDeviceName => brief deviceNames
  | getDeviceCaseColor enabled => if enabled then brief genuineCheck else nil
  | genuineCheckEnabled => nil
  | finalizeKeygen .failed => locked coordinator (locked db (brief uiStack))
  | finalizeKeygen (.finalized names backupRunStarted) =>
      locked coordinator (locked db (locked uiStack (repeated names commitDeviceNameLocally))) ++
        App.emitKeyState ++ brief coordinator ++ locked backupState (brief db) ++
        if backupRunStarted then App.backupStreamEmit else nil
  | getAccessStructure | getFrostKey => brief coordinator
  | verifyAddress started => locked coordinator (if started then App.startProtocol 0 else nil)
  | keyState => brief coordinator
  | waitForSingleDevice => App.startProtocol 0
  | startRestoringWallet persisted =>
      locked db (brief coordinator) ++ if persisted then App.emitKeyState else nil
  | startRestoringWalletFromDeviceShare .alreadyKnown => brief coordinator
  | startRestoringWalletFromDeviceShare .failed => locked coordinator (brief db)
  | startRestoringWalletFromDeviceShare .started =>
      locked coordinator (brief db) ++ App.emitKeyState
  | continueRestoringWalletFromDeviceShare added =>
      locked db (brief coordinator) ++ if added then App.emitKeyState else nil
  | recoverShare none => locked db (brief coordinator)
  | recoverShare (some exit) =>
      locked db (brief coordinator) ++ App.exitRecoveryMode exit ++ App.emitKeyState
  | getRestorationState => brief coordinator
  | finishRestoring none => locked db (brief coordinator)
  | finishRestoring (some exits) =>
      locked db (brief coordinator) ++ concat (exits.map App.exitRecoveryMode) ++ App.emitKeyState
  | deleteKey .failed => locked db (brief coordinator)
  | deleteKey (.deleted backupRunCleared) =>
      locked db (brief coordinator ++ brief backupState) ++
        if backupRunCleared then App.emitKeyState else nil
  | deleteShare deleted =>
      locked db (brief coordinator) ++ if deleted then App.emitKeyState else nil
  | subDeviceEvents => locked deviceList (brief deviceListStream)
  | deviceAtIndex | deviceListState | getConnectedDevice => brief deviceList
  | eraseDevice => App.startProtocol 0
  | eraseAllDevices => nil
  | cancelSignSession canceled =>
      locked db (brief coordinator) ++ if canceled then signingSignal else nil
  | forgetFinishedSignSession forgotten =>
      locked db (brief coordinator) ++ if forgotten then signingSignal else nil
  | cancelRestoration canceled =>
      locked db (locked coordinator (if canceled then brief keyEventStream else nil))
  | subSigningSessionSignals | emitSigningSignal => brief signingSessionSignals
  | tellDeviceToEnterPhysicalBackup => App.startProtocol 0
  | tellDeviceToCheckBackup connected started =>
      brief deviceList ++
        if connected then brief coordinator ++ if started then App.startProtocol 0 else nil
        else nil
  | tellDeviceToSavePhysicalBackup saved =>
      brief coordinator ++ locked db commitDeviceNameLocally ++ App.startProtocol 0 ++
        if saved then brief deviceList ++ App.emitKeyState else nil
  | tellDeviceToConsolidatePhysicalBackup sent consolidated =>
      brief coordinator ++
        if sent then
          locked db commitDeviceNameLocally ++ App.startProtocol 0 ++
            if consolidated then App.emitKeyState else nil
        else nil
  | blockForToUserMessage => App.startProtocol 0
  | exitRecoveryMode exit => App.exitRecoveryMode exit
  | deleteRestorationShare deleted =>
      locked coordinator (brief db) ++ if deleted then App.emitKeyState else nil
  | emitKeyState => App.emitKeyState
  | buildBackupRun => App.buildBackupRun
  | backupStreamEmit => App.backupStreamEmit

/-! ### The device loop -/

/-- A change of the devices, and how many signing protocols send a state for it. -/
inductive Change where
  | connected
  | registered (signals : ℕ)
  | disconnected (signals : ℕ)
  | nameChange
  | appMessage
  | needsName (signals : ℕ)
  | genuineCheck

def Change.program : Change → Locks
  | connected | appMessage | genuineCheck => nil
  | registered signals | disconnected signals | needsName signals => repeated signals signingSignal
  | nameChange => brief deviceNames

/-- What the protocol that takes a message to the user does with it: a signing protocol sends a
state, or the entering of a physical backup one that says that it is saved, or neither. -/
inductive ToUser where
  | signing
  | saved
  | other
  deriving DecidableEq

def ToUser.program : ToUser → Locks
  | signing => signingSignal
  | saved => brief deviceList ++ locked coordinator (brief keyEventStream)
  | other => nil

/-- What one iteration of the device loop finds. -/
structure Iteration where
  /-- whether the app is built with a factory key -/
  genuine : Bool
  changes : List Change
  updateReady : Bool
  toUser : List ToUser

namespace Iteration

/-- The devices are gone through under `device_list`. -/
def deviceChanges (i : Iteration) : Locks :=
  locked deviceList (concat (i.changes.map Change.program) ++
    if i.updateReady then brief deviceListStream else nil)

/-- The devices, and then the messages, under `genuine_check` when there is one. -/
def processMessages (i : Iteration) : Locks :=
  if i.genuine then locked genuineCheck i.deviceChanges else i.deviceChanges

/-- What is taken to the user once the coordinator and the database are let go. -/
def tellUser (i : Iteration) : Locks := concat (i.toUser.map ToUser.program)

/-- The guard of `firmware_upgrade_progress` and that of the stack live to the end. -/
def program (i : Iteration) : Locks where
  ops := .acquire firmwareUpgradeProgress :: .acquire coordinator :: .acquire db ::
    .acquire uiStack :: (i.processMessages.ops ++ .release coordinator :: .release db ::
      (i.tellUser.ops ++ [.release uiStack, .release firmwareUpgradeProgress]))
  balanced held := by
    simp only [after_acquire, after_append, after_release, after_nil, balanced]
    simp

end Iteration

/-! ### The app -/

/-- What the threads run: the device loop, and any number of threads of the user interface, each of
which makes some of the calls. A state that says that a backup is saved is only sent by a protocol
that `tell_device_to_enter_physical_backup` has started. -/
def programs {ι : Type} (calls : Set Call) : Option ι → Set Locks
  | none => {p | ∃ i : Iteration, p = i.program ∧
      (ToUser.saved ∈ i.toUser → Call.tellDeviceToEnterPhysicalBackup ∈ calls)}
  | some _ => {p | ∃ call ∈ calls, p = call.program}

end Frostsnap.App
