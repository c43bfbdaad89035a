import Frostsnap.App.DeviceList
import Frostsnap.Comms.UsbBookkeeping

/-!
# Whoever shows the device list

The device list together with the USB serial manager whose changes it takes in, and with somebody
who shows it: who starts from a snapshot and applies the changes of each update after it. What the
manager hands on is taken in change by change, with any calls in between.

Where no `u32` overflows, a call panics in three cases. A recovery mode is set for a device that is
connected and not in the list; a device that never connected asks for a name; a device is renamed in
the poll that registers it under the name before. In every other run the changes lead from what is
shown to what the list shows.

## Main results

* `DeviceEvents.step_returns_iff`, `DeviceEvents.Sound.step`: one step.
* `DeviceEvents.shown_after_updates`: any run.
-/

namespace Frostsnap.App

open Frostsnap.Usb

variable {P : Payloads}

/-! ### The system -/

structure DeviceEvents (P : Payloads) where
  manager : UsbSerialManager P
  /-- What the manager handed on and the list has not taken in. -/
  pending : List (DeviceChange P)
  list : DeviceList
  /-- What is shown. -/
  view : List ConnectedDevice
  /-- How many of the changes that are queued were so before the snapshot that `view` is from. -/
  seen : ℕ

inductive DeviceOp (P : Payloads) where
  | manager (input : Input P)
  /-- The next change of the manager is taken in. -/
  | consume
  | setGenuine (id : DeviceId) (status : Genuine.GenuineStatus)
  | setRecoveryMode (id : DeviceId) (recoveryMode : RecoveryMode)
  /-- Whoever shows the list applies the changes of an update that the snapshot did not have. -/
  | takeUpdate (order : HashOrder ConnectedDevice)
  | state (order : HashOrder ConnectedDevice)
  | deviceAtIndex (index : ℕ)
  /-- `sub_device_events`: an update whose state is what is shown from then on. -/
  | startFromUpdate (order : HashOrder ConnectedDevice)
  /-- A state that is shown from then on. -/
  | startFromState (order : HashOrder ConnectedDevice)

namespace DeviceEvents

def new (firmwareBin : Option ValidatedFirmwareBin) : DeviceEvents P where
  manager := .new firmwareBin
  pending := []
  list := .default
  view := []
  seen := 0

def step [Build] (s : DeviceEvents P) : DeviceOp P → Exec (DeviceEvents P)
  | .manager input =>
      let polled := s.manager.quietly.input input
      return { s with manager := polled.manager, pending := s.pending ++ polled.changes }
  | .consume =>
      match s.pending with
      | [] => return s
      | change :: pending => do
          let list ← s.list.consumeManagerEvent change
          return { s with list, pending }
  | .setGenuine id status => return { s with list := s.list.setGenuine id status }
  | .setRecoveryMode id recoveryMode => do
      let list ← s.list.setRecoveryMode id recoveryMode
      return { s with list }
  | .takeUpdate order => do
      let (update, list) ← s.list.takeUpdate order
      return { s with list, view := applyChanges s.view (update.changes.drop s.seen), seen := 0 }
  | .state order => do
      let _ ← s.list.state order
      return s
  | .deviceAtIndex index => do
      let _ ← s.list.deviceAtIndex index
      return s
  | .startFromUpdate order => do
      let (update, list) ← s.list.takeUpdate order
      return { s with list, view := update.state.devices, seen := 0 }
  | .startFromState order => do
      let snapshot ← s.list.state order
      return { s with view := snapshot.devices, seen := s.list.outbox.length }

/-- A run. -/
def steps [Build] (s : DeviceEvents P) (ops : List (DeviceOp P)) : Exec (DeviceEvents P) :=
  ops.foldlM step s

/-- The condition on a step: what it asks of the list before. -/
def Meets [Build] (s : DeviceEvents P) : DeviceOp P → Prop
  | .consume => ∀ change ∈ s.pending.head?, s.list.Accepts change
  | .setRecoveryMode id recoveryMode => s.list.AllowsRecoveryMode id recoveryMode
  | .takeUpdate _ | .startFromUpdate _ => s.list.AllowsUpdate
  | _ => True

/-- A device that a step adds to the list has an index that is a `u32`. -/
def HasRoom (s : DeviceEvents P) : DeviceOp P → Prop
  | .consume => ∀ change ∈ s.pending.head?, s.list.HasRoom change
  | _ => True

/-- Every step of a run meets the condition. -/
def AllMeet [Build] : DeviceEvents P → List (DeviceOp P) → Prop
  | _, [] => True
  | s, op :: ops => s.Meets op ∧ s.HasRoom op ∧ ∀ s', s.step op = .ret s' → AllMeet s' ops

/-! ### Devices come and go -/

/-- A device is there after a change of it just when it is connected or registered then. -/
theorem presentAfter_of_next {id : DeviceId} {link link' : Usb.Link} {change : DeviceChange P}
    (h : Usb.Link.next id link change = some link') :
    link' ≠ .disconnected ↔ DeviceList.presentAfter change id (link ≠ .disconnected) := by
  by_cases hid : change.device = id
  · subst hid
    rw [Usb.Link.next_device] at h
    cases change with
    | connected id' digest latest =>
        refine iff_of_true ?_ (.inl rfl)
        cases link with
        | disconnected =>
            obtain rfl := Option.some.inj h
            nofun
        | connected | registered => cases h
    | disconnected id' =>
        refine iff_of_false ?_ fun hpresent => hpresent.1 rfl
        cases link with
        | disconnected => cases h
        | connected | registered =>
            obtain rfl := Option.some.inj h
            exact not_not.2 rfl
    | registered id' name =>
        cases link with
        | disconnected | registered => cases h
        | connected =>
            obtain rfl := Option.some.inj h
            exact iff_of_true nofun nofun
    | needsName | nameChange | appMessage | genuineCheck =>
        cases link <;> obtain rfl := Option.some.inj h <;> exact Iff.rfl
  · rw [Usb.Link.next_of_ne hid] at h
    obtain rfl := Option.some.inj h
    cases change with
    | connected id' digest latest =>
        exact ⟨.inr, fun hpresent => hpresent.resolve_left fun heq => hid heq.symm⟩
    | disconnected id' => exact ⟨fun hlink => ⟨fun heq => hid heq.symm, hlink⟩, And.right⟩
    | needsName | nameChange | registered | appMessage | genuineCheck => exact Iff.rfl

/-- Every device stands, as far as the list knows, where the changes that it has not taken in
start. -/
def Linked (connected : BTreeMap DeviceId ConnectedDevice) (pending : List (DeviceChange P))
    (m : UsbSerialManager P) : Prop :=
  ∀ id, ∃ link, Usb.Link.after id link pending = some (m.link id) ∧
    (id ∈ connected ↔ link ≠ .disconnected)

section Linked

variable {connected connected' : BTreeMap DeviceId ConnectedDevice}
  {pending changes : List (DeviceChange P)} {change : DeviceChange P} {m m' : UsbSerialManager P}

theorem Linked.congr (h : Linked connected pending m)
    (hconnected : ∀ id, id ∈ connected' ↔ id ∈ connected) : Linked connected' pending m := by
  intro id
  obtain ⟨link, hlink, hid⟩ := h id
  exact ⟨link, hlink, (hconnected id).trans hid⟩

/-- The manager hands on more. -/
theorem Linked.append (h : Linked connected pending m)
    (hfollows : ∀ id, Usb.Link.after id (m.link id) changes = some (m'.link id)) :
    Linked connected (pending ++ changes) m' := by
  intro id
  obtain ⟨link, hlink, hid⟩ := h id
  refine ⟨link, ?_, hid⟩
  rw [Usb.Link.after_append, hlink, Option.bind_some, hfollows]

/-- What comes next of a device. -/
theorem Linked.next (h : Linked connected (change :: pending) m) (id : DeviceId) :
    ∃ link link', Usb.Link.next id link change = some link' ∧
      Usb.Link.after id link' pending = some (m.link id) ∧
        (id ∈ connected ↔ link ≠ .disconnected) := by
  obtain ⟨link, hlink, hid⟩ := h id
  obtain ⟨link', hnext, hafter⟩ := Option.bind_eq_some_iff.1 hlink
  exact ⟨link, link', hnext, hafter, hid⟩

/-- The list takes in a change. -/
theorem Linked.consume (h : Linked connected (change :: pending) m)
    (hconnected : ∀ id, id ∈ connected' ↔ DeviceList.presentAfter change id (id ∈ connected)) :
    Linked connected' pending m := by
  intro id
  obtain ⟨link, link', hnext, hafter, hid⟩ := h.next id
  refine ⟨link', hafter, ?_⟩
  rw [hconnected id, presentAfter_of_next hnext, hid]

/-- Who is registered is connected. -/
theorem Linked.mem_of_registered (h : Linked connected (change :: pending) m) {id : DeviceId}
    {name : String} (hchange : change = .registered id name) : id ∈ connected := by
  obtain ⟨link, link', hnext, -, hid⟩ := h.next id
  subst hchange
  rw [hid]
  rintro rfl
  cases (Usb.Link.next_device .disconnected (.registered id name)).symm.trans hnext

/-- Who connects is not connected. -/
theorem Linked.not_mem_of_connected (h : Linked connected (change :: pending) m) {id : DeviceId}
    {digest : Sha256Digest} {latest : Option Sha256Digest}
    (hchange : change = .connected id digest latest) : id ∉ connected := by
  obtain ⟨link, link', hnext, -, hid⟩ := h.next id
  subst hchange
  have hmoves := (Usb.Link.next_device link (.connected id digest latest)).symm.trans hnext
  rw [hid, not_not]
  cases link with
  | disconnected => rfl
  | connected | registered => cases hmoves

end Linked

/-! ### One step -/

/-- What holds of every state: the changes that are queued and were not when the view was taken lead
from the view to what the list shows. -/
structure Sound (s : DeviceEvents P) : Prop where
  bookkept : Bookkept s.manager
  linked : Linked s.list.connected s.pending s.manager
  seen : s.seen ≤ s.list.outbox.length
  listing : s.list.Listing (applyChanges s.view (s.list.outbox.drop s.seen))

variable {s s' : DeviceEvents P} {op : DeviceOp P}

theorem sound_new (firmwareBin : Option ValidatedFirmwareBin) :
    Sound (new firmwareBin : DeviceEvents P) := by
  refine ⟨bookkept_new firmwareBin, fun id => ⟨.disconnected, ?_, ?_⟩, Nat.le_refl 0,
    DeviceList.listing_default⟩
  · exact congrArg some (link_new firmwareBin id).symm
  · exact iff_of_false Std.ExtTreeMap.not_mem_empty (not_not.2 rfl)

/-- What a call queues leads on from the view too. -/
theorem Sound.emits (h : Sound s) {list : DeviceList} {pending : List (DeviceChange P)}
    (hemits : s.list.Emits list) (hlinked : Linked list.connected pending s.manager) :
    Sound { s with list, pending } := by
  obtain ⟨changes, houtbox, hlisting⟩ := hemits
  refine ⟨h.bookkept, hlinked, ?_, ?_⟩
  · have hle := h.seen
    show s.seen ≤ list.outbox.length
    rw [houtbox, List.length_append]
    omega
  · show list.Listing (applyChanges s.view (list.outbox.drop s.seen))
    rw [houtbox, List.drop_append_of_le_length h.seen, applyChanges_append]
    exact hlisting _ h.listing

variable [Build]

/-- **A step is made** just when it meets the condition. -/
theorem step_returns_iff (h : Sound s) (op : DeviceOp P) : (s.step op).Returns ↔ s.Meets op := by
  have hreturns : ∀ {α β : Type} {x : Exec α} {f : α → β},
      (x >>= fun a => (pure (f a) : Exec β)).Returns ↔ x.Returns := by
    intro α β x f
    cases x with
    | ret a => exact iff_of_true (Exec.returns_ret _) (Exec.returns_ret _)
    | panic msg => exact iff_of_false (Exec.not_returns_panic _) (Exec.not_returns_panic _)
  cases op with
  | manager | setGenuine => exact iff_of_true (Exec.returns_ret _) trivial
  | consume =>
      obtain ⟨manager, pending, list, view, seen⟩ := s
      cases pending with
      | nil => exact iff_of_true (Exec.returns_ret _) nofun
      | cons change pending =>
          have hmeets : Meets ⟨manager, change :: pending, list, view, seen⟩ .consume ↔
              list.Accepts change := by
            constructor
            · intro hall
              exact hall change rfl
            · intro haccepts change' hchange'
              obtain rfl := Option.some.inj hchange'
              exact haccepts
          rw [hmeets]
          refine hreturns.trans (DeviceList.consumeManagerEvent_returns_iff h.listing ?_)
          exact fun id name hchange => h.linked.mem_of_registered hchange
  | setRecoveryMode id recoveryMode => exact hreturns.trans DeviceList.setRecoveryMode_returns_iff
  | takeUpdate order | startFromUpdate order =>
      exact hreturns.trans (DeviceList.takeUpdate_returns_iff h.listing order)
  | state order | startFromState order =>
      obtain ⟨snapshot, hsnapshot, -⟩ := DeviceList.state_eq_ret h.listing order
      exact iff_of_true (hreturns.2 ⟨snapshot, hsnapshot⟩) trivial
  | deviceAtIndex index =>
      exact iff_of_true (hreturns.2 (DeviceList.deviceAtIndex_returns h.listing index)) trivial

/-- **One step** keeps what is shown. -/
theorem Sound.step (h : Sound s) (hroom : s.HasRoom op) (hstep : s.step op = .ret s') :
    Sound s' := by
  cases op with
  | manager input =>
      obtain rfl := Exec.ret.inj hstep
      have hkeeps : Keeps s.manager (s.manager.quietly.input input) := by
        rw [Polling.input_eq]
        exact (SameDevices.keeps ⟨rfl, rfl, rfl⟩ h.bookkept).handleAll _
      exact ⟨hkeeps.bookkept, h.linked.append hkeeps.follows, h.seen, h.listing⟩
  | consume =>
      obtain ⟨manager, pending, list, view, seen⟩ := s
      cases pending with
      | nil =>
          obtain rfl := Exec.ret.inj hstep
          exact h
      | cons change pending =>
          obtain ⟨list', hlist', hstep⟩ := Exec.bind_eq_ret_iff.1 hstep
          obtain rfl := Exec.ret.inj hstep
          have hemits := DeviceList.consumeManagerEvent_emits (hroom change rfl)
            (fun id digest latest hchange hid =>
              h.linked.not_mem_of_connected hchange
                (DeviceList.mem_connected_iff.2 (h.listing.getDevice hid))) hlist'
          exact h.emits hemits (h.linked.consume
            (DeviceList.mem_connected_consumeManagerEvent hlist'))
  | setGenuine id status =>
      obtain rfl := Exec.ret.inj hstep
      exact h.emits (s.list.setGenuine_emits id status)
        (h.linked.congr (s.list.mem_connected_setGenuine id status))
  | setRecoveryMode id recoveryMode =>
      obtain ⟨list, hlist, hstep⟩ := Exec.bind_eq_ret_iff.1 hstep
      obtain rfl := Exec.ret.inj hstep
      exact h.emits (DeviceList.setRecoveryMode_emits hlist)
        (h.linked.congr (DeviceList.mem_connected_setRecoveryMode hlist))
  | takeUpdate order =>
      obtain ⟨⟨update, list⟩, htake, hstep⟩ := Exec.bind_eq_ret_iff.1 hstep
      obtain rfl := Exec.ret.inj hstep
      have htaken := DeviceList.takeUpdate_taken h.listing htake
      refine ⟨h.bookkept, ?_, Nat.zero_le _, ?_⟩
      · exact h.linked.congr fun id => by rw [htaken.connected]
      · dsimp only
        rw [htaken.outbox, htaken.changes]
        exact htaken.listing h.listing
  | startFromUpdate order =>
      obtain ⟨⟨update, list⟩, htake, hstep⟩ := Exec.bind_eq_ret_iff.1 hstep
      obtain rfl := Exec.ret.inj hstep
      have htaken := DeviceList.takeUpdate_taken h.listing htake
      refine ⟨h.bookkept, ?_, Nat.zero_le _, ?_⟩
      · exact h.linked.congr fun id => by rw [htaken.connected]
      · dsimp only
        rw [htaken.outbox, htaken.state]
        exact htaken.listing h.listing
  | state order | deviceAtIndex index =>
      obtain ⟨_, -, hstep⟩ := Exec.bind_eq_ret_iff.1 hstep
      obtain rfl := Exec.ret.inj hstep
      exact h
  | startFromState order =>
      obtain ⟨snapshot, hsnapshot, hstep⟩ := Exec.bind_eq_ret_iff.1 hstep
      obtain rfl := Exec.ret.inj hstep
      obtain ⟨snapshot', hsnapshot', hdevices⟩ := DeviceList.state_eq_ret h.listing order
      rw [hsnapshot] at hsnapshot'
      obtain rfl := Exec.ret.inj hsnapshot'
      refine ⟨h.bookkept, h.linked, Nat.le_refl _, ?_⟩
      dsimp only
      rw [List.drop_length, hdevices]
      exact h.listing

/-- After an update what is shown is what the list shows. -/
theorem Sound.view_of_takeUpdate (h : Sound s) {order : HashOrder ConnectedDevice}
    (hstep : s.step (.takeUpdate order) = .ret s') : s'.list.allDevices = .ret s'.view := by
  have hroom : s.HasRoom (.takeUpdate order) := trivial
  have hsound := h.step hroom hstep
  obtain ⟨⟨update, list⟩, htake, hstep⟩ := Exec.bind_eq_ret_iff.1 hstep
  obtain rfl := Exec.ret.inj hstep
  have hlisting := hsound.listing
  dsimp only at hlisting ⊢
  rw [(DeviceList.takeUpdate_taken h.listing htake).outbox] at hlisting
  exact hlisting.allDevices

/-! ### Runs -/

theorem Sound.steps (h : Sound s) {ops : List (DeviceOp P)} (hmeet : AllMeet s ops) :
    ∃ s', s.steps ops = .ret s' ∧ Sound s' := by
  induction ops generalizing s with
  | nil => exact ⟨s, rfl, h⟩
  | cons op ops ih =>
      obtain ⟨hmeets, hroom, hrest⟩ := hmeet
      obtain ⟨s₁, hstep⟩ := (step_returns_iff h op).2 hmeets
      obtain ⟨s', hsteps, hsound⟩ := ih (h.step hroom hstep) (hrest s₁ hstep)
      refine ⟨s', ?_, hsound⟩
      rw [DeviceEvents.steps, List.foldlM_cons, hstep, Exec.ret_bind]
      exact hsteps

theorem AllMeet.cons {ops : List (DeviceOp P)} (hmeets : s.Meets op) (hroom : s.HasRoom op)
    (hstep : s.step op = .ret s') (hrest : AllMeet s' ops) : AllMeet s (op :: ops) := by
  refine ⟨hmeets, hroom, fun s'' h => ?_⟩
  rw [hstep] at h
  obtain rfl := Exec.ret.inj h
  exact hrest

/-- **What is shown.** A run whose steps all meet the condition does not panic. In the state that it
reaches, the changes still to come lead from what is shown to what `devices` returns, and after an
update there are none. The next step panics just when it does not meet the condition. -/
theorem shown_after_updates (firmwareBin : Option ValidatedFirmwareBin) (ops : List (DeviceOp P))
    (h : AllMeet (new firmwareBin) ops) :
    ∃ s, (new firmwareBin).steps ops = .ret s ∧
      s.list.allDevices = .ret (applyChanges s.view (s.list.outbox.drop s.seen)) ∧
      (∀ order s', s.step (.takeUpdate order) = .ret s' → s'.list.allDevices = .ret s'.view) ∧
      ∀ op, (s.step op).Returns ↔ s.Meets op := by
  obtain ⟨s, hsteps, hsound⟩ := (sound_new firmwareBin).steps h
  refine ⟨s, hsteps, hsound.listing.allDevices, fun order s' hstep => ?_, fun op => ?_⟩
  · exact hsound.view_of_takeUpdate hstep
  · exact step_returns_iff hsound op

end DeviceEvents

/-! ### A device on a port -/

namespace DeviceEvents

/-- A poll that reads a message of device 7. -/
def saying (body : DeviceSendBody plainPayloads) : DeviceOp plainPayloads :=
  .manager (.pollPorts { strangerIo with
    tryReadMessage := fun _ => .ok (some (.message { from_ := 7, body := .ok body })) })

/-- The device announces itself, asks for a name, and turns out to be unverified. -/
def namelessRun (order : HashOrder ConnectedDevice) : List (DeviceOp plainPayloads) :=
  [saying (.announce 0), .consume, .startFromUpdate order, saying .needName, .consume,
    .setGenuine 7 (.unverified true), .takeUpdate order]

theorem shown_after_updates_nameless :
    ∃ s, @steps _ Build.release (new none) (namelessRun (.asListed _)) = .ret s ∧
      s.list.allDevices = .ret (applyChanges s.view (s.list.outbox.drop s.seen)) ∧
      (∀ order s', @step _ Build.release s (.takeUpdate order) = .ret s' →
        s'.list.allDevices = .ret s'.view) ∧
      ∀ op, (@step _ Build.release s op).Returns ↔ @Meets _ Build.release s op := by
  refine @shown_after_updates _ Build.release none (namelessRun (.asListed _)) ?_
  have hcons := fun {s s' op ops} => @AllMeet.cons plainPayloads s s' op Build.release ops
  refine hcons trivial trivial rfl (hcons ?_ ?_ rfl (hcons nofun trivial rfl
    (hcons trivial trivial rfl (hcons ?_ ?_ rfl (hcons trivial trivial rfl
      (hcons nofun trivial rfl trivial))))))
  · rintro change ⟨⟩
    trivial
  · rintro change ⟨⟩
    trivial
  · rintro change ⟨⟩
    exact BTreeMap.mem_insert.2 (.inl rfl)
  · rintro change ⟨⟩
    exact fun _ => Nat.zero_le _

/-- A device that is connected and not in the list is set to recovery mode. -/
theorem unlisted_recovery_panics :
    ¬ ∀ ops : List (DeviceOp plainPayloads), (@steps _ Build.release (new none) ops).Returns := by
  intro h
  obtain ⟨s, hs⟩ := h [saying (.announce 0), .consume, .setRecoveryMode 7 (.on [])]
  cases hs

-- a device that never connected asks for a name
example : @steps _ Build.release (new none) [saying .needName, .consume] = .panic "invariant" := rfl

-- a device is renamed in the poll that registers it under the name before
example :
    @steps _ Build.release (new none)
        [saying (.announce 0), .consume, saying .needName, .consume,
          saying (.setName ⟨"Ann", by decide⟩), .consume, .manager (.acceptDeviceName 7 "Ann"),
          saying (.setName ⟨"Bob", by decide⟩), .consume, .consume] =
      .panic "we should have got a renamed event if they were different" := rfl

end DeviceEvents

end Frostsnap.App
