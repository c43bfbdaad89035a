import Frostsnap.Comms.GenuineCheck
import Frostsnap.Comms.UsbSerialManager
import Frostsnap.Core.NonceStream
import Frostsnap.Firmware.ValidatedBin
import Frostsnap.Lib.ListFeed

/-!
# The device list of the app

The devices that the app shows, as `device_list.rs` of the app keeps them: the ones that are
connected, and the list of those among them that are registered or have asked for a name. What
changes in the list is queued for whoever shows it, as changes at an index. A device that is
connected and not in the list has no index; of those it is only noted that something changed.

## Main definitions

* `DeviceList.consumeManagerEvent`, `DeviceList.setGenuine`, `DeviceList.setRecoveryMode`,
  `DeviceList.takeUpdate`, `DeviceList.state`: the calls.
* `DeviceListChange.edit`: what a change says of the list.

## Main results

* `DeviceList.consumeManagerEvent_returns`, `DeviceList.setRecoveryMode_returns`,
  `DeviceList.takeUpdate_returns`: when the calls return.
* `DeviceList.consumeManagerEvent_emits` and the like: what they queue leads the list on.
-/

namespace Frostsnap.App

open Frostsnap.Usb (DeviceChange)
open Frostsnap.Firmware (FirmwareVersion VersionNumber)

/-! ### What is shown of a device -/

/-- `FirmwareVersion::features().genuine_check`: the device answers the genuine check. A digest that
is not known is taken for a newer version. -/
def genuineCheckFeature (firmware : FirmwareVersion) : Bool :=
  match firmware.version with
  | some version => VersionNumber.lt ⟨0, 4, 0⟩ version
  | none => true

/-- What the factory certified about a device, from a verified certificate. -/
structure GenuineCertificate where
  serial : String
  revision : String
  caseColor : Genuine.CaseColor
  /-- Unix seconds, UTC. -/
  provisionedAt : UInt64
  /-- PKCS#1 DER encoding of the device's DS (RSA) public key. -/
  dsPublicKey : List UInt8

/-- `GenuineCertificate::from`: the serial is shown with its prefix. -/
def GenuineCertificate.fromBody (body : Genuine.CertificateBody) : GenuineCertificate where
  serial := "FS-F-" ++ body.serial
  revision := body.revision
  caseColor := body.caseColor
  provisionedAt := body.timestamp
  dsPublicKey := body.dsPublicKey

/-- What is shown of the genuine check. -/
inductive GenuineStatus where
  /-- Not proven for this connection, so nothing about the device is shown. -/
  | unverified (firmwareSupportsCheck : Bool)
  /-- Proven for this connection. -/
  | genuine (certificate : GenuineCertificate)

/-- `GenuineStatus::from`. -/
def GenuineStatus.fromCoordinator : Genuine.GenuineStatus → GenuineStatus
  | .unverified firmwareSupportsCheck => .unverified firmwareSupportsCheck
  | .genuine certificate => .genuine (.fromBody certificate)

/-- Whether a device is in recovery mode, and what it still has outstanding. -/
inductive RecoveryMode where
  | off
  | on (pending : List AccessStructureRef)
  deriving DecidableEq

/-- What is shown of a device. -/
structure ConnectedDevice where
  name : Option String
  firmware : FirmwareVersion
  latestFirmware : Option FirmwareVersion
  id : DeviceId
  recoveryMode : RecoveryMode
  genuine : GenuineStatus

/-- What has changed. The device is sent along whatever it is. -/
inductive DeviceListChangeKind where
  | added
  | removed
  | named
  | recoveryMode
  /-- Its genuine status changed. -/
  | refreshed
  deriving DecidableEq

/-- A change of the device at an index of the list. -/
structure DeviceListChange where
  kind : DeviceListChangeKind
  /-- A `u32`. -/
  index : ℕ
  device : ConnectedDevice

/-- The whole list, for whoever has missed changes. -/
structure DeviceListState where
  devices : List ConnectedDevice
  /-- Announced devices not in `devices` because they haven't registered or asked for a name. -/
  unlisted : List ConnectedDevice
  stateId : ℕ

/-- The changes since the last update, and the list they lead to. -/
structure DeviceListUpdate where
  changes : List DeviceListChange
  state : DeviceListState

/-- What whoever shows the list does with a change. -/
def DeviceListChange.edit (change : DeviceListChange) : ListEdit ConnectedDevice :=
  match change.kind with
  | .added => .insert change.index change.device
  | .removed => .erase change.index
  | .named | .recoveryMode | .refreshed => .replace change.index change.device

/-- A list of devices after some changes. -/
def applyChanges (shown : List ConnectedDevice) (changes : List DeviceListChange) :
    List ConnectedDevice :=
  ListEdit.replay shown (changes.map DeviceListChange.edit)

/-- Changes in two goes. -/
theorem applyChanges_append (shown : List ConnectedDevice)
    (changes changes' : List DeviceListChange) :
    applyChanges shown (changes ++ changes') =
      applyChanges (applyChanges shown changes) changes' := by
  rw [applyChanges, List.map_append, ListEdit.replay_append]
  rfl

/-! ### The list -/

/-- The list that is shown, with the devices that are not in it yet. -/
structure DeviceList where
  devices : List DeviceId
  connected : BTreeMap DeviceId ConnectedDevice
  /-- A `u32`. -/
  stateCounter : ℕ
  outbox : List DeviceListChange
  /-- An unlisted device came, went or changed. It has no index to report as a change. -/
  unlistedChanged : Bool

namespace DeviceList

/-- At first no device is connected. -/
def default : DeviceList where
  devices := []
  connected := ∅
  stateCounter := 0
  outbox := []
  unlistedChanged := false

variable {P : Payloads} (list : DeviceList)

/-- `update_ready`. -/
def updateReady : Bool := !list.outbox.isEmpty || list.unlistedChanged

/-- `get_device`, listed or not. -/
def getDevice (id : DeviceId) : Option ConnectedDevice := list.connected[id]?

/-- Where a device is in the list. -/
def indexOf (id : DeviceId) : Option ℕ := list.devices.idxOf? id

/-- `devices`. -/
def allDevices : Exec (List ConnectedDevice) :=
  list.devices.mapM fun id => Exec.expect (list.getDevice id) "invariant"

/-- `device_at_index`. -/
def deviceAtIndex (index : ℕ) : Exec (Option ConnectedDevice) :=
  match list.devices[index]? with
  | none => return none
  | some id => do
      let device ← Exec.expect (list.getDevice id) "invariant"
      return some device

/-- Read-only snapshot of the current state. `order` is that of the hash map. -/
def state (order : HashOrder ConnectedDevice) : Exec DeviceListState := do
  let devices ← list.allDevices
  return {
    devices
    unlisted := (order.order list.connected.values).filter fun device =>
      (list.indexOf device.id).isNone
    stateId := list.stateCounter }

/-- `take_update`. The counter goes up once the update is made, so that the next one has another id.
-/
def takeUpdate [Build] (order : HashOrder ConnectedDevice) :
    Exec (DeviceListUpdate × DeviceList) := do
  let taken := { list with outbox := [], unlistedChanged := false }
  let state ← taken.state order
  let update := { changes := list.outbox, state }
  if !update.changes.isEmpty || list.unlistedChanged then
    let stateCounter ← addU32 taken.stateCounter 1
    return (update, { taken with stateCounter })
  else return (update, taken)

/-- What is kept of a device. -/
def put (id : DeviceId) (device : ConnectedDevice) : DeviceList :=
  { list with connected := list.connected.insert id device }

/-- Queues a change; an index is a `u32` in it. -/
def push (kind : DeviceListChangeKind) (index : ℕ) (device : ConnectedDevice) : DeviceList :=
  { list with outbox := list.outbox ++ [{ kind, index := asU32 index, device }] }

/-- `append`, for a device that is kept but may not be listed. -/
def append (id : DeviceId) : Exec DeviceList :=
  match list.indexOf id with
  | some _ => return list
  | none => do
      let list := { list with devices := list.devices ++ [id] }
      let device ← Exec.expect (list.getDevice id) "invariant"
      return list.push .added (list.devices.length - 1) device

/-- What a device is when it connects. -/
def announced (id : DeviceId) (firmwareDigest : Sha256Digest)
    (latestFirmwareDigest : Option Sha256Digest) : ConnectedDevice :=
  let firmware := FirmwareVersion.new firmwareDigest
  { genuine := .unverified (genuineCheckFeature firmware)
    firmware
    latestFirmware := latestFirmwareDigest.map FirmwareVersion.new
    name := none
    id
    recoveryMode := .off }

/-- `consume_manager_event`. -/
def consumeManagerEvent : DeviceChange P → Exec DeviceList
  | .connected id firmwareDigest latestFirmwareDigest =>
      return { list.put id (announced id firmwareDigest latestFirmwareDigest) with
        unlistedChanged := true }
  | .nameChange id name =>
      match list.indexOf id with
      | some index => do
          let device ← Exec.expect (list.getDevice id) "invariant"
          let device := { device with name := some name }
          return (list.put id device).push .named index device
      | none => return list
  | .needsName id => list.append id
  | .registered id name => do
      let device ← Exec.expect (list.getDevice id)
        "registered means connected already emitted"
      let renamed := { device with name := some name }
      match list.indexOf id with
      | some index =>
          if device.name.isSome then
            Exec.assert (device.name = some name)
              "we should have got a renamed event if they were different"
            return list
          else
            -- the device had no name and now it has been named
            return (list.put id renamed).push .named index renamed
      | none => (list.put id renamed).append id
  | .disconnected id => do
      let device := list.getDevice id
      let list := { list with connected := list.connected.erase id }
      match list.indexOf id with
      | some index =>
          let device ← Exec.expect device "invariant"
          return { list with devices := list.devices.eraseIdx index }.push .removed index device
      | none => return { list with unlistedChanged := list.unlistedChanged || device.isSome }
  | .appMessage _ _ => return list
  | .genuineCheck _ _ => return list

/-- The genuine check's latest status for `id`. Ignored unless `id` is connected. -/
def setGenuine (id : DeviceId) (status : Genuine.GenuineStatus) : DeviceList :=
  match list.getDevice id with
  | none => list
  | some device =>
      let device := { device with genuine := .fromCoordinator status }
      let list := list.put id device
      match list.indexOf id with
      | some index => list.push .refreshed index device
      | none => { list with unlistedChanged := true }

/-- `set_recovery_mode`, for a device that is connected. -/
def setRecoveryMode (id : DeviceId) (recoveryMode : RecoveryMode) : Exec DeviceList :=
  match list.getDevice id with
  | none => return list
  | some device =>
      if device.recoveryMode ≠ recoveryMode then do
        let device := { device with recoveryMode }
        let list := list.put id device
        let index ← Exec.expect (list.indexOf id) "invariant"
        return list.push .recoveryMode index device
      else return list

/-! ### Lookups -/

variable {list} {list' list'' : DeviceList} {id : DeviceId} {device : ConnectedDevice}
  {shown : List ConnectedDevice}

/-- A device without an index is not listed. -/
theorem indexOf_eq_none_iff : list.indexOf id = none ↔ id ∉ list.devices :=
  List.idxOf?_eq_none_iff

/-- A device with an index is listed. -/
theorem mem_of_indexOf {index : ℕ} (h : list.indexOf id = some index) : id ∈ list.devices := by
  obtain ⟨hlt, hid, -⟩ := List.idxOf?_eq_some_iff.1 h
  rw [← hid]
  exact List.getElem_mem hlt

/-- An index is one of the list. -/
theorem lt_of_indexOf {index : ℕ} (h : list.indexOf id = some index) :
    index < list.devices.length := by
  obtain ⟨hlt, -, -⟩ := List.idxOf?_eq_some_iff.1 h
  exact hlt

/-- What is kept of connected devices. -/
theorem mem_connected_iff : id ∈ list.connected ↔ ∃ device, list.getDevice id = some device :=
  BTreeMap.mem_iff_getElem?

/-- Something new is kept of one device. -/
theorem getDevice_put (list : DeviceList) (id : DeviceId) (device : ConnectedDevice)
    (id' : DeviceId) :
    (list.put id device).getDevice id' = if id = id' then some device else list.getDevice id' :=
  BTreeMap.getElem?_insert list.connected id id' device

/-- What is new of a device is found. -/
theorem getDevice_put_self (list : DeviceList) (id : DeviceId) (device : ConnectedDevice) :
    (list.put id device).getDevice id = some device := by
  rw [getDevice_put, if_pos rfl]

/-- Of other devices nothing is new. -/
theorem getDevice_put_of_ne (device : ConnectedDevice) {id' : DeviceId} (h : id' ≠ id) :
    (list.put id device).getDevice id' = list.getDevice id' := by
  rw [getDevice_put, if_neg (Ne.symm h)]

/-- A device that is connected still is when something else is kept of it. -/
theorem mem_put_iff (h : list.getDevice id = some device) (device' : ConnectedDevice)
    (id' : DeviceId) : id' ∈ (list.put id device').connected ↔ id' ∈ list.connected := by
  refine BTreeMap.mem_insert.trans (or_iff_right_of_imp ?_)
  rintro rfl
  exact mem_connected_iff.2 ⟨device, h⟩

/-- **The devices** are returned as long as each in the list is connected. -/
theorem allDevices_eq_ret_iff :
    list.allDevices = .ret shown ↔ Shows list.devices list.getDevice shown := by
  rw [allDevices]
  generalize list.devices = ids
  induction ids generalizing shown with
  | nil =>
      rw [List.mapM_nil, Exec.pure_eq, Exec.ret.injEq, Shows, List.map_nil, eq_comm (b := shown),
        eq_comm (b := shown.map some), List.map_eq_nil_iff]
  | cons id ids ih =>
      rw [List.mapM_cons, Shows, List.map_cons]
      cases hid : list.getDevice id with
      | none => cases shown <;> simp
      | some device =>
          cases shown with
          | nil => simp [Exec.bind_eq_ret_iff]
          | cons device' shown =>
              rw [Exec.expect_some, Exec.ret_bind, Exec.bind_eq_ret_iff, List.map_cons,
                List.cons.injEq, Option.some.injEq, ← Shows, ← ih]
              constructor
              · rintro ⟨shown', hshown', h⟩
                obtain ⟨rfl, rfl⟩ := List.cons.inj (Exec.ret.inj h)
                exact ⟨rfl, hshown'⟩
              · rintro ⟨rfl, h⟩
                exact ⟨shown, h, rfl⟩

/-! ### What the list shows -/

/-- The list shows `shown`, each device once, and the indices of it are `u32`s. -/
structure Listing (list : DeviceList) (shown : List ConnectedDevice) : Prop where
  nodup : list.devices.Nodup
  shows : Shows list.devices list.getDevice shown
  short : list.devices.length ≤ u32Max + 1

/-- At first nothing is shown. -/
theorem listing_default : Listing default [] :=
  ⟨List.nodup_nil, Shows.nil _, Nat.zero_le _⟩

/-- **The list** that is sent whole is what is shown. -/
theorem Listing.allDevices (h : Listing list shown) : list.allDevices = .ret shown :=
  allDevices_eq_ret_iff.2 h.shows

/-- A device in the list is connected. -/
theorem Listing.getDevice (h : Listing list shown) (hid : id ∈ list.devices) :
    ∃ device, list.getDevice id = some device :=
  h.shows.exists_value hid

/-- An index in the list is the same as a `u32`. -/
theorem Listing.asU32_indexOf (h : Listing list shown) {index : ℕ}
    (hindex : list.indexOf id = some index) : asU32 index = index :=
  asU32_of_le (Nat.lt_succ_iff.1 ((lt_of_indexOf hindex).trans_le h.short))

/-- `list'` comes after `list`, and what was queued leads from what `list` shows to what `list'`
shows. -/
def Emits (list list' : DeviceList) : Prop :=
  ∃ changes, list'.outbox = list.outbox ++ changes ∧
    ∀ shown, Listing list shown → Listing list' (applyChanges shown changes)

/-- Nothing is queued. -/
theorem Emits.refl (list : DeviceList) : Emits list list :=
  ⟨[], (List.append_nil _).symm, fun _ h => h⟩

/-- What two steps queue, one after the other. -/
theorem Emits.trans (h : Emits list list') (h' : Emits list' list'') : Emits list list'' := by
  obtain ⟨changes, hchanges, hlisting⟩ := h
  obtain ⟨changes', hchanges', hlisting'⟩ := h'
  refine ⟨changes ++ changes', ?_, fun shown hshown => ?_⟩
  · rw [hchanges', hchanges, List.append_assoc]
  · rw [applyChanges_append]
    exact hlisting' _ (hlisting _ hshown)

/-- Nothing is queued, and nothing that is shown has changed. -/
theorem Emits.silent (hdevices : list'.devices = list.devices)
    (houtbox : list'.outbox = list.outbox)
    (hget : ∀ id ∈ list.devices, list'.getDevice id = list.getDevice id) : Emits list list' := by
  refine ⟨[], ?_, fun shown h => ?_⟩
  · rw [houtbox, List.append_nil]
  · refine ⟨?_, ?_, ?_⟩
    · rw [hdevices]
      exact h.nodup
    · rw [hdevices]
      exact h.shows.congr hget
    · rw [hdevices]
      exact h.short

/-- A device that is not in the list may change. -/
theorem Emits.put (hid : id ∉ list.devices) (device : ConnectedDevice) :
    Emits list (list.put id device) := by
  refine Emits.silent rfl rfl fun id' hid' => getDevice_put_of_ne device ?_
  rintro rfl
  exact hid hid'

/-- A device in the list changes, and its change is queued. -/
theorem Emits.replace {index : ℕ} (hindex : list.indexOf id = some index) (device : ConnectedDevice)
    {kind : DeviceListChangeKind} (hadded : kind ≠ .added) (hremoved : kind ≠ .removed) :
    Emits list ((list.put id device).push kind index device) := by
  refine ⟨[{ kind, index := asU32 index, device }], rfl, fun shown h => ?_⟩
  have hedit : DeviceListChange.edit { kind, index := asU32 index, device } =
      .replace index device := by
    rw [h.asU32_indexOf hindex]
    cases kind with
    | added => exact absurd rfl hadded
    | removed => exact absurd rfl hremoved
    | named | recoveryMode | refreshed => rfl
  rw [applyChanges, List.map_singleton, hedit, ListEdit.replay_singleton]
  exact ⟨h.nodup, h.shows.replace h.nodup hindex (getDevice_put_self list id device)
    fun id' hid' => getDevice_put_of_ne device hid', h.short⟩

/-- A device is added at the end. -/
theorem append_emits (hroom : id ∉ list.devices → list.devices.length ≤ u32Max)
    (h : list.append id = .ret list') : Emits list list' := by
  rw [append] at h
  cases hindex : list.indexOf id with
  | some index =>
      rw [hindex] at h
      obtain rfl := Exec.ret.inj h
      exact Emits.refl list
  | none =>
      rw [hindex] at h
      obtain ⟨device, hdevice, h⟩ := Exec.bind_eq_ret_iff.1 h
      obtain rfl := Exec.ret.inj h
      have hid := indexOf_eq_none_iff.1 hindex
      refine ⟨_, rfl, fun shown hshown => ?_⟩
      have hlength : asU32 ((list.devices ++ [id]).length - 1) = list.devices.length := by
        rw [List.length_append, List.length_singleton, Nat.add_sub_cancel]
        exact asU32_of_le (hroom hid)
      rw [applyChanges, List.map_singleton, hlength]
      refine ⟨?_, hshown.shows.insert (Exec.expect_eq_ret_iff.1 hdevice), ?_⟩
      · exact List.nodup_append.2 ⟨hshown.nodup, List.nodup_singleton id, by
          rintro a ha b hb rfl
          rw [List.mem_singleton.1 hb] at ha
          exact hid ha⟩
      · have hle := hroom hid
        have hlen : (list.devices ++ [id]).length = list.devices.length + 1 := by
          rw [List.length_append, List.length_singleton]
        show (list.devices ++ [id]).length ≤ u32Max + 1
        omega

/-- A device goes from the list, and this is queued. -/
theorem Emits.remove {index : ℕ} (hindex : list.indexOf id = some index)
    (device : ConnectedDevice) :
    Emits list
      ({ list with
        connected := list.connected.erase id
        devices := list.devices.eraseIdx index }.push .removed index device) := by
  refine ⟨[{ kind := .removed, index := asU32 index, device }], rfl, fun shown h => ?_⟩
  rw [applyChanges, List.map_singleton, ListEdit.replay_singleton, h.asU32_indexOf hindex]
  refine ⟨h.nodup.eraseIdx index, ?_, (List.length_eraseIdx_le _ _).trans h.short⟩
  refine h.shows.erase h.nodup hindex fun id' hid' => ?_
  exact (BTreeMap.getElem?_erase list.connected id id').trans (if_neg (Ne.symm hid'))

/-! ### Changes of the manager -/

/-- The devices that are connected after a change. -/
def presentAfter (change : DeviceChange P) (id : DeviceId) (before : Prop) : Prop :=
  match change with
  | .connected id' _ _ => id = id' ∨ before
  | .disconnected id' => id ≠ id' ∧ before
  | _ => before

/-- The condition on a change: who asks for a name is connected, and who is registered and has a
name in the list has the same one. -/
def Accepts (list : DeviceList) : DeviceChange P → Prop
  | .needsName id => id ∈ list.connected
  | .registered id name =>
      ∀ device, list.getDevice id = some device → id ∈ list.devices → device.name.isSome →
        device.name = some name
  | _ => True

/-- One more device has an index that is a `u32`. -/
def HasRoom (list : DeviceList) : DeviceChange P → Prop
  | .needsName id | .registered id _ => id ∉ list.devices → list.devices.length ≤ u32Max
  | _ => True

/-- A device can be listed if it is kept. -/
theorem append_returns_iff (h : Listing list shown) :
    (list.append id).Returns ↔ id ∈ list.connected := by
  rw [append, mem_connected_iff]
  cases hindex : list.indexOf id with
  | some index => exact iff_of_true (Exec.returns_ret _) (h.getDevice (mem_of_indexOf hindex))
  | none =>
      dsimp only
      rw [Exec.returns_bind]
      constructor
      · rintro ⟨device, hdevice, -⟩
        exact ⟨device, Exec.expect_eq_ret_iff.1 hdevice⟩
      · rintro ⟨device, hdevice⟩
        exact ⟨device, Exec.expect_eq_ret_iff.2 hdevice, Exec.returns_ret _⟩

/-- Listing a device changes nothing that is kept. -/
theorem append_connected (h : list.append id = .ret list') : list'.connected = list.connected := by
  rw [append] at h
  split at h
  · obtain rfl := Exec.ret.inj h
    rfl
  · obtain ⟨device, -, h⟩ := Exec.bind_eq_ret_iff.1 h
    obtain rfl := Exec.ret.inj h
    rfl

variable {change : DeviceChange P}

/-- **A change is taken in** just when it meets the condition, as long as devices are registered
while they are connected. -/
theorem consumeManagerEvent_returns_iff (h : Listing list shown)
    (hregistered : ∀ id name, change = .registered id name → id ∈ list.connected) :
    (list.consumeManagerEvent change).Returns ↔ list.Accepts change := by
  cases change with
  | connected | appMessage | genuineCheck => exact iff_of_true (Exec.returns_ret _) trivial
  | needsName id => exact append_returns_iff h
  | nameChange id name =>
      refine iff_of_true ?_ trivial
      rw [consumeManagerEvent]
      split
      · rename_i index hindex
        obtain ⟨device, hdevice⟩ := h.getDevice (mem_of_indexOf hindex)
        rw [hdevice, Exec.expect_some, Exec.ret_bind]
        exact Exec.returns_ret _
      · exact Exec.returns_ret _
  | disconnected id =>
      refine iff_of_true ?_ trivial
      rw [consumeManagerEvent]
      dsimp only
      split
      · rename_i index hindex
        obtain ⟨device, hdevice⟩ := h.getDevice (mem_of_indexOf hindex)
        rw [hdevice, Exec.expect_some, Exec.ret_bind]
        exact Exec.returns_ret _
      · exact Exec.returns_ret _
  | registered id name =>
      obtain ⟨device, hdevice⟩ := mem_connected_iff.1 (hregistered id name rfl)
      have haccepts : list.Accepts (.registered id name : DeviceChange P) ↔
          (id ∈ list.devices → device.name.isSome → device.name = some name) := by
        constructor
        · intro haccepts
          exact haccepts device hdevice
        · intro himp device' hdevice'
          rw [hdevice] at hdevice'
          obtain rfl := Option.some.inj hdevice'
          exact himp
      rw [haccepts, consumeManagerEvent, hdevice, Exec.expect_some, Exec.ret_bind]
      dsimp only
      cases hindex : list.indexOf id with
      | none =>
          -- the device is connected under its new name too, so it can be appended
          refine iff_of_true ?_ fun hid => absurd hid (indexOf_eq_none_iff.1 hindex)
          have hput := Emits.put (indexOf_eq_none_iff.1 hindex) { device with name := some name }
          obtain ⟨changes, -, hlisting⟩ := hput
          exact (append_returns_iff (hlisting shown h)).2
            (mem_connected_iff.2 ⟨_, getDevice_put_self list id _⟩)
      | some index =>
          dsimp only
          split
          · rename_i hname
            rw [Exec.returns_bind]
            constructor
            · rintro ⟨u, hu, -⟩ - -
              exact Exec.assert_eq_ret_iff.1 hu
            · intro himp
              have heq := himp (mem_of_indexOf hindex) hname
              exact ⟨(), Exec.assert_of _ heq, Exec.returns_ret _⟩
          · rename_i hname
            exact iff_of_true (Exec.returns_ret _) fun _ h => absurd h hname

/-- **What a change leads to.** A device connects while it is not in the list. -/
theorem consumeManagerEvent_emits (hroom : list.HasRoom change)
    (hconnected : ∀ id digest latest, change = .connected id digest latest → id ∉ list.devices)
    (h : list.consumeManagerEvent change = .ret list') : Emits list list' := by
  cases change with
  | connected id digest latest =>
      obtain rfl := Exec.ret.inj h
      have hput := Emits.put (hconnected id digest latest rfl) (announced id digest latest)
      exact hput.trans (Emits.silent rfl rfl fun _ _ => rfl)
  | appMessage | genuineCheck =>
      obtain rfl := Exec.ret.inj h
      exact Emits.refl list
  | needsName id => exact append_emits hroom h
  | nameChange id name =>
      rw [consumeManagerEvent] at h
      split at h
      · rename_i index hindex
        obtain ⟨device, -, h⟩ := Exec.bind_eq_ret_iff.1 h
        obtain rfl := Exec.ret.inj h
        exact Emits.replace hindex _ nofun nofun
      · obtain rfl := Exec.ret.inj h
        exact Emits.refl list
  | disconnected id =>
      rw [consumeManagerEvent] at h
      dsimp only at h
      split at h
      · rename_i index hindex
        have hstood : list.indexOf id = some index := hindex
        obtain ⟨device, -, h⟩ := Exec.bind_eq_ret_iff.1 h
        obtain rfl := Exec.ret.inj h
        exact Emits.remove hstood device
      · rename_i hindex
        obtain rfl := Exec.ret.inj h
        refine Emits.silent rfl rfl fun id' hid' => ?_
        refine (BTreeMap.getElem?_erase list.connected id id').trans (if_neg ?_)
        rintro rfl
        exact indexOf_eq_none_iff.1 hindex hid'
  | registered id name =>
      rw [consumeManagerEvent] at h
      obtain ⟨device, -, h⟩ := Exec.bind_eq_ret_iff.1 h
      dsimp only at h
      split at h
      · rename_i index hindex
        split at h
        · obtain ⟨u, -, h⟩ := Exec.bind_eq_ret_iff.1 h
          obtain rfl := Exec.ret.inj h
          exact Emits.refl list
        · obtain rfl := Exec.ret.inj h
          exact Emits.replace hindex _ nofun nofun
      · rename_i hindex
        exact (Emits.put (indexOf_eq_none_iff.1 hindex) _).trans (append_emits hroom h)

/-- Who is connected after a change. -/
theorem mem_connected_consumeManagerEvent (h : list.consumeManagerEvent change = .ret list')
    (id : DeviceId) : id ∈ list'.connected ↔ presentAfter change id (id ∈ list.connected) := by
  cases change with
  | connected id' digest latest =>
      obtain rfl := Exec.ret.inj h
      exact BTreeMap.mem_insert
  | appMessage | genuineCheck =>
      obtain rfl := Exec.ret.inj h
      exact Iff.rfl
  | needsName id' =>
      rw [append_connected h]
      exact Iff.rfl
  | nameChange id' name =>
      rw [consumeManagerEvent] at h
      split at h
      · obtain ⟨device, hdevice, h⟩ := Exec.bind_eq_ret_iff.1 h
        obtain rfl := Exec.ret.inj h
        exact mem_put_iff (Exec.expect_eq_ret_iff.1 hdevice) _ id
      · obtain rfl := Exec.ret.inj h
        exact Iff.rfl
  | disconnected id' =>
      rw [consumeManagerEvent] at h
      dsimp only at h
      split at h
      · obtain ⟨device, -, h⟩ := Exec.bind_eq_ret_iff.1 h
        obtain rfl := Exec.ret.inj h
        exact BTreeMap.mem_erase
      · obtain rfl := Exec.ret.inj h
        exact BTreeMap.mem_erase
  | registered id' name =>
      rw [consumeManagerEvent] at h
      obtain ⟨device, hdevice, h⟩ := Exec.bind_eq_ret_iff.1 h
      have hput := mem_put_iff (Exec.expect_eq_ret_iff.1 hdevice) { device with name := some name }
      dsimp only at h
      split at h
      · split at h
        · obtain ⟨u, -, h⟩ := Exec.bind_eq_ret_iff.1 h
          obtain rfl := Exec.ret.inj h
          exact Iff.rfl
        · obtain rfl := Exec.ret.inj h
          exact hput id
      · rw [append_connected h]
        exact hput id

/-! ### The other calls -/

/-- A new status is queued for a device that is listed. -/
theorem setGenuine_emits (list : DeviceList) (id : DeviceId) (status : Genuine.GenuineStatus) :
    Emits list (list.setGenuine id status) := by
  rw [setGenuine]
  split
  · exact Emits.refl list
  · dsimp only
    split
    · rename_i index hindex
      have hstands : list.indexOf id = some index := hindex
      exact Emits.replace hstands _ nofun nofun
    · rename_i hindex
      have hunlisted : id ∉ list.devices := indexOf_eq_none_iff.1 hindex
      exact (Emits.put hunlisted _).trans (Emits.silent rfl rfl fun _ _ => rfl)

/-- It connects nothing. -/
theorem mem_connected_setGenuine (list : DeviceList) (id : DeviceId)
    (status : Genuine.GenuineStatus) (id' : DeviceId) :
    id' ∈ (list.setGenuine id status).connected ↔ id' ∈ list.connected := by
  rw [setGenuine]
  split
  · exact Iff.rfl
  · rename_i device hdevice
    have hput := mem_put_iff hdevice { device with genuine := .fromCoordinator status } id'
    dsimp only
    split
    · exact hput
    · exact hput

/-- The condition on a recovery mode: a device it changes is in the list. -/
def AllowsRecoveryMode (list : DeviceList) (id : DeviceId) (recoveryMode : RecoveryMode) : Prop :=
  ∀ device, list.getDevice id = some device → device.recoveryMode ≠ recoveryMode →
    id ∈ list.devices

/-- **A recovery mode is set** just when it meets the condition. -/
theorem setRecoveryMode_returns_iff {recoveryMode : RecoveryMode} :
    (list.setRecoveryMode id recoveryMode).Returns ↔ list.AllowsRecoveryMode id recoveryMode := by
  rw [setRecoveryMode]
  split
  · rename_i hdevice
    refine iff_of_true (Exec.returns_ret _) fun device h => ?_
    rw [hdevice] at h
    cases h
  · rename_i device hdevice
    have hallows : list.AllowsRecoveryMode id recoveryMode ↔
        (device.recoveryMode ≠ recoveryMode → id ∈ list.devices) := by
      constructor
      · intro hallows
        exact hallows device hdevice
      · intro himp device' hdevice'
        rw [hdevice] at hdevice'
        obtain rfl := Option.some.inj hdevice'
        exact himp
    rw [hallows]
    split
    · rename_i hne
      rw [Exec.returns_bind]
      constructor
      · rintro ⟨index, hindex, -⟩ -
        exact mem_of_indexOf (Exec.expect_eq_ret_iff.1 hindex)
      · intro himp
        obtain ⟨index, hindex⟩ := Option.isSome_iff_exists.1 (List.isSome_idxOf?.2 (himp hne))
        exact ⟨index, Exec.expect_eq_ret_iff.2 hindex, Exec.returns_ret _⟩
    · rename_i heq
      exact iff_of_true (Exec.returns_ret _) fun hne => absurd hne heq

/-- A new recovery mode is queued. -/
theorem setRecoveryMode_emits {recoveryMode : RecoveryMode}
    (h : list.setRecoveryMode id recoveryMode = .ret list') : Emits list list' := by
  rw [setRecoveryMode] at h
  split at h
  · obtain rfl := Exec.ret.inj h
    exact Emits.refl list
  · split at h
    · obtain ⟨index, hindex, h⟩ := Exec.bind_eq_ret_iff.1 h
      obtain rfl := Exec.ret.inj h
      have hstands : list.indexOf id = some index := Exec.expect_eq_ret_iff.1 hindex
      exact Emits.replace hstands _ nofun nofun
    · obtain rfl := Exec.ret.inj h
      exact Emits.refl list

/-- It connects nothing. -/
theorem mem_connected_setRecoveryMode {recoveryMode : RecoveryMode}
    (h : list.setRecoveryMode id recoveryMode = .ret list') (id' : DeviceId) :
    id' ∈ list'.connected ↔ id' ∈ list.connected := by
  rw [setRecoveryMode] at h
  split at h
  · obtain rfl := Exec.ret.inj h
    exact Iff.rfl
  · rename_i device hdevice
    split at h
    · obtain ⟨index, -, h⟩ := Exec.bind_eq_ret_iff.1 h
      obtain rfl := Exec.ret.inj h
      exact mem_put_iff hdevice { device with recoveryMode } id'
    · obtain rfl := Exec.ret.inj h
      exact Iff.rfl

/-- A snapshot holds what the list shows. -/
theorem state_eq_ret (h : Listing list shown) (order : HashOrder ConnectedDevice) :
    ∃ snapshot, list.state order = .ret snapshot ∧ snapshot.devices = shown := by
  rw [state, h.allDevices, Exec.ret_bind]
  exact ⟨_, rfl, rfl⟩

/-- A listed device is kept. -/
theorem deviceAtIndex_returns (h : Listing list shown) (index : ℕ) :
    (list.deviceAtIndex index).Returns := by
  rw [deviceAtIndex]
  split
  · exact Exec.returns_ret _
  · rename_i id hid
    obtain ⟨device, hdevice⟩ := h.getDevice (List.mem_of_getElem? hid)
    rw [hdevice, Exec.expect_some, Exec.ret_bind]
    exact Exec.returns_ret _

variable [Build]

/-- A sum returns unless it overflows in a build that looks for it. -/
theorem addU32_returns_iff {a b : ℕ} :
    (addU32 a b).Returns ↔ (Build.checks = true → a + b ≤ u32Max) := by
  rw [addU32]
  split
  · rename_i hle
    exact iff_of_true (Exec.returns_ret _) fun _ => hle
  split
  · rename_i hlt hchecks
    refine iff_of_false (Exec.not_returns_panic _) fun h => hlt (h hchecks)
  · rename_i hchecks
    exact iff_of_true (Exec.returns_ret _) fun h => absurd h hchecks

/-- The condition on an update: the counter does not overflow where a build looks for it. -/
def AllowsUpdate (list : DeviceList) : Prop :=
  Build.checks = true → list.updateReady = true → list.stateCounter < u32Max

/-- What an update takes: everything that was queued. -/
structure Taken (list : DeviceList) (shown : List ConnectedDevice) (update : DeviceListUpdate)
    (list' : DeviceList) : Prop where
  changes : update.changes = list.outbox
  state : update.state.devices = shown
  devices : list'.devices = list.devices
  connected : list'.connected = list.connected
  outbox : list'.outbox = []

omit [Build] in
/-- Taking an update changes nothing that is shown. -/
theorem Taken.listing {update : DeviceListUpdate} (h : Taken list shown update list')
    (hlisting : Listing list shown) : Listing list' shown := by
  obtain ⟨-, -, hdevices, hconnected, -⟩ := h
  refine ⟨?_, ?_, ?_⟩
  · rw [hdevices]
    exact hlisting.nodup
  · rw [hdevices]
    refine hlisting.shows.congr fun id _ => ?_
    rw [getDevice, getDevice, hconnected]
  · rw [hdevices]
    exact hlisting.short

/-- **An update is taken** just when it meets the condition. -/
theorem takeUpdate_returns_iff (h : Listing list shown) (order : HashOrder ConnectedDevice) :
    (list.takeUpdate order).Returns ↔ list.AllowsUpdate := by
  have hlisting : Listing { list with outbox := [], unlistedChanged := false } shown :=
    ⟨h.nodup, h.shows, h.short⟩
  obtain ⟨snapshot, hsnapshot, -⟩ := state_eq_ret hlisting order
  rw [takeUpdate, hsnapshot, Exec.ret_bind]
  dsimp only
  rw [AllowsUpdate, updateReady]
  split
  · rename_i hready
    have hadd := addU32_returns_iff (a := list.stateCounter) (b := 1)
    rw [Exec.returns_bind]
    constructor
    · rintro ⟨counter, hcounter, -⟩ hchecks -
      exact hadd.1 ⟨counter, hcounter⟩ hchecks
    · intro himp
      obtain ⟨counter, hcounter⟩ := hadd.2 fun hchecks => himp hchecks hready
      exact ⟨counter, hcounter, Exec.returns_ret _⟩
  · rename_i hready
    exact iff_of_true (Exec.returns_ret _) fun _ h => absurd h hready

/-- What is taken is what was queued. -/
theorem takeUpdate_taken (h : Listing list shown) {order : HashOrder ConnectedDevice}
    {update : DeviceListUpdate} (htake : list.takeUpdate order = .ret (update, list')) :
    Taken list shown update list' := by
  have hlisting : Listing { list with outbox := [], unlistedChanged := false } shown :=
    ⟨h.nodup, h.shows, h.short⟩
  obtain ⟨snapshot, hsnapshot, hdevices⟩ := state_eq_ret hlisting order
  rw [takeUpdate, hsnapshot, Exec.ret_bind] at htake
  dsimp only at htake
  split at htake
  · obtain ⟨counter, -, htake⟩ := Exec.bind_eq_ret_iff.1 htake
    cases htake
    exact ⟨rfl, hdevices, rfl, rfl, rfl⟩
  · cases htake
    exact ⟨rfl, hdevices, rfl, rfl, rfl⟩

end DeviceList

end Frostsnap.App
