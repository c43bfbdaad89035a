import Frostsnap.Comms.UsbSerialManager

/-!
# The books of the USB serial manager

The three collections of devices agree after any events: a device is in the list of the port it is
mapped to and in no other, no list has a device twice, and registered devices are connected. For
every device the changes that are handed on lead from unconnected to connected, perhaps to
registered, and back. What a frame says is handed on for the device it claims to be from; nothing
asks whether that device is connected.

## Main results

* `Bookkept.handle`, `handle_follows`: one event.
* `bookkeeping`: any run.
-/

namespace Frostsnap.Usb

variable {P : Payloads}

/-! ### Definitions -/

/-- Where a device stands between its changes. -/
inductive Link where
  | disconnected
  | connected
  | registered
  deriving DecidableEq

/-- A change of a device: unconnected devices connect, connected ones are registered, and both
disconnect. -/
def Link.change : Link → DeviceChange P → Option Link
  | .disconnected, .connected _ _ _ => some .connected
  | _, .connected _ _ _ => none
  | .connected, .registered _ _ => some .registered
  | _, .registered _ _ => none
  | .disconnected, .disconnected _ => none
  | _, .disconnected _ => some .disconnected
  | link, _ => some link

/-- A change as one device sees it. -/
def Link.next (id : DeviceId) (link : Link) (change : DeviceChange P) : Option Link :=
  if change.device = id then link.change change else some link

/-- Where a device stands after some changes, if they come in the right order. -/
def Link.after (id : DeviceId) (link : Link) (changes : List (DeviceChange P)) : Option Link :=
  changes.foldlM (Link.next id) link

/-- Name changes and app messages of a device come only while it is connected. -/
def TrafficBetween (changes : List (DeviceChange P)) : Prop :=
  ∀ (before : List (DeviceChange P)) (change : DeviceChange P) (after : List (DeviceChange P)),
    changes = before ++ change :: after → change.IsTraffic →
    ∃ link, Link.after change.device .disconnected before = some link ∧ link ≠ .disconnected

namespace UsbSerialManager

variable (m : UsbSerialManager P)

/-- The devices on a port. -/
def devicesOn (port : Port) : List DeviceId :=
  m.reverseDevicePorts[port]?.getD []

/-- The port of a device. -/
def portOf (id : DeviceId) : Option Port :=
  m.devicePorts[id]?.map DevicePort.port

/-- Where a device stands. -/
def link (id : DeviceId) : Link :=
  if id ∈ m.devicePorts then
    if id ∈ m.registeredDevices then .registered else .connected
  else .disconnected

end UsbSerialManager

/-- The collections of devices agree. -/
structure Bookkept (m : UsbSerialManager P) : Prop where
  inverse : ∀ (port : Port) (id : DeviceId), id ∈ m.devicesOn port ↔ m.portOf id = some port
  nodup : ∀ port : Port, (m.devicesOn port).Nodup
  registered : ∀ id ∈ m.registeredDevices, id ∈ m.devicePorts

/-- The device a name change or an app message would be from. -/
def SerialEvent.sender : SerialEvent P → Option DeviceId
  | .readFrame _ (.ok (some (.message message))) =>
      match message.body with
      | .ok (.setName _) | .ok (.core _) | .ok .legacyAckUpgradeMode | .ok (.misc _) =>
          some message.from_
      | _ => none
  | _ => none

/-- Names and app messages are read only from devices that are connected. -/
def SendersConnected (m : UsbSerialManager P) : List (SerialEvent P) → Prop
  | [] => True
  | event :: events =>
      (∀ id, event.sender = some id → id ∈ m.devicePorts) ∧
        SendersConnected (m.handle event).manager events

/-! ### Changes in order -/

/-- Changes in two goes. -/
theorem Link.after_append (id : DeviceId) (link : Link) (changes changes' : List (DeviceChange P)) :
    Link.after id link (changes ++ changes') =
      (Link.after id link changes).bind (Link.after id · changes') :=
  List.foldlM_append

/-- No change moves no device. -/
@[simp] theorem Link.after_nil (id : DeviceId) (link : Link) :
    Link.after id link ([] : List (DeviceChange P)) = some link := rfl

/-- One change is a step. -/
@[simp] theorem Link.after_singleton (id : DeviceId) (link : Link) (change : DeviceChange P) :
    Link.after id link [change] = Link.next id link change := by
  simp only [Link.after, List.foldlM_cons, List.foldlM_nil, Option.pure_def, Option.bind_eq_bind,
    Option.bind_fun_some]

/-- A change of another device is no step of this one. -/
theorem Link.next_of_ne {id : DeviceId} {link : Link} {change : DeviceChange P}
    (h : change.device ≠ id) : Link.next id link change = some link := if_neg h

/-- A change moves its own device. -/
theorem Link.next_device (link : Link) (change : DeviceChange P) :
    Link.next change.device link change = link.change change := if_pos rfl

/-- Whatever is connected may disconnect. -/
theorem Link.next_disconnected (id : DeviceId) {link : Link} (h : link ≠ .disconnected) :
    Link.next id link (.disconnected id : DeviceChange P) = some .disconnected := by
  refine (Link.next_device link (.disconnected id)).trans ?_
  cases link with
  | disconnected => exact absurd rfl h
  | connected | registered => rfl

/-- What other devices do does not move a device. -/
theorem Link.after_of_ne {id : DeviceId} {changes : List (DeviceChange P)}
    (h : ∀ change ∈ changes, change.device ≠ id) (link : Link) :
    Link.after id link changes = some link := by
  induction changes with
  | nil => rfl
  | cons change changes ih =>
      rw [List.forall_mem_cons] at h
      rw [Link.after, List.foldlM_cons, Link.next_of_ne h.1]
      exact ih h.2

/-- The changes of a poll lead every device from where it stood to where it stands. -/
def Follows (m : UsbSerialManager P) (p : Polling P) : Prop :=
  ∀ id, Link.after id (m.link id) p.changes = some (p.manager.link id)

variable {m m' : UsbSerialManager P} {p q : Polling P}

/-- Nothing is handed on where no device moves. -/
theorem Follows.quietly (h : ∀ id, m'.link id = m.link id) : Follows m m'.quietly :=
  fun id => congrArg some (h id).symm

/-- What two parts hand on, one after the other. -/
theorem Follows.andThen (hp : Follows m p) (hq : Follows p.manager q) :
    Follows m (p.andThen q) := by
  intro id
  have hafter := Link.after_append id (m.link id) p.changes q.changes
  rw [hp id] at hafter
  exact hafter.trans (hq id)

/-- One more change. -/
theorem Follows.push {change : DeviceChange P} (hp : Follows m p)
    (hnext : ∀ id, Link.next id (p.manager.link id) change = some (m'.link id)) :
    Follows m { manager := m', changes := p.changes ++ [change] } := by
  intro id
  have hafter := Link.after_append id (m.link id) p.changes [change]
  rw [hp id, Option.bind_some, Link.after_singleton] at hafter
  exact hafter.trans (hnext id)

/-- Nothing that a device's standing depends on has changed. -/
structure SameDevices (m m' : UsbSerialManager P) : Prop where
  devicePorts : m'.devicePorts = m.devicePorts
  reverseDevicePorts : m'.reverseDevicePorts = m.reverseDevicePorts
  registeredDevices : m'.registeredDevices = m.registeredDevices

/-- Then every device stands where it did. -/
theorem SameDevices.link (h : SameDevices m m') (id : DeviceId) : m'.link id = m.link id := by
  simp only [UsbSerialManager.link, h.devicePorts, h.registeredDevices]

/-- Then the collections agree as they did. -/
theorem SameDevices.bookkept (h : SameDevices m m') (hm : Bookkept m) : Bookkept m' := by
  obtain ⟨hports, hreverse, hregistered⟩ := h
  refine ⟨fun port id => ?_, fun port => ?_, fun id hid => ?_⟩
  · have hinverse := hm.inverse port id
    simpa only [UsbSerialManager.devicesOn, UsbSerialManager.portOf, hreverse, hports]
      using hinverse
  · have hnodup := hm.nodup port
    simpa only [UsbSerialManager.devicesOn, hreverse] using hnodup
  · rw [hports]
    rw [hregistered] at hid
    exact hm.registered id hid

/-! ### Devices that go -/

/-- The list of a port is left to the caller. -/
theorem Polling.dropDevice_reverse (p : Polling P) (id : DeviceId) :
    (p.dropDevice id).manager.reverseDevicePorts = p.manager.reverseDevicePorts := by
  unfold Polling.dropDevice
  dsimp only
  split <;> rfl

/-- The port of the device is forgotten. -/
theorem Polling.dropDevice_devicePorts (p : Polling P) (id : DeviceId) :
    (p.dropDevice id).manager.devicePorts = p.manager.devicePorts.erase id := by
  unfold Polling.dropDevice
  dsimp only
  split
  · rfl
  · rename_i hid
    exact (BTreeMap.erase_of_getElem? (BTreeMap.not_mem_iff_getElem?.1 hid)).symm

/-- So is its registration. -/
theorem Polling.dropDevice_registered (p : Polling P) (id : DeviceId) :
    (p.dropDevice id).manager.registeredDevices = p.manager.registeredDevices.erase id := by
  unfold Polling.dropDevice
  dsimp only
  split <;> rfl

/-- A device without a port is not connected. -/
theorem link_eq_disconnected_iff {id : DeviceId} :
    m.link id = .disconnected ↔ id ∉ m.devicePorts := by
  rw [UsbSerialManager.link]
  split
  · rename_i hid
    refine iff_of_false ?_ (not_not.2 hid)
    split <;> exact Link.noConfusion
  · rename_i hid
    exact iff_of_true rfl hid

/-- Where a device stands once one has gone. -/
theorem link_erase {id : DeviceId} (hports : m'.devicePorts = m.devicePorts.erase id)
    (hregistered : m'.registeredDevices = m.registeredDevices.erase id) (id' : DeviceId) :
    m'.link id' = if id' = id then .disconnected else m.link id' := by
  simp only [UsbSerialManager.link, hports, hregistered, BTreeMap.mem_erase, BTreeSet.mem_erase]
  by_cases h : id' = id
  · simp only [h, ne_eq, not_true, false_and, if_false, if_true]
  · simp only [h, ne_eq, not_false_eq_true, true_and, if_false]

/-- A device that is connected disconnects. -/
theorem next_disconnected {id : DeviceId} (hid : id ∈ m.devicePorts)
    (hlink : ∀ id', m'.link id' = if id' = id then .disconnected else m.link id')
    (id' : DeviceId) :
    Link.next id' (m.link id') (.disconnected id : DeviceChange P) = some (m'.link id') := by
  rw [hlink]
  by_cases h : id' = id
  · subst h
    rw [if_pos rfl]
    exact Link.next_disconnected id' fun hm => link_eq_disconnected_iff.1 hm hid
  · rw [if_neg h]
    exact Link.next_of_ne (Ne.symm h)

/-- A device that is dropped was connected, or nothing is handed on. -/
theorem Polling.dropDevice_follows (hp : Follows m p) (id : DeviceId) :
    Follows m (p.dropDevice id) := by
  have hlink := link_erase (p.dropDevice_devicePorts id) (p.dropDevice_registered id)
  by_cases hid : id ∈ p.manager.devicePorts
  · have hnext := next_disconnected hid hlink
    rw [Polling.dropDevice, if_pos hid] at hnext ⊢
    exact hp.push hnext
  · intro id'
    have hchanges : (p.dropDevice id).changes = p.changes := by
      rw [Polling.dropDevice, if_neg hid]
    rw [hchanges, hp id', hlink id']
    split
    · rename_i heq
      rw [heq, UsbSerialManager.link, if_neg hid]
    · rfl

/-- Dropping several devices hands them on one by one. -/
theorem Polling.foldl_dropDevice_follows (hp : Follows m p) (ids : List DeviceId) :
    Follows m (ids.foldl Polling.dropDevice p) := by
  induction ids generalizing p with
  | nil => exact hp
  | cons id ids ih => exact ih (dropDevice_follows hp id)

/-- The lists of the ports are left to the caller here too. -/
theorem Polling.foldl_dropDevice_reverse (p : Polling P) (ids : List DeviceId) :
    (ids.foldl Polling.dropDevice p).manager.reverseDevicePorts =
      p.manager.reverseDevicePorts := by
  induction ids generalizing p with
  | nil => rfl
  | cons id ids ih => rw [List.foldl_cons, ih, dropDevice_reverse]

/-- The ports of exactly these devices are forgotten. -/
theorem Polling.foldl_dropDevice_devicePorts (p : Polling P) (ids : List DeviceId)
    (id : DeviceId) :
    (ids.foldl Polling.dropDevice p).manager.devicePorts[id]? =
      if id ∈ ids then none else p.manager.devicePorts[id]? := by
  induction ids generalizing p with
  | nil => simp only [List.foldl_nil, List.not_mem_nil, if_false]
  | cons id' ids ih =>
      rw [List.foldl_cons, ih, dropDevice_devicePorts, BTreeMap.getElem?_erase]
      by_cases hmem : id ∈ ids
      · rw [if_pos hmem, if_pos (List.mem_cons_of_mem _ hmem)]
      · by_cases hid : id' = id
        · rw [if_neg hmem, if_pos hid, if_pos (hid ▸ List.mem_cons_self)]
        · rw [if_neg hmem, if_neg hid, if_neg (by simp [hmem, Ne.symm hid])]

/-- So are their registrations. -/
theorem Polling.mem_foldl_dropDevice_registered {p : Polling P} {ids : List DeviceId}
    {id : DeviceId} :
    id ∈ (ids.foldl Polling.dropDevice p).manager.registeredDevices ↔
      id ∉ ids ∧ id ∈ p.manager.registeredDevices := by
  induction ids generalizing p with
  | nil => simp only [List.foldl_nil, List.not_mem_nil, not_false_eq_true, true_and]
  | cons id' ids ih =>
      rw [List.foldl_cons, ih, dropDevice_registered, BTreeSet.mem_erase, List.mem_cons]
      tauto

/-- Popping devices that are connected, none of them twice, is dropping them. -/
theorem Polling.foldl_popDevice_eq {p : Polling P} {ids : List DeviceId} (hnodup : ids.Nodup)
    (hconnected : ∀ id ∈ ids, id ∈ p.manager.devicePorts) :
    ids.foldl Polling.popDevice p = ids.foldl Polling.dropDevice p := by
  induction ids generalizing p with
  | nil => rfl
  | cons id ids ih =>
      rw [List.nodup_cons] at hnodup
      have hhere : p.popDevice id = p.dropDevice id := by
        rw [Polling.dropDevice, if_pos (hconnected id List.mem_cons_self)]
        rfl
      rw [List.foldl_cons, List.foldl_cons, hhere]
      refine ih hnodup.2 fun id' hid' => ?_
      rw [dropDevice_devicePorts, BTreeMap.mem_erase]
      refine ⟨?_, hconnected id' (List.mem_cons_of_mem _ hid')⟩
      rintro rfl
      exact hnodup.1 hid'

/-- The devices `ids` of one port go, and `left` are left on it. -/
theorem Bookkept.of_drop (port : Port) {ids left : List DeviceId} (hm : Bookkept m)
    (hreverse : ∀ port', m'.devicesOn port' = if port' = port then left else m.devicesOn port')
    (hports : ∀ id, m'.devicePorts[id]? = if id ∈ ids then none else m.devicePorts[id]?)
    (hregistered : ∀ id, id ∈ m'.registeredDevices ↔ id ∉ ids ∧ id ∈ m.registeredDevices)
    (hsplit : ∀ id, id ∈ m.devicesOn port ↔ id ∈ left ∨ id ∈ ids) (hleft : left.Nodup)
    (hdisjoint : ∀ id ∈ left, id ∉ ids) : Bookkept m' where
  inverse port' id := by
    have hinverse := hm.inverse port' id
    have hinverse' := hm.inverse port id
    rw [hsplit] at hinverse'
    simp only [UsbSerialManager.portOf] at hinverse hinverse' ⊢
    rw [hreverse, hports]
    by_cases hid : id ∈ ids
    · rw [if_pos hid]
      have hport := hinverse'.1 (.inr hid)
      by_cases hport' : port' = port
      · rw [if_pos hport']
        simp only [Option.map_none, reduceCtorEq, iff_false]
        exact fun hleft => hdisjoint id hleft hid
      · rw [if_neg hport', hinverse, hport]
        simp only [Option.some.injEq, Option.map_none, reduceCtorEq, iff_false]
        exact fun heq => hport' heq.symm
    · rw [if_neg hid]
      by_cases hport' : port' = port
      · rw [if_pos hport', hport', ← hinverse']
        exact ⟨.inl, fun h => h.resolve_right hid⟩
      · rw [if_neg hport', hinverse]
  nodup port' := by
    rw [hreverse]
    split
    · exact hleft
    · exact hm.nodup port'
  registered id hid := by
    obtain ⟨hnot, hid⟩ := (hregistered id).1 hid
    have hmem := hm.registered id hid
    rw [BTreeMap.mem_iff_getElem?] at hmem ⊢
    rw [hports, if_neg hnot]
    exact hmem

/-! ### One event -/

/-- An event keeps the books, and hands on how every device came to stand where it does. -/
structure Keeps (m : UsbSerialManager P) (p : Polling P) : Prop where
  bookkept : Bookkept p.manager
  follows : Follows m p

/-- An event that is about no device. -/
theorem SameDevices.keeps (h : SameDevices m m') (hm : Bookkept m) : Keeps m m'.quietly :=
  ⟨h.bookkept hm, .quietly h.link⟩

/-- What an event does after something that moves no device. -/
theorem SameDevices.andKeeps (h : SameDevices m m') (hp : Keeps m' p) : Keeps m p := by
  refine ⟨hp.bookkept, fun id => ?_⟩
  rw [← h.link id]
  exact hp.follows id

/-- **A port that goes** takes all of its devices with it, and none of another port. -/
theorem disconnect_keeps (hm : Bookkept m) (port : Port) : Keeps m (m.disconnect port) := by
  unfold UsbSerialManager.disconnect
  dsimp only
  split
  · exact SameDevices.keeps ⟨rfl, rfl, rfl⟩ hm
  · rename_i ids hids
    have hon : m.devicesOn port = ids := by
      rw [UsbSerialManager.devicesOn, hids, Option.getD_some]
    constructor
    · refine hm.of_drop port (fun port' => ?_)
        (Polling.foldl_dropDevice_devicePorts _ ids)
        (fun id => Polling.mem_foldl_dropDevice_registered) (fun id => ?_) List.nodup_nil
        (fun id hid => absurd hid List.not_mem_nil)
      · rw [UsbSerialManager.devicesOn, Polling.foldl_dropDevice_reverse]
        show ((m.reverseDevicePorts.erase port)[port']?).getD [] = _
        rw [BTreeMap.getElem?_erase]
        by_cases hport : port = port'
        · rw [if_pos hport, if_pos hport.symm, Option.getD_none]
        · rw [if_neg hport, if_neg (Ne.symm hport), UsbSerialManager.devicesOn]
      · rw [hon]
        simp only [List.not_mem_nil, false_or]
    · refine Polling.foldl_dropDevice_follows ?_ ids
      exact Follows.quietly fun id => rfl

/-- **The devices behind one** go by its message, and it stays itself. -/
theorem disconnectDownstream_keeps (hm : Bookkept m) (port : Port) (from_ : DeviceId) :
    Keeps m (m.disconnectDownstream port from_) := by
  unfold UsbSerialManager.disconnectDownstream
  split
  · exact SameDevices.keeps ⟨rfl, rfl, rfl⟩ hm
  rename_i ids hids
  split
  · exact SameDevices.keeps ⟨rfl, rfl, rfl⟩ hm
  rename_i i _
  have hon : m.devicesOn port = ids := by
    rw [UsbSerialManager.devicesOn, hids, Option.getD_some]
  have hnodup : (ids.take (i + 1) ++ ids.drop (i + 1)).Nodup := by
    rw [List.take_append_drop, ← hon]
    exact hm.nodup port
  have hsplit : ∀ id, id ∈ ids ↔ id ∈ ids.take (i + 1) ∨ id ∈ (ids.drop (i + 1)).reverse := by
    intro id
    rw [List.mem_reverse, ← List.mem_append, List.take_append_drop]
  obtain ⟨htake, hdrop, hdisjoint⟩ := List.nodup_append.1 hnodup
  rw [Polling.foldl_popDevice_eq (List.nodup_reverse.2 hdrop)]
  · constructor
    · refine hm.of_drop port (fun port' => ?_) (Polling.foldl_dropDevice_devicePorts _ _)
        (fun id => Polling.mem_foldl_dropDevice_registered) (fun id => hon.symm ▸ hsplit id) htake
        (fun id hid hmem => hdisjoint id hid id (List.mem_reverse.1 hmem) rfl)
      rw [UsbSerialManager.devicesOn, Polling.foldl_dropDevice_reverse]
      show ((m.reverseDevicePorts.insert port _)[port']?).getD [] = _
      rw [BTreeMap.getElem?_insert]
      by_cases hport : port = port'
      · rw [if_pos hport, if_pos hport.symm, Option.getD_some]
      · rw [if_neg hport, if_neg (Ne.symm hport), UsbSerialManager.devicesOn]
    · refine Polling.foldl_dropDevice_follows ?_ _
      exact Follows.quietly fun id => rfl
  · intro id hid
    have hmem : id ∈ m.devicesOn port := by
      rw [hon, hsplit]
      exact .inr hid
    obtain ⟨device, hdevice, -⟩ := Option.map_eq_some_iff.1 ((hm.inverse port id).1 hmem)
    exact BTreeMap.mem_iff_getElem?.2 ⟨device, hdevice⟩

/-- A device goes to the end of a port's list, and is mapped to the port. -/
theorem Bookkept.of_announce {port : Port} {id : DeviceId} (hm : Bookkept m)
    (hreverse : ∀ port', m'.devicesOn port' =
      (m.devicesOn port').filter (· ≠ id) ++ if port' = port then [id] else [])
    (hports : ∀ id', m'.portOf id' = if id' = id then some port else m.portOf id')
    (hregistered : ∀ id' ∈ m'.registeredDevices, id' ∈ m'.devicePorts) : Bookkept m' where
  inverse port' id' := by
    rw [hreverse, hports, List.mem_append, List.mem_filter, hm.inverse, decide_eq_true_iff]
    by_cases hid : id' = id
    · rw [if_pos hid, hid]
      by_cases hport : port' = port
      · rw [if_pos hport, hport]
        simp only [List.mem_singleton, or_true]
      · rw [if_neg hport]
        simp only [ne_eq, not_true, and_false, List.not_mem_nil, or_self, Option.some.injEq,
          false_iff]
        exact fun heq => hport heq.symm
    · rw [if_neg hid]
      have hnot : id' ∉ if port' = port then [id] else [] := by
        split <;> simp [hid]
      simp only [ne_eq, hid, not_false_eq_true, and_true, hnot, or_false]
  nodup port' := by
    rw [hreverse]
    have hfilter := (hm.nodup port').filter (· ≠ id)
    split
    · refine List.nodup_append.2 ⟨hfilter, List.nodup_singleton id, fun a ha b hb => ?_⟩
      rw [List.mem_singleton.1 hb]
      simpa using (List.mem_filter.1 ha).2
    · rw [List.append_nil]
      exact hfilter
  registered := hregistered

/-- Nothing is taken out of a list that does not have it. -/
theorem filter_ne_eq_self {id : DeviceId} {ids : List DeviceId} (h : id ∉ ids) :
    ids.filter (· ≠ id) = ids := by
  refine List.filter_eq_self.2 fun id' hid' => ?_
  rw [decide_eq_true_iff]
  rintro rfl
  exact h hid'

/-- A device that was mapped to a port leaves the list of it, and no list has it any more. -/
theorem leavePort_devicesOn (hm : Bookkept m) {id : DeviceId} {port : Port}
    (hport : m.portOf id = some port) (port' : Port) :
    (m.leavePort port id).manager.devicesOn port' = (m.devicesOn port').filter (· ≠ id) := by
  show ((m.reverseDevicePorts.insert port _)[port']?).getD [] = _
  rw [BTreeMap.getElem?_insert]
  by_cases heq : port = port'
  · rw [if_pos heq, ← heq]
    rfl
  · rw [if_neg heq, filter_ne_eq_self]
    · rfl
    · rw [hm.inverse, hport, Option.some.injEq]
      exact heq

/-- An announcement: the device goes to the end of the list of its port, and is connected anew. -/
structure Announced (m : UsbSerialManager P) (port : Port) (id : DeviceId) (p : Polling P) :
    Prop where
  devicesOn : ∀ port', p.manager.devicesOn port' =
    (m.devicesOn port').filter (· ≠ id) ++ if port' = port then [id] else []
  devicePorts : ∃ device : DevicePort, device.port = port ∧
    p.manager.devicePorts = m.devicePorts.insert id device
  registeredDevices : p.manager.registeredDevices = m.registeredDevices.erase id
  changes : ∃ firmwareDigest latest, p.changes =
    (if id ∈ m.devicePorts then [.disconnected id] else []) ++ [.connected id firmwareDigest latest]

/-- What becomes of a port's list when a device is put at its end. -/
theorem getD_insert_append (reverse : BTreeMap Port (List DeviceId)) (port port' : Port)
    (id : DeviceId) :
    (reverse.insert port (reverse[port]?.getD [] ++ [id]))[port']?.getD [] =
      reverse[port']?.getD [] ++ if port' = port then [id] else [] := by
  rw [BTreeMap.getElem?_insert]
  by_cases hport : port = port'
  · rw [if_pos hport, if_pos hport.symm, hport, Option.getD_some]
  · rw [if_neg hport, if_neg (Ne.symm hport), List.append_nil]

/-- What an announcement comes to, of a new device or of one that was known. -/
theorem handleAnnounce_announced (hm : Bookkept m) (port : Port) (from_ : DeviceId)
    (firmwareDigest : Sha256Digest) :
    Announced m port from_ (m.handleAnnounce port from_ firmwareDigest) := by
  unfold UsbSerialManager.handleAnnounce
  cases hold : m.devicePorts[from_]? with
  | none =>
      have hnot : from_ ∉ m.devicePorts := BTreeMap.not_mem_iff_getElem?.2 hold
      refine ⟨fun port' => ?_, ⟨_, rfl, rfl⟩, ?_, _, _, by rw [if_neg hnot]; rfl⟩
      · have hfilter : (m.devicesOn port').filter (· ≠ from_) = m.devicesOn port' := by
          refine filter_ne_eq_self ?_
          rw [hm.inverse, UsbSerialManager.portOf, hold]
          exact nofun
        rw [hfilter]
        exact getD_insert_append m.reverseDevicePorts port port' from_
      · exact (BTreeSet.erase_of_not_mem fun hmem => hnot (hm.registered from_ hmem)).symm
  | some oldPort =>
      have hmem : from_ ∈ m.devicePorts := BTreeMap.mem_iff_getElem?.2 ⟨oldPort, hold⟩
      refine ⟨fun port' => ?_, ⟨_, rfl, rfl⟩, rfl, _, _, by rw [if_pos hmem]; rfl⟩
      have hport : m.portOf from_ = some oldPort.port := by
        rw [UsbSerialManager.portOf, hold, Option.map_some]
      rw [← leavePort_devicesOn hm hport]
      exact getD_insert_append _ port port' from_

/-- **An announcement** moves the device to its new port, so it is listed once. -/
theorem Announced.keeps (hm : Bookkept m) {port : Port} {id : DeviceId}
    (h : Announced m port id p) :
    Keeps m p := by
  obtain ⟨hreverse, ⟨device, rfl, hports⟩, hregistered, firmwareDigest, latest, hchanges⟩ := h
  constructor
  · refine hm.of_announce hreverse (fun id' => ?_) fun id' hid' => ?_
    · rw [UsbSerialManager.portOf, hports, BTreeMap.getElem?_insert]
      by_cases hid : id = id'
      · rw [if_pos hid, if_pos hid.symm, Option.map_some]
      · rw [if_neg hid, if_neg (Ne.symm hid), UsbSerialManager.portOf]
    · rw [hports, BTreeMap.mem_insert]
      rw [hregistered, BTreeSet.mem_erase] at hid'
      exact .inr (hm.registered id' hid'.2)
  · intro id'
    by_cases hid : id' = id
    · have hlink : p.manager.link id' = .connected := by
        rw [UsbSerialManager.link, hports, if_pos (BTreeMap.mem_insert.2 (.inl hid)), hregistered,
          if_neg fun hmem => (BTreeSet.mem_erase.1 hmem).1 hid]
      subst hid
      rw [hlink, hchanges, Link.after_append]
      by_cases hmem : id' ∈ m.devicePorts
      · rw [if_pos hmem, Link.after_singleton, Link.next_disconnected id'
          fun heq => link_eq_disconnected_iff.1 heq hmem, Option.bind_some, Link.after_singleton]
        exact Link.next_device .disconnected (.connected id' firmwareDigest latest)
      · rw [if_neg hmem, link_eq_disconnected_iff.2 hmem, Link.after_nil, Option.bind_some,
          Link.after_singleton]
        exact Link.next_device .disconnected (.connected id' firmwareDigest latest)
    · have hlink : p.manager.link id' = m.link id' := by
        simp only [UsbSerialManager.link, hports, hregistered, BTreeMap.mem_insert,
          BTreeSet.mem_erase, hid, false_or, ne_eq, not_false_eq_true, true_and]
      rw [hlink, hchanges]
      refine Link.after_of_ne (fun change hchange => ?_) (m.link id')
      have hdevice : change.device = id := by
        rcases List.mem_append.1 hchange with hchange | hchange
        · split at hchange
          · rw [List.mem_singleton.1 hchange]
            rfl
          · exact absurd hchange List.not_mem_nil
        · rw [List.mem_singleton.1 hchange]
          rfl
      rw [hdevice]
      exact Ne.symm hid

/-- A change that moves no device. -/
theorem tell_keeps (hm : Bookkept m) {change : DeviceChange P}
    (hchange : ∀ link : Link, link.change change = some link) :
    Keeps m { manager := m, changes := [change] } := by
  refine ⟨hm, fun id => ?_⟩
  rw [Link.after_singleton, Link.next]
  split
  · exact hchange (m.link id)
  · rfl

/-- A message, by what it is. -/
theorem receive_keeps (hm : Bookkept m) (port : Port) (message : DeviceSendMessage P) :
    Keeps m (m.receive port message) := by
  have hquiet : Keeps m m.quietly := SameDevices.keeps ⟨rfl, rfl, rfl⟩ hm
  obtain ⟨from_, body⟩ := message
  rcases body with _ | body
  · exact hquiet
  cases body with
  | announce firmwareDigest =>
      exact (handleAnnounce_announced hm port from_ firmwareDigest).keeps hm
  | disconnectDownstream => exact disconnectDownstream_keeps hm port from_
  | setName name =>
      dsimp only [UsbSerialManager.receive]
      split
      · exact hquiet
      · exact tell_keeps hm fun link => by cases link <;> rfl
  | needName | core | legacyAckUpgradeMode | misc | genuineCheck =>
      exact tell_keeps hm fun link => by cases link <;> rfl
  | debug | legacySignedChallenge => exact hquiet

/-- A device is registered once, and with a name. -/
theorem register_keeps (hm : Bookkept m) {id : DeviceId} (hid : id ∈ m.devicePorts) :
    Keeps m (m.register id) := by
  unfold UsbSerialManager.register
  split
  · exact SameDevices.keeps ⟨rfl, rfl, rfl⟩ hm
  rename_i hnot
  split
  · exact SameDevices.keeps ⟨rfl, rfl, rfl⟩ hm
  rename_i name _
  constructor
  · refine ⟨hm.inverse, hm.nodup, fun id' hid' => ?_⟩
    rcases BTreeSet.mem_insert.1 hid' with rfl | hid'
    · exact hid
    · exact hm.registered id' hid'
  · intro id'
    rw [Link.after_singleton]
    by_cases h : id = id'
    · subst h
      have hlink : m.link id = .connected := by
        rw [UsbSerialManager.link, if_pos hid, if_neg hnot]
      have hlink' : UsbSerialManager.link
          { m with registeredDevices := m.registeredDevices.insert id } id = .registered := by
        rw [UsbSerialManager.link, if_pos hid, if_pos (BTreeSet.mem_insert.2 (.inl rfl))]
      rw [hlink, hlink']
      exact Link.next_device .connected (.registered id name)
    · rw [Link.next_of_ne (show (DeviceChange.registered id name).device ≠ id' from h)]
      simp only [UsbSerialManager.link, BTreeSet.mem_insert, Ne.symm h, false_or]

/-- A port that is not ready has no devices yet. -/
theorem readMagic_keeps (hm : Bookkept m) (port : Port) (now : ℕ)
    (read : Except String (Option DeviceSupportedFeatures)) (written : Except String Unit) :
    Keeps m (m.readMagic port now read written) := by
  have hgone : ∀ m' : UsbSerialManager P, SameDevices m m' → Keeps m (m'.disconnect port) :=
    fun m' hsame => hsame.andKeeps (disconnect_keeps (hsame.bookkept hm) port)
  unfold UsbSerialManager.readMagic
  split
  · exact SameDevices.keeps ⟨rfl, rfl, rfl⟩ hm
  · dsimp only
    split
    · exact SameDevices.keeps ⟨rfl, rfl, rfl⟩ hm
    · split
      · exact SameDevices.keeps ⟨rfl, rfl, rfl⟩ hm
      · split
        · exact SameDevices.keeps ⟨rfl, rfl, rfl⟩ hm
        · exact hgone _ ⟨rfl, rfl, rfl⟩
    · exact hgone _ ⟨rfl, rfl, rfl⟩

/-- Nor has one that was just opened. -/
theorem openPort_keeps (hm : Bookkept m) (port : Port) (opened : Except PortOpenError Unit) :
    Keeps m (m.openPort port opened) := by
  unfold UsbSerialManager.openPort
  dsimp only
  split <;> exact SameDevices.keeps ⟨rfl, rfl, rfl⟩ hm

/-- A frame, or an error that closes its port. -/
theorem readFrame_keeps (hm : Bookkept m) (port : Port)
    (read : Except String (Option (ReceiveSerial P))) : Keeps m (m.readFrame port read) := by
  unfold UsbSerialManager.readFrame
  split
  · exact disconnect_keeps hm port
  · exact SameDevices.keeps ⟨rfl, rfl, rfl⟩ hm
  rename_i frame
  dsimp only
  have hsame : SameDevices m { m with ready := m.ready.modify port (·.received frame) } :=
    ⟨rfl, rfl, rfl⟩
  have hm' := hsame.bookkept hm
  cases frame with
  | magicBytes | reset => exact hsame.andKeeps (disconnect_keeps hm' port)
  | message message => exact hsame.andKeeps (receive_keeps hm' port message)
  | conch | unused => exact hsame.keeps hm

/-- Sending moves no device. -/
theorem sendNext_keeps (hm : Bookkept m) : Keeps m m.sendNext := by
  unfold UsbSerialManager.sendNext
  split <;> exact SameDevices.keeps ⟨rfl, rfl, rfl⟩ hm

/-- Unless it fails, which closes the port. -/
theorem pollSend_keeps (hm : Bookkept m) (port : Port) (message conch : Except String Unit) :
    Keeps m (m.pollSend port message conch) := by
  unfold UsbSerialManager.pollSend
  split
  · exact SameDevices.keeps ⟨rfl, rfl, rfl⟩ hm
  split
  · exact disconnect_keeps hm port
  · exact SameDevices.keeps ⟨rfl, rfl, rfl⟩ hm

/-- **One event** keeps the books. -/
theorem Bookkept.handle (hm : Bookkept m) (event : SerialEvent P) : Keeps m (m.handle event) := by
  cases event with
  | appear port => exact SameDevices.keeps ⟨rfl, rfl, rfl⟩ hm
  | disconnect port => exact disconnect_keeps hm port
  | openPort port opened => exact openPort_keeps hm port opened
  | readMagic port now read written => exact readMagic_keeps hm port now read written
  | readFrame port read => exact readFrame_keeps hm port read
  | register id =>
      dsimp only [UsbSerialManager.handle]
      split
      · rename_i hid
        exact register_keeps hm hid
      · exact SameDevices.keeps ⟨rfl, rfl, rfl⟩ hm
  | sendNext => exact sendNext_keeps hm
  | pollSend port message conch => exact pollSend_keeps hm port message conch
  | acceptDeviceName id name => exact SameDevices.keeps ⟨rfl, rfl, rfl⟩ hm
  | send message => exact SameDevices.keeps ⟨rfl, rfl, rfl⟩ hm

/-! ### Name changes and app messages -/

/-- No name change and no app message. -/
def NoTraffic (changes : List (DeviceChange P)) : Prop :=
  ∀ change ∈ changes, ¬ change.IsTraffic

/-- Nothing was handed on. -/
theorem noTraffic_nil : NoTraffic ([] : List (DeviceChange P)) :=
  fun _ hchange => absurd hchange List.not_mem_nil

/-- A change that is no traffic may come last. -/
theorem NoTraffic.append_singleton {changes : List (DeviceChange P)} {change : DeviceChange P}
    (h : NoTraffic changes) (hchange : ¬ change.IsTraffic) : NoTraffic (changes ++ [change]) := by
  intro change' hmem
  rcases List.mem_append.1 hmem with hmem | hmem
  · exact h change' hmem
  · rw [List.mem_singleton.1 hmem]
    exact hchange

/-- Devices that are dropped say nothing. -/
theorem Polling.foldl_dropDevice_noTraffic (hp : NoTraffic p.changes) (ids : List DeviceId) :
    NoTraffic (ids.foldl Polling.dropDevice p).changes := by
  induction ids generalizing p with
  | nil => exact hp
  | cons id ids ih =>
      refine ih ?_
      unfold dropDevice
      dsimp only
      split
      · exact hp.append_singleton fun h => h
      · exact hp

/-- Nor do those that are taken from the end of a list. -/
theorem Polling.foldl_popDevice_noTraffic (hp : NoTraffic p.changes) (ids : List DeviceId) :
    NoTraffic (ids.foldl Polling.popDevice p).changes := by
  induction ids generalizing p with
  | nil => exact hp
  | cons id ids ih => exact ih (hp.append_singleton fun h => h)

/-- Nor does a port that goes. -/
theorem disconnect_noTraffic (m : UsbSerialManager P) (port : Port) :
    NoTraffic (m.disconnect port).changes := by
  unfold UsbSerialManager.disconnect
  dsimp only
  split
  · exact noTraffic_nil
  · exact Polling.foldl_dropDevice_noTraffic noTraffic_nil _

/-- Nor do the devices behind one. -/
theorem disconnectDownstream_noTraffic (m : UsbSerialManager P) (port : Port) (from_ : DeviceId) :
    NoTraffic (m.disconnectDownstream port from_).changes := by
  unfold UsbSerialManager.disconnectDownstream
  split
  · exact noTraffic_nil
  split
  · exact noTraffic_nil
  · exact Polling.foldl_popDevice_noTraffic noTraffic_nil _

/-- An announcement is no name. -/
theorem handleAnnounce_noTraffic (m : UsbSerialManager P) (port : Port) (from_ : DeviceId)
    (firmwareDigest : Sha256Digest) :
    NoTraffic (m.handleAnnounce port from_ firmwareDigest).changes := by
  unfold UsbSerialManager.handleAnnounce
  dsimp only
  refine NoTraffic.append_singleton ?_ fun h => h
  split
  · exact noTraffic_nil
  · exact NoTraffic.append_singleton noTraffic_nil fun h => h

/-- An event hands on no name change and no app message, or one, for the device it claims to be
from, and nothing else. -/
inductive Says (event : SerialEvent P) (changes : List (DeviceChange P)) : Prop where
  | nothing (h : NoTraffic changes)
  | one (change : DeviceChange P) (h : changes = [change])
      (hsender : event.sender = some change.device)

/-- A message hands on a name or an app message of its sender alone. -/
theorem receive_says (m : UsbSerialManager P) (port : Port) (message : DeviceSendMessage P) :
    Says (.readFrame port (.ok (some (.message message)))) (m.receive port message).changes := by
  obtain ⟨from_, body⟩ := message
  rcases body with _ | body
  · exact .nothing noTraffic_nil
  cases body with
  | announce firmwareDigest => exact .nothing (handleAnnounce_noTraffic m port from_ firmwareDigest)
  | disconnectDownstream => exact .nothing (disconnectDownstream_noTraffic m port from_)
  | setName name =>
      dsimp only [UsbSerialManager.receive]
      split
      · exact .nothing noTraffic_nil
      · exact .one _ rfl rfl
  | core | legacyAckUpgradeMode | misc => exact .one _ rfl rfl
  | needName | genuineCheck =>
      exact .nothing (NoTraffic.append_singleton noTraffic_nil fun h => h)
  | debug | legacySignedChallenge => exact .nothing noTraffic_nil

/-- **Traffic comes from the sender** of the frame that was read. -/
theorem handle_says (m : UsbSerialManager P) (event : SerialEvent P) :
    Says event (m.handle event).changes := by
  cases event with
  | appear port | acceptDeviceName id name | send message => exact .nothing noTraffic_nil
  | disconnect port => exact .nothing (disconnect_noTraffic m port)
  | openPort port opened =>
      dsimp only [UsbSerialManager.handle, UsbSerialManager.openPort]
      split <;> exact .nothing noTraffic_nil
  | readMagic port now read written =>
      dsimp only [UsbSerialManager.handle, UsbSerialManager.readMagic]
      split
      · exact .nothing noTraffic_nil
      split
      · exact .nothing noTraffic_nil
      · split
        · exact .nothing noTraffic_nil
        split
        · exact .nothing noTraffic_nil
        · exact .nothing (disconnect_noTraffic _ port)
      · exact .nothing (disconnect_noTraffic _ port)
  | readFrame port read =>
      dsimp only [UsbSerialManager.handle]
      rcases read with _ | _ | frame
      · exact .nothing (disconnect_noTraffic m port)
      · exact .nothing noTraffic_nil
      cases frame with
      | magicBytes | reset => exact .nothing (disconnect_noTraffic _ port)
      | message message => exact receive_says _ port message
      | conch | unused => exact .nothing noTraffic_nil
  | register id =>
      dsimp only [UsbSerialManager.handle, UsbSerialManager.register]
      split
      · split
        · exact .nothing noTraffic_nil
        split
        · exact .nothing noTraffic_nil
        · exact .nothing (NoTraffic.append_singleton noTraffic_nil fun h => h)
      · exact .nothing noTraffic_nil
  | sendNext =>
      dsimp only [UsbSerialManager.handle, UsbSerialManager.sendNext]
      split <;> exact .nothing noTraffic_nil
  | pollSend port message conch =>
      dsimp only [UsbSerialManager.handle, UsbSerialManager.pollSend]
      split
      · exact .nothing noTraffic_nil
      split
      · exact .nothing (disconnect_noTraffic m port)
      · exact .nothing noTraffic_nil

/-- One event from a connected device, or without anything to tell, keeps name changes and app
messages between connections. -/
theorem TrafficBetween.handle {start : UsbSerialManager P}
    (hstart : ∀ id, start.link id = .disconnected)
    (hp : Keeps start p) (hbetween : TrafficBetween p.changes) {event : SerialEvent P}
    (hsender : ∀ id, event.sender = some id → id ∈ p.manager.devicePorts) :
    TrafficBetween (p.handle event).changes := by
  intro before change after hsplit htraffic
  have hlast : ∀ between, before = p.changes ++ between →
      (p.manager.handle event).changes = between ++ change :: after →
      ∃ link, Link.after change.device .disconnected before = some link ∧ link ≠ .disconnected := by
    intro between hbefore hnew
    cases handle_says p.manager event with
    | nothing h => exact absurd htraffic (h change (by rw [hnew]; simp))
    | one change' hone hchange' =>
        rw [hone] at hnew
        obtain rfl : between = [] := by
          cases between with
          | nil => rfl
          | cons _ _ => simp at hnew
        obtain rfl : change' = change := (List.cons.inj hnew).1
        rw [List.append_nil] at hbefore
        refine ⟨p.manager.link change'.device, ?_, fun hlink => ?_⟩
        · rw [hbefore, ← hp.follows change'.device, hstart]
        · exact link_eq_disconnected_iff.1 hlink (hsender _ hchange')
  have hsplit' : p.changes ++ (p.manager.handle event).changes = before ++ change :: after := hsplit
  rcases List.append_eq_append_iff.1 hsplit' with ⟨between, hbefore, hnew⟩ | ⟨between, hold, hnew⟩
  · exact hlast between hbefore hnew
  · cases between with
    | nil =>
        rw [List.append_nil] at hold
        rw [List.nil_append] at hnew
        exact hlast [] (by rw [hold, List.append_nil]) hnew.symm
    | cons change' between =>
        obtain ⟨rfl, -⟩ := List.cons.inj hnew
        exact hbetween before change between hold htraffic

/-! ### Runs -/

/-- At first there is no port and no device. -/
theorem bookkept_new (firmwareBin : Option ValidatedFirmwareBin) :
    Bookkept (UsbSerialManager.new firmwareBin : UsbSerialManager P) := by
  refine ⟨fun port id => ?_, fun port => ?_, fun id hid => ?_⟩
  · simp [UsbSerialManager.devicesOn, UsbSerialManager.portOf, UsbSerialManager.new]
  · simp [UsbSerialManager.devicesOn, UsbSerialManager.new]
  · exact absurd hid (by simp [UsbSerialManager.new])

/-- One more event. -/
theorem Keeps.handle (hp : Keeps m p) (event : SerialEvent P) : Keeps m (p.handle event) := by
  obtain ⟨hbookkept, hfollows⟩ := hp.bookkept.handle event
  exact ⟨hbookkept, hp.follows.andThen hfollows⟩

/-- **Any events** keep the books. -/
theorem Keeps.handleAll (hp : Keeps m p) (events : List (SerialEvent P)) :
    Keeps m (p.handleAll events) := by
  induction events generalizing p with
  | nil => exact hp
  | cons event events ih => exact ih (hp.handle event)

/-- With senders that are connected, what they say comes while they are. -/
theorem TrafficBetween.handleAll {start : UsbSerialManager P}
    (hstart : ∀ id, start.link id = .disconnected) (hp : Keeps start p)
    (hbetween : TrafficBetween p.changes) {events : List (SerialEvent P)}
    (hsenders : SendersConnected p.manager events) :
    TrafficBetween (p.handleAll events).changes := by
  induction events generalizing p with
  | nil => exact hbetween
  | cons event events ih =>
      exact ih (hp.handle event) (hbetween.handle hstart hp hsenders.1) hsenders.2

/-- At first no device is connected. -/
theorem link_new (firmwareBin : Option ValidatedFirmwareBin) (id : DeviceId) :
    (UsbSerialManager.new firmwareBin : UsbSerialManager P).link id = .disconnected := by
  rw [link_eq_disconnected_iff]
  simp [UsbSerialManager.new]

/-- **Bookkeeping.** After any run the collections of devices agree, and for every device what was
handed on leads from unconnected to connected, perhaps to registered, and back. Name changes and app
messages come in between as well if they are read only from devices that are connected then. -/
theorem bookkeeping (firmwareBin : Option ValidatedFirmwareBin) (inputs : List (Input P)) :
    Bookkept (runInputs firmwareBin inputs).manager ∧
      (∀ id, Link.after id .disconnected (runInputs firmwareBin inputs).changes =
        some ((runInputs firmwareBin inputs).manager.link id)) ∧
      (SendersConnected (.new firmwareBin) (runEvents (.new firmwareBin) inputs) →
        TrafficBetween (runInputs firmwareBin inputs).changes) := by
  rw [runInputs_eq]
  have hnew : Keeps (.new firmwareBin)
      (UsbSerialManager.new firmwareBin : UsbSerialManager P).quietly :=
    SameDevices.keeps ⟨rfl, rfl, rfl⟩ (bookkept_new firmwareBin)
  obtain ⟨hbookkept, hfollows⟩ := hnew.handleAll (runEvents (.new firmwareBin) inputs)
  refine ⟨hbookkept, fun id => ?_, fun hsenders => ?_⟩
  · rw [← hfollows id, link_new]
  · refine TrafficBetween.handleAll (link_new firmwareBin) hnew ?_ hsenders
    intro before change after hsplit
    exact absurd hsplit (by simp [UsbSerialManager.quietly])

/-! ### Concrete runs -/

/-- A port appears, answers with magic bytes, and then with the name of a device. -/
def strangerIo : SerialIo plainPayloads where
  availablePorts := [{ id := "port-1", vid := USB_VID, pid := USB_PID }]
  openDevicePort := fun _ => .ok ()
  now := 0
  readForMagicBytes := fun _ => .ok (some { conchEnabled := false })
  writeMagicBytes := fun _ => .ok ()
  tryReadMessage := fun _ =>
    .ok (some (.message { from_ := 7, body := .ok (.setName ⟨"Eve", by decide⟩) }))
  arriving := []
  sendMessage := fun _ => .ok ()
  sendConch := fun _ => .ok ()
  newOrder := .asListed Port
  goneOrder := .asListed Port
  pendingOrder := .asListed Port
  awaitingOrder := .asListed Port
  readOrder := .asListed Port
  deviceOrder := .asListed DeviceId
  sendOrder := .asListed Port

/-- The name is handed on, though the device never connected. -/
theorem stranger_is_named :
    ¬ ∀ (firmwareBin : Option ValidatedFirmwareBin) (inputs : List (Input plainPayloads)),
      TrafficBetween (runInputs firmwareBin inputs).changes := by
  intro h
  obtain ⟨link, hlink, hne⟩ :=
    h none [.pollPorts strangerIo] [] (.nameChange 7 "Eve") [] rfl trivial
  exact hne (Option.some.inj hlink).symm

/-- Device 7 sends something. -/
def frameIo (body : DeviceSendBody plainPayloads) : SerialIo plainPayloads :=
  { strangerIo with
    tryReadMessage := fun _ => .ok (some (.message { from_ := 7, body := .ok body })) }

/-- Device 7 announces itself, and then names itself and has erased its data. -/
def announcedPolls : List (Input plainPayloads) :=
  [.pollPorts (frameIo (.announce 3)), .pollPorts (frameIo (.setName ⟨"Eve", by decide⟩)),
    .pollPorts (frameIo (.misc .eraseConfirmed))]

instance (m : UsbSerialManager P) (events : List (SerialEvent P)) :
    Decidable (SendersConnected m events) :=
  match events with
  | [] => .isTrue trivial
  | event :: events =>
      have := instDecidableSendersConnected (m.handle event).manager events
      decidable_of_iff (event.sender.all (fun id => decide (id ∈ m.devicePorts)) = true ∧
          SendersConnected (m.handle event).manager events) <| by
        rw [SendersConnected, Option.all_eq_true]
        simp only [decide_eq_true_eq]

/-- The name and the message are read while the device is connected. -/
theorem bookkeeping_of_announced :
    (runInputs none announcedPolls).changes =
        [.connected 7 3 none, .nameChange 7 "Eve", .appMessage 7 (.misc .eraseConfirmed)] ∧
      TrafficBetween (runInputs none announcedPolls).changes := by
  have hsenders : SendersConnected (.new none) (runEvents (.new none) announcedPolls) := by
    decide +kernel
  exact ⟨rfl, (bookkeeping none announcedPolls).2.2 hsenders⟩

end Frostsnap.Usb
