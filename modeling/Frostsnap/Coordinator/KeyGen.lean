import Frostsnap.Coordinator.Atomic
import Frostsnap.Coordinator.Transient

/-!
# Key generations of the coordinator

A key generation goes from phase to phase as the devices answer. Each message takes it out of the
map of the pending ones and, unless the message is refused, puts it back in the next phase. What a
message does to a phase is said once, by `KeyGenStep`; the invariant `KeyGenSound` ties the phase
of a pending key generation to the operations since it began.

## Main results

* `Traced.keyGenSound`: in every run, a pending key generation is sound for the operations since
  it began.
* `keygen_finalizes_what_was_acknowledged`: a key that can be finalized was acknowledged by every
  device of its key generation, and finalizing it installs that key with a share for each device.
-/

namespace Frostsnap.Coordinator

variable {L : FrostLib}

/-! ### The share indices -/

/-- A set whose elements are in a list that is no longer than it has them all, and the list has
each once. -/
theorem BTreeSet.nodup_of_size_eq {α : Type} [Ord α] [Std.TransOrd α] [Std.LawfulEqOrd α]
    {t : BTreeSet α} {l : List α} (hsub : ∀ a ∈ t, a ∈ l) (hsize : t.size = l.length) :
    l.Nodup ∧ ∀ a ∈ l, a ∈ t := by
  have hnodup : t.toList.Nodup := by
    refine (Std.ExtTreeSet.distinct_toList (t := t)).imp ?_
    intro a b hne heq
    exact hne (Std.compare_eq_iff_eq.2 heq)
  have hlength : t.toList.length = l.length := by
    rw [Std.ExtTreeSet.length_toList, hsize]
  have hperm : t.toList.Perm l := by
    refine (List.Nodup.subperm hnodup fun a ha => ?_).perm_of_length_le hlength.ge
    exact hsub a (Std.ExtTreeSet.mem_toList.1 ha)
  exact ⟨hperm.nodup_iff.1 hnodup, fun a ha => Std.ExtTreeSet.mem_toList.1 (hperm.mem_iff.2 ha)⟩

namespace FrostCoordinator

variable [Build]

/-- The share indices are collected one entry after the other. -/
theorem collectShareIndices_eq {entries : List (DeviceId × ShareIndex × Point)}
    {shares shares' : BTreeMap DeviceId ShareIndex}
    (h : collectShareIndices (L := L) entries shares = .ret shares') :
    shares' = entries.foldl (fun m entry => m.insert entry.1 entry.2.1) shares := by
  induction entries generalizing shares with
  | nil => exact (Exec.ret.inj h).symm
  | cons entry entries ih =>
      obtain ⟨publicKey, -, h⟩ := Exec.bind_eq_ret_iff.1 h
      obtain ⟨u, -, h⟩ := Exec.bind_eq_ret_iff.1 h
      exact ih h

/-- Each device has the share index at its place. -/
theorem collectShareIndices_getElem? {devices : List DeviceId} {keys : List (ShareIndex × Point)}
    {shares : BTreeMap DeviceId ShareIndex} (hnodup : devices.Nodup)
    (hlength : keys.length = devices.length)
    (h : collectShareIndices (L := L) (devices.zip keys) ∅ = .ret shares) (deviceId : DeviceId)
    (shareIndex : ShareIndex) :
    shares[deviceId]? = some shareIndex ↔
      ∃ i : ℕ, devices[i]? = some deviceId ∧ (keys.map Prod.fst)[i]? = some shareIndex := by
  have hentry : ∀ entry ∈ devices.zip keys, ∃ i : ℕ, devices[i]? = some entry.1 ∧
      keys[i]? = some entry.2 := by
    intro entry hmem
    obtain ⟨i, hi⟩ := List.getElem?_of_mem hmem
    exact ⟨i, List.getElem?_zip_eq_some.1 hi⟩
  rw [collectShareIndices_eq h]
  by_cases hmem : deviceId ∈ devices
  · obtain ⟨i, hi⟩ := List.getElem?_of_mem hmem
    have hik : i < keys.length := by
      rw [hlength]
      exact (List.getElem?_eq_some_iff.1 hi).1
    -- the entries of this device are all at its place
    have hplace : ∀ j : ℕ, devices[j]? = some deviceId → j = i := by
      intro j hj
      obtain ⟨hjlt, hjeq⟩ := List.getElem?_eq_some_iff.1 hj
      obtain ⟨hilt, hieq⟩ := List.getElem?_eq_some_iff.1 hi
      exact (hnodup.getElem_inj_iff).1 (hjeq.trans hieq.symm)
    have hfound : ((devices.zip keys).foldl (fun m entry => m.insert entry.1 entry.2.1)
        (∅ : BTreeMap DeviceId ShareIndex))[deviceId]? = some keys[i].1 := by
      refine BTreeMap.getElem?_foldl_insert_of_mem Prod.fst (fun entry => entry.2.1)
        ⟨(deviceId, keys[i]), ?_, rfl⟩ (fun entry hentryMem hdevice => ?_) ∅
      · exact List.mem_of_getElem? (List.getElem?_zip_eq_some.2
          ⟨hi, List.getElem?_eq_getElem hik⟩)
      · obtain ⟨j, hj, hkey⟩ := hentry entry hentryMem
        rw [hdevice] at hj
        obtain rfl := hplace j hj
        rw [List.getElem?_eq_getElem hik, Option.some.injEq] at hkey
        rw [hkey]
    rw [hfound, Option.some.injEq]
    constructor
    · rintro rfl
      exact ⟨i, hi, by rw [List.getElem?_map, List.getElem?_eq_getElem hik, Option.map_some]⟩
    · rintro ⟨j, hj, hindex⟩
      obtain rfl := hplace j hj
      rw [List.getElem?_map, List.getElem?_eq_getElem hik, Option.map_some,
        Option.some.injEq] at hindex
      exact hindex
  · have hnot : ∀ entry ∈ devices.zip keys, entry.1 ≠ deviceId := by
      rintro entry hentryMem rfl
      obtain ⟨j, hj, -⟩ := hentry entry hentryMem
      exact hmem (List.mem_of_getElem? hj)
    rw [BTreeMap.getElem?_foldl_insert_of_ne Prod.fst (fun entry => entry.2.1) hnot,
      Std.ExtTreeMap.getElem?_empty]
    constructor
    · intro hnone
      cases hnone
    · rintro ⟨j, hj, -⟩
      exact absurd (List.mem_of_getElem? hj) hmem

end FrostCoordinator

/-! ### What a message does to a key generation -/

section

variable [Build]

/-- A message of a device takes a key generation from one phase to another. -/
inductive KeyGenStep (keygenId : KeygenId) (sender : DeviceId) :
    DeviceKeygen L → KeyGenState L → KeyGenState L → Prop where
  | response {state : KeyGenWaitingForResponses L} (input : L.KeygenInput)
      (inputAggregator : L.InputAggregator) :
      KeyGenStep keygenId sender (.response keygenId input) (.waitingForResponses state)
        (.waitingForResponses { state with inputAggregator := inputAggregator })
  | lastResponse {state : KeyGenWaitingForResponses L} (input : L.KeygenInput)
      (certifier : L.Certifier) :
      KeyGenStep keygenId sender (.response keygenId input) (.waitingForResponses state)
        (.waitingForCertificates
          { keygenId := state.keygenId
            devicesInOrder := state.devicesInOrder
            pendingKeyName := state.pendingKeyName
            purpose := state.purpose
            certifier := certifier
            coordinatorKeypair := state.myKeypair })
  | certificate {state : KeyGenWaitingForCertificates L} (vrfCert : L.CertVrfProof)
      (certifier : L.Certifier) :
      KeyGenStep keygenId sender (.certify keygenId vrfCert) (.waitingForCertificates state)
        (.waitingForCertificates { state with certifier := certifier })
  | lastCertificate {state : KeyGenWaitingForCertificates L} (vrfCert : L.CertVrfProof)
      (certifiedKeygen : L.CertifiedKeygen) :
      KeyGenStep keygenId sender (.certify keygenId vrfCert) (.waitingForCertificates state)
        (.waitingForAcks
          { certifiedKeygen := certifiedKeygen
            devicesInOrder := state.devicesInOrder
            acks := ∅
            pendingKeyName := state.pendingKeyName
            purpose := state.purpose })
  | ignoredAck {state : KeyGenWaitingForAcks L} (ackSessionHash : SessionHash) :
      KeyGenStep keygenId sender (.ack keygenId ackSessionHash) (.waitingForAcks state)
        (.waitingForAcks state)
  | ack {state : KeyGenWaitingForAcks L} (hmem : sender ∈ state.devicesInOrder) :
      KeyGenStep keygenId sender (.ack keygenId (L.sessionHash state.certifiedKeygen))
        (.waitingForAcks state) (.waitingForAcks { state with acks := state.acks.insert sender })
  | lastAck {state : KeyGenWaitingForAcks L} {deviceToShareIndex : BTreeMap DeviceId ShareIndex}
      (hmem : sender ∈ state.devicesInOrder)
      (hsize : (state.acks.insert sender).size = state.devicesInOrder.length)
      (hreceivers : L.nReceivers state.certifiedKeygen = state.devicesInOrder.length)
      (hindices : FrostCoordinator.collectShareIndices (L := L)
        (state.devicesInOrder.zip (L.receiverKeys state.certifiedKeygen)) ∅ =
          .ret deviceToShareIndex) :
      KeyGenStep keygenId sender (.ack keygenId (L.sessionHash state.certifiedKeygen))
        (.waitingForAcks state)
        (.needsFinalize
          { rootSharedKey := L.sharedKeyOfKeygen state.certifiedKeygen
            deviceToShareIndex := deviceToShareIndex
            pendingKeyName := state.pendingKeyName
            purpose := state.purpose })

namespace FrostCoordinator

variable {s s' : FrostCoordinator L}

/-- The id that a message of a key generation carries. -/
def keygenIdOf : DeviceKeygen L → KeygenId
  | .response keygenId _ => keygenId
  | .certify keygenId _ => keygenId
  | .ack keygenId _ => keygenId

/-- What a message leaves of the pending key generations: the one it is for is gone, or in its
next phase. -/
def Moves (s : FrostCoordinator L) (sender : DeviceId) (message : DeviceKeygen L)
    (s' : FrostCoordinator L) : Prop :=
  s'.pendingKeygens = s.pendingKeygens.erase (keygenIdOf message) ∨
    ∃ state state', s.pendingKeygens[keygenIdOf message]? = some state ∧
      KeyGenStep (keygenIdOf message) sender message state state' ∧
      s'.pendingKeygens =
        (s.pendingKeygens.erase (keygenIdOf message)).insert (keygenIdOf message) state'

/-- A key generation that is not put back. -/
theorem Moves.dropped (s : FrostCoordinator L) (sender : DeviceId)
    (message : DeviceKeygen L) :
    Moves s sender message (s.takeEntry (keygenIdOf message)).2 := .inl rfl

/-- A key generation that is put back. -/
theorem Moves.moved {sender : DeviceId} {message : DeviceKeygen L} {state state' : KeyGenState L}
    (hstate : (s.takeEntry (keygenIdOf message)).1 = some state)
    (hstep : KeyGenStep (keygenIdOf message) sender message state state') :
    Moves s sender message
      ((s.takeEntry (keygenIdOf message)).2.insertEntry (keygenIdOf message) state') :=
  .inr ⟨state, state', hstate, hstep, rfl⟩

theorem recvKeygenResponse_moves (sender : DeviceId) (keygenId : KeygenId)
    (input : L.KeygenInput) :
    (s.recvKeygenResponse sender keygenId input).Always fun r =>
      Moves s sender (.response keygenId input) r.2 := by
  have hdropped := Moves.dropped s sender (.response keygenId input)
  rw [recvKeygenResponse]
  dsimp only
  split
  · rename_i state hstate
    split
    · exact Exec.always_ret hdropped
    · split
      · exact Exec.always_ret hdropped
      · rename_i inputAggregator _
        split
        · exact Exec.always_bind' fun _ _ => Exec.always_bind' fun _ _ =>
            Exec.always_bind' fun certifier _ =>
              Exec.always_ret (Moves.moved hstate (.lastResponse input certifier))
        · exact Exec.always_ret (Moves.moved hstate (.response input inputAggregator))
  · exact Exec.always_ret hdropped

theorem recvKeygenCertify_moves (sender : DeviceId) (keygenId : KeygenId)
    (vrfCert : L.CertVrfProof) :
    (s.recvKeygenCertify sender keygenId vrfCert).Always fun r =>
      Moves s sender (.certify keygenId vrfCert) r.2 := by
  have hdropped := Moves.dropped s sender (.certify keygenId vrfCert)
  rw [recvKeygenCertify]
  dsimp only
  split
  · rename_i state hstate
    refine Exec.always_bind' fun _ _ => ?_
    split
    · exact Exec.always_ret hdropped
    · rename_i certifier _
      split
      · exact Exec.always_bind' fun certifiedKeygen _ =>
          Exec.always_ret (Moves.moved hstate (.lastCertificate vrfCert certifiedKeygen))
      · exact Exec.always_ret (Moves.moved hstate (.certificate vrfCert certifier))
  · exact Exec.always_ret hdropped

theorem recvKeygenAck_moves (sender : DeviceId) (keygenId : KeygenId)
    (ackSessionHash : SessionHash) :
    (s.recvKeygenAck sender keygenId ackSessionHash).Always fun r =>
      Moves s sender (.ack keygenId ackSessionHash) r.2 := by
  rw [recvKeygenAck]
  dsimp only
  split
  · rename_i state hstate
    have hignored := @Moves.moved L _ s sender (.ack keygenId ackSessionHash) _ _ hstate
      (.ignoredAck ackSessionHash)
    split
    · exact Exec.always_ret hignored
    · rename_i hhash
      obtain rfl := not_not.1 hhash
      split
      · exact Exec.always_ret hignored
      · rename_i hmem
        have hmem := not_not.1 hmem
        split
        · exact Exec.always_ret hignored
        · split
          · rename_i hall
            refine Exec.always_bind' fun u hreceivers => ?_
            refine Exec.always_bind' fun deviceToShareIndex hindices => Exec.always_ret ?_
            exact Moves.moved hstate (.lastAck hmem (of_decide_eq_true hall)
              (Exec.assert_eq_ret_iff.1 hreceivers) hindices)
          · exact Exec.always_ret (Moves.moved hstate (.ack hmem))
  · exact Exec.always_ret (Moves.dropped s sender (.ack keygenId ackSessionHash))

/-- **A message about a key generation** leaves the others alone, and takes this one away or to
its next phase. -/
theorem recvKeygen_moves (sender : DeviceId) (message : DeviceKeygen L) :
    (s.recvDeviceMessage sender (.keyGen message)).Always fun r => Moves s sender message r.2 := by
  cases message with
  | response keygenId input => exact recvKeygenResponse_moves sender keygenId input
  | certify keygenId vrfCert => exact recvKeygenCertify_moves sender keygenId vrfCert
  | ack keygenId ackSessionHash => exact recvKeygenAck_moves sender keygenId ackSessionHash

end FrostCoordinator

/-! ### Key generations over a run -/

/-- The states of a coordinator, with the operations that led to them. -/
inductive Traced : List (Op L) → FrostCoordinator L → Prop where
  | new : Traced [] (.new L)
  | perform {ops : List (Op L)} {s s' : FrostCoordinator L} {op : Op L} {failed : Bool}
      (h : Traced ops s) (hop : s.perform op = .ret (failed, s')) : Traced (ops ++ [op]) s'
  | takeStagedMutations {ops : List (Op L)} {s : FrostCoordinator L} (h : Traced ops s) :
      Traced ops { s with mutations := [] }

end

/-- A device has acknowledged a session hash. -/
def Acked (since : List (Op L)) (keygenId : KeygenId) (sessionHash : SessionHash)
    (deviceId : DeviceId) : Prop :=
  .recvDeviceMessage deviceId (.keyGen (.ack keygenId sessionHash)) ∈ since

section

variable [Build]

/-- Every device has acknowledged what was certified, and the key is that. -/
structure AckedByAll (request : BeginKeygen) (since : List (Op L)) (finalize : KeyGenNeedsFinalize)
    (certifiedKeygen : L.CertifiedKeygen) : Prop where
  rootSharedKey : finalize.rootSharedKey = L.sharedKeyOfKeygen certifiedKeygen
  acked : ∀ deviceId ∈ request.devicesInOrder,
    Acked since request.keygenId (L.sessionHash certifiedKeygen) deviceId
  nodup : request.devicesInOrder.Nodup
  receivers : L.nReceivers certifiedKeygen = request.devicesInOrder.length
  indices : FrostCoordinator.collectShareIndices (L := L)
    (request.devicesInOrder.zip (L.receiverKeys certifiedKeygen)) ∅ =
      .ret finalize.deviceToShareIndex

/-- What is known of a phase of a key generation from the operations since it began. -/
def KeyGenSound (request : BeginKeygen) (since : List (Op L)) : KeyGenState L → Prop
  | .waitingForResponses state =>
      state.devicesInOrder = request.devicesInOrder ∧ state.pendingKeyName = request.keyName ∧
        state.purpose = request.purpose
  | .waitingForCertificates state =>
      state.devicesInOrder = request.devicesInOrder ∧ state.pendingKeyName = request.keyName ∧
        state.purpose = request.purpose
  | .waitingForAcks state =>
      (state.devicesInOrder = request.devicesInOrder ∧ state.pendingKeyName = request.keyName ∧
        state.purpose = request.purpose) ∧
      ∀ deviceId ∈ state.acks, deviceId ∈ request.devicesInOrder ∧
        Acked since request.keygenId (L.sessionHash state.certifiedKeygen) deviceId
  | .needsFinalize finalize =>
      (finalize.pendingKeyName = request.keyName ∧ finalize.purpose = request.purpose) ∧
        ∃ certifiedKeygen, AckedByAll request since finalize certifiedKeygen

namespace KeyGenSound

variable {request : BeginKeygen} {since : List (Op L)} {state state' : KeyGenState L}

/-- What is known stays known. -/
theorem mono (h : KeyGenSound request since state) (op : Op L) :
    KeyGenSound request (since ++ [op]) state := by
  cases state with
  | waitingForResponses => exact h
  | waitingForCertificates => exact h
  | waitingForAcks state =>
      exact ⟨h.1, fun deviceId hmem =>
        ⟨(h.2 deviceId hmem).1, List.mem_append_left _ (h.2 deviceId hmem).2⟩⟩
  | needsFinalize finalize =>
      obtain ⟨hrequest, certifiedKeygen, hacked⟩ := h
      exact ⟨hrequest, certifiedKeygen, { hacked with
        acked := fun deviceId hmem => List.mem_append_left _ (hacked.acked deviceId hmem) }⟩

/-- A message that takes a key generation to its next phase. -/
theorem step {sender : DeviceId} {message : DeviceKeygen L}
    (h : KeyGenSound request since state)
    (hstep : KeyGenStep request.keygenId sender message state state') :
    KeyGenSound request (since ++ [.recvDeviceMessage sender (.keyGen message)]) state' := by
  have hlater := h.mono (.recvDeviceMessage sender (.keyGen message))
  cases hstep with
  | response => exact h
  | lastResponse => exact h
  | certificate => exact h
  | lastCertificate vrfCert certifiedKeygen =>
      exact ⟨h, fun deviceId hmem => absurd hmem Std.ExtTreeSet.not_mem_empty⟩
  | ignoredAck => exact hlater
  | ack hmem =>
      refine ⟨hlater.1, fun deviceId hacked => ?_⟩
      rcases BTreeSet.mem_insert.1 hacked with rfl | hbefore
      · exact ⟨hlater.1.1 ▸ hmem, List.mem_append_right _ List.mem_cons_self⟩
      · exact hlater.2 deviceId hbefore
  | @lastAck state shares hmem hsize hreceivers hindices =>
      obtain ⟨⟨hdevices, hname, hpurpose⟩, hacks⟩ := hlater
      rw [hdevices] at hmem hsize hreceivers hindices
      have hacked : ∀ deviceId ∈ state.acks.insert sender, deviceId ∈ request.devicesInOrder ∧
          Acked (since ++ [.recvDeviceMessage sender (.keyGen (.ack request.keygenId
            (L.sessionHash state.certifiedKeygen)))]) request.keygenId
              (L.sessionHash state.certifiedKeygen) deviceId := by
        intro deviceId hin
        rcases BTreeSet.mem_insert.1 hin with rfl | hbefore
        · exact ⟨hmem, List.mem_append_right _ List.mem_cons_self⟩
        · exact hacks deviceId hbefore
      -- as many devices have acknowledged as there are, so all of them have
      obtain ⟨hnodup, hall⟩ := BTreeSet.nodup_of_size_eq (fun d hd => (hacked d hd).1) hsize
      exact ⟨⟨hname, hpurpose⟩, state.certifiedKeygen,
        { rootSharedKey := rfl
          acked := fun deviceId hin => (hacked deviceId (hall deviceId hin)).2
          nodup := hnodup
          receivers := hreceivers
          indices := hindices }⟩

end KeyGenSound

/-- Every pending key generation is sound for the operations since it began. -/
def KeyGensSound (ops : List (Op L)) (s : FrostCoordinator L) : Prop :=
  ∀ (keygenId : KeygenId) (state : KeyGenState L), s.pendingKeygens[keygenId]? = some state →
    ∃ request rng before since, ops = before ++ .beginKeygen request rng :: since ∧
      request.keygenId = keygenId ∧ KeyGenSound request since state

namespace KeyGensSound

open FrostCoordinator

variable {ops : List (Op L)} {s s' : FrostCoordinator L}

/-- An operation that leaves nothing pending that was not pending before. -/
theorem of_subset (h : KeyGensSound ops s) (op : Op L)
    (hsub : ∀ (keygenId : KeygenId) (state : KeyGenState L),
      s'.pendingKeygens[keygenId]? = some state → s.pendingKeygens[keygenId]? = some state) :
    KeyGensSound (ops ++ [op]) s' := by
  intro keygenId state hstate
  obtain ⟨request, rng, before, since, rfl, hid, hsound⟩ := h keygenId state (hsub _ _ hstate)
  exact ⟨request, rng, before, since ++ [op], by rw [List.append_assoc]; rfl, hid, hsound.mono op⟩

theorem of_erase (h : KeyGensSound ops s) (op : Op L) (keygenId : KeygenId)
    (herase : s'.pendingKeygens = s.pendingKeygens.erase keygenId) :
    KeyGensSound (ops ++ [op]) s' := by
  refine h.of_subset op fun other state hstate => ?_
  rw [herase, BTreeMap.getElem?_erase] at hstate
  split at hstate
  · cases hstate
  · exact hstate

/-- A message about a key generation. -/
theorem of_moves (h : KeyGensSound ops s) {sender : DeviceId} {message : DeviceKeygen L}
    (hmoves : Moves s sender message s') :
    KeyGensSound (ops ++ [.recvDeviceMessage sender (.keyGen message)]) s' := by
  rcases hmoves with herase | ⟨state, state', hstate, hstep, hinsert⟩
  · exact h.of_erase _ _ herase
  · intro keygenId other hother
    rw [hinsert, BTreeMap.getElem?_insert] at hother
    split at hother
    · rename_i heq
      obtain rfl := Option.some.inj hother
      obtain ⟨request, rng, before, since, rfl, hid, hsound⟩ := h _ state hstate
      rw [← hid] at hstep
      exact ⟨request, rng, before, since ++ [_], by rw [List.append_assoc]; rfl, hid.trans heq,
        hsound.step hstep⟩
    · rw [BTreeMap.getElem?_erase] at hother
      split at hother
      · cases hother
      · obtain ⟨request, rng, before, since, rfl, hid, hsound⟩ := h keygenId other hother
        exact ⟨request, rng, before, since ++ [_], by rw [List.append_assoc]; rfl, hid,
          hsound.mono _⟩

/-- A key generation that begins. -/
theorem beginKeygen (h : KeyGensSound ops s) (request : BeginKeygen) (rng : ℕ → L.Rng) :
    (s.beginKeygen request rng).Always fun r =>
      KeyGensSound (ops ++ [.beginKeygen request rng]) r.2 := by
  have hsame := h.of_subset (.beginKeygen request rng) fun _ _ hstate => hstate
  rw [FrostCoordinator.beginKeygen]
  split
  · exact Exec.always_ret hsame
  · refine Exec.always_bind' fun _ _ => Exec.always_bind' fun _ _ => ?_
    dsimp only
    split
    · exact Exec.always_ret hsame
    · split
      · exact Exec.always_panic _
      · refine Exec.always_ret fun keygenId state hstate => ?_
        simp only [insertEntry, BTreeMap.getElem?_insert] at hstate
        split at hstate
        · rename_i heq
          obtain rfl := Option.some.inj hstate
          exact ⟨request, rng, ops, [], rfl, heq, rfl, rfl, rfl⟩
        · exact hsame keygenId state hstate

/-- One operation. -/
theorem perform (h : KeyGensSound ops s) (op : Op L) :
    (s.perform op).Always fun r => KeyGensSound (ops ++ [op]) r.2 := by
  by_cases hquiet : op.IsQuiet
  · refine (perform_quiet hquiet).mono fun r hr => h.of_subset op fun keygenId state hstate => ?_
    rwa [hr.pendingKeygens] at hstate
  cases op with
  | recvDeviceMessage sender message =>
      refine always_outcome ?_
      match message with
      | .keyGen message =>
          exact (recvKeygen_moves sender message).mono fun _ => h.of_moves
      | .restoration (.physicalSaved image) =>
          simp only [recvDeviceMessage, recvRestorationMessage, recvPhysicalSaved]
          split
          · exact Exec.always_ret (h.of_subset _ fun _ _ hstate => hstate)
          · refine Exec.always_bind (mutate_same _) fun t ht =>
              Exec.always_ret (h.of_subset _ fun keygenId state hstate => ?_)
            rwa [ht.pendingKeygens] at hstate
      | .signing _ | .restoration (.physicalEntered _) | .restoration (.heldShares _)
      | .restoration (.heldShares2 _) | .restoration (.finishedConsolidation _ _) =>
          exact absurd trivial hquiet
  | beginKeygen request rng => exact always_outcome (h.beginKeygen request rng)
  | finalizeKeygen keygenId encryptionKey rng =>
      refine always_outcome ?_
      simp only [finalizeKeygen]
      split
      · exact Exec.always_bind (mutateNewKey_same _ _ _ _ _ _) fun r hr =>
          Exec.always_ret (h.of_erase _ _ hr.pendingKeygens)
      · exact Exec.always_ret (h.of_erase _ keygenId rfl)
  | cancelKeygen keygenId => exact Exec.always_ret (h.of_erase _ keygenId rfl)
  | clearTmpData =>
      refine Exec.always_ret (h.of_subset _ fun keygenId state hstate => ?_)
      rw [clearTmpData, Std.ExtTreeMap.getElem?_empty] at hstate
      cases hstate
  | tellDeviceToSavePhysicalBackup phase restorationId =>
      refine Exec.always_ret (h.of_subset _ fun keygenId state hstate => ?_)
      simp only [tellDeviceToSavePhysicalBackup] at hstate
      split at hstate <;> exact hstate
  | _ => exact absurd trivial hquiet

end KeyGensSound

/-- **In every run**, every pending key generation is sound. -/
theorem Traced.keyGensSound {ops : List (Op L)} {s : FrostCoordinator L} (h : Traced ops s) :
    KeyGensSound ops s := by
  induction h with
  | new =>
      intro keygenId state hstate
      rw [FrostCoordinator.new, Std.ExtTreeMap.getElem?_empty] at hstate
      cases hstate
  | perform _ hop ih => exact ih.perform _ _ hop
  | takeStagedMutations _ ih => exact ih

/-! ### What is finalized -/

omit [Build] in
/-- Adding all entries of a map to another. -/
theorem getElem?_foldl_toList (m m' : BTreeMap DeviceId ShareIndex) (deviceId : DeviceId) :
    (m.toList.foldl (fun m share => m.insert share.1 share.2) m')[deviceId]? =
      m[deviceId]?.or m'[deviceId]? := by
  cases hget : m[deviceId]? with
  | none =>
      refine BTreeMap.getElem?_foldl_insert_of_ne Prod.fst Prod.snd (fun share hmem heq => ?_) m'
      rw [← heq, Std.ExtTreeMap.mem_toList_iff_getElem?_eq_some.1 hmem] at hget
      cases hget
  | some shareIndex =>
      refine BTreeMap.getElem?_foldl_insert_of_mem Prod.fst Prod.snd
        ⟨(deviceId, shareIndex), Std.ExtTreeMap.mem_toList_iff_getElem?_eq_some.2 hget, rfl⟩
        (fun share hmem heq => ?_) m'
      have hentry := Std.ExtTreeMap.mem_toList_iff_getElem?_eq_some.1 hmem
      rw [heq, hget, Option.some.injEq] at hentry
      exact hentry.symm

/-- What finalizing a key generation installs, over what was there of the same polynomial. -/
structure Installs (p : Persistent L) (finalize : KeyGenNeedsFinalize) (send : SendFinalizeKeygen)
    (p' : Persistent L) : Prop where
  ref : send.accessStructureRef = AccessStructureRef.fromRootSharedKey L finalize.rootSharedKey
  devices : send.devices = finalize.deviceToShareIndex.keys
  shares : ∃ a, p'.getAccessStructure send.accessStructureRef = some a ∧
    ∀ deviceId : DeviceId, a.deviceToShareIndex[deviceId]? =
      finalize.deviceToShareIndex[deviceId]?.or
        ((p.getAccessStructure send.accessStructureRef).bind fun old =>
          old.deviceToShareIndex[deviceId]?)
  fresh : p.getAccessStructure send.accessStructureRef = none →
    p'.getAccessStructure send.accessStructureRef = some
      { appSharedKey := (Xpub.fromRootkey finalize.rootSharedKey).rootkeyToMasterAppkey L
        deviceToShareIndex := finalize.deviceToShareIndex
        kind := .master }

/-- Only a key generation that needs to be finalized can be. -/
theorem FrostCoordinator.finalizeKeygen_eq {s s' : FrostCoordinator L} {keygenId : KeygenId}
    {encryptionKey : SymmetricKey} {rng : L.Rng} {send : SendFinalizeKeygen}
    (h : s.finalizeKeygen keygenId encryptionKey rng = .ret (.ok send, s')) :
    ∃ finalize, s.pendingKeygens[keygenId]? = some (.needsFinalize finalize) ∧
      Installs s.toPersistent finalize send s'.toPersistent := by
  simp only [finalizeKeygen] at h
  split at h
  · rename_i finalize hstate
    obtain ⟨⟨ref, t⟩, hnew, hret⟩ := Exec.bind_eq_ret_iff.1 h
    obtain ⟨hsend, rfl⟩ := Prod.mk.inj (Exec.ret.inj hret)
    obtain rfl := Except.ok.inj hsend
    obtain ⟨href, hget, -⟩ := mutateNewKey_eq hnew
    refine ⟨finalize, hstate, ⟨href, rfl, ⟨_, hget, fun deviceId => ?_⟩, fun hfresh => ?_⟩⟩
    · rw [getElem?_foldl_toList]
      congr 1
      rw [Persistent.installed]
      show _ = (s.getAccessStructure ref).bind _
      cases hold : s.getAccessStructure ref with
      | none =>
          show ((Option.getD (s.getAccessStructure ref) _).deviceToShareIndex)[deviceId]? = _
          rw [hold]
          exact Std.ExtTreeMap.getElem?_empty
      | some old =>
          show ((Option.getD (s.getAccessStructure ref) _).deviceToShareIndex)[deviceId]? = _
          rw [hold]
          rfl
    · rw [hget, Persistent.installed]
      have hold : (s.takeEntry keygenId).2.getAccessStructure ref = none := hfresh
      rw [hold, Option.getD_none]
      congr 2
      refine Std.ExtTreeMap.ext_getElem? fun {deviceId} => ?_
      rw [getElem?_foldl_toList, Std.ExtTreeMap.getElem?_empty, Option.or_none]
  · simp at h

/-- **Key generation.** In every run, whatever messages devices send in whatever order: a key
generation that can be finalized was acknowledged, since it began, by every device that it lists,
with the session hash of what was certified; it has the key of that, and gives the devices the share
indices from one on, in the order they are listed in. Only such a key generation is finalized, and
what is installed is its key with the shares of its devices. -/
theorem keygen_finalizes_what_was_acknowledged
    (hreceivers : ∀ certifiedKeygen, (L.receiverKeys certifiedKeygen).map Prod.fst =
      (List.range (L.nReceivers certifiedKeygen)).map fun i => BitVec.ofNat 256 (i + 1))
    {ops : List (Op L)} {s : FrostCoordinator L} (h : Traced ops s) (keygenId : KeygenId) :
    (∀ finalize, s.pendingKeygens[keygenId]? = some (.needsFinalize finalize) →
      ∃ request rng before since certifiedKeygen,
        ops = before ++ .beginKeygen request rng :: since ∧ request.keygenId = keygenId ∧
        (∀ deviceId ∈ request.devicesInOrder,
          Acked since keygenId (L.sessionHash certifiedKeygen) deviceId) ∧
        finalize.rootSharedKey = L.sharedKeyOfKeygen certifiedKeygen ∧
        request.devicesInOrder.Nodup ∧
        (∀ (deviceId : DeviceId) (shareIndex : ShareIndex),
          finalize.deviceToShareIndex[deviceId]? = some shareIndex ↔
            ∃ i : ℕ, request.devicesInOrder[i]? = some deviceId ∧
              shareIndex = BitVec.ofNat 256 (i + 1)) ∧
        finalize.pendingKeyName = request.keyName ∧ finalize.purpose = request.purpose) ∧
    ∀ encryptionKey rng send s', s.finalizeKeygen keygenId encryptionKey rng =
        .ret (.ok send, s') →
      ∃ finalize, s.pendingKeygens[keygenId]? = some (.needsFinalize finalize) ∧
        Installs s.toPersistent finalize send s'.toPersistent := by
  refine ⟨fun finalize hstate => ?_, fun _ _ _ _ => FrostCoordinator.finalizeKeygen_eq⟩
  obtain ⟨request, rng, before, since, hops, rfl, ⟨hname, hpurpose⟩, certifiedKeygen, hall⟩ :=
    h.keyGensSound keygenId _ hstate
  refine ⟨request, rng, before, since, certifiedKeygen, hops, rfl, hall.acked, hall.rootSharedKey,
    hall.nodup, fun deviceId shareIndex => ?_, hname, hpurpose⟩
  have hkeys := hreceivers certifiedKeygen
  rw [hall.receivers] at hkeys
  have hlength : (L.receiverKeys certifiedKeygen).length = request.devicesInOrder.length := by
    simpa using congrArg List.length hkeys
  rw [FrostCoordinator.collectShareIndices_getElem? hall.nodup hlength hall.indices, hkeys]
  constructor
  · rintro ⟨i, hdevice, hindex⟩
    have hi := (List.getElem?_eq_some_iff.1 hdevice).1
    rw [List.getElem?_map, List.getElem?_range hi, Option.map_some, Option.some.injEq] at hindex
    exact ⟨i, hdevice, hindex.symm⟩
  · rintro ⟨i, hdevice, rfl⟩
    have hi := (List.getElem?_eq_some_iff.1 hdevice).1
    exact ⟨i, hdevice, by rw [List.getElem?_map, List.getElem?_range hi, Option.map_some]⟩

end

section

attribute [local instance] Build.release

/-- A key of two devices. -/
def twoOfTwo : BeginKeygen where
  keygenId := 0
  devicesInOrder := [1, 2]
  threshold := 2
  keyName := ""
  purpose := .test

/-- The devices of the key send their inputs, certify, and acknowledge. -/
def twoOfTwoKeygen : List (Op plainLib) :=
  [.beginKeygen twoOfTwo fun _ => (0 : ℕ),
    .recvDeviceMessage 1 (.keyGen (.response 0 [(5 : Point), 6])),
    .recvDeviceMessage 2 (.keyGen (.response 0 [(7 : Point), 8])),
    .recvDeviceMessage 1 (.keyGen (.certify 0 (0 : ℕ))),
    .recvDeviceMessage 2 (.keyGen (.certify 0 (0 : ℕ))),
    .recvDeviceMessage 1 (.keyGen (.ack 0 (PlainLib.hashPoints [12, 15]))),
    .recvDeviceMessage 2 (.keyGen (.ack 0 (PlainLib.hashPoints [12, 15])))]

/-- The state that operations leave which all return. -/
def FrostCoordinator.performAll (s : FrostCoordinator plainLib) :
    List (Op plainLib) → Option (FrostCoordinator plainLib)
  | [] => some s
  | op :: ops => (s.perform op).toOption.bind fun r => performAll r.2 ops

theorem Traced.performAll {before ops : List (Op plainLib)} {s s' : FrostCoordinator plainLib}
    (h : Traced before s) (hall : s.performAll ops = some s') : Traced (before ++ ops) s' := by
  induction ops generalizing before s with
  | nil =>
      obtain rfl := Option.some.inj hall
      rwa [List.append_nil]
  | cons op ops ih =>
      obtain ⟨⟨failed, t⟩, hop, hrest⟩ := Option.bind_eq_some_iff.1 hall
      rw [List.append_cons]
      exact ih (h.perform (Exec.toOption_eq_some_iff.1 hop)) hrest

/-- Whether a key generation waits to be finalized with a device at a share index. -/
def KeyGenState.needsFinalizeWith (deviceId : DeviceId) (index : ShareIndex) :
    KeyGenState plainLib → Bool
  | .needsFinalize finalize => finalize.deviceToShareIndex[deviceId]? == some index
  | _ => false

/-- The receivers of the library to compute with have the indices from one on. -/
theorem receiverKeys_plainLib (certifiedKeygen : PlainLib.Certifier) :
    (plainLib.receiverKeys certifiedKeygen).map Prod.fst =
      (List.range (plainLib.nReceivers certifiedKeygen)).map fun i => BitVec.ofNat 256 (i + 1) := by
  show ((certifiedKeygen.receiverKeys.zipIdx 1).map fun entry =>
    (BitVec.ofNat 256 entry.2, entry.1)).map Prod.fst =
      (List.range certifiedKeygen.receiverKeys.length).map fun i => BitVec.ofNat 256 (i + 1)
  refine List.ext_getElem? fun i => ?_
  by_cases hi : i < certifiedKeygen.receiverKeys.length
  · simp [hi, Nat.add_comm]
  · simp [hi]

/-- The key generation of the two devices can be finalized, was acknowledged by both, and is
installed when it is finalized. -/
theorem keygen_finalizes_of_twoOfTwo :
    ∃ s finalize, Traced twoOfTwoKeygen s ∧
      s.pendingKeygens[(0 : KeygenId)]? = some (.needsFinalize finalize) ∧
      finalize.deviceToShareIndex[(2 : DeviceId)]? = some 2 ∧
      (∃ request rng before since certifiedKeygen,
        twoOfTwoKeygen = before ++ .beginKeygen request rng :: since ∧ request.keygenId = 0 ∧
        (∀ deviceId ∈ request.devicesInOrder,
          Acked since 0 (plainLib.sessionHash certifiedKeygen) deviceId) ∧
        finalize.rootSharedKey = plainLib.sharedKeyOfKeygen certifiedKeygen) ∧
      ∃ send s', s.finalizeKeygen 0 0 (0 : ℕ) = .ret (.ok send, s') ∧
        Installs s.toPersistent finalize send s'.toPersistent := by
  have hcomputed : (((FrostCoordinator.new plainLib).performAll twoOfTwoKeygen).any fun s =>
      (s.pendingKeygens[(0 : KeygenId)]?.any (KeyGenState.needsFinalizeWith 2 2)) &&
        (s.finalizeKeygen 0 0 (0 : ℕ)).toOption.any (·.1.isOk)) = true := by
    decide +kernel
  obtain ⟨s, hs, hboth⟩ := (Option.any_eq_true _ _).1 hcomputed
  obtain ⟨hpending, hreturns⟩ := Bool.and_eq_true_iff.1 hboth
  obtain ⟨state, hstate, hwith⟩ := (Option.any_eq_true _ _).1 hpending
  cases state with
  | needsFinalize finalize =>
      have htraced : Traced twoOfTwoKeygen s := Traced.new.performAll hs
      obtain ⟨hacked, hinstalls⟩ :=
        keygen_finalizes_what_was_acknowledged receiverKeys_plainLib htraced 0
      obtain ⟨request, rng, before, since, certifiedKeygen, hops, hid, hall, hroot, -⟩ :=
        hacked finalize hstate
      refine ⟨s, finalize, htraced, hstate, beq_iff_eq.1 hwith,
        ⟨request, rng, before, since, certifiedKeygen, hops, hid, hall, hroot⟩, ?_⟩
      obtain ⟨⟨result, s'⟩, hfinalized, hok⟩ := (Option.any_eq_true _ _).1 hreturns
      rw [Exec.toOption_eq_some_iff] at hfinalized
      cases result with
      | error e => cases hok
      | ok send =>
          obtain ⟨finalize', hstate', hinstalled⟩ := hinstalls 0 (0 : ℕ) send s' hfinalized
          obtain rfl : finalize = finalize' := by
            simpa using hstate.symm.trans hstate'
          exact ⟨send, s', hfinalized, hinstalled⟩
  | _ => cases hwith

end

end Frostsnap.Coordinator
