import Frostsnap.Comms.Messages
import Frostsnap.Lib.Pipeline

/-!
# The daisy chain

How devices in a chain hand on what the coordinator sends, as the loop of a device in
`frostsnap_embedded/src/device_loop.rs` does: a device removes itself from the destinations, sends
the rest downstream if there is somebody and somebody left, and then looks at the message if it was
for it. A device that is told to enter upgrade mode leaves the loop once it has sent the message on.

The chain is a pipeline: devices read in any order, and messages enter while others are under way.

## Main results

* `forward_eq`: what a device sends downstream.
* `delivered_settle`: what each device is given of a stream, in closed form.
* `delivery`: any run of any chain.
-/

namespace Frostsnap.DaisyChain

open Pipeline

variable {P : Payloads}

/-! ### One device -/

/-- What the coordinator sends, on the wire. -/
abbrev Message := CoordinatorSendMessage WireCoordinatorSendBody

/-- A device as its upstream sees it. -/
structure Link where
  deviceId : DeviceId
  /-- Whether the state of its downstream connection is `Established`. -/
  established : Bool

structure DeviceLoop (P : Payloads) where
  /-- The bodies the device was given. -/
  delivered : List WireCoordinatorSendBody
  inbox : List (CoordinatorSendBody P)
  /-- Whether the device has left the loop, to be reset or parked. -/
  left : Bool

def DeviceLoop.new : DeviceLoop P where
  delivered := []
  inbox := []
  left := false

section

variable (decodeEncaps : List UInt8 → Option (CoordinatorSendBody P))

/-- A device is given a body. -/
def DeviceLoop.deliver (s : DeviceLoop P) (body : WireCoordinatorSendBody) : DeviceLoop P :=
  let s := { s with delivered := s.delivered ++ [body] }
  match body.decode decodeEncaps with
  | some (.upgrade .enterUpgradeMode) => { s with left := true }
  | some decoded => { s with inbox := s.inbox ++ [decoded] }
  | none => s

/-- A device receives a message: what becomes of it, and what it sends downstream. -/
def receive (link : Link) (s : DeviceLoop P) (message : Message) : DeviceLoop P × List Message :=
  let (forMe, targetDestinations) := message.targetDestinations.removeFromRecipients link.deviceId
  let message := { message with targetDestinations := targetDestinations }
  let sent :=
    if link.established && message.targetDestinations.shouldForward then [message] else []
  (if forMe then s.deliver decodeEncaps message.messageBody else s, sent)

/-- A device reads until it has left the loop. -/
def inLoop (_ : Link) (s : DeviceLoop P) : Bool := !s.left

end

/-- The devices of a chain. All but the last have somebody downstream. -/
def links : List DeviceId → List Link
  | [] => []
  | deviceId :: rest => { deviceId := deviceId, established := !rest.isEmpty } :: links rest

/-- The devices of a chain before anything is sent. -/
def starts (deviceIds : List DeviceId) : List (Link × DeviceLoop P) :=
  (links deviceIds).map fun link => (link, .new)

/-! ### Destinations -/

/-- Whether a destination still reaches a device behind some others: those have removed
themselves. -/
def Reaches (before : List DeviceId) (deviceId : DeviceId) (destination : Destination) : Prop :=
  destination.IsDestinedTo deviceId ∧ (destination = .all ∨ deviceId ∉ before)

instance (before : List DeviceId) (deviceId : DeviceId) (destination : Destination) :
    Decidable (Reaches before deviceId destination) :=
  match destination with
  | .all => .isTrue ⟨trivial, .inl rfl⟩
  | .particular devices =>
      decidable_of_iff (deviceId ∈ devices ∧ deviceId ∉ before) <| by
        rw [Reaches]
        exact and_congr_right fun _ => (or_iff_right Destination.noConfusion).symm

/-- The destinations a device sends on. -/
def remaining (destination : Destination) (deviceId : DeviceId) : Destination :=
  (destination.removeFromRecipients deviceId).2

theorem removeFromRecipients_fst {destination : Destination} {deviceId : DeviceId} :
    (destination.removeFromRecipients deviceId).1 = true ↔ destination.IsDestinedTo deviceId := by
  cases destination with
  | all => exact iff_of_true rfl trivial
  | particular devices => exact Std.ExtTreeSet.contains_iff_mem

/-- **A device removes exactly itself.** -/
theorem isDestinedTo_remaining {destination : Destination} {deviceId other : DeviceId} :
    (remaining destination deviceId).IsDestinedTo other ↔
      destination.IsDestinedTo other ∧ (destination = .all ∨ other ≠ deviceId) := by
  cases destination with
  | all => exact iff_of_true trivial ⟨trivial, .inl rfl⟩
  | particular devices =>
      show other ∈ devices.erase deviceId ↔ other ∈ devices ∧ _
      rw [BTreeSet.mem_erase, and_comm]
      exact and_congr_right fun _ => (or_iff_right Destination.noConfusion).symm

theorem remaining_eq_all_iff {destination : Destination} {deviceId : DeviceId} :
    remaining destination deviceId = .all ↔ destination = .all := by
  cases destination with
  | all => exact iff_of_true rfl rfl
  | particular devices => exact iff_of_false Destination.noConfusion Destination.noConfusion

/-- What is left of a destination is worth sending when somebody is left. -/
theorem shouldForward_iff {destination : Destination} :
    destination.shouldForward = true ↔
      destination = .all ∨ ∃ deviceId, destination.IsDestinedTo deviceId := by
  cases destination with
  | all => exact iff_of_true rfl (.inl rfl)
  | particular devices =>
      rw [or_iff_right Destination.noConfusion, Destination.shouldForward, Bool.not_eq_true',
        Std.ExtTreeSet.isEmpty_eq_false_iff]
      show ¬ devices = ∅ ↔ ∃ deviceId, deviceId ∈ devices
      constructor
      · intro hne
        by_contra hnone
        refine hne (BTreeSet.ext_mem fun deviceId => iff_of_false ?_ Std.ExtTreeSet.not_mem_empty)
        exact fun hmem => hnone ⟨deviceId, hmem⟩
      · rintro ⟨deviceId, hmem⟩ rfl
        exact Std.ExtTreeSet.not_mem_empty hmem

theorem reaches_remaining {before : List DeviceId} {destination : Destination}
    {deviceId other : DeviceId} :
    Reaches before other (remaining destination deviceId) ↔
      Reaches (deviceId :: before) other destination := by
  rw [Reaches, Reaches, isDestinedTo_remaining, remaining_eq_all_iff, List.mem_cons, not_or]
  tauto

/-! ### What is sent and delivered -/

variable (decodeEncaps : List UInt8 → Option (CoordinatorSendBody P))

/-- Tells a device to enter upgrade mode. -/
def entersUpgradeMode (message : Message) : Bool :=
  match message.messageBody.decode decodeEncaps with
  | some (.upgrade .enterUpgradeMode) => true
  | _ => false

/-- The messages that come before some device has left, and the one that made it leave. -/
def inChain (deviceIds : List DeviceId) : List Message → List Message
  | [] => []
  | message :: messages =>
      message ::
        if entersUpgradeMode decodeEncaps message = true ∧
            ∃ deviceId ∈ deviceIds, message.targetDestinations.IsDestinedTo deviceId then []
        else inChain deviceIds messages

/-- The bodies a device behind some others is to be given. -/
def addressed (before : List DeviceId) (deviceId : DeviceId) (messages : List Message) :
    List WireCoordinatorSendBody :=
  ((inChain decodeEncaps (before ++ [deviceId]) messages).filter fun message =>
    Reaches before deviceId message.targetDestinations).map CoordinatorSendMessage.messageBody

/-- What a device sends downstream of a message. -/
def forward (link : Link) (message : Message) : List Message :=
  if link.established && (remaining message.targetDestinations link.deviceId).shouldForward then
    [{ message with targetDestinations := remaining message.targetDestinations link.deviceId }]
  else []

variable {decodeEncaps}

theorem receive_snd (link : Link) (s : DeviceLoop P) (message : Message) :
    (receive decodeEncaps link s message).2 = forward link message := rfl

theorem deliver_delivered (s : DeviceLoop P) (body : WireCoordinatorSendBody) :
    (s.deliver decodeEncaps body).delivered = s.delivered ++ [body] := by
  unfold DeviceLoop.deliver
  dsimp only
  split <;> rfl

theorem deliver_left (s : DeviceLoop P) (message : Message) :
    (s.deliver decodeEncaps message.messageBody).left =
      (s.left || entersUpgradeMode decodeEncaps message) := by
  unfold DeviceLoop.deliver entersUpgradeMode
  rcases message.messageBody.decode decodeEncaps with _ | body
  · exact (Bool.or_false _).symm
  cases body with
  | upgrade message =>
      cases message with
      | enterUpgradeMode => exact (Bool.or_true _).symm
      | prepareUpgrade size digest | prepareUpgrade2 size digest => exact (Bool.or_false _).symm
  | core | naming | announceAck | cancel | dataErase | legacyChallenge | genuineCheck =>
      exact (Bool.or_false _).symm

theorem receive_fst (link : Link) (s : DeviceLoop P) (message : Message) :
    (receive decodeEncaps link s message).1 =
      if message.targetDestinations.IsDestinedTo link.deviceId then
        s.deliver decodeEncaps message.messageBody
      else s := by
  unfold receive
  dsimp only
  by_cases h : message.targetDestinations.IsDestinedTo link.deviceId
  · rw [if_pos h, if_pos (removeFromRecipients_fst.2 h)]
  · rw [if_neg h, if_neg fun h' => h (removeFromRecipients_fst.1 h')]

/-- What the first device of a chain is addressed in one more message. -/
theorem addressed_cons (before : List DeviceId) (deviceId : DeviceId) (message : Message)
    (messages : List Message) :
    addressed decodeEncaps before deviceId (message :: messages) =
      (if Reaches before deviceId message.targetDestinations then [message.messageBody] else []) ++
        if entersUpgradeMode decodeEncaps message = true ∧
            ∃ id ∈ before ++ [deviceId], message.targetDestinations.IsDestinedTo id then []
        else addressed decodeEncaps before deviceId messages := by
  unfold addressed
  rw [inChain, List.filter_cons]
  by_cases hreaches : Reaches before deviceId message.targetDestinations
  · rw [if_pos (decide_eq_true hreaches), if_pos hreaches]
    split <;> rfl
  · rw [if_neg (by rw [decide_eq_true_iff]; exact hreaches), if_neg hreaches]
    split <;> rfl

theorem reaches_nil {deviceId : DeviceId} {destination : Destination} :
    Reaches [] deviceId destination ↔ destination.IsDestinedTo deviceId :=
  and_iff_left (.inr List.not_mem_nil)

/-- A device that is in the loop is given what it is addressed. -/
theorem consume_delivered (link : Link) {s : DeviceLoop P} (hs : s.left = false)
    (messages : List Message) :
    (consume inLoop (receive decodeEncaps) link s messages).1.delivered =
      s.delivered ++ addressed decodeEncaps [] link.deviceId messages := by
  induction messages generalizing s with
  | nil => exact (List.append_nil _).symm
  | cons message messages ih =>
      rw [consume, if_pos (by rw [inLoop, hs]; rfl), receive_fst, addressed_cons]
      simp only [reaches_nil, List.nil_append, List.mem_singleton, exists_eq_left]
      by_cases hme : message.targetDestinations.IsDestinedTo link.deviceId
      · have hleft := @deliver_left P decodeEncaps s message
        rw [hs, Bool.false_or] at hleft
        rw [if_pos hme, if_pos hme]
        cases hupgrade : entersUpgradeMode decodeEncaps message with
        | true =>
            rw [if_pos ⟨rfl, hme⟩, List.append_nil, ← deliver_delivered,
              consume_of_not_live (by rw [inLoop, hleft, hupgrade]; rfl)]
        | false =>
            rw [if_neg fun h => Bool.false_ne_true h.1, ih (hleft.trans hupgrade),
              deliver_delivered, List.append_assoc]
      · rw [if_neg hme, if_neg hme, if_neg fun h => hme h.2, List.nil_append]
        exact ih hs

/-- What a device that is in the loop sends downstream of a stream. -/
theorem consume_sent (link : Link) {s : DeviceLoop P} (hs : s.left = false)
    (messages : List Message) :
    (consume inLoop (receive decodeEncaps) link s messages).2 =
      (inChain decodeEncaps [link.deviceId] messages).flatMap (forward link) := by
  induction messages generalizing s with
  | nil => rfl
  | cons message messages ih =>
      rw [consume, if_pos (by rw [inLoop, hs]; rfl), receive_fst, receive_snd, inChain,
        List.flatMap_cons]
      simp only [List.mem_singleton, exists_eq_left]
      congr 1
      by_cases hme : message.targetDestinations.IsDestinedTo link.deviceId
      · have hleft := @deliver_left P decodeEncaps s message
        rw [hs, Bool.false_or] at hleft
        rw [if_pos hme]
        cases hupgrade : entersUpgradeMode decodeEncaps message with
        | true =>
            rw [if_pos ⟨rfl, hme⟩, consume_of_not_live (by rw [inLoop, hleft, hupgrade]; rfl)]
            rfl
        | false => rw [if_neg fun h => Bool.false_ne_true h.1, ih (hleft.trans hupgrade)]
      · rw [if_neg hme, if_neg fun h => hme h.2]
        exact ih hs

/-- Somebody behind a device is told to enter upgrade mode by what it sends on exactly when somebody
is by what it received, unless it is told so itself. -/
theorem exists_remaining_iff {message : Message} {deviceId : DeviceId} {others : List DeviceId}
    (h : ¬ message.targetDestinations.IsDestinedTo deviceId) :
    (∃ id ∈ others, (remaining message.targetDestinations deviceId).IsDestinedTo id) ↔
      ∃ id ∈ deviceId :: others, message.targetDestinations.IsDestinedTo id := by
  constructor
  · rintro ⟨id, hid, hdestined⟩
    exact ⟨id, List.mem_cons_of_mem _ hid, (isDestinedTo_remaining.1 hdestined).1⟩
  · rintro ⟨id, hid, hdestined⟩
    have hne : id ≠ deviceId := fun heq => h (heq ▸ hdestined)
    exact ⟨id, (List.mem_cons.1 hid).resolve_left hne,
      isDestinedTo_remaining.2 ⟨hdestined, .inr hne⟩⟩

/-- What a device sends on addresses the devices behind it as what it received did. -/
theorem addressed_forward (deviceId : DeviceId) (before : List DeviceId) (other : DeviceId)
    (messages : List Message) :
    addressed decodeEncaps before other ((inChain decodeEncaps [deviceId] messages).flatMap
        (forward { deviceId := deviceId, established := true })) =
      addressed decodeEncaps (deviceId :: before) other messages := by
  induction messages with
  | nil => rfl
  | cons message messages ih =>
      rw [inChain, List.flatMap_cons, addressed_cons, List.cons_append]
      simp only [List.mem_singleton, exists_eq_left]
      by_cases hforward :
          (remaining message.targetDestinations deviceId).shouldForward = true
      · rw [forward, if_pos (by rw [hforward]; rfl), List.singleton_append, addressed_cons]
        refine congrArg₂ _ (if_congr reaches_remaining rfl rfl) ?_
        by_cases hhere : entersUpgradeMode decodeEncaps message = true ∧
            message.targetDestinations.IsDestinedTo deviceId
        · have hleaves : entersUpgradeMode decodeEncaps message = true ∧
              ∃ id ∈ deviceId :: (before ++ [other]),
                message.targetDestinations.IsDestinedTo id :=
            ⟨hhere.1, deviceId, List.mem_cons_self, hhere.2⟩
          rw [if_pos hhere, List.flatMap_nil, if_pos hleaves]
          split <;> rfl
        · rw [if_neg hhere, ih]
          refine if_congr (and_congr_right fun hupgrade => ?_) rfl rfl
          exact exists_remaining_iff fun hdestined => hhere ⟨hupgrade, hdestined⟩
      · have hnobody : ∀ id,
            ¬ (remaining message.targetDestinations deviceId).IsDestinedTo id :=
          fun id hid => hforward (shouldForward_iff.2 (.inr ⟨id, hid⟩))
        have hsent : forward { deviceId := deviceId, established := true } message = [] := by
          rw [forward, if_neg fun h => hforward (Bool.and_eq_true_iff.1 h).2]
        rw [hsent, List.nil_append,
          if_neg fun h => hnobody other (reaches_remaining.2 h).1, List.nil_append]
        by_cases hhere : entersUpgradeMode decodeEncaps message = true ∧
            message.targetDestinations.IsDestinedTo deviceId
        · rw [if_pos hhere, if_pos ⟨hhere.1, deviceId, List.mem_cons_self, hhere.2⟩]
          rfl
        · rw [if_neg hhere, ih, if_neg]
          rintro ⟨hupgrade, hsome⟩
          rw [← exists_remaining_iff fun hdestined => hhere ⟨hupgrade, hdestined⟩] at hsome
          obtain ⟨id, -, hid⟩ := hsome
          exact hnobody id hid

/-! ### The chain -/

/-- **What each device is given** of a stream, once all of it is read. -/
theorem delivered_settle (deviceIds : List DeviceId) (messages : List Message) (i : ℕ)
    (hi : i < deviceIds.length) :
    ((settle inLoop (receive decodeEncaps) (starts deviceIds) messages)[i]?).map
        DeviceLoop.delivered =
      some (addressed decodeEncaps (deviceIds.take i) deviceIds[i] messages) := by
  induction deviceIds generalizing messages i with
  | nil => exact absurd hi (Nat.not_lt_zero i)
  | cons deviceId rest ih =>
      rw [starts, links, List.map_cons, settle]
      cases i with
      | zero =>
          rw [List.getElem?_cons_zero, Option.map_some, consume_delivered _ rfl]
          rfl
      | succ i =>
          have hrest : i < rest.length := Nat.lt_of_succ_lt_succ hi
          have hestablished : (!rest.isEmpty) = true := by
            cases rest with
            | nil => exact absurd hrest (Nat.not_lt_zero i)
            | cons => rfl
          rw [List.getElem?_cons_succ, consume_sent _ rfl, hestablished]
          refine (ih _ i hrest).trans ?_
          rw [addressed_forward]
          rfl

/-- Whatever a device still reads only adds to what it was given. -/
theorem delivered_prefix (link : Link) (s : DeviceLoop P) (messages : List Message) :
    s.delivered <+: (consume inLoop (receive decodeEncaps) link s messages).1.delivered := by
  cases hs : s.left with
  | true => rw [consume_of_not_live (by rw [inLoop, hs]; rfl)]
  | false => exact ⟨_, (consume_delivered link hs messages).symm⟩

/-- A device never makes more than one message of one. -/
theorem receive_length (link : Link) (s : DeviceLoop P) (message : Message) :
    (receive decodeEncaps link s message).2.length ≤ 1 := by
  rw [receive_snd, forward]
  split
  · exact Nat.le_refl 1
  · exact Nat.zero_le 1

/-- The messages a device sends on are what it read, without itself. -/
theorem forward_ne_nil_iff {link : Link} {message : Message} :
    forward link message ≠ [] ↔ link.established = true ∧
      (message.targetDestinations = .all ∨
        ∃ other, other ≠ link.deviceId ∧ message.targetDestinations.IsDestinedTo other) := by
  have hworth : (remaining message.targetDestinations link.deviceId).shouldForward = true ↔
      message.targetDestinations = .all ∨
        ∃ other, other ≠ link.deviceId ∧ message.targetDestinations.IsDestinedTo other := by
    simp only [shouldForward_iff, remaining_eq_all_iff, isDestinedTo_remaining]
    constructor
    · rintro (hall | ⟨other, hother, hall | hne⟩)
      · exact .inl hall
      · exact .inl hall
      · exact .inr ⟨other, hne, hother⟩
    · rintro (hall | ⟨other, hne, hother⟩)
      · exact .inl hall
      · exact .inr ⟨other, hother, .inr hne⟩
  rw [← hworth, ← Bool.and_eq_true_iff, forward]
  split
  · rename_i h
    exact iff_of_true (List.cons_ne_nil _ _) h
  · rename_i h
    exact iff_of_false (fun hne => hne rfl) h

/-- **Delivery.** In any run of any chain each device has been given, in order, an initial part of
what it is addressed of the messages that entered, and all of it once nothing is under way, which
comes about. What a device sends on is what it read, without itself, and it sends that on exactly
when somebody is downstream and somebody else may be a destination. -/
theorem delivery {deviceIds : List DeviceId} {messages : List Message}
    {chain : List (Stage Link (DeviceLoop P) Message)}
    (h : Reach inLoop (receive decodeEncaps) (fresh (starts deviceIds)) messages chain) :
    (∀ (i : ℕ) (hi : i < deviceIds.length), ∃ stage, chain[i]? = some stage ∧
      stage.state.delivered <+:
        addressed decodeEncaps (deviceIds.take i) deviceIds[i] messages ∧
      (Quiescent inLoop chain → stage.state.delivered =
        addressed decodeEncaps (deviceIds.take i) deviceIds[i] messages)) ∧
    (∃ chain', Relation.ReflTransGen (Step inLoop (receive decodeEncaps)) chain chain' ∧
      Quiescent inLoop chain') ∧
    ∀ (link : Link) (s : DeviceLoop P) (message : Message),
      ((receive decodeEncaps link s message).2 ≠ [] ↔ link.established = true ∧
        (message.targetDestinations = .all ∨
          ∃ other, other ≠ link.deviceId ∧ message.targetDestinations.IsDestinedTo other)) ∧
      ∀ sent ∈ (receive decodeEncaps link s message).2,
        sent.messageBody = message.messageBody ∧
        ∀ other, sent.targetDestinations.IsDestinedTo other ↔
          message.targetDestinations.IsDestinedTo other ∧
            (message.targetDestinations = .all ∨ other ≠ link.deviceId) := by
  refine ⟨fun i hi => ?_, exists_quiescent receive_length chain, fun link s message => ⟨?_, ?_⟩⟩
  · obtain ⟨final, hfinal, hdelivered⟩ :=
      Option.map_eq_some_iff.1 (@delivered_settle P decodeEncaps deviceIds messages i hi)
    obtain ⟨stage, hstage, ⟨more, hmore⟩, hquiet⟩ := h.getElem?_of_settle hfinal
    refine ⟨stage, hstage, ?_, fun hquiescent => ?_⟩
    · rw [← hdelivered, hmore]
      exact delivered_prefix stage.kind stage.state more
    · rw [hquiet hquiescent, hdelivered]
  · exact forward_ne_nil_iff
  · intro sent hsent
    rw [receive_snd, forward] at hsent
    split at hsent
    · obtain rfl := List.mem_singleton.1 hsent
      exact ⟨rfl, fun other => isDestinedTo_remaining⟩
    · exact absurd hsent List.not_mem_nil

/-- A message for two devices, and one for the first of them. -/
def messagesForTwo : List Message :=
  [{ targetDestinations := .particular (.ofList [1, 2] compare), messageBody := .cancel },
    { targetDestinations := .particular (.ofList [1] compare), messageBody := .announceAck }]

/-- The two devices once they have read them. -/
def chainOfTwo : List (Stage Link (DeviceLoop plainPayloads) Message) :=
  [{ kind := { deviceId := 1, established := true }
     state :=
       { delivered := [.cancel, .announceAck], inbox := [.cancel, .announceAck], left := false }
     incoming := [] },
    { kind := { deviceId := 2, established := false }
      state := { delivered := [.cancel], inbox := [.cancel], left := false }
      incoming := [] }]

theorem reach_chainOfTwo :
    Reach inLoop (receive fun _ => none) (fresh (starts [1, 2])) messagesForTwo chainOfTwo := by
  -- the second message enters before the second device has read the first one
  exact .step (.step (.enter (.step (.enter .start _) (.take rfl)) _) (.later (.take rfl)))
    (.take rfl)

/-- The first device removes itself from the destinations of the first message, and does not send
the second one on. -/
theorem delivery_particular :
    (∀ (i : ℕ) (hi : i < [(1 : DeviceId), 2].length), ∃ stage, chainOfTwo[i]? = some stage ∧
      stage.state.delivered = @addressed plainPayloads (fun _ => none) ([1, 2].take i)
        [1, 2][i] messagesForTwo) ∧
    ∀ message ∈ messagesForTwo, ∀ sent ∈ (receive (P := plainPayloads) (fun _ => none)
      { deviceId := 1, established := true } .new message).2,
      sent.messageBody = .cancel ∧ ¬ sent.targetDestinations.IsDestinedTo 1 := by
  obtain ⟨hdelivered, -, hforward⟩ := delivery reach_chainOfTwo
  have hquiet : Quiescent inLoop chainOfTwo := by
    intro stage hstage
    obtain rfl | rfl : stage = _ ∨ stage = _ := by simpa [chainOfTwo] using hstage
    · exact .inl rfl
    · exact .inl rfl
  refine ⟨fun i hi => ?_, ?_⟩
  · obtain ⟨stage, hstage, -, hall⟩ := hdelivered i hi
    exact ⟨stage, hstage, hall hquiet⟩
  · intro message hmessage sent hsent
    obtain ⟨hsends, hsame⟩ := hforward { deviceId := 1, established := true } .new message
    obtain ⟨hbody, hdestined⟩ := hsame sent hsent
    obtain rfl | rfl : message = _ ∨ message = _ := by simpa [messagesForTwo] using hmessage
    · refine ⟨hbody, fun hone => ?_⟩
      obtain ⟨-, hall | hne⟩ := (hdestined 1).1 hone
      · cases hall
      · exact hne rfl
    · -- nobody but the first device is a destination
      obtain ⟨-, hall | ⟨other, hne, hother⟩⟩ := hsends.1 (List.ne_nil_of_mem hsent)
      · cases hall
      · obtain rfl | hnone := BTreeSet.mem_insert.1 hother
        · exact absurd rfl hne
        · exact absurd hnone Std.ExtTreeSet.not_mem_empty

end Frostsnap.DaisyChain
