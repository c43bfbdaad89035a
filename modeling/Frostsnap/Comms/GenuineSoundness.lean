import Frostsnap.Comms.GenuineCheck

/-!
# What a genuine device has shown

A device is shown as genuine only after its own key has signed, in this connection, a challenge of
this connection and the digest of an attested device that names it, and the certificate shown is the
one the factory signed in there. Whoever sends what: replies are arbitrary, and may be relayed
requests, other devices' answers and old ones. If the holder of the key signs only as a device does,
the certificate is its own.

## Main results

* `Sound.call`: one call.
* `genuine_is_shown`: any calls.
-/

namespace Frostsnap.Genuine

variable (C : Crypto)

/-! ### Definitions -/

/-- In some events a device presented an identity attestation over a digest, and over a challenge it
had been asked with it. -/
def ShownIn (id : DeviceId) (since : List Event) (attestedDigest : AttestedDeviceDigest) : Prop :=
  ∃ (earlier later : List Event) (challenge : GenuineChallenge) (signature : Signature)
    (answer : Except GenuineError (Option CoordinatorMessage)),
    since = earlier ++ .received id (.identityAttestation signature) answer :: later ∧
      .requestIdentityAttestation challenge attestedDigest ∈ asked id earlier ∧
      verifyIdentityAttestation C id challenge attestedDigest signature = .ok ()

/-- What a session relies on has happened since its device connected. -/
structure SessionSound (check : GenuineCheck) (id : DeviceId) (session : Session)
    (since : List Event) : Prop where
  pending : ∀ attestation body, session.pending = some (attestation, body) →
    verifyFactoryAttestation C attestation.attested check.factoryKey attestation.challenge id
      attestation.signature = .ok body
  asked : ∀ request, session.outstanding = some request → request ∈ asked id since
  about : ∀ challenge attestedDigest,
    session.outstanding = some (.requestIdentityAttestation challenge attestedDigest) →
    ∃ entry, (session.pending <|> check.certs[id]?) = some entry ∧
      attestedDigest = entry.1.attested.digest C
  proven : session.proven = true → ∃ attestation body,
    check.certs[id]? = some (attestation, body) ∧ ShownIn C id since (attestation.attested.digest C)

/-- What the holder of a key has signed: it answers only over the digest of its own attested
device. -/
def signedBy (own : AttestedDeviceDigest) (events : List Event) : List IdentityMessage :=
  events.filterMap fun event =>
    match event with
    | .answered request =>
        match request.deviceAction own with
        | .identityAttest challenge => some { challenge := challenge, attestedDigest := own }
        | .factoryAttest _ => none
    | _ => none

/-- No identity attestation that is presented for a device verifies over a message which the holder
of its key has not signed by then. -/
def Unforged (id : DeviceId) (own : AttestedDevice) (events : List Event) : Prop :=
  ∀ (earlier later : List Event) (signature : Signature)
    (answer : Except GenuineError (Option CoordinatorMessage)),
    events = earlier ++ .received id (.identityAttestation signature) answer :: later →
    ∀ (xonly : XOnly) (message : IdentityMessage), C.evenY id = some xonly →
      C.schnorrVerify xonly IDENTITY_MESSAGE_TAG message.toSigningBytes signature = true →
      ∃ signed ∈ signedBy (own.digest C) earlier, signed.toSigningBytes = message.toSigningBytes

/-- No other attested device on file has the digest of a device's own. -/
def NoCollision (own : AttestedDevice) (check : GenuineCheck) : Prop :=
  ∀ (id : DeviceId) attestation body, check.certs[id]? = some (attestation, body) →
    attestation.attested.digest C = own.digest C → attestation.attested = own

/-- Every record on file verifies for the id it is filed under. -/
def Verified (check : GenuineCheck) : Prop :=
  ∀ (id : DeviceId) attestation body, check.certs[id]? = some (attestation, body) →
    verifyFactoryAttestation C attestation.attested check.factoryKey attestation.challenge id
      attestation.signature = .ok body

/-- What holds after any calls. -/
structure Sound (factoryKey : XOnly) (launch : Launch) : Prop where
  key : launch.check.factoryKey = factoryKey
  records : Verified C launch.check
  sessions : ∀ (id : DeviceId) session, launch.check.sessions[id]? = some session →
    ∃ since, sinceConnected id launch.events = some since ∧
      SessionSound C launch.check id session since

variable {C}

/-! ### Events -/

/-- What was asked, in the order of the events. -/
theorem asked_append (id : DeviceId) (events events' : List Event) :
    asked id (events ++ events') = asked id events ++ asked id events' :=
  List.filterMap_append

/-- What the last event asks was asked. -/
theorem mem_asked_concat {id : DeviceId} {events : List Event} {event : Event}
    {request : CoordinatorMessage} (h : event.asks id = some request) :
    request ∈ asked id (events ++ [event]) := by
  rw [asked_append, List.mem_append]
  exact .inr (List.mem_filterMap.2 ⟨event, List.mem_singleton_self event, h⟩)

/-- A connection begins anew for its own device, and goes on for the others. -/
theorem sinceConnected_connected (id id' : DeviceId) (events : List Event)
    (request : Option CoordinatorMessage) :
    sinceConnected id (events ++ [.connected id' request]) =
      if id' = id then some [.connected id' request]
      else (sinceConnected id events).map (· ++ [.connected id' request]) := by
  rw [sinceConnected, List.foldl_append]
  rfl

/-- And it ends for its own device alone. -/
theorem sinceConnected_disconnected (id id' : DeviceId) (events : List Event) :
    sinceConnected id (events ++ [.disconnected id']) =
      if id' = id then none
      else (sinceConnected id events).map (· ++ [.disconnected id']) := by
  rw [sinceConnected, List.foldl_append]
  rfl

/-- A reply belongs to every connection that is open, whoever it is from. -/
theorem sinceConnected_received (id from_ : DeviceId) (events : List Event)
    (message : DeviceMessage) (answer : Except GenuineError (Option CoordinatorMessage)) :
    sinceConnected id (events ++ [.received from_ message answer]) =
      (sinceConnected id events).map (· ++ [.received from_ message answer]) := by
  rw [sinceConnected, List.foldl_append]
  rfl

/-- So does a request that the holder of a key answers. -/
theorem sinceConnected_answered (id : DeviceId) (events : List Event)
    (request : CoordinatorMessage) :
    sinceConnected id (events ++ [.answered request]) =
      (sinceConnected id events).map (· ++ [.answered request]) := by
  rw [sinceConnected, List.foldl_append]
  rfl

/-- What was shown stays shown. -/
theorem ShownIn.concat {id : DeviceId} {since : List Event} {attestedDigest : AttestedDeviceDigest}
    (h : ShownIn C id since attestedDigest) (event : Event) :
    ShownIn C id (since ++ [event]) attestedDigest := by
  obtain ⟨earlier, later, challenge, signature, answer, rfl, hasked, hverify⟩ := h
  refine ⟨earlier, later ++ [event], challenge, signature, answer, ?_, hasked, hverify⟩
  rw [List.append_assoc, List.cons_append]

/-! ### Sessions that are not touched -/

variable {check check' : GenuineCheck} {id : DeviceId} {session : Session} {since : List Event}

/-- A session that is left alone, with its record. -/
theorem SessionSound.concat (h : SessionSound C check id session since)
    (hkey : check'.factoryKey = check.factoryKey) (hcert : check'.certs[id]? = check.certs[id]?)
    (event : Event) : SessionSound C check' id session (since ++ [event]) where
  pending attestation body hpending := by
    rw [hkey]
    exact h.pending attestation body hpending
  asked request hrequest := by
    rw [asked_append, List.mem_append]
    exact .inl (h.asked request hrequest)
  about challenge attestedDigest houtstanding := by
    rw [hcert]
    exact h.about challenge attestedDigest houtstanding
  proven hproven := by
    obtain ⟨attestation, body, hget, hshown⟩ := h.proven hproven
    exact ⟨attestation, body, hcert.trans hget, hshown.concat event⟩

/-- A session that was dropped relies on nothing. -/
theorem SessionSound.drop (check : GenuineCheck) (id : DeviceId) (session : Session)
    (since : List Event) : SessionSound C check id session.drop since where
  pending _ _ hpending := absurd hpending (Option.some_ne_none _).symm
  asked _ hrequest := absurd hrequest (Option.some_ne_none _).symm
  about _ _ houtstanding := absurd houtstanding (Option.some_ne_none _).symm
  proven hproven := absurd hproven Bool.false_ne_true

/-- What a session would put on file verifies. -/
theorem SessionSound.recorded (h : SessionSound C check id session since)
    (hrecords : Verified C check) {update : List GenuineCheckMutation}
    {attestation : FactoryAttestation} {body : CertificateBody}
    (hget : Staging.recorded { check := check, update := update } id session =
      some (attestation, body)) :
    verifyFactoryAttestation C attestation.attested check.factoryKey attestation.challenge id
      attestation.signature = .ok body := by
  unfold Staging.recorded at hget
  cases hpending : session.pending with
  | none =>
      rw [hpending] at hget
      exact hrecords id attestation body hget
  | some entry =>
      rw [hpending] at hget
      obtain rfl := Option.some.inj hget
      exact h.pending attestation body hpending

/-! ### Loading -/

/-- A row is verified again when it is loaded, and left out if that fails. -/
theorem loadRow_verified (h : Verified C check)
    (row : Option DeviceId × Option FactoryAttestation) : Verified C (check.loadRow C row) := by
  unfold GenuineCheck.loadRow
  split
  · rename_i deviceId attestation
    split
    · rename_i body hbody
      intro id attestation' body' hget
      have hid : attestation.attested.deviceId = deviceId :=
        (verifyFactoryAttestation_eq_ok hbody).1
      rw [GenuineCheck.applyMutation_factoryKey]
      rw [GenuineCheck.applyMutation_insert_certs, BTreeMap.getElem?_insert, hid] at hget
      split at hget
      · rename_i heq
        obtain ⟨rfl, rfl⟩ := Prod.mk.inj (Option.some.inj hget)
        rw [← heq]
        exact hbody
      · exact h id attestation' body' hget
    · exact h
  · exact h

/-- Loading a row opens no session. -/
theorem loadRow_rest (check : GenuineCheck) (row : Option DeviceId × Option FactoryAttestation) :
    (check.loadRow C row).sessions = check.sessions ∧
      (check.loadRow C row).factoryKey = check.factoryKey := by
  unfold GenuineCheck.loadRow
  split
  · split
    · exact ⟨GenuineCheck.applyMutation_insert_sessions _ _ _,
        GenuineCheck.applyMutation_factoryKey _ _⟩
    · exact ⟨rfl, rfl⟩
  · exact ⟨rfl, rfl⟩

/-- **After a launch** what is on file verifies, and nothing has been shown yet. -/
theorem load_spec (factoryKey : XOnly) (rows : List (Option DeviceId × Option FactoryAttestation)) :
    Verified C (.load C factoryKey rows) ∧ (GenuineCheck.load C factoryKey rows).sessions = ∅ ∧
      (GenuineCheck.load C factoryKey rows).factoryKey = factoryKey := by
  have hfold : ∀ check : GenuineCheck, Verified C check → check.sessions = ∅ →
      check.factoryKey = factoryKey →
      Verified C (rows.foldl (GenuineCheck.loadRow C) check) ∧
        (rows.foldl (GenuineCheck.loadRow C) check).sessions = ∅ ∧
        (rows.foldl (GenuineCheck.loadRow C) check).factoryKey = factoryKey := by
    induction rows with
    | nil => exact fun check hverified hsessions hkey => ⟨hverified, hsessions, hkey⟩
    | cons row rows ih =>
        intro check hverified hsessions hkey
        obtain ⟨hsessions', hkey'⟩ := @loadRow_rest C check row
        exact ih _ (loadRow_verified hverified row) (hsessions'.trans hsessions)
          (hkey'.trans hkey)
  refine hfold (.new factoryKey) (fun id attestation body hget => ?_) rfl rfl
  exact absurd hget (by simp [GenuineCheck.new])

/-! ### One call -/

variable {factoryKey : XOnly} {launch : Launch}

/-- A session starts with nothing proven, whatever is on file. -/
theorem Sound.connected (h : Sound C factoryKey launch) (id : DeviceId)
    (firmwareSupportsCheck : Bool) (draw : Draw) :
    Sound C factoryKey (launch.call C (.connected id firmwareSupportsCheck draw)) := by
  obtain ⟨hfactory, hrecords, hsessions⟩ := h
  set request := (launch.check.connected C id firmwareSupportsCheck draw).1 with hrequest
  have hcerts : (launch.check.connected C id firmwareSupportsCheck draw).2.certs =
      launch.check.certs := GenuineCheck.pushEvent_certs _ id
  have hkey : (launch.check.connected C id firmwareSupportsCheck draw).2.factoryKey =
      launch.check.factoryKey := GenuineCheck.pushEvent_factoryKey _ id
  have hnew : (launch.check.connected C id firmwareSupportsCheck draw).2.sessions =
      launch.check.sessions.insert id
        { firmwareSupportsCheck := firmwareSupportsCheck, proven := false, outstanding := request,
          pending := none } := GenuineCheck.pushEvent_sessions _ id
  refine ⟨hkey.trans hfactory, ?_, ?_⟩
  · intro id' attestation body hget
    rw [Launch.call, GenuineCheck.call] at hget ⊢
    rw [hkey]
    exact hrecords id' attestation body (by rw [← hcerts]; exact hget)
  · intro id' session hsession
    rw [Launch.call, GenuineCheck.call] at hsession ⊢
    dsimp only at hsession ⊢
    rw [hnew, BTreeMap.getElem?_insert] at hsession
    rw [sinceConnected_connected]
    by_cases hid : id = id'
    · subst hid
      rw [if_pos rfl] at hsession ⊢
      obtain rfl := Option.some.inj hsession
      refine ⟨_, rfl, ?_⟩
      refine ⟨fun _ _ hpending => absurd hpending (Option.some_ne_none _).symm,
        fun asks hasks => ?_,
        fun challenge digest hasks => ?_, fun hproven => absurd hproven Bool.false_ne_true⟩
      · rw [← hrequest]
        have hasked : asked id [.connected id request] = [asks] := by
          simp only [asked, List.filterMap_cons, Event.asks, if_true, List.filterMap_nil]
          rw [show request = some asks from hasks]
        rw [hasked]
        exact List.mem_singleton_self _
      · have hrequest' : request = some (.requestIdentityAttestation challenge digest) := hasks
        rw [hrequest, GenuineCheck.connected] at hrequest'
        dsimp only at hrequest'
        rw [hcerts]
        split at hrequest'
        · split at hrequest'
          · rename_i attestedDigest hdigest
            obtain ⟨entry, hentry, hdigest⟩ := Option.map_eq_some_iff.1 hdigest
            cases hrequest'
            exact ⟨entry, hentry, hdigest.symm⟩
          · cases hrequest'
        · cases hrequest'
    · rw [if_neg hid] at hsession ⊢
      obtain ⟨since, hsince, hsound⟩ := hsessions id' session hsession
      rw [hsince]
      exact ⟨_, rfl, hsound.concat hkey (by rw [hcerts]) _⟩

/-- A session ends with its connection. -/
theorem Sound.disconnected (h : Sound C factoryKey launch) (id : DeviceId) :
    Sound C factoryKey (launch.call C (.disconnected id)) := by
  refine ⟨h.key, h.records, fun id' session hsession => ?_⟩
  have hsession' : (launch.check.sessions.erase id)[id']? = some session := hsession
  rw [BTreeMap.getElem?_erase] at hsession'
  rw [Launch.call, GenuineCheck.call]
  dsimp only
  rw [sinceConnected_disconnected]
  split at hsession'
  · cases hsession'
  · rename_i hid
    obtain ⟨since, hsince, hsound⟩ := h.sessions id' session hsession'
    rw [if_neg hid, hsince]
    refine ⟨_, rfl, hsound.concat ?_ ?_ _⟩ <;> rfl

/-- What the holder of a key signs is nothing the check looks at. -/
theorem Sound.answer (h : Sound C factoryKey launch) (request : CoordinatorMessage) :
    Sound C factoryKey (launch.call C (.answer request)) := by
  refine ⟨h.key, h.records, fun id' session hsession => ?_⟩
  obtain ⟨since, hsince, hsound⟩ := h.sessions id' session hsession
  rw [Launch.call, GenuineCheck.call]
  dsimp only
  rw [sinceConnected_answered, hsince]
  exact ⟨_, rfl, hsound.concat rfl rfl _⟩

/-- What holds once a reply came to `check` with an answer. -/
theorem Sound.received (h : Sound C factoryKey launch) {from_ : DeviceId} {message : DeviceMessage}
    {draw : Draw} {answer : Except GenuineError (Option CoordinatorMessage)} {s : Staging}
    (hreceived : Staging.Received C { check := launch.check, update := [] } from_ message
      draw (answer, s)) :
    Sound C factoryKey
      { check := s.check, events := launch.events ++ [.received from_ message answer] } := by
  obtain ⟨hfactory, hrecords, hsessions⟩ := h
  have hleft : ∀ check : GenuineCheck, check.factoryKey = launch.check.factoryKey →
      ∀ (id : DeviceId) (session : Session), check.certs[id]? = launch.check.certs[id]? →
      launch.check.sessions[id]? = some session →
      ∃ since, sinceConnected id (launch.events ++ [.received from_ message answer]) = some since ∧
        SessionSound C check id session since := by
    intro check hkey id session hcert hsession
    obtain ⟨since, hsince, hsound⟩ := hsessions id session hsession
    rw [sinceConnected_received, hsince]
    exact ⟨_, rfl, hsound.concat hkey hcert _⟩
  cases hreceived with
  | ignored | failed => exact ⟨hfactory, hrecords, fun id session => hleft _ rfl id session rfl⟩
  | @attested session attestation body hsession houtstanding hmessage hverify =>
      refine ⟨hfactory, hrecords, fun id session' hsession' => ?_⟩
      have hget : (launch.check.sessions.insert from_ _)[id]? = some session' := hsession'
      rw [BTreeMap.getElem?_insert] at hget
      split at hget
      · rename_i hid
        obtain rfl := Option.some.inj hget
        subst hid
        obtain ⟨since, hsince, hold⟩ := hsessions from_ session hsession
        rw [sinceConnected_received, hsince]
        refine ⟨_, rfl, fun attestation' body' hpending => ?_, fun request hrequest => ?_,
          fun challenge digest hrequest => ?_, fun hproven => ?_⟩
        · obtain ⟨rfl, rfl⟩ := Prod.mk.inj (Option.some.inj hpending)
          exact hverify
        · obtain rfl := Option.some.inj hrequest
          exact mem_asked_concat (if_pos rfl)
        · cases hrequest
          exact ⟨(attestation, body), rfl, rfl⟩
        · obtain ⟨attestation', body', hget', hshown⟩ := hold.proven hproven
          exact ⟨attestation', body', hget', hshown.concat _⟩
      · refine hleft _ ?_ id session' ?_ hget <;> rfl
  | @stale session challenge attestedDigest hsession houtstanding hpending =>
      refine ⟨hfactory, hrecords, fun id session' hsession' => ?_⟩
      have hget : (launch.check.sessions.insert from_ _)[id]? = some session' := hsession'
      rw [BTreeMap.getElem?_insert] at hget
      split at hget
      · rename_i hid
        obtain rfl := Option.some.inj hget
        subst hid
        obtain ⟨since, hsince, hold⟩ := hsessions from_ session hsession
        rw [sinceConnected_received, hsince]
        refine ⟨_, rfl, hold.pending, fun request hrequest => ?_, fun _ _ hrequest => ?_,
          fun hproven => ?_⟩
        · obtain rfl := Option.some.inj hrequest
          exact mem_asked_concat (if_pos rfl)
        · cases hrequest
        · obtain ⟨attestation', body', hget', hshown⟩ := hold.proven hproven
          exact ⟨attestation', body', hget', hshown.concat _⟩
      · refine hleft _ ?_ id session' ?_ hget <;> rfl
  | @proven session challenge attestedDigest signature hsession houtstanding hmessage hverify =>
      obtain ⟨since, hsince, hold⟩ := hsessions from_ session hsession
      obtain ⟨ids, hproven⟩ := @Staging.prove_proven { check := launch.check, update := [] } from_
        session draw.order fun attestation body hpending => (verifyFactoryAttestation_eq_ok
          (hold.pending attestation body hpending)).1
      obtain ⟨-, -, hkey, -, hcerts, hsessions'⟩ := hproven
      refine ⟨hkey.trans hfactory, ?_, ?_⟩
      · intro id attestation body hget
        rw [hcerts] at hget
        rw [hkey]
        split at hget
        · cases hget
        split at hget
        · rename_i hid
          rw [hid]
          exact hold.recorded hrecords hget
        · exact hrecords id attestation body hget
      · intro id session' hsession'
        rw [hsessions'] at hsession'
        have hcert := hcerts id
        split at hsession'
        · obtain ⟨session₀, hsession₀, rfl⟩ := Option.map_eq_some_iff.1 hsession'
          obtain ⟨since₀, hsince₀, -⟩ := hsessions id session₀ hsession₀
          rw [sinceConnected_received, hsince₀]
          exact ⟨_, rfl, .drop _ id session₀ _⟩
        · rename_i hnot
          rw [if_neg hnot] at hcert
          split at hsession'
          · rename_i hid
            obtain rfl := Option.some.inj hsession'
            rw [if_pos hid] at hcert
            subst hid
            obtain ⟨entry, hentry, hdigest⟩ := hold.about challenge attestedDigest houtstanding
            rw [sinceConnected_received, hsince]
            refine ⟨_, rfl, fun _ _ hpending => absurd hpending (Option.some_ne_none _).symm,
              fun _ hasks => absurd hasks (Option.some_ne_none _).symm,
              fun _ _ hasks => absurd hasks (Option.some_ne_none _).symm,
              fun _ => ⟨entry.1, entry.2, hcert.trans hentry, since, [], challenge, signature,
                .ok none, ?_, ?_, ?_⟩⟩
            · rw [hmessage]
            · rw [← hdigest]
              exact hold.asked _ houtstanding
            · rw [← hdigest]
              exact hverify
          · rename_i hid
            rw [if_neg hid] at hcert
            exact hleft _ hkey id session' hcert hsession'

/-- **One call** keeps what sessions rely on. -/
theorem Sound.call (h : Sound C factoryKey launch) (call : Call) :
    Sound C factoryKey (launch.call C call) := by
  cases call with
  | connected id firmwareSupportsCheck draw => exact h.connected id firmwareSupportsCheck draw
  | disconnected id => exact h.disconnected id
  | recv from_ message draw => exact h.received (Staging.recv_received _ from_ message draw)
  | answer request => exact h.answer request

/-- **After any calls** every session is sound and every record verifies. -/
theorem sound_launched (factoryKey : XOnly)
    (rows : List (Option DeviceId × Option FactoryAttestation)) (calls : List Call) :
    Sound C factoryKey (launched C factoryKey rows calls) := by
  have hfold : ∀ launch : Launch, Sound C factoryKey launch →
      Sound C factoryKey (calls.foldl (Launch.call C) launch) := by
    induction calls with
    | nil => exact fun launch h => h
    | cons call calls ih => exact fun launch h => ih _ (h.call call)
  obtain ⟨hverified, hsessions, hkey⟩ := @load_spec C factoryKey rows
  refine hfold _ ⟨hkey, hverified, fun id session hsession => ?_⟩
  rw [hsessions] at hsession
  exact absurd hsession (by simp)

/-! ### Genuine devices -/

/-- What happened since a device connected is the last part of what happened. -/
theorem suffix_of_sinceConnected {events since : List Event}
    (h : sinceConnected id events = some since) : since <:+ events := by
  induction events using List.reverseRecOn generalizing since with
  | nil => cases h
  | append_singleton events event ih =>
      have hold : ∀ since₀, (sinceConnected id events).map (· ++ [event]) = some since₀ →
          since₀ <:+ events ++ [event] := by
        intro since₀ hmap
        obtain ⟨since₁, hsince, rfl⟩ := Option.map_eq_some_iff.1 hmap
        obtain ⟨before, rfl⟩ := ih hsince
        exact ⟨before, (List.append_assoc _ _ _).symm⟩
      cases event with
      | connected id' request =>
          rw [sinceConnected_connected] at h
          split at h
          · obtain rfl := Option.some.inj h
            exact ⟨events, rfl⟩
          · exact hold since h
      | disconnected id' =>
          rw [sinceConnected_disconnected] at h
          split at h
          · cases h
          · exact hold since h
      | received from_ message answer =>
          rw [sinceConnected_received] at h
          exact hold since h
      | answered request =>
          rw [sinceConnected_answered] at h
          exact hold since h

/-- An identity attestation that verifies is a signature of the key that is the identifier. -/
theorem verifyIdentityAttestation_eq_ok {challenge : GenuineChallenge}
    {attestedDigest : AttestedDeviceDigest} {signature : Signature}
    (h : verifyIdentityAttestation C id challenge attestedDigest signature = .ok ()) :
    ∃ xonly, C.evenY id = some xonly ∧ C.schnorrVerify xonly IDENTITY_MESSAGE_TAG
      (IdentityMessage.mk challenge attestedDigest).toSigningBytes signature = true := by
  unfold verifyIdentityAttestation at h
  split at h
  · cases h
  rename_i xonly hxonly
  refine ⟨xonly, hxonly, ?_⟩
  split at h
  · rename_i hverify
    exact hverify
  · cases h

/-- A device signs over its own digest only. -/
theorem digest_of_mem_signedBy {own : AttestedDeviceDigest} {events : List Event}
    {message : IdentityMessage} (h : message ∈ signedBy own events) :
    message.attestedDigest = own := by
  obtain ⟨event, -, hevent⟩ := List.mem_filterMap.1 h
  split at hevent
  · split at hevent
    · rw [← Option.some.inj hevent]
    · cases hevent
  · cases hevent

/-- An attested device that was shown is the holder's own. -/
theorem ShownIn.eq_own {own attested : AttestedDevice} {events : List Event}
    (h : ShownIn C id since (attested.digest C)) (hsuffix : since <:+ events)
    (hunforged : Unforged C id own events) : attested.digest C = own.digest C := by
  obtain ⟨earlier, later, challenge, signature, answer, rfl, -, hverify⟩ := h
  obtain ⟨before, rfl⟩ := hsuffix
  obtain ⟨xonly, hxonly, hschnorr⟩ := verifyIdentityAttestation_eq_ok hverify
  obtain ⟨signed, hsigned, hbytes⟩ := hunforged (before ++ earlier) later signature answer
    (List.append_assoc _ _ _).symm xonly _ hxonly hschnorr
  have hdigest := digest_of_mem_signedBy hsigned
  rw [IdentityMessage.toSigningBytes_inj hbytes] at hdigest
  exact hdigest

/-- **A genuine device.** Whatever was called with whatever replies, a device is shown as genuine
only if, since it connected, its key signed a challenge it had been asked and the digest of an
attested device that names it, and the certificate is what the factory signed in there. If the
holder of the key answers only as a device does, it is the certificate of the holder's own. -/
theorem genuine_is_shown {rows : List (Option DeviceId × Option FactoryAttestation)}
    {calls : List Call} {id : DeviceId}
    {certificate : CertificateBody}
    (h : (launched C factoryKey rows calls).check.status id = some (.genuine certificate)) :
    (∃ (since : List Event) (attested : AttestedDevice),
      sinceConnected id (launched C factoryKey rows calls).events = some since ∧
      ShownIn C id since (attested.digest C) ∧ attested.deviceId = id ∧
      verifyCertificate C attested.certificate factoryKey = .ok certificate) ∧
    ∀ own : AttestedDevice, Unforged C id own (launched C factoryKey rows calls).events →
      NoCollision C own (launched C factoryKey rows calls).check →
      certificate = own.certificate.body := by
  obtain ⟨session, attestation, hsession, hproven, hcert⟩ :=
    GenuineCheck.status_eq_genuine_iff.1 h
  have hsound : Sound C factoryKey (launched C factoryKey rows calls) :=
    sound_launched factoryKey rows calls
  obtain ⟨since, hsince, hsession⟩ := hsound.sessions id session hsession
  obtain ⟨attestation', body, hcert', hshown⟩ := hsession.proven hproven
  obtain ⟨rfl, rfl⟩ := Prod.mk.inj (Option.some.inj (hcert.symm.trans hcert'))
  obtain ⟨hid, hverify⟩ := verifyFactoryAttestation_eq_ok (hsound.records id _ _ hcert)
  rw [hsound.key] at hverify
  refine ⟨⟨since, attestation.attested, hsince, hshown, hid, hverify⟩, fun own hunforged hno => ?_⟩
  have hdigest := hshown.eq_own (suffix_of_sinceConnected hsince) hunforged
  rw [verifyCertificate_eq_ok hverify, hno id attestation certificate hcert hdigest]

/-! ### A device that proves itself -/

/-- What device 7 attests. -/
def sampleAttested : AttestedDevice where
  deviceId := 7
  certificate :=
    { body :=
        { dsPublicKey := [1], caseColor := .orange, revision := "2.7-1625", serial := "220825002",
          timestamp := 1971 }
      factorySignature := { factoryKey := 1, signature := 11 } }

/-- The challenge of the first phase. -/
def sampleFirst : Draw where
  challenge := .replicate 32 1
  order := .asListed _

/-- The challenge of the second phase. -/
def sampleSecond : Draw where
  challenge := .replicate 32 2
  order := .asListed _

/-- The message the device signs. -/
def sampleIdentity : IdentityMessage where
  challenge := .replicate 32 2
  attestedDigest := .replicate 32 9

/-- One certificate, one factory attestation and one identity attestation verify. -/
def sampleCrypto : Crypto where
  evenY := fun id => some (id.setWidth 256)
  schnorrVerify := fun key tag bytes signature =>
    (key = 1 && tag = "frostsnap-genuine-key" && bytes = [4] && signature = 11) ||
      (key = 7 && tag = IDENTITY_MESSAGE_TAG && bytes = sampleIdentity.toSigningBytes &&
        signature = 12)
  isPkcs1Der := fun bytes => bytes = [1]
  rsaVerify := fun key _ signature => key = [1] && signature = 13
  sha256 := fun bytes => if bytes = [5] then .replicate 32 9 else .replicate 32 0
  encodeBody := fun _ => [4]
  encodeAttested := fun attested => if attested = sampleAttested then [5] else [6]
  encodeSigned := fun _ => [8]

/-- Device 7 connects, and answers both requests. -/
def sampleCalls : List Call :=
  [.connected 7 true sampleFirst,
    .recv 7 (.factoryAttestation sampleAttested { rsa3072 := 13 }) sampleSecond,
    .answer (.requestIdentityAttestation sampleSecond.challenge sampleIdentity.attestedDigest),
    .recv 7 (.identityAttestation 12) sampleFirst]

/-- The request of the second phase. -/
def sampleRequest : CoordinatorMessage :=
  .requestIdentityAttestation sampleSecond.challenge sampleIdentity.attestedDigest

/-- What happens in the run. -/
theorem sample_events : (launched sampleCrypto 1 [] sampleCalls).events =
    [.connected 7 (some (.requestFactoryAttestation sampleFirst.challenge)),
      .received 7 (.factoryAttestation sampleAttested { rsa3072 := 13 })
        (.ok (some sampleRequest)),
      .answered sampleRequest, .received 7 (.identityAttestation 12) (.ok none)] := by
  decide +kernel

/-- The message that is presented was signed before. -/
theorem sample_signed : sampleIdentity ∈ signedBy (sampleAttested.digest sampleCrypto)
    [.connected 7 (some (.requestFactoryAttestation sampleFirst.challenge)),
      .received 7 (.factoryAttestation sampleAttested { rsa3072 := 13 })
        (.ok (some sampleRequest)),
      .answered sampleRequest] := by
  decide +kernel

/-- What verifies for an identity attestation is the one message that is signed. -/
theorem sample_verify {xonly : XOnly} {bytes : List UInt8} {signature : Signature}
    (h : sampleCrypto.schnorrVerify xonly IDENTITY_MESSAGE_TAG bytes signature = true) :
    bytes = sampleIdentity.toSigningBytes := by
  have htag : (IDENTITY_MESSAGE_TAG = "frostsnap-genuine-key") = False := by
    rw [eq_iff_iff, iff_false]
    decide
  simp only [sampleCrypto, htag, decide_false, Bool.and_false, Bool.false_and, Bool.false_or,
    Bool.and_eq_true, decide_eq_true_eq] at h
  exact h.1.2

/-- Nothing else is presented. -/
theorem sample_unforged :
    Unforged sampleCrypto 7 sampleAttested (launched sampleCrypto 1 [] sampleCalls).events := by
  intro earlier later signature answer hsplit xonly message _ hverify
  have hbytes := sample_verify hverify
  rw [sample_events] at hsplit
  refine ⟨sampleIdentity, ?_, hbytes.symm⟩
  rcases earlier with _ | ⟨e₁, _ | ⟨e₂, _ | ⟨e₃, _ | ⟨e₄, earlier⟩⟩⟩⟩
  · cases (List.cons.inj hsplit).1
  · cases (List.cons.inj (List.cons.inj hsplit).2).1
  · cases (List.cons.inj (List.cons.inj (List.cons.inj hsplit).2).2).1
  · obtain ⟨h₁, hsplit₁⟩ := List.cons.inj hsplit
    obtain ⟨h₂, hsplit₂⟩ := List.cons.inj hsplit₁
    obtain ⟨h₃, -⟩ := List.cons.inj hsplit₂
    rw [← h₁, ← h₂, ← h₃]
    exact sample_signed
  · have hlength := congrArg List.length hsplit
    simp at hlength

/-- One device is on file. -/
theorem sample_noCollision : NoCollision sampleCrypto sampleAttested
    (launched sampleCrypto 1 [] sampleCalls).check := by
  intro id attestation body _ hdigest
  by_contra hne
  have hother : attestation.attested.digest sampleCrypto = .replicate 32 0 := by
    have hencode : sampleCrypto.encodeAttested attestation.attested = [6] := if_neg hne
    rw [AttestedDevice.digest, hencode]
    decide +kernel
  have hown : sampleAttested.digest sampleCrypto = .replicate 32 9 := by decide +kernel
  rw [hother, hown] at hdigest
  exact absurd hdigest (by decide +kernel)

/-- The run, with every assumption met. -/
theorem genuine_is_shown_sample :
    (launched sampleCrypto 1 [] sampleCalls).check.status 7 =
        some (.genuine sampleAttested.certificate.body) ∧
      (∃ (since : List Event) (attested : AttestedDevice),
        sinceConnected 7 (launched sampleCrypto 1 [] sampleCalls).events = some since ∧
        ShownIn sampleCrypto 7 since (attested.digest sampleCrypto) ∧ attested.deviceId = 7) ∧
      Unforged sampleCrypto 7 sampleAttested (launched sampleCrypto 1 [] sampleCalls).events ∧
      NoCollision sampleCrypto sampleAttested (launched sampleCrypto 1 [] sampleCalls).check := by
  have hstatus : (launched sampleCrypto 1 [] sampleCalls).check.status 7 =
      some (.genuine sampleAttested.certificate.body) := by
    decide +kernel
  obtain ⟨⟨since, attested, hsince, hshown, hid, -⟩, -⟩ := genuine_is_shown hstatus
  exact ⟨hstatus, ⟨since, attested, hsince, hshown, hid⟩, sample_unforged, sample_noCollision⟩

end Frostsnap.Genuine
