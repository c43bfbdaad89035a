import Frostsnap.Comms.Messages

/-!
# The genuine check

Whether each connected device is genuine hardware, as `genuine_check.rs` of the coordinator and of
the messages decides it. A device makes two attestations: in its factory attestation a certified DS
key signs an `AttestedDevice`, and in its identity attestation the key of the device id signs a
challenge and the digest of that `AttestedDevice`. Signature schemes, the hash and the encodings of
what is hashed are those of other libraries, and are parameters.

## Main definitions

* `verifyFactoryAttestation`, `verifyIdentityAttestation`, `CoordinatorMessage.deviceAction`: the
  two attestations, and how a device answers.
* `GenuineCheck.connected`, `GenuineCheck.recv`, `GenuineCheck.status`: the check.
-/

namespace Frostsnap.Genuine

/-! ### Certificates and attestations -/

/-- Random bytes. -/
abbrev GenuineChallenge := Vector UInt8 32

/-- SHA256 of an `AttestedDevice`'s encoding. -/
abbrev AttestedDeviceDigest := Vector UInt8 32

/-- `Point<EvenY>`, by its encoding. -/
abbrev XOnly := BitVec 256

/-- A Schnorr signature. -/
abbrev Signature := BitVec 512

/-- A signature from a device's DS (RSA-3072) key. -/
abbrev DsSignature := BitVec 3072

/-- `CaseColor`; a color that has a name is never decoded as another one. -/
inductive CaseColor where
  | black
  | orange
  | silver
  | blue
  | red
  | other (index : UInt32) (unnamed : 5 ≤ index)
  deriving DecidableEq

/-- `CertificateBody::Frontier` -/
structure CertificateBody where
  /-- PKCS#1 DER encoding of a device's RSA-3072 DS public key. -/
  dsPublicKey : List UInt8
  caseColor : CaseColor
  revision : String
  serial : String
  timestamp : UInt64
  deriving DecidableEq

/-- The key of the factory, and what it signed with it. -/
structure FrostsnapFactorySignature where
  /-- NOT for verification, just to know which factory -/
  factoryKey : XOnly
  signature : Signature
  deriving DecidableEq

/-- What the factory says of a device. -/
structure Certificate where
  body : CertificateBody
  factorySignature : FrostsnapFactorySignature
  deriving DecidableEq

/-- What a device's factory attestation vouches for: `AttestedDevice::V0`. -/
structure AttestedDevice where
  deviceId : DeviceId
  certificate : Certificate
  deriving DecidableEq

/-- `DsSignedMessage::GenuineAttestationV0`: everything the DS key signs. -/
structure DsSignedMessage where
  challenge : GenuineChallenge
  attested : AttestedDevice

/-- `IdentityMessage::V0`: everything the device-id key signs. -/
structure IdentityMessage where
  challenge : GenuineChallenge
  attestedDigest : AttestedDeviceDigest
  deriving DecidableEq

/-- A variant index of four bytes, and then two arrays of a fixed length. -/
def IdentityMessage.toSigningBytes (message : IdentityMessage) : List UInt8 :=
  [0, 0, 0, 0] ++ message.challenge.toList ++ message.attestedDigest.toList

/-- Both parts have a fixed length, so that no two messages are signed as the same bytes. -/
theorem IdentityMessage.toSigningBytes_inj {m m' : IdentityMessage}
    (h : m.toSigningBytes = m'.toSigningBytes) : m = m' := by
  obtain ⟨challenge, digest⟩ := m
  obtain ⟨challenge', digest'⟩ := m'
  rw [toSigningBytes, toSigningBytes, List.append_assoc, List.append_assoc] at h
  obtain ⟨hchallenge, hdigest⟩ := List.append_inj (List.append_cancel_left h) (by simp)
  obtain rfl : challenge = challenge' := Vector.toList_inj.1 hchallenge
  obtain rfl : digest = digest' := Vector.toList_inj.1 hdigest
  rfl

/-- Why a message of a device is refused. -/
inductive GenuineError where
  | deviceIdMismatch
  | unknownFactoryKey
  | certificateSignatureInvalid
  | malformedDsKey
  | factoryAttestationSignatureInvalid
  | identityAttestationSignatureInvalid
  | attestedAgain
  deriving DecidableEq

/-- What other libraries do. -/
structure Crypto where
  /-- `Point::from_bytes`, and `into_point_with_even_y` of what it returns. -/
  evenY : DeviceId → Option XOnly
  /-- `Schnorr::verify` of a tagged message. -/
  schnorrVerify : XOnly → String → List UInt8 → Signature → Bool
  /-- `RsaPublicKey::from_pkcs1_der`, by whether it succeeds. -/
  isPkcs1Der : List UInt8 → Bool
  /-- `RsaPublicKey::verify` under the key that has an encoding. -/
  rsaVerify : List UInt8 → Vector UInt8 32 → DsSignature → Bool
  sha256 : List UInt8 → Vector UInt8 32
  encodeBody : CertificateBody → List UInt8
  encodeAttested : AttestedDevice → List UInt8
  encodeSigned : DsSignedMessage → List UInt8

variable (C : Crypto)

/-- The digest of the bytes that are signed. -/
def AttestedDevice.digest (attested : AttestedDevice) : AttestedDeviceDigest :=
  C.sha256 (C.encodeAttested attested)

/-- The digest of the challenge with the device. -/
def DsSignedMessage.digest (message : DsSignedMessage) : Vector UInt8 32 :=
  C.sha256 (C.encodeSigned message)

/-- The tag of the signatures of the second phase. -/
def IDENTITY_MESSAGE_TAG : String := "frostsnap-genuine-identity"

/-- `CertificateVerifier::verify`: the key has to be the factory's, whatever the certificate says.
-/
def verifyCertificate (certificate : Certificate) (factoryKey : XOnly) :
    Except GenuineError CertificateBody :=
  if factoryKey ≠ certificate.factorySignature.factoryKey then .error .unknownFactoryKey
  else if C.schnorrVerify factoryKey "frostsnap-genuine-key" (C.encodeBody certificate.body)
      certificate.factorySignature.signature then .ok certificate.body
  else .error .certificateSignatureInvalid

/-- The second phase: a signature of the device's own key. -/
def verifyIdentityAttestation (deviceId : DeviceId) (challenge : GenuineChallenge)
    (attestedDigest : AttestedDeviceDigest) (signature : Signature) : Except GenuineError Unit :=
  match C.evenY deviceId with
  | none => .error .identityAttestationSignatureInvalid
  | some xonly =>
      if C.schnorrVerify xonly IDENTITY_MESSAGE_TAG
          (IdentityMessage.mk challenge attestedDigest).toSigningBytes signature then .ok ()
      else .error .identityAttestationSignatureInvalid

/-- `AttestationSignature::Rsa3072` -/
structure AttestationSignature where
  rsa3072 : DsSignature
  deriving DecidableEq

/-- The first phase: the device is the one it is attested as, and holds the key of its certificate.
-/
def verifyFactoryAttestation (attested : AttestedDevice) (factoryKey : XOnly)
    (challenge : GenuineChallenge) (from_ : DeviceId) (signature : AttestationSignature) :
    Except GenuineError CertificateBody :=
  if attested.deviceId ≠ from_ then .error .deviceIdMismatch
  else
    match verifyCertificate C attested.certificate factoryKey with
    | .error e => .error e
    | .ok body =>
        if !C.isPkcs1Der body.dsPublicKey then .error .malformedDsKey
        else if C.rsaVerify body.dsPublicKey
            (DsSignedMessage.digest C { challenge := challenge, attested := attested })
            signature.rsa3072 then .ok body
        else .error .factoryAttestationSignatureInvalid

/-! ### Messages -/

/-- What a device is asked. -/
inductive CoordinatorMessage where
  | requestFactoryAttestation (challenge : GenuineChallenge)
  | requestIdentityAttestation (challenge : GenuineChallenge)
      (attestedDigest : AttestedDeviceDigest)
  deriving DecidableEq

/-- What it answers. -/
inductive DeviceMessage where
  /-- `signature` is over the SHA-256 of `DsSignedMessage`. -/
  | factoryAttestation (attested : AttestedDevice) (signature : AttestationSignature)
  | identityAttestation (signature : Signature)
  deriving DecidableEq

/-- How a device answers a `CoordinatorMessage`. -/
inductive DeviceAction where
  /-- A factory attestation of its own `AttestedDevice` under this challenge. -/
  | factoryAttest (challenge : GenuineChallenge)
  /-- An identity attestation over this challenge and its own digest. -/
  | identityAttest (challenge : GenuineChallenge)

/-- A device's id key only ever signs over `own`. -/
def CoordinatorMessage.deviceAction (own : AttestedDeviceDigest) :
    CoordinatorMessage → DeviceAction
  | requestFactoryAttestation challenge => .factoryAttest challenge
  | requestIdentityAttestation challenge attestedDigest =>
      if attestedDigest = own then .identityAttest challenge else .factoryAttest challenge

/-! ### The check -/

/-- What is shown of a device. -/
inductive GenuineStatus where
  /-- Not proven for this connection. -/
  | unverified (firmwareSupportsCheck : Bool)
  /-- Proven for this connection. -/
  | genuine (certificate : CertificateBody)
  deriving DecidableEq

/-- What was verified in the first phase, kept to be verified again. -/
structure FactoryAttestation where
  attested : AttestedDevice
  signature : AttestationSignature
  /-- The challenge this coordinator sent, which the signature covers. -/
  challenge : GenuineChallenge
  deriving DecidableEq

/-- What is written to disk. -/
inductive GenuineCheckMutation where
  /-- `body` is what `attestation` verified to. -/
  | insert (attestation : FactoryAttestation) (body : CertificateBody)
  | remove (id : DeviceId)

/-- What is known of a connection. -/
structure Session where
  firmwareSupportsCheck : Bool
  proven : Bool
  outstanding : Option CoordinatorMessage
  /-- A factory attestation this connection made that verified, awaiting the identity attestation
  over its digest. -/
  pending : Option (FactoryAttestation × CertificateBody)

/-- What losing its record does to a connection. -/
def Session.drop (session : Session) : Session :=
  { session with proven := false, outstanding := none, pending := none }

/-- The records on file, and a session for every device that is connected. -/
@[ext]
structure GenuineCheck where
  factoryKey : XOnly
  /-- Only attestations that verified against `factoryKey` are kept. -/
  certs : BTreeMap DeviceId (FactoryAttestation × CertificateBody)
  sessions : BTreeMap DeviceId Session
  events : List (DeviceId × GenuineStatus)

/-- What a call draws from outside: a challenge, and the order a hash map is gone through. -/
structure Draw where
  challenge : GenuineChallenge
  order : HashOrder (DeviceId × FactoryAttestation × CertificateBody)

namespace GenuineCheck

/-- A check with no factory attestations on file. -/
def new (factoryKey : XOnly) : GenuineCheck where
  factoryKey := factoryKey
  certs := ∅
  sessions := ∅
  events := []

/-- The certificate of the factory attestation on file for `id`, whether or not it is connected. -/
def certificate (check : GenuineCheck) (id : DeviceId) : Option CertificateBody :=
  check.certs[id]?.map Prod.snd

/-- `none` unless `id` is connected. -/
def status (check : GenuineCheck) (id : DeviceId) : Option GenuineStatus := do
  let session ← check.sessions[id]?
  match (check.certificate id).filter fun _ => session.proven with
  | some certificate => some (.genuine certificate)
  | none => some (.unverified session.firmwareSupportsCheck)

/-- What a device has attested, on file. -/
def attestedDigest (check : GenuineCheck) (id : DeviceId) : Option AttestedDeviceDigest :=
  check.certs[id]?.map fun entry => entry.1.attested.digest C

/-- Queues the status of a device. -/
def pushEvent (check : GenuineCheck) (id : DeviceId) : GenuineCheck :=
  match check.status id with
  | some status => { check with events := check.events ++ [(id, status)] }
  | none => check

/-- Each announce is a new connection that has to prove itself again. -/
def connected (check : GenuineCheck) (id : DeviceId) (firmwareSupportsCheck : Bool) (draw : Draw) :
    Option CoordinatorMessage × GenuineCheck :=
  let request :=
    if firmwareSupportsCheck then
      match check.attestedDigest C id with
      | some attestedDigest => some (.requestIdentityAttestation draw.challenge attestedDigest)
      | none => some (.requestFactoryAttestation draw.challenge)
    else none
  let session :=
    { firmwareSupportsCheck := firmwareSupportsCheck, proven := false, outstanding := request,
      pending := none }
  (request, { check with sessions := check.sessions.insert id session }.pushEvent id)

/-- A session ends with its connection. -/
def disconnected (check : GenuineCheck) (id : DeviceId) : GenuineCheck :=
  { check with sessions := check.sessions.erase id }

/-- Returns whether the mutation changed anything. -/
def applyMutation (check : GenuineCheck) : GenuineCheckMutation → Bool × GenuineCheck
  | .insert attestation body =>
      let id := attestation.attested.deviceId
      if check.certs[id]? = some (attestation, body) then (false, check)
      else (true, { check with certs := check.certs.insert id (attestation, body) })
  | .remove id =>
      if check.certs[id]? = none then (false, check)
      else
        (true,
          { check with
            certs := check.certs.erase id
            sessions := check.sessions.modify id Session.drop }.pushEvent id)

end GenuineCheck

/-- A check and the mutations staged so far. -/
structure Staging where
  check : GenuineCheck
  update : List GenuineCheckMutation

namespace Staging

/-- A mutation that changes nothing is not written. -/
def mutate (s : Staging) (mutation : GenuineCheckMutation) : Staging where
  check := (s.check.applyMutation mutation).2
  update := if (s.check.applyMutation mutation).1 then s.update ++ [mutation] else s.update

/-- The other ids whose attestations name a DS key. -/
def superseded (s : Staging) (id : DeviceId) (dsPublicKey : List UInt8)
    (order : HashOrder (DeviceId × FactoryAttestation × CertificateBody)) : List DeviceId :=
  ((order.order s.check.certs.toList).filter fun entry =>
    entry.1 ≠ id ∧ entry.2.2.dsPublicKey = dsPublicKey).map Prod.fst

/-- Other ids that name the same key are removed. -/
def supersede (s : Staging) (id : DeviceId)
    (order : HashOrder (DeviceId × FactoryAttestation × CertificateBody)) : Staging :=
  match s.check.certs[id]? with
  | none => s
  | some (_, body) =>
      (s.superseded id body.dsPublicKey order).foldl (fun s oldId => s.mutate (.remove oldId)) s

/-- The session of a device. -/
def setSession (s : Staging) (id : DeviceId) (session : Session) : Staging :=
  { s with check := { s.check with sessions := s.check.sessions.insert id session } }

def pushEvent (s : Staging) (id : DeviceId) : Staging :=
  { s with check := s.check.pushEvent id }

/-- A device has proven its identity: what it attested in this connection is kept. -/
def prove (s : Staging) (from_ : DeviceId) (session : Session)
    (order : HashOrder (DeviceId × FactoryAttestation × CertificateBody)) : Staging :=
  let s := s.setSession from_ { session with outstanding := none, proven := true, pending := none }
  let s := match session.pending with
    | some (attestation, body) => s.mutate (.insert attestation body)
    | none => s
  (s.supersede from_ order).pushEvent from_

/-- Returns the request to send `from_` next, if any, or why its reply didn't verify. -/
def recv (s : Staging) (from_ : DeviceId) (message : DeviceMessage) (draw : Draw) :
    Except GenuineError (Option CoordinatorMessage) × Staging :=
  match s.check.sessions[from_]? with
  | none => (.ok none, s)
  | some session =>
      match session.outstanding, message with
      | some (.requestFactoryAttestation challenge), .factoryAttestation attested signature =>
          match verifyFactoryAttestation C attested s.check.factoryKey
              challenge from_ signature with
          | .error e => (.error e, s)
          | .ok body =>
              let request := .requestIdentityAttestation draw.challenge (attested.digest C)
              let attestation :=
                { attested := attested, signature := signature, challenge := challenge }
              (.ok (some request),
                s.setSession from_
                  { session with outstanding := some request, pending := some (attestation, body) })
      -- The device won't identity-attest over a digest that isn't its own. Over the record on file
      -- it is asked afresh, and over what this connection attested it is not asked again.
      | some (.requestIdentityAttestation _ _), .factoryAttestation _ _ =>
          if session.pending.isSome then (.error .attestedAgain, s)
          else
            let request := .requestFactoryAttestation draw.challenge
            (.ok (some request), s.setSession from_ { session with outstanding := some request })
      | some (.requestIdentityAttestation challenge attestedDigest),
          .identityAttestation signature =>
          match verifyIdentityAttestation C from_ challenge attestedDigest signature with
          | .error e => (.error e, s)
          | .ok () => (.ok none, s.prove from_ session draw.order)
      | _, _ => (.ok none, s)

end Staging

/-! ### Loading -/

namespace GenuineCheck

/-- A row is re-verified against the factory key and its row id. One that doesn't decode or verify
is skipped. -/
def loadRow (check : GenuineCheck) (row : Option DeviceId × Option FactoryAttestation) :
    GenuineCheck :=
  match row with
  | (some deviceId, some attestation) =>
      match verifyFactoryAttestation C attestation.attested check.factoryKey attestation.challenge
          deviceId attestation.signature with
      | .ok body => (check.applyMutation (.insert attestation body)).2
      | .error _ => check
  | _ => check

/-- What is on file is verified again when the app starts. -/
def load (factoryKey : XOnly) (rows : List (Option DeviceId × Option FactoryAttestation)) :
    GenuineCheck :=
  rows.foldl (loadRow C) (.new factoryKey)

end GenuineCheck

/-! ### What the operations do -/

variable {C}

/-- A certificate that verifies is what it says. -/
theorem verifyCertificate_eq_ok {certificate : Certificate} {factoryKey : XOnly}
    {body : CertificateBody} (h : verifyCertificate C certificate factoryKey = .ok body) :
    body = certificate.body := by
  unfold verifyCertificate at h
  split at h
  · cases h
  · split at h
    · exact (Except.ok.inj h).symm
    · cases h

/-- A device is attested as itself, with a certificate that verifies. -/
theorem verifyFactoryAttestation_eq_ok {attested : AttestedDevice} {factoryKey : XOnly}
    {challenge : GenuineChallenge} {from_ : DeviceId} {signature : AttestationSignature}
    {body : CertificateBody}
    (h : verifyFactoryAttestation C attested factoryKey challenge from_ signature = .ok body) :
    attested.deviceId = from_ ∧ verifyCertificate C attested.certificate factoryKey = .ok body := by
  unfold verifyFactoryAttestation at h
  split at h
  · cases h
  rename_i hid
  refine ⟨not_not.1 hid, ?_⟩
  split at h
  · cases h
  rename_i body' hbody
  split at h
  · cases h
  split at h
  · rw [hbody, ← Except.ok.inj h]
  · cases h

namespace GenuineCheck

variable {check : GenuineCheck} {id : DeviceId}

/-- Queueing a status changes no record. -/
@[simp] theorem pushEvent_certs (check : GenuineCheck) (id : DeviceId) :
    (check.pushEvent id).certs = check.certs := by
  unfold pushEvent
  split <;> rfl

/-- It changes no session. -/
@[simp] theorem pushEvent_sessions (check : GenuineCheck) (id : DeviceId) :
    (check.pushEvent id).sessions = check.sessions := by
  unfold pushEvent
  split <;> rfl

/-- It does not change the key of the factory. -/
@[simp] theorem pushEvent_factoryKey (check : GenuineCheck) (id : DeviceId) :
    (check.pushEvent id).factoryKey = check.factoryKey := by
  unfold pushEvent
  split <;> rfl

/-- A device is genuine when it has proven itself and has a record. -/
theorem status_eq_genuine_iff {certificate : CertificateBody} :
    check.status id = some (.genuine certificate) ↔ ∃ session attestation,
      check.sessions[id]? = some session ∧ session.proven = true ∧
        check.certs[id]? = some (attestation, certificate) := by
  unfold status GenuineCheck.certificate
  cases hsession : check.sessions[id]? with
  | none => simp
  | some session =>
      cases hcert : check.certs[id]? with
      | none => simp
      | some entry =>
          obtain ⟨attestation, body⟩ := entry
          cases hproven : session.proven <;> simp [hproven, Option.filter]

/-- A record is filed under the id in it. -/
theorem applyMutation_insert_certs (check : GenuineCheck) (attestation : FactoryAttestation)
    (body : CertificateBody) :
    (check.applyMutation (.insert attestation body)).2.certs =
      check.certs.insert attestation.attested.deviceId (attestation, body) := by
  unfold applyMutation
  dsimp only
  split
  · rename_i h
    exact (BTreeMap.insert_of_getElem? h).symm
  · rfl

/-- Filing it changes no session. -/
theorem applyMutation_insert_sessions (check : GenuineCheck) (attestation : FactoryAttestation)
    (body : CertificateBody) :
    (check.applyMutation (.insert attestation body)).2.sessions = check.sessions := by
  unfold applyMutation
  dsimp only
  split <;> rfl

/-- The key of the factory is never changed. -/
theorem applyMutation_factoryKey (check : GenuineCheck) (mutation : GenuineCheckMutation) :
    (check.applyMutation mutation).2.factoryKey = check.factoryKey := by
  unfold applyMutation
  cases mutation with
  | insert attestation body =>
      dsimp only
      split <;> rfl
  | remove id =>
      dsimp only
      split
      · rfl
      · exact pushEvent_factoryKey _ id

/-- Removing a record that is there. -/
theorem applyMutation_remove (h : check.certs[id]? ≠ none) :
    (check.applyMutation (.remove id)).1 = true ∧
      (check.applyMutation (.remove id)).2.certs = check.certs.erase id ∧
      (check.applyMutation (.remove id)).2.sessions = check.sessions.modify id Session.drop := by
  unfold applyMutation
  simp only [if_neg h, pushEvent_certs, pushEvent_sessions, and_self]

end GenuineCheck

namespace Staging

variable {s : Staging}

/-- Not by a mutation that is staged either. -/
theorem mutate_factoryKey (s : Staging) (mutation : GenuineCheckMutation) :
    (s.mutate mutation).check.factoryKey = s.check.factoryKey :=
  s.check.applyMutation_factoryKey mutation

/-- A record that is on file already is not written. -/
theorem mutate_insert_update (s : Staging) (attestation : FactoryAttestation)
    (body : CertificateBody) :
    (s.mutate (.insert attestation body)).update =
      if s.check.certs[attestation.attested.deviceId]? = some (attestation, body) then s.update
      else s.update ++ [.insert attestation body] := by
  unfold mutate GenuineCheck.applyMutation
  by_cases h : s.check.certs[attestation.attested.deviceId]? = some (attestation, body)
  · simp only [if_pos h, if_neg Bool.false_ne_true]
  · simp only [if_neg h, if_pos]

/-- The records of `ids` are gone, with the proofs of their connections. -/
structure Removed (s : Staging) (ids : List DeviceId) (s' : Staging) : Prop where
  factoryKey : s'.check.factoryKey = s.check.factoryKey
  update : s'.update = s.update ++ ids.map .remove
  certs : ∀ id : DeviceId, s'.check.certs[id]? = if id ∈ ids then none else s.check.certs[id]?
  sessions : ∀ id : DeviceId, s'.check.sessions[id]? =
    if id ∈ ids then s.check.sessions[id]?.map Session.drop else s.check.sessions[id]?

/-- Records that are there, none of them twice, are removed one after another. -/
theorem removed_foldl {ids : List DeviceId} (hnodup : ids.Nodup)
    (hthere : ∀ id ∈ ids, s.check.certs[id]? ≠ none) :
    Removed s ids (ids.foldl (fun s oldId => s.mutate (.remove oldId)) s) := by
  induction ids generalizing s with
  | nil => exact ⟨rfl, (List.append_nil _).symm, fun id => by simp, fun id => by simp⟩
  | cons id ids ih =>
      rw [List.nodup_cons] at hnodup
      obtain ⟨hchanged, hcerts, hsessions⟩ :=
        GenuineCheck.applyMutation_remove (hthere id List.mem_cons_self)
      have hcerts' : (s.mutate (.remove id)).check.certs = s.check.certs.erase id := hcerts
      have hsessions' : (s.mutate (.remove id)).check.sessions =
          s.check.sessions.modify id Session.drop := hsessions
      have hupdate : (s.mutate (.remove id)).update = s.update ++ [.remove id] := by
        rw [mutate]
        dsimp only
        rw [hchanged, if_pos rfl]
      obtain ⟨hkey, hup, hc, hs⟩ := @ih (s.mutate (.remove id)) hnodup.2 fun id' hid' => by
        rw [hcerts', BTreeMap.getElem?_erase, if_neg]
        · exact hthere id' (List.mem_cons_of_mem _ hid')
        · rintro rfl
          exact hnodup.1 hid'
      refine ⟨hkey.trans (s.mutate_factoryKey _), ?_, fun id' => ?_, fun id' => ?_⟩
      · rw [List.foldl_cons, hup, hupdate, List.append_assoc]
        rfl
      · rw [List.foldl_cons, hc, hcerts', BTreeMap.getElem?_erase]
        by_cases hid : id = id'
        · simp [hid]
        · simp [hid, Ne.symm hid]
      · rw [List.foldl_cons, hs, hsessions', BTreeMap.getElem?_modify]
        by_cases hid : id = id'
        · subst hid
          simp [hnodup.1]
        · simp [hid, Ne.symm hid]

/-- The ids that are superseded: those that have a record with the DS key, but one. -/
theorem mem_superseded {id id' : DeviceId} {dsPublicKey : List UInt8}
    {order : HashOrder (DeviceId × FactoryAttestation × CertificateBody)} :
    id' ∈ s.superseded id dsPublicKey order ↔ id' ≠ id ∧
      ∃ attestation body, s.check.certs[id']? = some (attestation, body) ∧
        body.dsPublicKey = dsPublicKey := by
  unfold superseded
  rw [List.mem_map]
  constructor
  · rintro ⟨⟨id'', attestation, body⟩, hmem, rfl⟩
    rw [List.mem_filter, (order.perm _).mem_iff, decide_eq_true_iff] at hmem
    obtain ⟨hmem, hne, hkey⟩ := hmem
    exact ⟨hne, attestation, body, Std.ExtTreeMap.mem_toList_iff_getElem?_eq_some.1 hmem, hkey⟩
  · rintro ⟨hne, attestation, body, hget, hkey⟩
    refine ⟨(id', attestation, body), ?_, rfl⟩
    rw [List.mem_filter, (order.perm _).mem_iff, decide_eq_true_iff]
    exact ⟨Std.ExtTreeMap.mem_toList_iff_getElem?_eq_some.2 hget, hne, hkey⟩

/-- Each id is removed once. -/
theorem nodup_superseded (s : Staging) (id : DeviceId) (dsPublicKey : List UInt8)
    (order : HashOrder (DeviceId × FactoryAttestation × CertificateBody)) :
    (s.superseded id dsPublicKey order).Nodup := by
  have hkeys : (s.check.certs.toList.map Prod.fst).Nodup := by
    rw [Std.ExtTreeMap.map_fst_toList_eq_keys]
    exact Std.ExtTreeMap.nodup_keys
  have hperm : ((order.order s.check.certs.toList).map Prod.fst).Nodup :=
    ((order.perm _).map Prod.fst).nodup_iff.2 hkeys
  exact hperm.sublist (List.Sublist.map _ List.filter_sublist)

/-- What is on file for a device once it has proven its identity. -/
def recorded (s : Staging) (from_ : DeviceId) (session : Session) :
    Option (FactoryAttestation × CertificateBody) :=
  session.pending <|> s.check.certs[from_]?

/-- What is staged for the record itself. -/
def inserted (s : Staging) (from_ : DeviceId) (session : Session) : List GenuineCheckMutation :=
  match session.pending with
  | some (attestation, body) =>
      if s.check.certs[from_]? = some (attestation, body) then []
      else [.insert attestation body]
  | none => []

/-- A device has proven its identity: its record is what it attested, and the records of `ids`, the
other devices with its DS key, are gone. -/
structure Proven (s : Staging) (from_ : DeviceId) (session : Session) (ids : List DeviceId)
    (s' : Staging) : Prop where
  nodup : ids.Nodup
  mem_iff : ∀ id, id ∈ ids ↔ id ≠ from_ ∧ ∃ entry, s.recorded from_ session = some entry ∧
    ∃ attestation body, s.check.certs[id]? = some (attestation, body) ∧
      body.dsPublicKey = entry.2.dsPublicKey
  factoryKey : s'.check.factoryKey = s.check.factoryKey
  update : s'.update = s.update ++ s.inserted from_ session ++ ids.map .remove
  certs : ∀ id : DeviceId, s'.check.certs[id]? =
    if id ∈ ids then none
    else if id = from_ then s.recorded from_ session else s.check.certs[id]?
  sessions : ∀ id : DeviceId, s'.check.sessions[id]? =
    if id ∈ ids then s.check.sessions[id]?.map Session.drop
    else if id = from_ then
      some { session with outstanding := none, proven := true, pending := none }
    else s.check.sessions[id]?

/-- **What is superseded**: the other ids on file with the same key. -/
theorem supersede_removed (s : Staging) (from_ : DeviceId)
    (order : HashOrder (DeviceId × FactoryAttestation × CertificateBody)) :
    ∃ ids, Removed s ids (s.supersede from_ order) ∧ ids.Nodup ∧
      ∀ id, id ∈ ids ↔ id ≠ from_ ∧ ∃ entry, s.check.certs[from_]? = some entry ∧
        ∃ attestation body, s.check.certs[id]? = some (attestation, body) ∧
          body.dsPublicKey = entry.2.dsPublicKey := by
  unfold supersede
  cases hcert : s.check.certs[from_]? with
  | none =>
      refine ⟨[], ⟨rfl, (List.append_nil _).symm, fun id => by simp, fun id => by simp⟩,
        List.nodup_nil, fun id => ?_⟩
      simp
  | some entry =>
      obtain ⟨attestation, body⟩ := entry
      refine ⟨s.superseded from_ body.dsPublicKey order, ?_, nodup_superseded s from_ _ order,
        fun id => ?_⟩
      · refine removed_foldl (nodup_superseded s from_ _ order) fun id hid => ?_
        obtain ⟨-, attestation', body', hget, -⟩ := mem_superseded.1 hid
        rw [hget]
        exact Option.some_ne_none _
      · rw [mem_superseded]
        simp only [Option.some.injEq, exists_eq_left']

/-- **A device that has proven itself** is on file, and alone with its key. -/
theorem prove_proven {from_ : DeviceId} {session : Session}
    (order : HashOrder (DeviceId × FactoryAttestation × CertificateBody))
    (hpending : ∀ attestation body, session.pending = some (attestation, body) →
      attestation.attested.deviceId = from_) :
    ∃ ids, Proven s from_ session ids (s.prove from_ session order) := by
  -- the check before others are superseded
  obtain ⟨s₁, hs₁, hkey, hupdate, hcerts, hsessions⟩ : ∃ s₁ : Staging,
      s.prove from_ session order = (s₁.supersede from_ order).pushEvent from_ ∧
      s₁.check.factoryKey = s.check.factoryKey ∧
      s₁.update = s.update ++ s.inserted from_ session ∧
      (∀ id : DeviceId, s₁.check.certs[id]? =
        if id = from_ then s.recorded from_ session else s.check.certs[id]?) ∧
      s₁.check.sessions = s.check.sessions.insert from_
        { session with outstanding := none, proven := true, pending := none } := by
    refine ⟨_, rfl, ?_⟩
    unfold recorded inserted
    cases hsome : session.pending with
    | none =>
        refine ⟨rfl, (List.append_nil _).symm, fun id => ?_, rfl⟩
        by_cases hid : id = from_
        · rw [if_pos hid, hid]
          rfl
        · rw [if_neg hid]
          rfl
    | some entry =>
        obtain ⟨attestation, body⟩ := entry
        have hid := hpending attestation body hsome
        refine ⟨mutate_factoryKey _ _, ?_, fun id => ?_, ?_⟩
        · rw [mutate_insert_update, hid]
          show (if s.check.certs[from_]? = some (attestation, body) then s.update
            else s.update ++ [.insert attestation body]) = s.update ++
              if s.check.certs[from_]? = some (attestation, body) then []
              else [.insert attestation body]
          split
          · exact (List.append_nil _).symm
          · rfl
        · show ((GenuineCheck.applyMutation _ _).2.certs)[id]? = _
          rw [GenuineCheck.applyMutation_insert_certs, BTreeMap.getElem?_insert, hid]
          by_cases h : from_ = id
          · rw [if_pos h, if_pos h.symm]
            rfl
          · rw [if_neg h, if_neg (Ne.symm h)]
            rfl
        · exact GenuineCheck.applyMutation_insert_sessions _ _ _
  obtain ⟨ids, hremoved, hnodup, hids⟩ := s₁.supersede_removed from_ order
  have hfrom : from_ ∉ ids := fun h => ((hids from_).1 h).1 rfl
  refine ⟨ids, hnodup, fun id => ?_, ?_, ?_, fun id => ?_, fun id => ?_⟩
  · rw [hids]
    refine and_congr_right fun hne => ?_
    rw [hcerts from_, if_pos rfl, hcerts id, if_neg hne]
  · rw [hs₁]
    exact (GenuineCheck.pushEvent_factoryKey _ _).trans (hremoved.factoryKey.trans hkey)
  · rw [hs₁, ← hupdate]
    exact hremoved.update
  · rw [hs₁, ← hcerts]
    show ((GenuineCheck.pushEvent _ _).certs)[id]? = _
    rw [GenuineCheck.pushEvent_certs, hremoved.certs]
  · rw [hs₁]
    show ((GenuineCheck.pushEvent _ _).sessions)[id]? = _
    rw [GenuineCheck.pushEvent_sessions, hremoved.sessions, hsessions, BTreeMap.getElem?_insert]
    by_cases h : from_ = id
    · rw [if_pos h, if_pos h.symm, if_neg (h ▸ hfrom), if_neg (h ▸ hfrom)]
    · rw [if_neg h, if_neg (Ne.symm h)]

variable (C) in
/-- What a reply comes to. -/
inductive Received (s : Staging) (from_ : DeviceId) (message : DeviceMessage) (draw : Draw) :
    Except GenuineError (Option CoordinatorMessage) × Staging → Prop
  /-- Nothing was asked, or not that. -/
  | ignored : Received s from_ message draw (.ok none, s)
  | failed (e : GenuineError) : Received s from_ message draw (.error e, s)
  /-- A factory attestation that was asked for verifies. -/
  | attested {session : Session} {attestation : FactoryAttestation} {body : CertificateBody}
      (hsession : s.check.sessions[from_]? = some session)
      (houtstanding : session.outstanding =
        some (.requestFactoryAttestation attestation.challenge))
      (hmessage : message = .factoryAttestation attestation.attested attestation.signature)
      (hverify : verifyFactoryAttestation C attestation.attested s.check.factoryKey
        attestation.challenge from_ attestation.signature = .ok body) :
      Received s from_ message draw
        (.ok (some (.requestIdentityAttestation draw.challenge (attestation.attested.digest C))),
          s.setSession from_
            { session with
              outstanding := some (.requestIdentityAttestation draw.challenge
                (attestation.attested.digest C))
              pending := some (attestation, body) })
  /-- The record on file is stale. -/
  | stale {session : Session} {challenge : GenuineChallenge}
      {attestedDigest : AttestedDeviceDigest} (hsession : s.check.sessions[from_]? = some session)
      (houtstanding : session.outstanding =
        some (.requestIdentityAttestation challenge attestedDigest))
      (hpending : session.pending = none) :
      Received s from_ message draw
        (.ok (some (.requestFactoryAttestation draw.challenge)),
          s.setSession from_
            { session with outstanding := some (.requestFactoryAttestation draw.challenge) })
  /-- An identity attestation that was asked for verifies. -/
  | proven {session : Session} {challenge : GenuineChallenge}
      {attestedDigest : AttestedDeviceDigest} {signature : Signature}
      (hsession : s.check.sessions[from_]? = some session)
      (houtstanding : session.outstanding =
        some (.requestIdentityAttestation challenge attestedDigest))
      (hmessage : message = .identityAttestation signature)
      (hverify : verifyIdentityAttestation C from_ challenge attestedDigest signature = .ok ()) :
      Received s from_ message draw (.ok none, s.prove from_ session draw.order)

/-- **A reply.** -/
theorem recv_received (s : Staging) (from_ : DeviceId) (message : DeviceMessage) (draw : Draw) :
    Received C s from_ message draw (s.recv C from_ message draw) := by
  unfold recv
  split
  · exact .ignored
  rename_i session hsession
  split
  · rename_i challenge attested signature houtstanding
    split
    · exact .failed _
    · rename_i body hverify
      exact @Received.attested C s from_ _ draw session ⟨attested, signature, challenge⟩ body
        hsession houtstanding rfl hverify
  · rename_i challenge attestedDigest attested signature houtstanding
    split
    · exact .failed _
    · rename_i hpending
      exact .stale hsession houtstanding (Option.not_isSome_iff_eq_none.1 hpending)
  · rename_i challenge attestedDigest signature houtstanding
    split
    · exact .failed _
    · rename_i hverify
      exact .proven hsession houtstanding rfl hverify
  · exact .ignored

end Staging

/-! ### Calls -/

/-- The calls of the coordinator loop, and requests that a device of interest answers. -/
inductive Call where
  | connected (id : DeviceId) (firmwareSupportsCheck : Bool) (draw : Draw)
  | disconnected (id : DeviceId)
  | recv (from_ : DeviceId) (message : DeviceMessage) (draw : Draw)
  | answer (request : CoordinatorMessage)

/-- What happened in a call. -/
inductive Event where
  | connected (id : DeviceId) (request : Option CoordinatorMessage)
  | disconnected (id : DeviceId)
  | received (from_ : DeviceId) (message : DeviceMessage)
      (answer : Except GenuineError (Option CoordinatorMessage))
  | answered (request : CoordinatorMessage)
  deriving DecidableEq

/-- A check since it was loaded, and what happened. -/
structure Launch where
  check : GenuineCheck
  events : List Event

variable (C)

/-- What a call stages. -/
def GenuineCheck.staged (check : GenuineCheck) : Call → List GenuineCheckMutation
  | .recv from_ message draw =>
      (Staging.recv C { check := check, update := [] } from_ message draw).2.update
  | _ => []

def GenuineCheck.call (check : GenuineCheck) : Call → Event × GenuineCheck
  | .connected id firmwareSupportsCheck draw =>
      (.connected id (check.connected C id firmwareSupportsCheck draw).1,
        (check.connected C id firmwareSupportsCheck draw).2)
  | .disconnected id => (.disconnected id, check.disconnected id)
  | .recv from_ message draw =>
      (.received from_ message
          (Staging.recv C { check := check, update := [] } from_ message draw).1,
        (Staging.recv C { check := check, update := [] } from_ message draw).2.check)
  | .answer request => (.answered request, check)

def Launch.call (launch : Launch) (call : Call) : Launch where
  check := (launch.check.call C call).2
  events := launch.events ++ [(launch.check.call C call).1]

/-- A check is loaded, and called. -/
def launched (factoryKey : XOnly) (rows : List (Option DeviceId × Option FactoryAttestation))
    (calls : List Call) : Launch :=
  calls.foldl (Launch.call C) { check := .load C factoryKey rows, events := [] }

/-- What happened since a device connected last, if it is connected. -/
def sinceConnected (id : DeviceId) (events : List Event) : Option (List Event) :=
  events.foldl
    (fun since event =>
      match event with
      | .connected id' _ => if id' = id then some [event] else since.map (· ++ [event])
      | .disconnected id' => if id' = id then none else since.map (· ++ [event])
      | _ => since.map (· ++ [event]))
    none

/-- What a device is asked in an event. -/
def Event.asks (id : DeviceId) : Event → Option CoordinatorMessage
  | .connected id' request => if id' = id then request else none
  | .received from_ _ (.ok request) => if from_ = id then request else none
  | _ => none

/-- What a device was asked. -/
def asked (id : DeviceId) (events : List Event) : List CoordinatorMessage :=
  events.filterMap (Event.asks id)

end Frostsnap.Genuine
