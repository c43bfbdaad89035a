import Frostsnap.Coordinator.SessionStart
import Frostsnap.Device.NoPanic
import Frostsnap.Device.NonceAgreement
import Frostsnap.Device.ShareDecryption

/-!
# A device signs what the coordinator asks for

The coordinator builds the session of each sign item from the nonces that it has of its devices, and
the polynomial that it has stored. A device builds its side from the request: it checks the task
again, derives the key from the root key in the request and its own share, takes the aggregate
nonces from the request and its secret nonces from the slot of the stream. It finds its share by the
parties of the session, the coordinator checks it under the index that is recorded for the device.

`TaskWire` has how the sign tasks of the coordinator are read by its devices, and
`TaskWire.Faithful` what both rely on of the signing protocol.

## Main results

* `honest_signing`: a device that has the share that is recorded for it, and has its nonces still,
  returns signature shares that the coordinator accepts.
-/

namespace Frostsnap

namespace Device

open Coordinator

variable {L : FrostLib} {D : DeviceLib L} {S : Type}

section

attribute [local instance] Build.release

/-! ### The request on the wire -/

/-- The sign tasks and sign items of the coordinator, as its devices have them. -/
structure TaskWire (L : FrostLib) where
  task : L.SignTask → Bitcoin.WireSignTask
  item : L.SignItem → Bitcoin.SignItem

namespace TaskWire

/-- The part of a request for everyone who signs. -/
def groupSignReq (w : TaskWire L) (r : GroupSignReq L.SignTask) :
    GroupSignReq Bitcoin.WireSignTask where
  parties := r.parties
  aggNonces := r.aggNonces
  signTask := w.task r.signTask
  accessStructureId := r.accessStructureId

/-- The request that a device receives. -/
def requestSign (w : TaskWire L) (r : RequestDeviceSign L) : RequestSign where
  groupSignReq := w.groupSignReq r.requestSign.groupSignReq
  deviceSignReq := r.requestSign.deviceSignReq

/-- What a coordinator and its devices have in common: both hash requests and check tasks the same
way, and the share that a party of a session makes with its secret share and the nonce that is in
the session for it verifies. -/
structure Faithful (w : TaskWire L) (D : DeviceLib L) (publicNonce : SecretNonce → Binonce) :
    Prop where
  sessionId : ∀ r, D.sessionId (w.groupSignReq r) = L.sessionId r
  check : ∀ task masterAppkey purpose items, L.checkSignTask task masterAppkey purpose = .ok items →
    ∃ checked, (w.task task).check D.bitcoin masterAppkey purpose = .ret (.ok checked) ∧
      checked.signItems D.bitcoin = items.map w.item
  parties : ∀ (key : SharedKey) (nonces : BTreeMap ShareIndex Binonce) (item : L.SignItem)
    (rng : L.Rng) (index : ShareIndex),
    index ∈ L.parties (L.randomizedCoordinatorSignSession key nonces item rng) ↔ index ∈ nonces
  share : ∀ (root : SharedKey) (nonces : BTreeMap ShareIndex Binonce) (item : L.SignItem)
    (rng : L.Rng) (parties : BTreeSet ShareIndex) (secretShare : SecretShare)
    (secretNonce : SecretNonce),
    let key := L.deriveXonlyKey item (root.app L)
    let session := L.randomizedCoordinatorSignSession key nonces item rng
    let own := D.deriveXonlyShare (w.item item).appTweak
      (D.shareToMasterAppkey { secretShare := secretShare, publicKey := root.publicKey })
    secretShare.shareImage D = root.shareImage L secretShare.index →
    (∀ index, index ∈ parties ↔ index ∈ nonces) →
    nonces[secretShare.index]? = some (publicNonce secretNonce) →
    L.verifySignatureShare session key secretShare.index
      (D.sign (D.partySignSession own.publicKey parties (L.aggBinonce session) (w.item item)) own
        secretNonce) = true

end TaskWire

/-! ### Signing with a slot -/

section Slots

variable [NonceStreamSlot S SeedMaterial SignatureShare]

/-- A slot still has the nonces of a segment, and room after them. -/
structure HasNonces (slots : AbSlots S) (d : NonceDerivation SeedMaterial SecretNonce Binonce)
    (sessionId : SignSessionId) (segment : NonceSegment) (i : ℕ)
    (v : SecretNonceSlot SeedMaterial SignatureShare) : Prop where
  target : slots.target segment.streamId = some (i, v)
  cached : ¬ v.IsCached sessionId
  index : v.index ≤ segment.index
  nonces : ∀ (j : ℕ) (nonce : Binonce), segment.nonces[j]? = some nonce →
    d.publicNonce (v.nonceFor d (segment.index + j)) = nonce

/-- The slot signs every item with its nonce. -/
theorem HasNonces.signSessions {slots : AbSlots S}
    {d : NonceDerivation SeedMaterial SecretNonce Binonce} {sessionId : SignSessionId}
    {segment : NonceSegment} {i : ℕ} {v : SecretNonceSlot SeedMaterial SignatureShare}
    (h : HasNonces slots d sessionId segment i v) {Item : Type}
    (sign : Item → SecretNonce → SignatureShare) {coord : CoordNonceStreamState} (items : List Item)
    {nonceBatchSize : ℕ} (hstream : coord.streamId = segment.streamId)
    (hindex : coord.index = segment.index) (hitems : items ≠ [])
    (hroom : segment.index + items.length + nonceBatchSize < u32Max) :
    ∃ job slots', slots.signSessions d sign sessionId coord (items.map Exec.ret) nonceBatchSize =
      .ret (.ok ((items.mapIdx fun j item => sign item (v.nonceFor d (segment.index + j)), job),
        slots')) := by
  have htarget : slots.target coord.streamId = some (i, v) := by rw [hstream]; exact h.target
  obtain ⟨hget, hvalue, -⟩ := AbSlots.target_eq_some htarget
  have hle : v.index ≤ coord.index := by rw [hindex]; exact h.index
  have hunused : ¬ (v.IsCached sessionId ∨ coord.index < v.index) :=
    not_or.2 ⟨h.cached, Nat.not_lt.2 hle⟩
  have hall : (items.map Exec.ret).mapM id = .ret items := by
    rw [List.mapM_map]
    exact (Exec.mapM_eq_ret (g := id) fun _ _ => rfl).trans (congrArg Exec.ret (List.map_id items))
  obtain ⟨-, -, w, hw, hwindex, -⟩ | ⟨hnot, -⟩ := @SecretNonceSlot.withSignatures_fresh _ _ _ _ _
    d sign v sessionId coord slots.nextLastUsed items h.cached hle
  · obtain ⟨-, -, -, hstate⟩ := SecretNonceSlot.withSignatures_nonces h.cached hw
    have hshort : coord.index < w.index := by
      have hpos := List.length_pos_iff.2 hitems
      omega
    obtain ⟨job, hjob⟩ := (w.reconcile_returns_iff coord nonceBatchSize).2 <| by
      rw [ReconcileFits, if_pos (.inl hshort), hwindex, hindex]
      exact hroom
    rw [hindex] at hstate
    rw [AbSlots.signSessions, hget, Option.bind_some, hvalue]
    dsimp only
    rw [if_neg hunused, hall, Exec.ret_bind, AbSlots.sign_eq htarget, hw, Exec.ret_bind]
    dsimp only
    rw [hstate, Exec.expect_some, Exec.ret_bind, hjob, Exec.ret_bind]
    exact ⟨job, _, rfl⟩
  · exact absurd ⟨List.length_pos_iff.2 hitems, by omega⟩ hnot

end Slots

/-! ### The request -/

/-- The first entry of a sorted list that a function is defined at. -/
theorem findSome?_eq_some_of_sorted {β : Type} {f : ShareIndex → Option β} {index : ShareIndex}
    {share : β} {l : List ShareIndex} (hsorted : l.Pairwise fun a b => compare a b = .lt)
    (hmem : index ∈ l) (hshare : f index = some share)
    (hfirst : ∀ party ∈ l, compare party index = .lt → f party = none) :
    l.findSome? f = some share := by
  induction l with
  | nil => cases hmem
  | cons party rest ih =>
      rw [List.pairwise_cons] at hsorted
      obtain ⟨hparty, hrest⟩ := List.forall_mem_cons.1 hfirst
      rcases List.mem_cons.1 hmem with rfl | hmem
      · exact List.findSome?_cons_of_isSome (by rw [hshare]; rfl) |>.trans hshare
      · rw [List.findSome?_cons, hparty (hsorted.1 index hmem)]
        exact ih hsorted.2 hmem hrest

/-- What a device needs so that it accepts a session with its share at an index. It looks for its
share by the parties, from the lowest index. -/
structure Ready [NonceStreamSlot S SeedMaterial SignatureShare] (d : Signer D S)
    (session : ActiveSignSession L) (purpose : KeyPurpose) (index : ShareIndex)
    (streamId : NonceStreamId) : Prop where
  share : ∃ share, d.keys.getEncryptedShare session.accessStructureRef index = some share
  first : ∀ party ∈ session.init.groupRequest.parties, compare party index = .lt →
    d.keys.getEncryptedShare session.accessStructureRef party = none
  purpose : ∀ keyData, d.keys[session.keyId]? = some keyData → keyData.purpose = purpose
  stream : (d.nonceSlots.get streamId).isSome

/-- What a device needs so that it can sign for a session with the nonces of a segment. -/
structure CanSign [NonceStreamSlot S SeedMaterial SignatureShare] (d : Signer D S)
    (symmKeygen : DeviceSecretDerivation) (session : ActiveSignSession L)
    (segment : NonceSegment) : Prop where
  nonces : ∃ i v, HasNonces d.nonceSlots symmKeygen.nonces session.sessionId segment i v
  room : segment.index + session.progress.length + d.nonceBatchSize < u32Max

/-- What a device is asked for: the session, with the nonces and the key of a request. -/
structure Requests (session : ActiveSignSession L) (deviceId : DeviceId) (root : SharedKey)
    (index : ShareIndex) (segment : NonceSegment) (request : RequestDeviceSign L) : Prop where
  group : request.requestSign.groupSignReq = session.init.groupRequest
  rootkey : request.requestSign.deviceSignReq.rootkey = root.publicKey
  contrib : request.requestSign.deviceSignReq.coordShareDecryptionContrib =
    CoordShareDecryptionContrib.forMasterShare L deviceId index root
  streamId : request.requestSign.deviceSignReq.nonces.streamId = segment.streamId
  index : request.requestSign.deviceSignReq.nonces.index = segment.index

variable [NonceStreamSlot S SeedMaterial SignatureShare] {d : Signer D S}
  {symmKeygen : DeviceSecretDerivation} {session : ActiveSignSession L} {purpose : KeyPurpose}
  {index : ShareIndex} {segment : NonceSegment} {request : RequestDeviceSign L} {root : SharedKey}
  {deviceId : DeviceId}

/-- The key that a device signs an item with. -/
def ownKey (w : TaskWire L) (D : DeviceLib L) (root : SharedKey) (secretShare : SecretShare)
    (item : L.SignItem) : PairedSecretShare :=
  D.deriveXonlyShare (w.item item).appTweak
    (D.shareToMasterAppkey { secretShare := secretShare, publicKey := root.publicKey })

/-- What a device signs: its key, and its side of the session. -/
def ownSession (w : TaskWire L) (D : DeviceLib L) (root : SharedKey) (secretShare : SecretShare)
    (parties : BTreeSet ShareIndex) (progress : SignSessionProgress L) :
    PairedSecretShare × D.PartySignSession :=
  let own := ownKey w D root secretShare progress.signItem
  (own, D.partySignSession own.publicKey parties (L.aggBinonce progress.signSession)
    (w.item progress.signItem))

/-- The signature shares that a device makes. -/
def ownShares (w : TaskWire L) (D : DeviceLib L) (root : SharedKey) (secretShare : SecretShare)
    (nonce : ℕ → SecretNonce) (session : ActiveSignSession L) : List SignatureShare :=
  (session.progress.map (ownSession w D root secretShare session.init.groupRequest.parties)).mapIdx
    fun i (key, signSession) => D.sign signSession key (nonce i)

/-- A request is accepted with one task and one share. -/
theorem Signer.Accepts.unique {req : RequestSign} {signTask signTask' : Bitcoin.CheckedSignTask}
    {share share' : EncryptedSecretShare D.Cipher} (h : d.Accepts req signTask share)
    (h' : d.Accepts req signTask' share') : signTask = signTask' ∧ share = share' := by
  obtain ⟨keyData, data, hkey, hcheck, hdata, hshare, -⟩ := h
  obtain ⟨keyData', data', hkey', hcheck', hdata', hshare', -⟩ := h'
  obtain rfl := Option.some.inj (hkey.symm.trans hkey')
  obtain rfl := Option.some.inj (hdata.symm.trans hdata')
  exact ⟨Except.ok.inj (Exec.ret.inj (hcheck.symm.trans hcheck')),
    Option.some.inj (hshare.symm.trans hshare')⟩

/-- **A device accepts the request** with the share at its index. -/
theorem Ready.recvRequestSign {w : TaskWire L} {publicNonce : SecretNonce → Binonce}
    (h : Ready d session purpose index segment.streamId) (hw : w.Faithful D publicNonce)
    (hrequest : Requests session deviceId root index segment request)
    (hkeyId : keyIdFromRootkey L root.publicKey = session.keyId)
    (hitems : L.checkSignTask session.init.groupRequest.signTask
      (MasterAppkey.deriveFromRootkey L root.publicKey) purpose =
        .ok (session.progress.map SignSessionProgress.signItem))
    (hparty : index ∈ session.init.groupRequest.parties) {share : EncryptedSecretShare D.Cipher}
    (hshare : d.keys.getEncryptedShare session.accessStructureRef index = some share) :
    ∃ signTask, signTask.signItems D.bitcoin =
        (session.progress.map SignSessionProgress.signItem).map w.item ∧
      d.recvRequestSign (w.requestSign request) = .ret (.ok
        [.toUser (.signatureRequest ((w.requestSign request).phase D signTask share))], d) := by
  obtain ⟨data, hdata, hget⟩ := Option.bind_eq_some_iff.1 hshare
  obtain ⟨keyData, hkeyData, hdata⟩ := Option.bind_eq_some_iff.1 hdata
  obtain ⟨signTask, hcheck, hsignItems⟩ := hw.check _ _ _ _ hitems
  have hfound := findSome?_eq_some_of_sorted (f := fun party => data.shares[party]?)
    Std.ExtTreeSet.ordered_toList (Std.ExtTreeSet.mem_toList.2 hparty) hget fun party hmem hlt => by
      have hnone := h.first party (Std.ExtTreeSet.mem_toList.1 hmem) hlt
      simpa only [Keys.getEncryptedShare, Keys.accessStructure, Option.bind_eq_bind, hkeyData,
        hdata, Option.bind_some] using hnone
  have haccepts : d.Accepts (w.requestSign request) signTask share := by
    refine ⟨keyData, data, ?_, ?_, ?_, ?_, ?_⟩
    · rw [TaskWire.requestSign, hrequest.rootkey, hkeyId]
      exact hkeyData
    · rw [h.purpose keyData hkeyData, TaskWire.requestSign, hrequest.rootkey, hrequest.group]
      exact hcheck
    · rw [TaskWire.requestSign, hrequest.group]
      exact hdata
    · rw [TaskWire.requestSign, hrequest.group]
      exact hfound
    · rw [TaskWire.requestSign, hrequest.streamId]
      exact h.stream
  refine ⟨signTask, hsignItems, ?_⟩
  rcases d.recvRequestSign_cases (w.requestSign request) with
    ⟨signTask', share', haccepts', hret⟩ | ⟨hnot, -⟩
  · obtain ⟨rfl, rfl⟩ := haccepts.unique haccepts'
    exact hret
  · exact absurd haccepts (hnot signTask share)

omit [NonceStreamSlot S SeedMaterial SignatureShare] in
/-- The sessions of a request that is accepted are those of the coordinator's session. -/
theorem signSessionsOf_eq {w : TaskWire L} (secretShare : SecretShare)
    (hrequest : Requests session deviceId root index segment request)
    (haggNonces : session.init.groupRequest.aggNonces =
      session.progress.map fun progress => L.aggBinonce progress.signSession)
    {signTask : Bitcoin.CheckedSignTask} (hsignItems : signTask.signItems D.bitcoin =
      (session.progress.map SignSessionProgress.signItem).map w.item)
    (share : EncryptedSecretShare D.Cipher) :
    Signer.signSessionsOf ((w.requestSign request).phase D signTask share)
        (D.shareToMasterAppkey { secretShare := secretShare, publicKey := root.publicKey }) =
      (session.progress.map
        (ownSession w D root secretShare session.init.groupRequest.parties)).map Exec.ret := by
  rw [Signer.signSessionsOf, RequestSign.phase, TaskWire.requestSign, hrequest.group]
  dsimp only [TaskWire.groupSignReq]
  rw [hsignItems, haggNonces]
  refine List.ext_getElem? fun i => ?_
  rw [List.getElem?_map, List.getElem?_zipIdx, List.getElem?_map, List.getElem?_map,
    List.getElem?_map, List.getElem?_map]
  cases hget : session.progress[i]? with
  | none => rfl
  | some progress =>
      dsimp only [Option.map_some]
      rw [Nat.zero_add, List.getElem?_map, hget]
      rfl

/-- **A device signs** what it has accepted, with its share and the nonces of its slot. -/
theorem CanSign.signAck {w : TaskWire L} {publicNonce : SecretNonce → Binonce}
    (h : CanSign d symmKeygen session segment) (hw : w.Faithful D publicNonce)
    (hrequest : Requests session deviceId root index segment request)
    (hkeyId : keyIdFromRootkey L root.publicKey = session.keyId)
    (haggNonces : session.init.groupRequest.aggNonces =
      session.progress.map fun progress => L.aggBinonce progress.signSession)
    (hsome : session.progress ≠ [])
    {signTask : Bitcoin.CheckedSignTask} (hsignItems : signTask.signItems D.bitcoin =
      (session.progress.map SignSessionProgress.signItem).map w.item)
    {share : EncryptedSecretShare D.Cipher} {secretShare : SecretShare}
    (hdecrypt : decryptShare D share session.accessStructureRef
      (CoordShareDecryptionContrib.forMasterShare L deviceId index root) symmKeygen =
        some secretShare) :
    ∃ (i : ℕ) (v : SecretNonceSlot SeedMaterial SignatureShare) (d' : Signer D S)
      (replenish : Option NonceSegment),
      HasNonces d.nonceSlots symmKeygen.nonces session.sessionId segment i v ∧
      d.signAck ((w.requestSign request).phase D signTask share) symmKeygen =
        .ret (.ok [.toCoordinator (.signing (.signatureShare session.sessionId
          (ownShares w D root secretShare
            (fun j => v.nonceFor symmKeygen.nonces (segment.index + j)) session)
          replenish))], d') := by
  obtain ⟨i, v, hnonces⟩ := h.nonces
  obtain ⟨scalar, hscalar, hsecret⟩ := Option.map_eq_some_iff.1 hdecrypt
  obtain ⟨job, slots', hsigned⟩ := hnonces.signSessions
    (fun entry : PairedSecretShare × D.PartySignSession => D.sign entry.2 entry.1)
    (session.progress.map (ownSession w D root secretShare session.init.groupRequest.parties))
    hrequest.streamId hrequest.index (fun hnil => hsome (List.map_eq_nil_iff.1 hnil))
    (by rw [List.length_map]; exact h.room)
  obtain ⟨replenish, hreplenish⟩ := @Signer.runReplenishTask_returns symmKeygen job
  refine ⟨i, v, { d with nonceSlots := slots' }, replenish, hnonces, ?_⟩
  have hid : D.sessionId (w.requestSign request).groupSignReq = session.sessionId := by
    rw [TaskWire.requestSign, hrequest.group, hw.sessionId]
    rfl
  have hsessions := signSessionsOf_eq secretShare hrequest haggNonces hsignItems share
  have hkey : AccessStructureRef.mk
      (keyIdFromRootkey L (w.requestSign request).deviceSignReq.rootkey)
      (w.requestSign request).groupSignReq.accessStructureId = session.accessStructureRef := by
    rw [TaskWire.requestSign, hrequest.rootkey, hkeyId, hrequest.group]
    rfl
  have hcontrib : (w.requestSign request).deviceSignReq.coordShareDecryptionContrib =
      CoordShareDecryptionContrib.forMasterShare L deviceId index root := hrequest.contrib
  have hrootkey : (w.requestSign request).deviceSignReq.rootkey = root.publicKey :=
    hrequest.rootkey
  rw [Signer.signAck]
  dsimp only [RequestSign.phase]
  rw [hkey, hcontrib, hscalar]
  dsimp only
  unfold RequestSign.phase at hsessions
  rw [hrootkey, hsecret, hsessions, hid]
  have hrequested : (w.requestSign request).deviceSignReq = request.requestSign.deviceSignReq := rfl
  rw [hrequested, hsigned, Exec.ret_bind]
  dsimp only
  rw [hreplenish, Exec.ret_bind]
  rfl

omit [NonceStreamSlot S SeedMaterial SignatureShare] in
/-- **A signature share verifies** that is made with the nonce that the session has for it. -/
theorem TaskWire.Faithful.share_verifies {w : TaskWire L} {publicNonce : SecretNonce → Binonce}
    (hw : w.Faithful D publicNonce) {start : Start} (hbuilds : start.Builds session)
    (happ : ∀ progress ∈ session.progress, progress.appSharedKey = root.app L)
    {subSegment : SigningReqSubSegment Binonce} (htakes : start.Takes deviceId index subSegment)
    {secretShare : SecretShare} (hsecret : secretShare.index = index)
    (himage : secretShare.shareImage D = root.shareImage L index) {nonce : ℕ → SecretNonce}
    (hnonce : ∀ (i : ℕ) (b : Binonce), subSegment.segment.nonces[i]? = some b →
      publicNonce (nonce i) = b) :
    index ∈ session.init.groupRequest.parties ∧
      ∀ (i : ℕ) (progress : SignSessionProgress L), session.progress[i]? = some progress →
        index ∈ L.parties progress.signSession ∧
          L.verifySignatureShare progress.signSession progress.tweakedFrostKey index
            (D.sign (ownSession w D root secretShare session.init.groupRequest.parties progress).2
              (ownSession w D root secretShare session.init.groupRequest.parties progress).1
              (nonce i)) = true := by
  obtain ⟨byParty, rng, hparties, hgroup, hsessions⟩ := hbuilds.sessions
  have hsegment : byParty[index]? = some subSegment.segment := by
    refine Persistent.getElem?_noncesByParty hparties ?_
      (Std.ExtTreeMap.mem_toList_iff_getElem?_eq_some.2 htakes.nonces) htakes.shareIndex
      fun entry hmem hget => ?_
    · rw [Std.ExtTreeMap.map_fst_toList_eq_keys]
      exact Std.ExtTreeMap.nodup_keys
    · exact htakes.own entry.1 (BTreeMap.mem_iff_getElem?.2
        ⟨entry.2, Std.ExtTreeMap.mem_toList_iff_getElem?_eq_some.1 hmem⟩) hget
  have hgroupParties (party : ShareIndex) :
      party ∈ session.init.groupRequest.parties ↔ party ∈ byParty.toList.map Prod.fst := by
    rw [hgroup, Std.ExtTreeMap.map_fst_toList_eq_keys, Std.ExtTreeSet.mem_ofList,
      List.contains_iff_mem]
  have hmem := Std.ExtTreeMap.mem_toList_iff_getElem?_eq_some.2 hsegment
  have hparty := (hgroupParties index).2 (List.mem_map_of_mem (f := Prod.fst) hmem)
  refine ⟨hparty, fun i progress hget => ?_⟩
  obtain ⟨nonces, hnonces, hsession⟩ := hsessions i progress hget
  have hnoncesParties (party : ShareIndex) :
      party ∈ session.init.groupRequest.parties ↔ party ∈ nonces := by
    rw [hgroupParties, Persistent.mem_indexedNonces hnonces]
    simp
  obtain ⟨b, hb, hown⟩ := Persistent.getElem?_indexedNonces hnonces (by
    rw [Std.ExtTreeMap.map_fst_toList_eq_keys]
    exact Std.ExtTreeMap.nodup_keys) hmem
  rw [← hnonce i b hb] at hown
  have hkey : progress.tweakedFrostKey = L.deriveXonlyKey progress.signItem (root.app L) := by
    rw [SignSessionProgress.tweakedFrostKey, happ progress (List.mem_of_getElem? hget)]
  subst hsecret
  have hverifies := hw.share root nonces progress.signItem (rng i)
    session.init.groupRequest.parties secretShare (nonce i) himage hnoncesParties hown
  rw [← hkey, ← hsession] at hverifies
  refine ⟨?_, hverifies⟩
  rw [hsession, hw.parties]
  exact (hnoncesParties _).1 hparty

omit [NonceStreamSlot S SeedMaterial SignatureShare] in
/-- Shares that all verify pass the check. -/
theorem checkShares_eq_ok {entries : List (SignSessionProgress L × SignatureShare)}
    (h : ∀ entry ∈ entries, index ∈ L.parties entry.1.signSession ∧
      L.verifySignatureShare entry.1.signSession entry.1.tweakedFrostKey index entry.2 = true) :
    Persistent.checkShares index entries = .ok () := by
  induction entries with
  | nil => rfl
  | cons entry rest ih =>
      obtain ⟨⟨hparty, hverify⟩, hrest⟩ := List.forall_mem_cons.1 h
      rw [Persistent.checkShares, if_neg (not_not.2 hparty), if_pos hverify]
      exact ih hrest

omit [NonceStreamSlot S SeedMaterial SignatureShare] in
/-- **The coordinator accepts** the shares of a session that has gone on. -/
theorem accepts_ownShares {w : TaskWire L} {secretShare : SecretShare} {nonce : ℕ → SecretNonce}
    {t : FrostCoordinator L} {session' : ActiveSignSession L}
    (hsession' : t.activeSigningSessions[session.sessionId]? = some session')
    (hprogressed : Progressed session session') {a : CoordAccessStructure}
    (ha : t.getAccessStructure session.accessStructureRef = some a)
    (hindex : a.deviceToShareIndex[deviceId]? = some index)
    (hverifies : ∀ (i : ℕ) (progress : SignSessionProgress L),
      session.progress[i]? = some progress →
        index ∈ L.parties progress.signSession ∧
          L.verifySignatureShare progress.signSession progress.tweakedFrostKey index
            (D.sign (ownSession w D root secretShare session.init.groupRequest.parties progress).2
              (ownSession w D root secretShare session.init.groupRequest.parties progress).1
              (nonce i)) = true) :
    t.accepts deviceId session.sessionId (ownShares w D root secretShare nonce session) =
      some index := by
  have href : session'.accessStructureRef = session.accessStructureRef := by
    rw [ActiveSignSession.accessStructureRef, hprogressed.init, hprogressed.keyId]
    rfl
  have hlength : session'.progress.length = session.progress.length := by
    have hmap := congrArg List.length hprogressed.progress
    rwa [List.length_map, List.length_map] at hmap
  have hownLength : (ownShares w D root secretShare nonce session).length =
      session.progress.length := by
    rw [ownShares, List.length_mapIdx, List.length_map]
  have hchecked : Persistent.checkShares index
      (session'.progress.zip (ownShares w D root secretShare nonce session)) = .ok () := by
    refine checkShares_eq_ok fun entry hmem => ?_
    obtain ⟨i, hi⟩ := List.mem_iff_getElem?.1 hmem
    obtain ⟨hget', hshare⟩ := List.getElem?_zip_eq_some.1 hi
    obtain ⟨progress, hget, heq⟩ := hprogressed.getElem? hget'
    obtain ⟨hparty, hverify⟩ := hverifies i progress hget
    simp only [bare, Prod.mk.injEq] at heq
    obtain ⟨hitem, hsign, happ⟩ := heq
    have hkey : entry.1.tweakedFrostKey = progress.tweakedFrostKey := by
      rw [SignSessionProgress.tweakedFrostKey, ← hitem, ← happ]
      rfl
    rw [ownShares, List.getElem?_mapIdx, List.getElem?_map, hget] at hshare
    rw [← hsign, hkey, ← Option.some.inj hshare]
    exact ⟨hparty, hverify⟩
  have hcheck : t.checkSignatureShares deviceId session.sessionId
      (ownShares w D root secretShare nonce session) = .ret (.ok ()) := by
    rw [Persistent.checkSignatureShares, hsession']
    dsimp only
    rw [href, ha, Exec.expect_some, Exec.ret_bind, hindex]
    dsimp only
    rw [if_neg (not_not.2 (hownLength.trans hlength.symm)), hchecked]
    rfl
  rw [Persistent.accepts, hcheck]
  dsimp only
  rw [hsession', Option.bind_some, href, ha, Option.bind_some, hindex]

/-- A device that finishes a key generation has a share on the polynomial that came out of it. -/
def ReceivesImages (D : DeviceLib L) : Prop :=
  ∀ receiver certificate certifiedKeygen share,
    D.finalize receiver certificate = .ok (certifiedKeygen, share) →
      share.secretShare.shareImage D =
        (L.sharedKeyOfKeygen certifiedKeygen).shareImage L share.secretShare.index

omit [NonceStreamSlot S SeedMaterial SignatureShare] in
/-- A share that was saved is on the polynomial that it was saved for. -/
theorem Saved.image (himages : ReceivesImages D) {keypair : L.KeyPair} {trace : List (Entry D)}
    {secretShare : SecretShare} (h : Saved symmKeygen keypair trace root secretShare) :
    secretShare.shareImage D = root.shareImage L secretShare.index := by
  cases h with
  | keygen phase3 phase4 h =>
      obtain ⟨begin, certify, check, ack, finalize, phase1, phase2, -, -, -, hcheck, -, -⟩ := h
      obtain ⟨certificate, -, -, certifiedKeygen, -, hfinish, -, hshared, -, -⟩ := hcheck
      have himage := himages _ _ _ _ hfinish
      rwa [← hshared] at himage
  | consolidation _ phase phase4 ask consolidate _ hask _ => exact hask.image

end

/-! ### A coordinator and a device -/

section Agreement

variable [Build] [NonceStreamSlot S SeedMaterial SignatureShare]

/-- **A device signs what the coordinator asks for**, and the coordinator accepts it, whatever has
happened to both before, and to the coordinator since. -/
theorem honest_signing {w : TaskWire L} {symmKeygen : DeviceSecretDerivation}
    (hw : w.Faithful D symmKeygen.nonces.publicNonce)
    (hrootkey : ∀ key point rng, L.decryptRootkey key (L.encryptRootkey key point rng) = some point)
    (haead : ∀ key scalar rng, D.decrypt key (D.encrypt key scalar rng) = some scalar)
    (hreceives : Receives D) (himages : ReceivesImages D)
    {past : Past} {starts : Starts} {s : FrostCoordinator L} (hs : Installed past s)
    (hbegins : Begins starts s) {before trace : List (Entry D)}
    {stored : LogContents D.Cipher D.Backup} {d : Signer D S}
    (hd : Life symmKeygen before trace stored d)
    (hproper : Proper L fun root => root ∈ past.roots ∨
      ∃ secretShare, Saved symmKeygen d.keypair (before ++ trace) root secretShare)
    {sessionId : SignSessionId} {session : ActiveSignSession L}
    (hsession : s.activeSigningSessions[sessionId]? = some session) (hsome : session.progress ≠ [])
    {index : ShareIndex} {subSegment : SigningReqSubSegment Binonce}
    (htakes : (starts sessionId).Takes d.deviceId index subSegment)
    (hindex : s.Assigns session.accessStructureRef d.deviceId index)
    {key : CoordFrostKey} (hkey : s.keys[session.keyId]? = some key)
    (hready : Ready d session key.purpose index subSegment.segment.streamId)
    {encryptionKey : SymmetricKey}
    (hwith : past.encryptionKeys[session.keyId]? = some encryptionKey)
    {request : RequestDeviceSign L} {s' : FrostCoordinator L}
    (hrequest : s.requestDeviceSign sessionId d.deviceId encryptionKey = .ret (request, s'))
    {later : Signer D S} (hlater : CanSign later symmKeygen session subSegment.segment)
    {t : FrostCoordinator L} (ht : GoesOn sessionId s t)
    (hactive : sessionId ∈ t.activeSigningSessions)
    (hindex' : t.Assigns session.accessStructureRef d.deviceId index) :
    ∃ phase later' shares replenish,
      d.recvRequestSign (w.requestSign request) =
        .ret (.ok [.toUser (.signatureRequest phase)], d) ∧
      later.signAck phase symmKeygen = .ret (.ok [.toCoordinator (.signing
        (.signatureShare sessionId shares replenish))], later') ∧
      t.accepts d.deviceId sessionId shares = some index := by
  obtain ⟨a, ha, hrecorded⟩ := hindex
  obtain ⟨a', ha', hrecorded'⟩ := hindex'
  obtain ⟨session', hsession'⟩ := BTreeMap.mem_iff_getElem?.1 hactive
  obtain ⟨-, rfl, hbuilds, key', own, hkey', hown, hsigns⟩ :=
    hbegins.allBegun sessionId session hsession
  obtain rfl := Option.some.inj (hkey.symm.trans hkey')
  -- the root shared key that the coordinator reconstructs
  obtain ⟨root, hroot, key', encryptionKey', href, hkey', hstructure, hwith', hshared⟩ :=
    hs.rooted.rootSharedKey_eq hrootkey (fun _ => .inl) hproper ha
  obtain rfl := Option.some.inj (hkey.symm.trans hkey')
  obtain rfl := Option.some.inj (hown.symm.trans hstructure)
  obtain rfl := Option.some.inj (hwith.symm.trans hwith')
  have hne := hproper.nonempty root (.inl hroot)
  have happ : own.appSharedKey = root.app L := by
    obtain ⟨root', hroot', href', happ⟩ := hs.rooted.installed _ own ha
    rw [happ, hproper.polynomial root' root (.inl hroot') (.inl hroot) (href'.trans href.symm)]
  have hkeyId : keyIdFromRootkey L root.publicKey = session.keyId := by
    rw [keyIdFromRootkey, ← SharedKey.masterAppkey_app hne]
    exact congrArg AccessStructureRef.keyId href
  have hmaster : key.completeKey.masterAppkey =
      MasterAppkey.deriveFromRootkey L root.publicKey := by
    refine hs.rooted.masterAppkey_eq (fun _ => .inl) hproper hroot ?_
    rw [href]
    exact hkey
  -- the request for it
  have hcontributes := contributes_of_rootSharedKey hkey hstructure hshared hrecorded
  obtain ⟨hrequestKey, hcontrib⟩ := hcontributes.sign _ session request s' hsession rfl hrequest
  obtain ⟨session'', nonces, -, hsession'', hnonces, -, -, -, hgroup, hrequestNonces, -⟩ :=
    FrostCoordinator.requestDeviceSign_eq hrequest
  obtain rfl := Option.some.inj (hsession.symm.trans hsession'')
  have hsubSegment : nonces = subSegment.coordNonceState := by
    rw [hbuilds.nonces, Std.ExtTreeMap.getElem?_map, htakes.nonces] at hnonces
    exact (Option.some.inj hnonces).symm
  subst hsubSegment
  have hrequests : Requests session d.deviceId root index subSegment.segment request :=
    { group := hgroup
      rootkey := hrequestKey
      contrib := hcontrib
      streamId := by rw [hrequestNonces]; rfl
      index := by rw [hrequestNonces]; rfl }
  -- the share of the device
  obtain ⟨share, hshare⟩ := hready.share
  obtain ⟨saved, secretShare, hsaved, hsavedRef, rfl, rng, rfl⟩ := hd.sealed hreceives
    (fun root secretShare hsaved => hproper.nonempty root (.inr ⟨secretShare, hsaved⟩)) hshare
  obtain rfl : saved = root :=
    hproper.polynomial saved root (.inr ⟨secretShare, hsaved⟩) (.inl hroot)
      (hsavedRef.trans href.symm)
  rw [← d.deviceIdOfKeypair] at hshare
  have hnoncesOf {i : ℕ} {v : SecretNonceSlot SeedMaterial SignatureShare}
      (h : HasNonces later.nonceSlots symmKeygen.nonces session.sessionId subSegment.segment i v) :=
    hw.share_verifies hbuilds (fun progress hmem => (hsigns.app progress hmem).trans happ) htakes
      rfl (hsaved.image himages) h.nonces
  have hitems := hsigns.items
  rw [hmaster] at hitems
  have hprogressed := ht.progressed hsession hsession'
  obtain ⟨i, v, hnonces⟩ := hlater.nonces
  obtain ⟨hparty, hverifies⟩ := hnoncesOf hnonces
  obtain ⟨signTask, hsignItems, hrecv⟩ :=
    hready.recvRequestSign hw hrequests hkeyId hitems hparty hshare
  obtain ⟨i', v', later', replenish, hnonces', hack⟩ := hlater.signAck hw hrequests hkeyId
    hbuilds.aggNonces hsome hsignItems (decryptShare_encryptShare haead rng)
  exact ⟨_, later', _, replenish, hrecv, hack, accepts_ownShares hsession' hprogressed ha'
    hrecorded' (hnoncesOf hnonces').2⟩

end Agreement

/-! ### A concrete run -/

section

attribute [local instance] Build.release

/-- `plainLib` with one item in every task. -/
def oneItemLib : FrostLib :=
  { plainLib with
    checkSignTask := fun (signTask : ℕ) _ _ =>
      if signTask = 0 then .error "nothing to sign" else .ok [signTask] }

/-- Its devices: a signature share is the index that it is verified for, and a key generation is
finished with a share on its polynomial only. -/
def oneItemDeviceLib : DeviceLib oneItemLib where
  bitcoin := Bitcoin.plainBitcoinLib
  Cipher := BitVec 512
  Backup := SecretShare
  Contributor := plainDeviceLib.Contributor
  SecretShareReceiver := PlainDevice.ShareReceiver
  PartySignSession := Binonce
  encrypt := plainDeviceLib.encrypt
  decrypt := plainDeviceLib.decrypt
  image := plainDeviceLib.image
  genKeygenInput := plainDeviceLib.genKeygenInput
  verifyAggInput := plainDeviceLib.verifyAggInput
  sharedKey := plainDeviceLib.sharedKey
  checkFingerprint := plainDeviceLib.checkFingerprint
  finalize := fun receiver certificate =>
    if receiver.share.secretShare.shareImage plainDeviceLib =
        (plainDeviceLib.sharedKey receiver).shareImage plainLib receiver.index then
      plainDeviceLib.finalize receiver certificate
    else .error "the share is not on the polynomial"
  sessionId := fun request =>
    PlainLib.hashPoints (request.aggNonces.map (·.setWidth 264)) +
      BitVec.ofNat 256 (match request.signTask with
        | .test message => message.length
        | _ => 0) + request.accessStructureId
  shareToMasterAppkey := plainDeviceLib.shareToMasterAppkey
  deriveXonlyShare := plainDeviceLib.deriveXonlyShare
  partySignSession := fun publicKey _ aggNonce _ => aggNonce + publicKey.setWidth 528
  sign := fun _ own _ => own.secretShare.index
  backupShareImage := plainDeviceLib.backupShareImage
  extractSecret := fun backup _ => some backup
  fromSecretShareAndSharedKey := fun share _ => share
  hex := plainDeviceLib.hex

/-- A task is a message of as many letters. -/
def oneItemWire : TaskWire oneItemLib where
  task := fun (signTask : ℕ) => .test (String.ofList (List.replicate signTask 'a'))
  item := fun (item : ℕ) =>
    { message := (String.ofList (List.replicate item 'a')).toUTF8.toList
      appTweak := .testMessage }

theorem oneItemWire_faithful :
    oneItemWire.Faithful oneItemDeviceLib plainDerivation.nonces.publicNonce where
  sessionId r := by
    have hlength : (String.ofList (List.replicate r.signTask 'a')).length = r.signTask := by
      rw [String.length_ofList]
      exact List.length_replicate
    show PlainLib.hashPoints (r.aggNonces.map (·.setWidth 264)) + BitVec.ofNat 256
      (String.ofList (List.replicate r.signTask 'a')).length + r.accessStructureId = _
    rw [hlength]
    rfl
  check (task : ℕ) masterAppkey purpose items h := by
    have hcheck : oneItemLib.checkSignTask task masterAppkey purpose =
        if task = 0 then .error "nothing to sign" else .ok [task] := rfl
    rw [hcheck] at h
    split at h
    · cases h
    · cases h
      exact ⟨_, rfl, rfl⟩
  parties key nonces item rng index := by
    show index ∈ (Std.ExtTreeSet.ofList nonces.keys compare) ↔ index ∈ nonces
    simp
  share root nonces item rng parties secretShare secretNonce _ _ _ := by
    show (secretShare.index == secretShare.index) = true
    exact beq_self_eq_true _

/-- A share that comes out of a key generation is on its polynomial. -/
theorem oneItemDeviceLib_finalize {receiver : PlainDevice.ShareReceiver}
    {certificate : BTreeMap Point ℕ} {r : PlainLib.Certifier × PairedSecretShare}
    (h : oneItemDeviceLib.finalize receiver certificate = .ok r) :
    receiver.share.secretShare.shareImage plainDeviceLib =
        (plainDeviceLib.sharedKey receiver).shareImage plainLib receiver.index ∧
      plainDeviceLib.finalize receiver certificate = .ok r := by
  have hfinalize : oneItemDeviceLib.finalize receiver certificate =
      if receiver.share.secretShare.shareImage plainDeviceLib =
          (plainDeviceLib.sharedKey receiver).shareImage plainLib receiver.index then
        plainDeviceLib.finalize receiver certificate
      else .error "the share is not on the polynomial" := rfl
  rw [hfinalize] at h
  by_cases himage : receiver.share.secretShare.shareImage plainDeviceLib =
      (plainDeviceLib.sharedKey receiver).shareImage plainLib receiver.index
  · rw [if_pos himage] at h
    exact ⟨himage, h⟩
  · rw [if_neg himage] at h
    cases h

theorem oneItem_receives : Receives oneItemDeviceLib :=
  fun receiver certificate certifiedKeygen secretShare h =>
    receives_plainDeviceLib receiver certificate certifiedKeygen secretShare
      (oneItemDeviceLib_finalize h).2

theorem oneItem_receivesImages : ReceivesImages oneItemDeviceLib := by
  intro receiver certificate certifiedKeygen share h
  obtain ⟨himage, hfinalize⟩ := oneItemDeviceLib_finalize h
  have hplain : plainDeviceLib.finalize receiver certificate =
      if certificate.size ≠ receiver.certifier.receiverKeys.length + 1 then
        .error "certificates are missing"
      else .ok ({ receiver.certifier with certificates := certificate.toList },
        receiver.share) := rfl
  rw [hplain] at hfinalize
  split at hfinalize
  · cases hfinalize
  · cases hfinalize
    exact himage

/-- A device with an empty slot and no keys. -/
def emptySigner : Signer oneItemDeviceLib PlainSlot where
  toFrostSigner := .new 1 (.new [{ inner := none }])
  keypair := (1 : BitVec 256)
  deviceIdOfKeypair := publicKeyOfPair_one
  keygen := KeygenState.clearTmpData oneItemDeviceLib
  keygenFingerprint := 0

theorem emptySigner_started : Started emptySigner where
  ordinary := .new fun slot hslot => by
    obtain rfl := List.mem_singleton.1 hslot
    rfl
  keygen := rfl
  tmpLoadedBackups := rfl

/-- A stream of nonces is opened on it, and the backup of a share is entered and consolidated. -/
def signerOps : List (Op oneItemDeviceLib) :=
  [.recvCoordinatorMessage (.signing (.openNonceStreams
     [{ streamId := 1, index := 0, remaining := 0 }])) (0 : ℕ) fun _ => 5,
   .recvCoordinatorMessage (.restoration (.enterPhysicalBackup 0)) (0 : ℕ) fun _ => 0,
   .backupEntered { enterPhysicalId := 0 } ({ index := 1, share := 9 } : SecretShare),
   .recvCoordinatorMessage (.restoration (.consolidate
     { shareIndex := 1
       rootSharedKey := nineKey
       keyName := "key"
       purpose := .test })) (0 : ℕ) fun _ => 0,
   .finishConsolidation backupPhase (0 : ℕ)]

/-- The device then. -/
def openedSigner : Signer oneItemDeviceLib PlainSlot :=
  signerOps.foldl (Signer.after plainDerivation) emptySigner

/-- What its log holds once what was staged is written. -/
def openedStored : LogContents oneItemDeviceLib.Cipher oneItemDeviceLib.Backup :=
  LogContents.empty.append (Op.takeStagedMutations.writes openedSigner)

/-- It has lost power then, and started again. -/
def readySigner : Signer oneItemDeviceLib PlainSlot :=
  openedSigner.restart openedStored openedSigner.nonceSlots

theorem signerOps_runs : emptySigner.Runs plainDerivation [] signerOps := by
  refine ⟨trivial, by decide +kernel, trivial, by decide +kernel, ?_, by decide +kernel, trivial,
    by decide +kernel, ?_, by decide +kernel, trivial⟩
  · exact ⟨_, List.mem_cons_of_mem _ List.mem_cons_self, _, rfl, List.mem_cons_self⟩
  · exact shown_of_asked (.inr backupPhase)
      (List.mem_append_right _ List.mem_cons_self) (by decide +kernel)

/-- The same share is restored, its device sends a nonce, and a session with it is started. -/
def coordinatorOps : List (Coordinator.Op oneItemLib) :=
  [.startRestoringKeyFromRecoverShare oneShare 1,
    .finishRestoring 1 0 (0 : ℕ),
    .recvDeviceMessage 1 (.signing (.nonceResponse [singleNonce 1])),
    .startSign oneShareRef (1 : ℕ) (.ofList [1] compare) fun _ => (0 : ℕ)]

/-- One operation of a run, with what was installed and started. -/
def coordinatorAfter (run : Past × Starts × FrostCoordinator oneItemLib)
    (op : Coordinator.Op oneItemLib) : Past × Starts × FrostCoordinator oneItemLib :=
  match run.2.2.perform op with
  | .ret (_, s') => (run.1.after run.2.2 op, run.2.1.after run.2.2 op, s')
  | .panic _ => run

theorem installed_foldl (ops : List (Coordinator.Op oneItemLib))
    {run : Past × Starts × FrostCoordinator oneItemLib}
    (h : Installed run.1 run.2.2 ∧ Begins run.2.1 run.2.2) :
    Installed (ops.foldl coordinatorAfter run).1 (ops.foldl coordinatorAfter run).2.2 ∧
      Begins (ops.foldl coordinatorAfter run).2.1 (ops.foldl coordinatorAfter run).2.2 := by
  induction ops generalizing run with
  | nil => exact h
  | cons op ops ih =>
      refine ih ?_
      unfold coordinatorAfter
      split
      · rename_i hop
        exact ⟨h.1.perform hop, h.2.perform hop⟩
      · exact h

/-- The run. -/
def coordinatorRun : Past × Starts × FrostCoordinator oneItemLib :=
  coordinatorOps.foldl coordinatorAfter (.empty, fun _ => { nonces := ∅, indices := ∅ }, .new _)

/-- What has happened to the device. -/
def signerTrace : List (Entry oneItemDeviceLib) :=
  [] ++ emptySigner.entriesOf plainDerivation signerOps

theorem life_readySigner :
    Life plainDerivation ([] ++ signerTrace) [] openedStored readySigner := by
  have hnew : Life plainDerivation [] [] .empty emptySigner :=
    .new emptySigner emptySigner_started.ordinary
  have hordinary : openedSigner.nonceSlots.Ordinary :=
    Reach.ordinary emptySigner_started (Reach.start.runs signerOps_runs)
  exact .restart (hnew.runs signerOps_runs (by simp [signerOps, Op.writes])) List.prefix_rfl
    hordinary

/-- The device has saved a share of that key only. -/
theorem eq_of_saved_signerTrace {root : SharedKey} {secretShare : SecretShare}
    (h : Saved plainDerivation readySigner.keypair ([] ++ signerTrace ++ []) root secretShare) :
    root = nineKey := by
  have hops : ([] ++ signerTrace ++ []).map Entry.op = signerOps := rfl
  rcases h.told with ⟨begin, rng, seeds, hmem⟩ | ⟨consolidate, rng, seeds, hmem, rfl⟩
  · rw [hops, signerOps] at hmem
    simp only [List.mem_cons, List.not_mem_nil, or_false, reduceCtorEq, false_or] at hmem
    rcases hmem with hmem | hmem | hmem <;> cases hmem
  · rw [hops, signerOps] at hmem
    simp only [List.mem_cons, List.not_mem_nil, or_false, reduceCtorEq, false_or] at hmem
    rcases hmem with hmem | hmem | hmem
    · cases hmem
    · cases hmem
    · cases hmem
      rfl

/-- What the device has then: the share, and the nonce that the coordinator was sent. -/
theorem readySigner_spec :
    readySigner.deviceId = 1 ∧
    (readySigner.keys.getEncryptedShare oneShareRef 1).isSome ∧
    (readySigner.keys[oneShareRef.keyId]?.all fun keyData => decide (keyData.purpose = .test)) ∧
    (readySigner.nonceSlots.get 1).isSome ∧
    (readySigner.nonceSlots.target 1).any (fun (_, v) => decide (¬ v.IsCached 452 ∧ v.index = 0 ∧
      plainDerivation.nonces.publicNonce (v.nonceFor plainDerivation.nonces 0) = 5)) ∧
    readySigner.nonceBatchSize = 30 := by
  decide +kernel

/-- What the coordinator has then: the key, the session, and what it was started with. -/
theorem coordinatorRun_spec :
    coordinatorRun.1.roots = [nineKey] ∧
    coordinatorRun.1.encryptionKeys[oneShareRef.keyId]? = some 0 ∧
    (coordinatorRun.2.1 452).nonces.keys = [1] ∧
    ((coordinatorRun.2.1 452).nonces[(1 : DeviceId)]?.any fun taken =>
      decide (taken.segment = singleNonce 1)) ∧
    (coordinatorRun.2.1 452).indices[(1 : DeviceId)]? = some 1 ∧
    (coordinatorRun.2.2.keys[oneShareRef.keyId]?.any fun key => decide (key.purpose = .test)) ∧
    ((coordinatorRun.2.2.getAccessStructure oneShareRef).any fun a =>
      decide (a.deviceToShareIndex[(1 : DeviceId)]? = some 1)) ∧
    (coordinatorRun.2.2.activeSigningSessions[(452 : SignSessionId)]?.any fun session =>
      decide (session.progress.length = 1 ∧ session.sessionId = 452 ∧
        session.accessStructureRef = oneShareRef ∧
        session.init.groupRequest.parties.toList = [1])) ∧
    (coordinatorRun.2.2.requestDeviceSign 452 1 0).Returns := by
  decide +kernel

theorem proper_signerTrace :
    Proper oneItemLib fun root => root ∈ coordinatorRun.1.roots ∨ ∃ secretShare,
      Saved plainDerivation readySigner.keypair ([] ++ signerTrace ++ []) root secretShare := by
  refine Proper.of_eq (List.cons_ne_nil 9 []) fun root hroot => ?_
  rcases hroot with hroot | ⟨secretShare, hsaved⟩
  · rw [coordinatorRun_spec.1] at hroot
    exact List.mem_singleton.1 hroot
  · exact eq_of_saved_signerTrace hsaved

/-- The nonce of the device is taken for its share. -/
theorem coordinatorRun_takes :
    ∃ taken, taken.segment = singleNonce 1 ∧ (coordinatorRun.2.1 452).Takes 1 1 taken := by
  obtain ⟨-, -, hkeys, hnonces, hindices, -⟩ := coordinatorRun_spec
  obtain ⟨taken, htaken, hsegment⟩ := (Option.any_eq_true _ _).1 hnonces
  refine ⟨taken, of_decide_eq_true hsegment, htaken, hindices, fun other hother _ => ?_⟩
  rw [← Std.ExtTreeMap.mem_keys, hkeys] at hother
  exact List.mem_singleton.1 hother

theorem coordinatorRun_assigns : coordinatorRun.2.2.Assigns oneShareRef 1 1 := by
  obtain ⟨-, -, -, -, -, -, hinstalled, -⟩ := coordinatorRun_spec
  obtain ⟨a, ha, hassigned⟩ := (Option.any_eq_true _ _).1 hinstalled
  exact ⟨a, ha, of_decide_eq_true hassigned⟩

theorem readySigner_ready {session : ActiveSignSession oneItemLib}
    (href : session.accessStructureRef = oneShareRef)
    (hparties : session.init.groupRequest.parties.toList = [1]) :
    Ready readySigner session .test 1 1 where
  share := by
    rw [href]
    exact Option.isSome_iff_exists.1 readySigner_spec.2.1
  first party hmem hlt := by
    rw [← Std.ExtTreeSet.mem_toList, hparties] at hmem
    obtain rfl := List.mem_singleton.1 hmem
    cases hlt
  purpose keyData hkeyData := by
    obtain ⟨-, -, hpurpose, -⟩ := readySigner_spec
    rw [show session.keyId = oneShareRef.keyId from congrArg AccessStructureRef.keyId href]
      at hkeyData
    rw [hkeyData] at hpurpose
    exact of_decide_eq_true hpurpose
  stream := readySigner_spec.2.2.2.1

theorem readySigner_canSign {session : ActiveSignSession oneItemLib}
    (hid : session.sessionId = 452) (hlength : session.progress.length = 1) :
    CanSign readySigner plainDerivation session (singleNonce 1) where
  nonces := by
    obtain ⟨-, -, -, -, htarget, -⟩ := readySigner_spec
    obtain ⟨⟨i, v⟩, hv, hslot⟩ := (Option.any_eq_true _ _).1 htarget
    obtain ⟨hcached, hzero, hnonce⟩ := of_decide_eq_true hslot
    rw [hid]
    refine ⟨i, v, hv, hcached, hzero.le, fun j nonce hget => ?_⟩
    rw [show (singleNonce 1).nonces = [5] from rfl] at hget
    cases j with
    | zero => exact hnonce.trans (Option.some.inj hget)
    | succ j => cases hget
  room := by
    obtain ⟨-, -, -, -, -, hbatch⟩ := readySigner_spec
    rw [hlength, hbatch]
    decide

/-- The device signs with the share of the backup, and the coordinator accepts it. -/
theorem honest_signing_of_backup :
    ∃ request s' phase signer' shares replenish,
      coordinatorRun.2.2.requestDeviceSign 452 1 0 = .ret (request, s') ∧
      readySigner.recvRequestSign (oneItemWire.requestSign request) =
        .ret (.ok [.toUser (.signatureRequest phase)], readySigner) ∧
      readySigner.signAck phase plainDerivation = .ret (.ok [.toCoordinator (.signing
        (.signatureShare 452 shares replenish))], signer') ∧
      coordinatorRun.2.2.accepts 1 452 shares = some 1 := by
  obtain ⟨hinstalled, hbegins⟩ : Installed coordinatorRun.1 coordinatorRun.2.2 ∧
      Begins coordinatorRun.2.1 coordinatorRun.2.2 :=
    installed_foldl coordinatorOps ⟨.new, .new _⟩
  obtain ⟨-, hwith, -, -, -, hkey, -, hactive, ⟨request, s'⟩, hrequest⟩ := coordinatorRun_spec
  obtain ⟨session, hsession, hfields⟩ := (Option.any_eq_true _ _).1 hactive
  obtain ⟨hlength, hid, href, hparties⟩ := of_decide_eq_true hfields
  obtain ⟨key, hkey, htest⟩ := (Option.any_eq_true _ _).1 hkey
  obtain ⟨taken, hsegment, htakes⟩ := coordinatorRun_takes
  have hkeyId : session.keyId = oneShareRef.keyId := congrArg AccessStructureRef.keyId href
  have hassigns := coordinatorRun_assigns
  have hready : Ready readySigner session key.purpose 1 taken.segment.streamId := by
    rw [of_decide_eq_true htest, hsegment]
    exact readySigner_ready href hparties
  have hdevice := readySigner_spec.1
  rw [← href, ← hdevice] at hassigns
  rw [← hdevice] at htakes
  obtain ⟨phase, signer', shares, replenish, hrecv, hack, haccepts⟩ :=
    honest_signing oneItemWire_faithful plainLib_rootkey plainDeviceLib_aead oneItem_receives
      oneItem_receivesImages hinstalled hbegins life_readySigner proper_signerTrace hsession
      (List.ne_nil_of_length_eq_add_one hlength) htakes hassigns (by rw [hkeyId]; exact hkey)
      hready (by rw [hkeyId]; exact hwith) (by rw [hdevice]; exact hrequest)
      (by rw [hsegment]; exact readySigner_canSign hid hlength) .here
      (BTreeMap.mem_iff_getElem?.2 ⟨session, hsession⟩) hassigns
  rw [hdevice] at haccepts
  exact ⟨request, s', phase, signer', shares, replenish, hrequest, hrecv, hack, haccepts⟩

end

end Device

end Frostsnap
