import Frostsnap.Coordinator.Applied
import Frostsnap.Coordinator.KeyGen

/-!
# When a signing session is finished

The coordinator chooses devices for a session, but the parties of the session are share indices, and
it counts the devices that have delivered shares. Both are the same when the devices that deliver
have share indices of their own. When two of them share one, the session counts as finished before
every party has delivered, and the assertion on the signature that is combined then fails.

`Delivers` is a run of the coordinator with the devices that have delivered shares to each session,
and the share index that was recorded for each when it did.

## Main results

* `Delivers.collects`: an active session has a verified share of exactly the devices that have
  delivered, for each of its signatures.
* `session_completes`: when the devices that deliver have share indices of their own, the session is
  finished with signatures that verify as soon as every party has delivered, and not before.
-/

namespace Frostsnap

/-! ### Devices and their share indices -/

namespace BTreeMap

variable {α β γ : Type} [Ord α] [Std.TransOrd α] [Std.LawfulEqOrd α]

/-- No two keys have the same value. -/
def OneToOne (m : BTreeMap α β) : Prop :=
  ∀ ⦃a b : α⦄ ⦃v : β⦄, m[a]? = some v → m[b]? = some v → a = b

/-- The values that a map one to one gives to the keys of another are different. -/
theorem OneToOne.nodup {m : BTreeMap α β} (h : m.OneToOne) {m' : BTreeMap α γ} {f : α × γ → β}
    (hf : ∀ (a : α) (c : γ), m'[a]? = some c → m[a]? = some (f (a, c))) :
    (m'.toList.map f).Nodup := by
  have hkeys : (m'.toList.map Prod.fst).Nodup := by
    rw [Std.ExtTreeMap.map_fst_toList_eq_keys]
    exact Std.ExtTreeMap.nodup_keys
  refine List.Nodup.map_on ?_ hkeys.of_map
  rintro ⟨a, c⟩ ha ⟨b, c'⟩ hb heq
  have hget := Std.ExtTreeMap.mem_toList_iff_getElem?_eq_some.1 ha
  have hget' := Std.ExtTreeMap.mem_toList_iff_getElem?_eq_some.1 hb
  obtain rfl : a = b := h (hf a c hget) (heq ▸ hf b c' hget')
  rw [Option.some.inj (hget.symm.trans hget')]

end BTreeMap

/-- A list without duplicates, of elements of a set, has as many as the set exactly if it has
all of them. -/
theorem BTreeSet.length_eq_size_iff {α : Type} [Ord α] [Std.TransOrd α] [Std.LawfulEqOrd α]
    {s : BTreeSet α} {l : List α} (hnodup : l.Nodup) (hsub : ∀ a ∈ l, a ∈ s) :
    l.length = s.size ↔ ∀ a ∈ s, a ∈ l := by
  have hset : s.toList.Nodup := s.distinct_toList.imp Std.ReflCmp.ne_of_cmp_ne_eq
  have hsubperm : l.Subperm s.toList :=
    hnodup.subperm fun a ha => Std.ExtTreeSet.mem_toList.2 (hsub a ha)
  rw [← Std.ExtTreeSet.length_toList]
  constructor
  · intro hlength a ha
    have hperm := hsubperm.perm_of_length_le hlength.ge
    exact hperm.mem_iff.2 (Std.ExtTreeSet.mem_toList.2 ha)
  · intro hall
    refine Nat.le_antisymm hsubperm.length_le (hset.subperm fun a ha => ?_).length_le
    exact hall a (Std.ExtTreeSet.mem_toList.1 ha)

namespace Coordinator

variable {L : FrostLib}

/-- What the coordinator relies on of the signing protocol: the parties of a session are those it
has nonces of, and shares that verify, one of each party, combine into a signature that verifies
when they are enough. -/
structure Combines (L : FrostLib) : Prop where
  parties : ∀ (key : SharedKey) (nonces : BTreeMap ShareIndex Binonce) (item : L.SignItem)
    (rng : L.Rng) (index : ShareIndex),
    index ∈ L.parties (L.randomizedCoordinatorSignSession key nonces item rng) ↔ index ∈ nonces
  combined : ∀ (app : Xpub SharedKey) (nonces : BTreeMap ShareIndex Binonce) (item : L.SignItem)
    (rng : L.Rng) (shares : List (ShareIndex × SignatureShare)),
    let key := L.deriveXonlyKey item app
    let session := L.randomizedCoordinatorSignSession key nonces item rng
    app.key.threshold ≤ shares.length → (shares.map Prod.fst).Nodup →
    (∀ index, index ∈ shares.map Prod.fst ↔ index ∈ nonces) →
    (∀ share ∈ shares, L.verifySignatureShare session key share.1 share.2 = true) →
    L.verifyFinalSignature item app.masterAppkey
      (L.combineSignatureShares session (shares.map Prod.snd)) = true

/-! ### One signature -/

/-- The signature of a session that was started for some parties has a verified share of exactly
the devices that have delivered. -/
structure Collects (received : BTreeMap DeviceId ShareIndex) (parties : BTreeSet ShareIndex)
    (progress : SignSessionProgress L) : Prop where
  started : ∃ nonces rng, progress.signSession =
    L.randomizedCoordinatorSignSession progress.tweakedFrostKey nonces progress.signItem rng ∧
    ∀ index, index ∈ nonces ↔ index ∈ parties
  delivered : ∀ deviceId, deviceId ∈ progress.signatureShares ↔ deviceId ∈ received
  verified : ∀ (deviceId : DeviceId) (share : SignatureShare) (index : ShareIndex),
    progress.signatureShares[deviceId]? = some share → received[deviceId]? = some index →
    index ∈ L.parties progress.signSession ∧
      L.verifySignatureShare progress.signSession progress.tweakedFrostKey index share = true

namespace Collects

variable {received : BTreeMap DeviceId ShareIndex} {parties : BTreeSet ShareIndex}
  {progress : SignSessionProgress L}

/-- A share that verifies is delivered, or delivered again. -/
theorem insert (h : Collects received parties progress) {sender : DeviceId} {index : ShareIndex}
    {share : SignatureShare} (hparty : index ∈ L.parties progress.signSession)
    (hshare : L.verifySignatureShare progress.signSession progress.tweakedFrostKey index share) :
    Collects (received.insert sender index) parties
      { progress with signatureShares := progress.signatureShares.insert sender share } where
  started := h.started
  delivered deviceId := by
    rw [BTreeMap.mem_insert, BTreeMap.mem_insert, h.delivered]
  verified deviceId share' index' hget hindex := by
    rw [BTreeMap.getElem?_insert] at hget hindex
    by_cases hsender : sender = deviceId
    · rw [if_pos hsender] at hget hindex
      obtain rfl := Option.some.inj hget
      obtain rfl := Option.some.inj hindex
      exact ⟨hparty, hshare⟩
    · rw [if_neg hsender] at hget hindex
      exact h.verified deviceId share' index' hget hindex

/-- The shares with the indices they were verified under. -/
theorem indexed (h : Collects received parties progress) (hlaws : Combines L)
    (hdistinct : received.OneToOne) :
    ∃ shares : List (ShareIndex × SignatureShare),
      shares.map Prod.snd = progress.signatureShares.values ∧
      (shares.map Prod.fst).Nodup ∧
      (∀ index, index ∈ shares.map Prod.fst ↔ ∃ deviceId : DeviceId,
        received[deviceId]? = some index) ∧
      (∀ index ∈ shares.map Prod.fst, index ∈ parties) ∧
      ∀ share ∈ shares, L.verifySignatureShare progress.signSession progress.tweakedFrostKey
        share.1 share.2 = true := by
  have hindex (deviceId : DeviceId) (share : SignatureShare)
      (hshare : progress.signatureShares[deviceId]? = some share) :
      received[deviceId]? = some (received[deviceId]?.getD 0) := by
    obtain ⟨index, hindex⟩ := BTreeMap.mem_iff_getElem?.1
      ((h.delivered deviceId).1 (BTreeMap.mem_iff_getElem?.2 ⟨share, hshare⟩))
    rw [hindex, Option.getD_some]
  have hverified {deviceId : DeviceId} {share : SignatureShare}
      (hmem : (deviceId, share) ∈ progress.signatureShares.toList) :=
    have hshare := Std.ExtTreeMap.mem_toList_iff_getElem?_eq_some.1 hmem
    h.verified deviceId share _ hshare (hindex deviceId share hshare)
  refine ⟨progress.signatureShares.toList.map fun (deviceId, share) =>
    (received[deviceId]?.getD 0, share), ?_, ?_, fun index => ?_, fun index hmem => ?_,
    fun share hmem => ?_⟩
  · rw [List.map_map, BTreeMap.values_eq]
    rfl
  · rw [List.map_map]
    exact hdistinct.nodup hindex
  · rw [List.map_map, List.mem_map]
    constructor
    · rintro ⟨⟨deviceId, share⟩, hmem, rfl⟩
      have hshare := Std.ExtTreeMap.mem_toList_iff_getElem?_eq_some.1 hmem
      exact ⟨deviceId, hindex deviceId share hshare⟩
    · rintro ⟨deviceId, hreceived⟩
      obtain ⟨share, hshare⟩ := BTreeMap.mem_iff_getElem?.1
        ((h.delivered deviceId).2 (BTreeMap.mem_iff_getElem?.2 ⟨index, hreceived⟩))
      refine ⟨(deviceId, share), Std.ExtTreeMap.mem_toList_iff_getElem?_eq_some.2 hshare, ?_⟩
      show received[deviceId]?.getD 0 = index
      rw [hreceived, Option.getD_some]
  · rw [List.map_map, List.mem_map] at hmem
    obtain ⟨⟨deviceId, share⟩, hget, rfl⟩ := hmem
    obtain ⟨nonces, rng, hsession, hnonces⟩ := h.started
    have hparty := (hverified hget).1
    rw [hsession, hlaws.parties] at hparty
    exact (hnonces _).1 hparty
  · obtain ⟨⟨deviceId, share⟩, hget, rfl⟩ := List.mem_map.1 hmem
    exact (hverified hget).2

/-- **There are as many shares as parties** exactly if every party has delivered, and then the
shares combine into a signature that verifies. -/
theorem complete (h : Collects received parties progress) (hlaws : Combines L)
    (hdistinct : received.OneToOne) :
    (progress.signatureShares.size = parties.size ↔
      ∀ index ∈ parties, ∃ deviceId : DeviceId, received[deviceId]? = some index) ∧
    (progress.signatureShares.size = parties.size →
      progress.appSharedKey.key.threshold ≤ parties.size →
      progress.verifyFinalSignature (L.combineSignatureShares progress.signSession
        progress.signatureShares.values) = true) := by
  obtain ⟨shares, hvalues, hnodup, hindices, hparties, hverified⟩ := h.indexed hlaws hdistinct
  have hlength : (shares.map Prod.fst).length = progress.signatureShares.size := by
    rw [List.length_map, ← List.length_map (f := Prod.snd), hvalues, BTreeMap.values_eq,
      List.length_map, Std.ExtTreeMap.length_toList]
  have hall := BTreeSet.length_eq_size_iff hnodup hparties
  rw [hlength] at hall
  refine ⟨hall.trans ⟨fun h index hmem => (hindices index).1 (h index hmem),
    fun h index hmem => (hindices index).2 (h index hmem)⟩, fun hsize henough => ?_⟩
  obtain ⟨nonces, rng, hsession, hnonces⟩ := h.started
  rw [← hvalues, SignSessionProgress.verifyFinalSignature, hsession]
  refine hlaws.combined progress.appSharedKey nonces progress.signItem rng shares ?_ hnodup ?_ ?_
  · rw [List.length_map, hsize] at hlength
    rw [hlength]
    exact henough
  · intro index
    rw [hnonces]
    exact ⟨hparties index, hall.1 hsize index⟩
  · rw [hsession] at hverified
    exact hverified

end Collects

/-! ### All signatures of a session -/

/-- Every signature of a session collects its shares. -/
def CollectsAll (received : BTreeMap DeviceId ShareIndex) (session : ActiveSignSession L) : Prop :=
  ∀ progress ∈ session.progress, Collects received session.init.groupRequest.parties progress

namespace Persistent

/-- The nonces of each share index for one signature are those of the parties. -/
theorem mem_indexedNonces {i : ℕ} {segments : List (ShareIndex × NonceSegment)}
    {nonces nonces' : BTreeMap ShareIndex Binonce}
    (h : indexedNonces i segments nonces = .ret nonces') (index : ShareIndex) :
    index ∈ nonces' ↔ index ∈ nonces ∨ index ∈ segments.map Prod.fst := by
  induction segments generalizing nonces with
  | nil => simp [← Exec.ret.inj h]
  | cons segment rest ih =>
      obtain ⟨partyIndex, nonceSegment⟩ := segment
      obtain ⟨nonce, -, h⟩ := Exec.bind_eq_ret_iff.1 h
      rw [ih h, BTreeMap.mem_insert, List.map_cons, List.mem_cons]
      tauto

/-- What each signature of a new session starts with. -/
theorem newSessions_collects {app : Xpub SharedKey} {byParty : BTreeMap ShareIndex NonceSegment}
    {rng : ℕ → L.Rng} {i : ℕ} {signItems : List L.SignItem}
    {sessions : List (SignSessionProgress L)}
    (h : newSessions app byParty rng i signItems = .ret sessions) :
    ∀ progress ∈ sessions, Collects ∅ (.ofList byParty.keys compare) progress := by
  induction signItems generalizing i sessions with
  | nil =>
      obtain rfl := Exec.ret.inj h
      simp
  | cons signItem rest ih =>
      obtain ⟨nonces, later, hnonces, hlater, rfl⟩ := newSessions_cons_eq_ret h
      refine List.forall_mem_cons.2 ⟨?_, ih hlater⟩
      refine
        { started := ⟨nonces, rng i, rfl, fun index => ?_⟩
          delivered := fun deviceId => Iff.rfl
          verified := fun deviceId share index hshare => ?_ }
      · rw [mem_indexedNonces hnonces, Std.ExtTreeMap.map_fst_toList_eq_keys]
        simp
      · rw [newProgress, Std.ExtTreeMap.getElem?_empty] at hshare
        cases hshare

/-- A session that is started collects its shares. -/
theorem signSession_collects {p : Persistent L} {ref : AccessStructureRef} {signTask : L.SignTask}
    {signingDevices : BTreeSet DeviceId} {rng : ℕ → L.Rng} {session : ActiveSignSession L}
    (h : p.signSession ref signTask signingDevices rng = .ret (.ok session)) :
    CollectsAll ∅ session := by
  obtain ⟨key, a, signItems, noncesByDevice, byParty, sessions, -, -, -, -, -, -, hsessions, rfl⟩ :=
    signSession_eq_ret h
  exact newSessions_collects hsessions

/-- Shares that pass the checks. -/
theorem addShares_collects {received : BTreeMap DeviceId ShareIndex} {sender : DeviceId}
    {index : ShareIndex} {parties : BTreeSet ShareIndex} {progress : List (SignSessionProgress L)}
    {shares : List SignatureShare} (h : ∀ p ∈ progress, Collects received parties p)
    (hlength : shares.length = progress.length)
    (hcheck : checkShares index (progress.zip shares) = .ok ()) :
    ∀ p ∈ addShares sender progress shares,
      Collects (received.insert sender index) parties p := by
  induction progress generalizing shares with
  | nil => simp [addShares]
  | cons first rest ih =>
      obtain ⟨share, shares, rfl⟩ : ∃ share shares', shares = share :: shares' := by
        cases shares with
        | nil => simp at hlength
        | cons share shares => exact ⟨share, shares, rfl⟩
      rw [List.zip_cons_cons, checkShares] at hcheck
      split at hcheck
      · cases hcheck
      · rename_i hparty
        split at hcheck
        · rename_i hverified
          obtain ⟨hfirst, hrest⟩ := List.forall_mem_cons.1 h
          refine List.forall_mem_cons.2 ⟨hfirst.insert (not_not.1 hparty) hverified, ?_⟩
          exact ih hrest (by simpa using hlength) hcheck
        · cases hcheck

/-- Adding shares changes nothing else. -/
theorem map_addShares {β : Type} {f : SignSessionProgress L → β}
    (hf : ∀ progress shares, f { progress with signatureShares := shares } = f progress)
    (sender : DeviceId) (progress : List (SignSessionProgress L)) (shares : List SignatureShare) :
    (addShares sender progress shares).map f = progress.map f := by
  induction progress generalizing shares with
  | nil => simp [addShares]
  | cons first rest ih =>
      cases shares with
      | nil => rfl
      | cons share shares =>
          rw [addShares, List.map_cons, hf, ih, List.map_cons]

/-- The share index that is recorded for a device whose signature shares are accepted. -/
def accepts (p : Persistent L) (sender : DeviceId) (sessionId : SignSessionId)
    (shares : List SignatureShare) : Option ShareIndex :=
  match p.checkSignatureShares sender sessionId shares with
  | .ret (.ok _) =>
      p.activeSigningSessions[sessionId]?.bind fun session =>
        (p.getAccessStructure session.accessStructureRef).bind fun a =>
          a.deviceToShareIndex[sender]?
  | _ => none

/-- What is known of shares that pass the checks. -/
theorem accepts_of_check {p : Persistent L} {sender : DeviceId} {sessionId : SignSessionId}
    {shares : List SignatureShare}
    (h : p.checkSignatureShares sender sessionId shares = .ret (.ok ())) :
    ∃ session index, p.activeSigningSessions[sessionId]? = some session ∧
      p.accepts sender sessionId shares = some index ∧
      shares.length = session.progress.length ∧
      checkShares index (session.progress.zip shares) = .ok () := by
  have hchecked := h
  unfold checkSignatureShares at hchecked
  split at hchecked
  · cases hchecked
  · rename_i session hsession
    obtain ⟨a, ha, hchecked⟩ := Exec.bind_eq_ret_iff.1 hchecked
    rw [Exec.expect_eq_ret_iff] at ha
    split at hchecked
    · cases hchecked
    · rename_i index hindex
      split at hchecked
      · cases hchecked
      · rename_i hlength
        refine ⟨session, index, hsession, ?_, not_not.1 hlength, Exec.ret.inj hchecked⟩
        rw [accepts, h]
        dsimp only
        rw [hsession, Option.bind_some, ha, Option.bind_some, hindex]

/-! ### Mutations that do not sign -/

/-- Sessions may have gone, and requests may have been sent. -/
structure KeepsSessions (p p' : Persistent L) : Prop where
  session : ∀ (sessionId : SignSessionId) (session' : ActiveSignSession L),
    p'.activeSigningSessions[sessionId]? = some session' →
      ∃ session, p.activeSigningSessions[sessionId]? = some session ∧
        session'.progress = session.progress ∧ session'.init = session.init ∧
        session'.keyId = session.keyId
  order : ∀ sessionId ∈ p'.activeSigningSessions,
    sessionId ∈ p.activeSignSessionOrder → sessionId ∈ p'.activeSignSessionOrder

namespace KeepsSessions

variable {p p' p'' : Persistent L}

theorem of_same (h : SameSessions p p') : KeepsSessions p p' where
  session sessionId session' hsession' :=
    ⟨session', by rw [← h.active, hsession'], rfl, rfl, rfl⟩
  order sessionId _ horder := by rw [h.order]; exact horder

theorem refl (p : Persistent L) : KeepsSessions p p := of_same ⟨rfl, rfl, rfl⟩

theorem mem (h : KeepsSessions p p') {sessionId : SignSessionId}
    (hmem : sessionId ∈ p'.activeSigningSessions) : sessionId ∈ p.activeSigningSessions := by
  obtain ⟨session', hsession'⟩ := BTreeMap.mem_iff_getElem?.1 hmem
  obtain ⟨session, hsession, -⟩ := h.session sessionId session' hsession'
  exact BTreeMap.mem_iff_getElem?.2 ⟨session, hsession⟩

theorem trans (h : KeepsSessions p p') (h' : KeepsSessions p' p'') : KeepsSessions p p'' where
  session sessionId session'' hsession'' := by
    obtain ⟨session', hsession', hprogress', hinit', hkey'⟩ :=
      h'.session sessionId session'' hsession''
    obtain ⟨session, hsession, hprogress, hinit, hkey⟩ := h.session sessionId session' hsession'
    exact ⟨session, hsession, hprogress'.trans hprogress, hinit'.trans hinit, hkey'.trans hkey⟩
  order sessionId hmem horder := h'.order sessionId hmem (h.order sessionId (h'.mem hmem) horder)

variable [Build]

/-- A session that is closed is gone. -/
theorem closeSignSession {sessionId : SignSessionId} {finished : Option (List EncodedSignature)}
    {changed : Bool} (h : p.closeSignSession sessionId finished = .ret (changed, p')) :
    KeepsSessions p p' := by
  obtain ⟨-, -, rfl⟩ | ⟨-, -, session, nonceCache, -, -, rfl⟩ := closeSignSession_eq h
  · exact refl _
  · refine { session := fun id session' hsession' => ?_, order := fun id hmem horder => ?_ }
    · exact ⟨session', (BTreeMap.getElem?_of_erase hsession').2, rfl, rfl, rfl⟩
    · exact (List.mem_erase_of_ne (BTreeMap.mem_erase.1 hmem).1).2 horder

theorem closeSignSessions {sessions : List SignSessionId}
    (h : closeSignSessions sessions p = .ret p') : KeepsSessions p p' := by
  induction sessions generalizing p with
  | nil =>
      rw [← Exec.ret.inj h]
      exact refl _
  | cons sessionId rest ih =>
      obtain ⟨⟨changed, q⟩, hclose, hrest⟩ := Exec.bind_eq_ret_iff.1 h
      exact (closeSignSession hclose).trans (ih hrest)

/-- Every mutation that does not sign. -/
theorem change {fingerprint : Fingerprint} {m : Mutation L} {changed : Bool}
    (hm : ¬ m.Starts ∧ ¬ m.Delivers) (h : p.change fingerprint m = .ret (changed, p')) :
    KeepsSessions p p' := by
  cases m with
  | keygen m =>
      by_cases hdelete : ∃ keyId, m = .deleteKey keyId
      · obtain ⟨keyId, rfl⟩ := hdelete
        simp only [Persistent.change, deleteKey] at h
        split at h
        · obtain ⟨q, hclose, hret⟩ := Exec.bind_eq_ret_iff.1 h
          obtain ⟨-, rfl⟩ := Prod.mk.inj (Exec.ret.inj hret)
          refine KeepsSessions.trans ?_ (closeSignSessions hclose)
          exact of_same ⟨rfl, rfl, rfl⟩
        · rw [← (Prod.mk.inj (Exec.ret.inj h)).2]
          exact refl _
      · rw [change_keygen (fun keyId heq => hdelete ⟨keyId, heq⟩) h]
        exact of_same ⟨rfl, rfl, rfl⟩
  | signing m =>
      cases m with
      | newNonces deviceId segment =>
          rw [(change_newNonces h).1]
          exact of_same ⟨rfl, rfl, rfl⟩
      | newSigningSession => exact absurd trivial hm.1
      | gotSignatureSharesFromDevice => exact absurd trivial hm.2
      | sentSignReq sessionId deviceId =>
          simp only [Persistent.change, sentSignReq] at h
          split at h
          · rw [← (Prod.mk.inj (Exec.ret.inj h)).2]
            exact refl _
          · rename_i session hsession
            obtain ⟨-, rfl⟩ := Prod.mk.inj (Exec.ret.inj h)
            refine { session := fun id session' hsession' => ?_, order := fun _ _ => id }
            rcases BTreeMap.getElem?_of_insert hsession' with ⟨rfl, rfl⟩ | hsession'
            · exact ⟨session, hsession, rfl, rfl, rfl⟩
            · exact ⟨session', hsession', rfl, rfl, rfl⟩
      | closeSignSession => exact closeSignSession h
      | forgetFinishedSignSession =>
          rw [← (Prod.mk.inj (Exec.ret.inj h)).2]
          exact { session := fun _ session' hsession' => ⟨session', hsession', rfl, rfl, rfl⟩
                  order := fun _ _ => id }
  | restoration m =>
      rw [change_restoration h]
      exact of_same ⟨rfl, rfl, rfl⟩

end KeepsSessions

end Persistent

/-! ### Runs -/

/-- Who has delivered shares to each session since it was started, and the share index that was
recorded for it then. -/
abbrev Deliveries := SignSessionId → BTreeMap DeviceId ShareIndex

/-- One more device has delivered to a session, or has delivered again. -/
def Deliveries.deliver (deliveries : Deliveries) (sessionId : SignSessionId) (sender : DeviceId)
    (index : ShareIndex) : Deliveries :=
  Function.update deliveries sessionId ((deliveries sessionId).insert sender index)

/-- Who has delivered after an operation. -/
def Deliveries.after (deliveries : Deliveries) (s : FrostCoordinator L) : Op L → Deliveries
  | .startSign ref signTask signingDevices rng =>
      match s.signSession ref signTask signingDevices rng with
      | .ret (.ok session) => Function.update deliveries session.sessionId ∅
      | _ => deliveries
  | .recvDeviceMessage sender (.signing (.signatureShare sessionId shares _)) =>
      (s.accepts sender sessionId shares).elim deliveries (deliveries.deliver sessionId sender)
  | _ => deliveries

section

variable [Build]

/-- A run, with who has delivered. -/
inductive Delivers : Deliveries → FrostCoordinator L → Prop where
  | new : Delivers (fun _ => ∅) (.new L)
  | perform {deliveries : Deliveries} {s s' : FrostCoordinator L} {op : Op L} {failed : Bool}
      (h : Delivers deliveries s) (hop : s.perform op = .ret (failed, s')) :
      Delivers (deliveries.after s op) s'
  | takeStagedMutations {deliveries : Deliveries} {s : FrostCoordinator L}
      (h : Delivers deliveries s) : Delivers deliveries { s with mutations := [] }

omit [Build] in
/-- Every active session is in the order, and has the shares that were delivered to it. -/
def Persistent.Collected (deliveries : Deliveries) (p : Persistent L) : Prop :=
  ∀ (sessionId : SignSessionId) (session : ActiveSignSession L),
    p.activeSigningSessions[sessionId]? = some session →
      sessionId ∈ p.activeSignSessionOrder ∧ CollectsAll (deliveries sessionId) session

namespace Persistent.Collected

variable {deliveries : Deliveries} {p p' : Persistent L}

omit [Build] in
theorem keeps (h : Collected deliveries p) (hkeeps : p.KeepsSessions p') :
    Collected deliveries p' := by
  intro sessionId session' hsession'
  obtain ⟨session, hsession, hprogress, hinit, -⟩ := hkeeps.session sessionId session' hsession'
  obtain ⟨horder, hall⟩ := h sessionId session hsession
  refine ⟨hkeeps.order sessionId (BTreeMap.mem_iff_getElem?.2 ⟨session', hsession'⟩) horder, ?_⟩
  rw [CollectsAll, hprogress, hinit]
  exact hall

omit [Build] in
/-- A session is started. -/
theorem newSigningSession (h : Collected deliveries p) {session : ActiveSignSession L}
    (hsession : CollectsAll ∅ session) :
    Collected (Function.update deliveries session.sessionId ∅) (p.newSigningSession session) := by
  rw [Persistent.newSigningSession]
  intro sessionId other hother
  dsimp only at hother
  rw [BTreeMap.getElem?_insert] at hother
  split at hother
  · rename_i hid
    subst hid
    obtain rfl := Option.some.inj hother
    rw [Function.update_self]
    exact ⟨List.mem_append_right _ List.mem_cons_self, hsession⟩
  · rename_i hid
    rw [Function.update_of_ne (Ne.symm hid)]
    obtain ⟨horder, hall⟩ := h sessionId other hother
    exact ⟨List.mem_append_left _ horder, hall⟩

omit [Build] in
/-- Shares are delivered. -/
theorem gotSignatureShares (h : Collected deliveries p) {sessionId : SignSessionId}
    {session : ActiveSignSession L} (hsession : p.activeSigningSessions[sessionId]? = some session)
    {sender : DeviceId} {index : ShareIndex} {shares : List SignatureShare}
    (hlength : shares.length = session.progress.length)
    (hcheck : checkShares index (session.progress.zip shares) = .ok ()) :
    Collected (deliveries.deliver sessionId sender index)
      (p.gotSignatureShares sessionId sender shares) := by
  rw [Persistent.gotSignatureShares, hsession, Deliveries.deliver]
  intro other session' hother
  obtain ⟨horder, hall⟩ := h sessionId session hsession
  dsimp only at hother
  rw [BTreeMap.getElem?_insert] at hother
  split at hother
  · rename_i hid
    subst hid
    obtain rfl := Option.some.inj hother
    rw [Function.update_self]
    exact ⟨horder, addShares_collects hall hlength hcheck⟩
  · rename_i hid
    rw [Function.update_of_ne (Ne.symm hid)]
    exact h other session' hother

end Persistent.Collected

namespace FrostCoordinator

variable {deliveries : Deliveries} {s : FrostCoordinator L}

/-- Mutations that do not sign. -/
theorem mutateAll_keepsSessions {ms : List (Mutation L)}
    (hms : ∀ m ∈ ms, ¬ m.Starts ∧ ¬ m.Delivers) :
    (s.mutateAll ms).Always fun t => s.toPersistent.KeepsSessions t.toPersistent :=
  (mutateAll_applies hms).mono fun _ h =>
    h.applied.keeps (R := Persistent.KeepsSessions) .refl .trans .change

/-- Completing a session does not sign. -/
theorem completeSignSession_keepsSessions (sessionId : SignSessionId) :
    (s.completeSignSession sessionId).Always fun r =>
      s.toPersistent.KeepsSessions r.2.toPersistent :=
  (completeSignSession_applies (Q := fun m => ¬ m.Starts ∧ ¬ m.Delivers) (fun _ _ => ⟨id, id⟩)
    sessionId).mono fun _ h => h.applied.keeps (R := Persistent.KeepsSessions) .refl .trans .change

/-- Shares that pass the checks are delivered. -/
theorem recvSignatureShare_collected (h : s.Collected deliveries) (sender : DeviceId)
    (sessionId : SignSessionId) (shares : List SignatureShare) (replenish : Option NonceSegment) :
    (s.recvSignatureShare sender sessionId shares replenish).Always fun r =>
      r.2.Collected ((s.accepts sender sessionId shares).elim deliveries
        (deliveries.deliver sessionId sender)) := by
  refine Exec.always_bind' fun checked hchecked => ?_
  cases checked with
  | error e =>
      rw [Persistent.accepts, hchecked]
      exact Exec.always_ret h
  | ok _ =>
      obtain ⟨session, index, hsession, haccepts, hlength, hcheck⟩ :=
        Persistent.accepts_of_check hchecked
      rw [haccepts]
      refine Exec.always_bind (P := fun r : _ × FrostCoordinator L =>
        r.2.Collected (deliveries.deliver sessionId sender index)) ?_ fun _ h => Exec.always_ret h
      refine Exec.always_bind' fun t ht => ?_
      obtain ⟨_, hgot⟩ := mutate_change ht
      have hdelivered : t.Collected (deliveries.deliver sessionId sender index) := by
        rw [← (Prod.mk.inj (Exec.ret.inj hgot)).2]
        exact h.gotSignatureShares hsession hlength hcheck
      refine Exec.always_bind (mutateAll_keepsSessions fun m hm => ?_) fun u hu => ?_
      · obtain ⟨segment, -, rfl⟩ := List.mem_map.1 hm
        exact ⟨id, id⟩
      · exact Exec.always_bind (completeSignSession_keepsSessions sessionId) fun _ hdone =>
          Exec.always_ret ((hdelivered.keeps hu).keeps hdone)

/-- **An operation** adds to what is delivered what its message has. -/
theorem perform_collected (h : s.Collected deliveries) (op : Op L) :
    (s.perform op).Always fun r => r.2.Collected (deliveries.after s op) := by
  by_cases hsigns : op.Starts ∨ op.Delivers
  · cases op with
    | startSign ref signTask signingDevices rng =>
        refine always_outcome (P := fun t => t.Collected _) ?_
        refine Exec.always_bind' fun started hstarted => ?_
        rw [Deliveries.after, hstarted]
        cases started with
        | error e => exact Exec.always_ret h
        | ok session =>
            refine Exec.always_bind (P := fun r : _ × FrostCoordinator L => r.2.Collected
              (Function.update deliveries session.sessionId ∅)) ?_ fun _ h => Exec.always_ret h
            refine Exec.always_bind' fun t ht => ?_
            obtain ⟨_, hnew⟩ := mutate_change ht
            refine Exec.always_ret ?_
            rw [← (Prod.mk.inj (Exec.ret.inj hnew)).2]
            exact h.newSigningSession (Persistent.signSession_collects hstarted)
    | recvDeviceMessage sender message =>
        match message, hsigns.resolve_left id with
        | .signing (.signatureShare sessionId shares replenish), _ =>
            refine always_outcome (P := fun t => t.Collected _) ?_
            exact recvSignatureShare_collected h sender sessionId shares replenish
    | _ => exact (hsigns.elim id id).elim
  · have hsame : deliveries.after s op = deliveries := by
      unfold Deliveries.after
      split
      · exact absurd (.inl trivial) hsigns
      · exact absurd (.inr trivial) hsigns
      · rfl
    rw [hsame]
    have hkeeps : (s.perform op).Always fun r =>
        s.toPersistent.KeepsSessions r.2.toPersistent :=
      perform_keeps (R := Persistent.KeepsSessions) .refl .trans
        fun hm hchange => .change ⟨fun hm' => hsigns (.inl (hm.starts hm')),
          fun hm' => hsigns (.inr (hm.delivers hm'))⟩ hchange
    exact hkeeps.mono fun _ hr => h.keeps hr

end FrostCoordinator

/-- **In every run**, an active session has a verified share of exactly the devices that have
delivered, for each of its signatures. -/
theorem Delivers.collects {deliveries : Deliveries} {s : FrostCoordinator L}
    (h : Delivers deliveries s) : s.Collected deliveries := by
  induction h with
  | new =>
      intro sessionId session hsession
      rw [FrostCoordinator.new, Persistent.empty, Std.ExtTreeMap.getElem?_empty] at hsession
      cases hsession
  | perform _ hop ih => exact FrostCoordinator.perform_collected ih _ _ hop
  | takeStagedMutations _ ih => exact ih

/-! ### The last share -/

omit [Build] in
/-- Every party has delivered. -/
def AllDelivered (received : BTreeMap DeviceId ShareIndex) (parties : BTreeSet ShareIndex) : Prop :=
  ∀ index ∈ parties, ∃ deviceId : DeviceId, received[deviceId]? = some index

namespace Persistent

omit [Build] in
theorem check_of_accepts {p : Persistent L} {sender : DeviceId} {sessionId : SignSessionId}
    {shares : List SignatureShare} {index : ShareIndex}
    (h : p.accepts sender sessionId shares = some index) :
    p.checkSignatureShares sender sessionId shares = .ret (.ok ()) := by
  unfold accepts at h
  split at h
  · rename_i u hcheck
    exact hcheck
  · cases h

omit [Build] in
/-- Shares that are added change the sessions only. -/
theorem gotSignatureShares_eq (p : Persistent L) (sessionId : SignSessionId) (deviceId : DeviceId)
    (shares : List SignatureShare) :
    p.gotSignatureShares sessionId deviceId shares =
      { p with
        activeSigningSessions :=
          (p.gotSignatureShares sessionId deviceId shares).activeSigningSessions } := by
  unfold gotSignatureShares
  split
  · rfl
  · rfl

omit [Build] in
/-- The loop that combines shares returns when what it asserts holds. -/
theorem combineShares_eq {progress : List (SignSessionProgress L)}
    (h : ∀ p ∈ progress, p.verifyFinalSignature
      (L.combineSignatureShares p.signSession p.signatureShares.values) = true) :
    combineShares progress = .ret (progress.map fun p =>
      L.combineSignatureShares p.signSession p.signatureShares.values) := by
  induction progress with
  | nil => rfl
  | cons first rest ih =>
      obtain ⟨hfirst, hrest⟩ := List.forall_mem_cons.1 h
      rw [combineShares, Exec.assert_of _ hfirst, Exec.ret_bind, ih hrest, Exec.ret_bind]
      rfl

omit [Build] in
/-- A session is finished exactly when every party has delivered. -/
theorem allFinished_iff (hlaws : Combines L) {received : BTreeMap DeviceId ShareIndex}
    (hdistinct : received.OneToOne) {session : ActiveSignSession L}
    (h : CollectsAll received session) (hitems : session.progress ≠ []) :
    allFinished session = true ↔ AllDelivered received session.init.groupRequest.parties := by
  rw [allFinished, List.all_eq_true]
  constructor
  · intro hall
    obtain ⟨progress, rest, hcons⟩ := List.exists_cons_of_ne_nil hitems
    have hmem : progress ∈ session.progress := by rw [hcons]; exact List.mem_cons_self
    exact ((h progress hmem).complete hlaws hdistinct).1.1 (beq_iff_eq.1 (hall progress hmem))
  · intro hcovers progress hmem
    exact beq_iff_eq.2 (((h progress hmem).complete hlaws hdistinct).1.2 hcovers)

omit [Build] in
/-- **When every party has delivered**, the shares combine into signatures that verify. -/
theorem combineShares_verifies (hlaws : Combines L) {received : BTreeMap DeviceId ShareIndex}
    (hdistinct : received.OneToOne) {session : ActiveSignSession L}
    (h : CollectsAll received session)
    (henough : ∀ progress ∈ session.progress,
      progress.appSharedKey.key.threshold ≤ session.init.groupRequest.parties.size)
    (hcovers : AllDelivered received session.init.groupRequest.parties) :
    ∃ signatures, combineShares session.progress = .ret signatures ∧
      List.Forall₂ (fun progress signature => progress.verifyFinalSignature signature = true)
        session.progress signatures := by
  have hverifies : ∀ progress ∈ session.progress, progress.verifyFinalSignature
      (L.combineSignatureShares progress.signSession progress.signatureShares.values) = true := by
    intro progress hmem
    obtain ⟨hsize, hverifies⟩ := (h progress hmem).complete hlaws hdistinct
    exact hverifies (hsize.2 hcovers) (henough progress hmem)
  refine ⟨_, combineShares_eq hverifies, ?_⟩
  rw [List.forall₂_map_right_iff, List.forall₂_same]
  exact hverifies

/-- The nonces that come with shares are added. -/
def replenish (p : Persistent L) (deviceId : DeviceId) :
    Option NonceSegment → Exec (Persistent L)
  | none => .ret p
  | some segment => do
      let (_, p) ← p.newNonces deviceId segment
      return p

/-- Adding nonces changes the cache only. -/
theorem replenish_eq {p p' : Persistent L} {deviceId : DeviceId} {segment : Option NonceSegment}
    (h : p.replenish deviceId segment = .ret p') : p' = { p with nonceCache := p'.nonceCache } := by
  cases segment with
  | none =>
      obtain rfl := Exec.ret.inj h
      rfl
  | some segment =>
      obtain ⟨⟨changed, q⟩, hnew, hret⟩ := Exec.bind_eq_ret_iff.1 h
      obtain rfl := Exec.ret.inj hret
      exact (change_newNonces hnew).1

/-- Adding nonces reads the cache only. -/
theorem replenish_of_nonceCache {p p' q : Persistent L} {deviceId : DeviceId}
    {segment : Option NonceSegment} (h : p.replenish deviceId segment = .ret p')
    (hcache : q.nonceCache = p.nonceCache) :
    ∃ q', q.replenish deviceId segment = .ret q' ∧ q'.nonceCache = p'.nonceCache := by
  cases segment with
  | none =>
      obtain rfl := Exec.ret.inj h
      exact ⟨q, rfl, hcache⟩
  | some segment =>
      obtain ⟨⟨changed, r⟩, hnew, hret⟩ := Exec.bind_eq_ret_iff.1 h
      obtain rfl := Exec.ret.inj hret
      obtain ⟨⟨extended, cache⟩, hextend, hrest⟩ := Exec.bind_eq_ret_iff.1 hnew
      rw [replenish, newNonces, hcache, hextend, Exec.ret_bind]
      cases extended with
      | ok changed' =>
          obtain ⟨-, rfl⟩ := Prod.mk.inj (Exec.ret.inj hrest)
          exact ⟨_, rfl, rfl⟩
      | error e =>
          obtain ⟨u, hfail, hrest⟩ := Exec.bind_eq_ret_iff.1 hrest
          obtain ⟨-, rfl⟩ := Prod.mk.inj (Exec.ret.inj hrest)
          refine ⟨{ q with nonceCache := cache }, ?_, rfl⟩
          dsimp only
          rw [fail, hfail]
          rfl

end Persistent

namespace FrostCoordinator

/-- What is done with shares that are accepted: they are added, and the session is completed. -/
theorem recvSignatureShare_eq {s : FrostCoordinator L} {sessionId : SignSessionId}
    {sender : DeviceId} {shares : List SignatureShare} {index : ShareIndex}
    (haccepts : s.accepts sender sessionId shares = some index) {replenish : Option NonceSegment}
    {r : Except Error (List (CoordinatorSend L)) × FrostCoordinator L}
    (h : s.recvSignatureShare sender sessionId shares replenish = .ret r) :
    ∃ (u : FrostCoordinator L) (completed : Option (List EncodedSignature)),
      (s.gotSignatureShares sessionId sender shares).SameSessions u.toPersistent ∧
      u.completeSignSession sessionId = .ret (completed, r.2) ∧
      r.1 = .ok (.toUser (.signing (.gotShare sessionId sender)) ::
        completed.toList.map fun signatures =>
          .toUser (.signing (.signed sessionId signatures))) := by
  rw [recvSignatureShare, checked, Persistent.check_of_accepts haccepts, Exec.ret_bind] at h
  obtain ⟨⟨sends, v⟩, hact, hret⟩ := Exec.bind_eq_ret_iff.1 h
  obtain ⟨t, hgot, hact⟩ := Exec.bind_eq_ret_iff.1 hact
  obtain ⟨u, hnonces, hact⟩ := Exec.bind_eq_ret_iff.1 hact
  obtain ⟨⟨completed, w⟩, hcomplete, hact⟩ := Exec.bind_eq_ret_iff.1 hact
  obtain ⟨rfl, rfl⟩ := Prod.mk.inj (Exec.ret.inj hact)
  obtain rfl := Exec.ret.inj hret
  refine ⟨u, completed, ?_, hcomplete, rfl⟩
  obtain ⟨_, hchange⟩ := mutate_change hgot
  rw [(Prod.mk.inj (Exec.ret.inj hchange)).2]
  have happlies : (t.mutateAll (replenish.toList.map fun segment =>
      .signing (.newNonces sender segment))).Always
        (Applies (fun m => ∃ segment, m = .signing (.newNonces sender segment)) t) :=
    mutateAll_applies fun m hm => by
      obtain ⟨segment, -, rfl⟩ := List.mem_map.1 hm
      exact ⟨segment, rfl⟩
  refine (happlies u hnonces).applied.keeps (R := Persistent.SameSessions)
    (fun _ => ⟨rfl, rfl, rfl⟩) (fun h h' => ⟨h'.order.trans h.order, h'.active.trans h.active,
      h'.finished.trans h.finished⟩) ?_
  rintro p p' m changed ⟨segment, rfl⟩ hchange
  rw [(Persistent.change_newNonces hchange).1]
  exact ⟨rfl, rfl, rfl⟩

/-- The nonces that come with shares are added by mutations. -/
theorem mutateAll_replenish {t : FrostCoordinator L} {sender : DeviceId}
    {segment : Option NonceSegment} {p : Persistent L} :
    t.toPersistent.replenish sender segment = .ret p ↔
      ∃ u, t.mutateAll (segment.toList.map fun segment => .signing (.newNonces sender segment)) =
        .ret u ∧ u.toPersistent = p := by
  cases segment with
  | none =>
      constructor
      · intro h
        exact ⟨t, rfl, Exec.ret.inj h⟩
      · rintro ⟨u, hu, rfl⟩
        rw [← Exec.ret.inj hu]
        rfl
  | some segment =>
      constructor
      · intro h
        obtain ⟨⟨changed, q⟩, hnew, hret⟩ := Exec.bind_eq_ret_iff.1 h
        obtain rfl := Exec.ret.inj hret
        obtain ⟨u, hu, hq⟩ := mutate_of_change (s := t)
          (m := .signing (.newNonces sender segment)) hnew
        refine ⟨u, ?_, hq⟩
        rw [Option.toList_some, List.map_singleton, mutateAll, hu]
        rfl
      · rintro ⟨u, hall, rfl⟩
        obtain ⟨u', hu, hrest⟩ := Exec.bind_eq_ret_iff.1 hall
        obtain rfl := Exec.ret.inj hrest
        obtain ⟨changed, hnew⟩ := mutate_change hu
        exact Exec.bind_eq_ret_iff.2 ⟨_, hnew, rfl⟩

/-- A session whose shares combine is completed, unless it is to be closed and cannot be. -/
theorem completeSignSession_returns_iff {u : FrostCoordinator L} {sessionId : SignSessionId}
    {session : ActiveSignSession L} (horder : sessionId ∈ u.activeSignSessionOrder)
    (hsession : u.activeSigningSessions[sessionId]? = some session)
    (hcombine : Persistent.allFinished session = true →
      (Persistent.combineShares session.progress).Returns) :
    (u.completeSignSession sessionId).Returns ↔
      (Persistent.allFinished session = true → Persistent.Consumable u.nonceCache session) := by
  rw [completeSignSession, hsession]
  dsimp only
  split
  · rename_i hall
    obtain ⟨signatures, hsignatures⟩ := hcombine hall
    rw [imp_iff_right hall, hsignatures, Exec.ret_bind, Exec.returns_bind,
      ← Persistent.closeSignSession_returns_iff horder hsession (some signatures)]
    constructor
    · rintro ⟨v, hv, -⟩
      obtain ⟨changed, hclose⟩ := mutate_change hv
      exact ⟨_, hclose⟩
    · rintro ⟨⟨changed, p⟩, hclose⟩
      obtain ⟨v, hv, -⟩ := mutate_of_change (s := u)
        (m := .signing (.closeSignSession sessionId (some signatures))) hclose
      exact ⟨v, hv, Exec.returns_ret _⟩
  · rename_i hall
    exact iff_of_true (Exec.returns_ret _) fun h => absurd h hall

/-- **Shares that are accepted are dealt with** exactly when the nonces that come with them can be
added and, if they finish the session, those of the session consumed. -/
theorem recvSignatureShare_returns_iff {s : FrostCoordinator L} {sessionId : SignSessionId}
    {sender : DeviceId} {shares : List SignatureShare} {index : ShareIndex}
    (haccepts : s.accepts sender sessionId shares = some index) {replenish : Option NonceSegment}
    {added : ActiveSignSession L}
    (horder : sessionId ∈ s.activeSignSessionOrder)
    (hadded : (s.gotSignatureShares sessionId sender shares).activeSigningSessions[sessionId]? =
      some added)
    (hcombine : Persistent.allFinished added = true →
      (Persistent.combineShares added.progress).Returns) :
    (s.recvSignatureShare sender sessionId shares replenish).Returns ↔
      ∃ p, s.toPersistent.replenish sender replenish = .ret p ∧
        (Persistent.allFinished added = true → Persistent.Consumable p.nonceCache added) := by
  have hgot : s.change s.keygenFingerprint
      (.signing (.gotSignatureSharesFromDevice sessionId sender shares)) =
        .ret (true, s.gotSignatureShares sessionId sender shares) := rfl
  obtain ⟨t, hmutate, ht⟩ := mutate_of_change hgot
  -- what is left to do once the nonces are added
  have hreturns {u : FrostCoordinator L}
      (hu : t.toPersistent.replenish sender replenish = .ret u.toPersistent) :
      (u.completeSignSession sessionId).Returns ↔
        (Persistent.allFinished added = true → Persistent.Consumable u.nonceCache added) := by
    have hsame := Persistent.replenish_eq hu
    refine completeSignSession_returns_iff ?_ ?_ hcombine
    · rw [hsame, ht, Persistent.gotSignatureShares_eq]
      exact horder
    · rw [hsame, ht]
      exact hadded
  have hcache : t.nonceCache = s.nonceCache := by
    rw [ht, Persistent.gotSignatureShares_eq]
  rw [recvSignatureShare, checked, Persistent.check_of_accepts haccepts, Exec.ret_bind]
  constructor
  · rintro ⟨r, hr⟩
    obtain ⟨⟨sends, v⟩, hact, -⟩ := Exec.bind_eq_ret_iff.1 hr
    obtain ⟨t', ht', hact⟩ := Exec.bind_eq_ret_iff.1 hact
    obtain rfl := Exec.ret.inj (hmutate.symm.trans ht')
    obtain ⟨u, hu, hact⟩ := Exec.bind_eq_ret_iff.1 hact
    obtain ⟨completed, hcomplete, -⟩ := Exec.bind_eq_ret_iff.1 hact
    have hreplenish := mutateAll_replenish.2 ⟨u, hu, rfl⟩
    obtain ⟨p, hp, hpcache⟩ := Persistent.replenish_of_nonceCache hreplenish hcache.symm
    refine ⟨p, hp, ?_⟩
    rw [hpcache]
    exact (hreturns hreplenish).1 ⟨_, hcomplete⟩
  · rintro ⟨p, hp, hconsumable⟩
    obtain ⟨q, hq, hqcache⟩ := Persistent.replenish_of_nonceCache hp hcache
    obtain ⟨u, hu, rfl⟩ := mutateAll_replenish.1 hq
    rw [← hqcache] at hconsumable
    obtain ⟨completed, hcomplete⟩ := (hreturns hq).2 hconsumable
    dsimp only
    rw [hmutate, Exec.ret_bind, hu, Exec.ret_bind, hcomplete]
    exact Exec.returns_ret _

end FrostCoordinator

/-- **A session collects the shares that are delivered, and is finished when every party has
delivered**, not before: once the last shares are accepted, they combine into signatures that
verify. This is when the devices that deliver have share indices of their own, the parties are
enough for the key, and there is something to sign. The call returns unless the nonces that come
with the shares cannot be added, or those of the finished session cannot be consumed. -/
theorem session_completes (hlaws : Combines L) {deliveries : Deliveries} {s : FrostCoordinator L}
    (h : Delivers deliveries s) {sessionId : SignSessionId} {session : ActiveSignSession L}
    (hsession : s.activeSigningSessions[sessionId]? = some session) :
    CollectsAll (deliveries sessionId) session ∧
    ∀ {sender : DeviceId} {shares : List SignatureShare} {index : ShareIndex},
      s.accepts sender sessionId shares = some index →
      session.progress ≠ [] →
      (∀ progress ∈ session.progress,
        progress.appSharedKey.key.threshold ≤ session.init.groupRequest.parties.size) →
      (deliveries.deliver sessionId sender index sessionId).OneToOne →
      ∀ replenish : Option NonceSegment,
      let received := deliveries.deliver sessionId sender index sessionId
      let progress := Persistent.addShares sender session.progress shares
      let parties := session.init.groupRequest.parties
      ((s.recvSignatureShare sender sessionId shares replenish).Returns ↔
        ∃ p, s.toPersistent.replenish sender replenish = .ret p ∧
          (AllDelivered received parties → Persistent.Consumable p.nonceCache session)) ∧
      (AllDelivered received parties → ∃ signatures,
        Persistent.combineShares progress = .ret signatures ∧
        List.Forall₂ (fun progress signature => progress.verifyFinalSignature signature = true)
          progress signatures ∧
        (s.recvSignatureShare sender sessionId shares replenish).Always fun r =>
          r.1 = .ok [.toUser (.signing (.gotShare sessionId sender)),
            .toUser (.signing (.signed sessionId signatures))] ∧
          sessionId ∉ r.2.activeSigningSessions ∧
          r.2.finishedSigningSessions[sessionId]? = some
            { init := session.init, signatures := signatures, keyId := session.keyId }) ∧
      (¬ AllDelivered received parties →
        (s.recvSignatureShare sender sessionId shares replenish).Always fun r =>
          r.1 = .ok [.toUser (.signing (.gotShare sessionId sender))] ∧
          r.2.activeSigningSessions[sessionId]? = some { session with progress := progress }) := by
  obtain ⟨horder, hcollects⟩ := h.collects sessionId session hsession
  refine ⟨hcollects, ?_⟩
  intro sender shares index haccepts hitems henough hdistinct replenish received progress parties
  obtain ⟨session', index', hsession', haccepts', hlength, hshares⟩ :=
    Persistent.accepts_of_check (Persistent.check_of_accepts haccepts)
  obtain rfl := Option.some.inj (hsession.symm.trans hsession')
  obtain rfl := Option.some.inj (haccepts.symm.trans haccepts')
  -- the session once the shares are added to it
  let added : ActiveSignSession L := { session with progress := progress }
  have hadded : (s.gotSignatureShares sessionId sender shares).activeSigningSessions[sessionId]? =
      some added := by
    rw [Persistent.gotSignatureShares, hsession]
    exact (BTreeMap.getElem?_insert _ _ _ _).trans (if_pos rfl)
  obtain ⟨horder', hall⟩ :=
    h.collects.gotSignatureShares hsession hlength hshares sessionId added hadded
  have happ := Persistent.map_addShares (f := SignSessionProgress.appSharedKey)
    (fun _ _ => rfl) sender session.progress shares
  have hitems' : added.progress ≠ [] := by
    intro hnil
    rw [show Persistent.addShares sender session.progress shares = [] from hnil] at happ
    exact hitems (List.map_eq_nil_iff.1 happ.symm)
  have henough' : ∀ p ∈ added.progress, p.appSharedKey.key.threshold ≤ parties.size := by
    intro p hmem
    have happ' := List.mem_map_of_mem (f := SignSessionProgress.appSharedKey) hmem
    rw [happ] at happ'
    obtain ⟨p', hmem', heq⟩ := List.mem_map.1 happ'
    rw [← heq]
    exact henough p' hmem'
  have hfinished : Persistent.allFinished added = true ↔ AllDelivered received parties :=
    Persistent.allFinished_iff hlaws hdistinct hall hitems'
  have hcombines (hcovers : AllDelivered received parties) :=
    Persistent.combineShares_verifies hlaws hdistinct hall henough' hcovers
  refine ⟨?_, ?_, ?_⟩
  · rw [← hfinished]
    refine FrostCoordinator.recvSignatureShare_returns_iff haccepts horder hadded fun hdone => ?_
    obtain ⟨signatures, hcombine, -⟩ := hcombines (hfinished.1 hdone)
    exact ⟨signatures, hcombine⟩
  · intro hcovers
    obtain ⟨signatures, hcombine, hverifies⟩ := hcombines hcovers
    refine ⟨signatures, hcombine, hverifies, fun r hr => ?_⟩
    obtain ⟨u, completed, hsame, hcomplete, hr⟩ :=
      FrostCoordinator.recvSignatureShare_eq haccepts hr
    rw [FrostCoordinator.completeSignSession, hsame.active, hadded] at hcomplete
    dsimp only at hcomplete
    rw [if_pos (hfinished.2 hcovers), hcombine, Exec.ret_bind] at hcomplete
    obtain ⟨v, hclose, hret⟩ := Exec.bind_eq_ret_iff.1 hcomplete
    obtain ⟨rfl, rfl⟩ := Prod.mk.inj (Exec.ret.inj hret)
    obtain ⟨_, hchange⟩ := FrostCoordinator.mutate_change hclose
    rw [← hsame.order] at horder'
    obtain ⟨hnot, -⟩ | ⟨-, -, closed, nonceCache, hclosed, -, hv⟩ :=
      Persistent.closeSignSession_eq hchange
    · exact absurd horder' hnot
    · rw [hsame.active, hadded] at hclosed
      obtain rfl := Option.some.inj hclosed
      refine ⟨hr, ?_, ?_⟩
      · rw [hv]
        exact fun hmem => (BTreeMap.mem_erase.1 hmem).1 rfl
      · rw [hv]
        exact (BTreeMap.getElem?_insert _ _ _ _).trans (if_pos rfl)
  · intro hcovers r hr
    obtain ⟨u, completed, hsame, hcomplete, hr⟩ :=
      FrostCoordinator.recvSignatureShare_eq haccepts hr
    rw [FrostCoordinator.completeSignSession, hsame.active, hadded] at hcomplete
    dsimp only at hcomplete
    rw [if_neg (fun hall => hcovers (hfinished.1 hall))] at hcomplete
    obtain ⟨rfl, hu⟩ := Prod.mk.inj (Exec.ret.inj hcomplete)
    rw [← hu, hsame.active]
    exact ⟨hr, hadded⟩

end

/-! ### A concrete run -/

section

attribute [local instance] Build.release

/-- The access structure of the key of two devices. -/
def twoOfTwoRef : AccessStructureRef where
  keyId := 243
  accessStructureId := 7177

/-- A nonce of a device. -/
def singleNonce (streamId : NonceStreamId) : NonceSegment where
  streamId := streamId
  nonces := [5]
  index := 0

/-- The devices generate their key and send nonces, a session with both is started, both are sent
its request, and the first of them delivers its share. -/
def twoOfTwoOps : List (Op plainLib) :=
  twoOfTwoKeygen ++
  [.finalizeKeygen 0 0 (0 : ℕ),
    .recvDeviceMessage 1 (.signing (.nonceResponse [singleNonce 1])),
    .recvDeviceMessage 2 (.signing (.nonceResponse [singleNonce 2])),
    .startSign twoOfTwoRef (1 : ℕ) (.ofList [1, 2] compare) fun _ => (0 : ℕ),
    .requestDeviceSign 7406 1 (0 : ℕ),
    .requestDeviceSign 7406 2 (0 : ℕ),
    .recvDeviceMessage 1 (.signing (.signatureShare 7406 [1] none))]

/-- One operation of a run. -/
def deliverAfter (run : Deliveries × FrostCoordinator plainLib) (op : Op plainLib) :
    Deliveries × FrostCoordinator plainLib :=
  match run.2.perform op with
  | .ret (_, s') => (run.1.after run.2 op, s')
  | .panic _ => run

theorem delivers_foldl (ops : List (Op plainLib)) {run : Deliveries × FrostCoordinator plainLib}
    (h : Delivers run.1 run.2) :
    Delivers (ops.foldl deliverAfter run).1 (ops.foldl deliverAfter run).2 := by
  induction ops generalizing run with
  | nil => exact h
  | cons op ops ih =>
      refine ih ?_
      unfold deliverAfter
      split
      · rename_i hop
        exact h.perform hop
      · exact h

/-- The run. -/
def twoOfTwoRun : Deliveries × FrostCoordinator plainLib :=
  twoOfTwoOps.foldl deliverAfter (fun _ => ∅, .new plainLib)

theorem combines_plainLib : Combines plainLib where
  parties key nonces item rng index := by
    show index ∈ (Std.ExtTreeSet.ofList nonces.keys compare) ↔ index ∈ nonces
    simp
  combined _ _ _ _ _ := fun _ _ _ _ => rfl

/-- The second device delivers its share, and the session is finished: the nonces of both devices
can be consumed. -/
theorem session_completes_of_twoOfTwo :
    ∃ session signatures s', twoOfTwoRun.2.activeSigningSessions[(7406 : SignSessionId)]? =
        some session ∧
      session.sentReqToDevice.toList = [1, 2] ∧
      Persistent.Consumable twoOfTwoRun.2.nonceCache session ∧
      twoOfTwoRun.2.recvSignatureShare 2 7406 [2] none =
        .ret (.ok [.toUser (.signing (.gotShare 7406 2)),
          .toUser (.signing (.signed 7406 signatures))], s') ∧
      (7406 : SignSessionId) ∉ s'.activeSigningSessions := by
  have hactive : twoOfTwoRun.2.activeSigningSessions[(7406 : SignSessionId)]?.any fun session =>
      decide (session.progress ≠ []) && session.init.groupRequest.parties.toList == [1, 2] &&
        session.sentReqToDevice.toList == [1, 2] && session.progress.all fun progress =>
          decide (progress.appSharedKey.key.threshold ≤
            session.init.groupRequest.parties.size) := by
    decide +kernel
  have haccepts : twoOfTwoRun.2.accepts 2 7406 [2] = some 2 := by decide +kernel
  have hreceived : twoOfTwoRun.1.deliver 7406 2 2 7406 =
      ((∅ : BTreeMap DeviceId ShareIndex).insert 1 1).insert 2 2 := by decide +kernel
  have hreturns : (twoOfTwoRun.2.recvSignatureShare 2 7406 [2] none >>= fun _ => Exec.ret ()) =
      Exec.ret () := by decide +kernel
  obtain ⟨session, hsession, hfields⟩ := (Option.any_eq_true _ _).1 hactive
  simp only [Bool.and_eq_true, decide_eq_true_eq, beq_iff_eq, List.all_eq_true] at hfields
  obtain ⟨⟨⟨hitems, hparties⟩, hsent⟩, henough⟩ := hfields
  have hdistinct : (twoOfTwoRun.1.deliver 7406 2 2 7406).OneToOne := by
    rw [hreceived]
    intro a b v ha hb
    rw [BTreeMap.getElem?_insert, BTreeMap.getElem?_insert] at ha hb
    grind
  have hcovers : AllDelivered (twoOfTwoRun.1.deliver 7406 2 2 7406)
      session.init.groupRequest.parties := by
    intro index hindex
    rw [← Std.ExtTreeSet.mem_toList, hparties] at hindex
    rw [hreceived]
    rcases List.mem_cons.1 hindex with rfl | hindex
    · exact ⟨1, by decide +kernel⟩
    · obtain rfl := List.mem_singleton.1 hindex
      exact ⟨2, by decide +kernel⟩
  have hrun : Delivers twoOfTwoRun.1 twoOfTwoRun.2 := delivers_foldl _ .new
  obtain ⟨⟨sends, s'⟩, hrecv, -⟩ := Exec.bind_eq_ret_iff.1 hreturns
  obtain ⟨hreturns_iff, hall, -⟩ := (session_completes combines_plainLib hrun hsession).2 haccepts
    hitems henough hdistinct none
  obtain ⟨p, hp, hconsumable⟩ := hreturns_iff.1 ⟨_, hrecv⟩
  obtain rfl := Exec.ret.inj hp
  obtain ⟨signatures, -, -, hdone⟩ := hall hcovers
  obtain ⟨rfl, hgone, -⟩ := hdone _ hrecv
  exact ⟨session, signatures, s', hsession, hsent, hconsumable hcovers, hrecv, hgone⟩

end

end Coordinator

end Frostsnap
