import Frostsnap.Coordinator.Roots
import Frostsnap.Coordinator.SigningCompletes

/-!
# What active sessions were started with

`start_sign` takes nonces for the devices that it is given, and joins them by share index for the
session of each sign item. What it has taken is not stored as such, so a run is kept with it here:
`Begins` is a run of the coordinator with the `Start` of each session, the nonces of each device
and the share indices that were recorded then.

## Main results

* `Begins.allBegun`: every active session is what `start_sign` builds from its `Start`, for the key
  and the access structure that the coordinator has for it.
* `GoesOn.progressed`: a session that goes on is for the same signatures.
-/

namespace Frostsnap

namespace Coordinator

variable {L : FrostLib}

/-- What a session is started with: the nonces of each device, and the share indices recorded. -/
structure Start where
  nonces : BTreeMap DeviceId (SigningReqSubSegment Binonce)
  indices : BTreeMap DeviceId ShareIndex

/-- A share index is recorded for a device. -/
def Persistent.Assigns (p : Persistent L) (ref : AccessStructureRef) (deviceId : DeviceId)
    (index : ShareIndex) : Prop :=
  ∃ a, p.getAccessStructure ref = some a ∧ a.deviceToShareIndex[deviceId]? = some index

/-- The nonces of a device are taken for a share index, and those of no other. -/
structure Start.Takes (start : Start) (deviceId : DeviceId) (index : ShareIndex)
    (subSegment : SigningReqSubSegment Binonce) : Prop where
  nonces : start.nonces[deviceId]? = some subSegment
  shareIndex : start.indices[deviceId]? = some index
  own : ∀ other ∈ start.nonces, start.indices[other]? = some index → other = deviceId

/-- The sessions for the sign items are made from the nonces of a start. -/
structure Start.Builds (start : Start) (session : ActiveSignSession L) : Prop where
  nonces : session.init.nonces = start.nonces.map fun _ subSegment => subSegment.coordNonceState
  aggNonces : session.init.groupRequest.aggNonces =
    session.progress.map fun progress => L.aggBinonce progress.signSession
  sessions : ∃ (byParty : BTreeMap ShareIndex NonceSegment) (rng : ℕ → L.Rng),
    Persistent.noncesByParty start.indices start.nonces.toList ∅ = .ret byParty ∧
    session.init.groupRequest.parties = .ofList byParty.keys compare ∧
    ∀ (i : ℕ) (progress : SignSessionProgress L), session.progress[i]? = some progress →
      ∃ nonces, Persistent.indexedNonces i byParty.toList ∅ = .ret nonces ∧
        progress.signSession = L.randomizedCoordinatorSignSession progress.tweakedFrostKey nonces
          progress.signItem (rng i)

/-- A session signs the items of its task, for a key and an access structure. -/
structure SignsFor (session : ActiveSignSession L) (key : CoordFrostKey)
    (a : CoordAccessStructure) : Prop where
  items : L.checkSignTask session.init.groupRequest.signTask key.completeKey.masterAppkey
    key.purpose = .ok (session.progress.map SignSessionProgress.signItem)
  app : ∀ progress ∈ session.progress, progress.appSharedKey = a.appSharedKey

/-! ### Sessions that make progress -/

/-- What the shares of a signature are for. -/
def bare (progress : SignSessionProgress L) : L.SignItem × L.SignSession × Xpub SharedKey :=
  (progress.signItem, progress.signSession, progress.appSharedKey)

/-- The same session: requests may have been sent for it, and shares received. -/
structure Progressed (session session' : ActiveSignSession L) : Prop where
  init : session'.init = session.init
  keyId : session'.keyId = session.keyId
  progress : session'.progress.map bare = session.progress.map bare

namespace Progressed

variable {session session' : ActiveSignSession L}

theorem map_eq (h : Progressed session session') {β : Type}
    (f : L.SignItem × L.SignSession × Xpub SharedKey → β) :
    session'.progress.map (fun progress => f (bare progress)) =
      session.progress.map fun progress => f (bare progress) := by
  have hmap := congrArg (List.map f) h.progress
  rw [List.map_map, List.map_map] at hmap
  exact hmap

theorem getElem? (h : Progressed session session') {i : ℕ} {progress' : SignSessionProgress L}
    (hget : session'.progress[i]? = some progress') :
    ∃ progress, session.progress[i]? = some progress ∧ bare progress = bare progress' := by
  have hbare := congrArg (fun l => l[i]?) h.progress
  rw [List.getElem?_map, List.getElem?_map, hget, Option.map_some] at hbare
  exact Option.map_eq_some_iff.1 hbare.symm

theorem builds (h : Progressed session session') {start : Start} (hstart : start.Builds session) :
    start.Builds session' where
  nonces := by rw [h.init]; exact hstart.nonces
  aggNonces := by
    rw [h.init, hstart.aggNonces]
    exact (h.map_eq fun entry => L.aggBinonce entry.2.1).symm
  sessions := by
    obtain ⟨byParty, rng, hparties, hkeys, hsessions⟩ := hstart.sessions
    rw [h.init]
    refine ⟨byParty, rng, hparties, hkeys, fun i progress' hget => ?_⟩
    obtain ⟨progress, hget, heq⟩ := h.getElem? hget
    obtain ⟨nonces, hnonces, hsession⟩ := hsessions i progress hget
    refine ⟨nonces, hnonces, ?_⟩
    simp only [bare, Prod.mk.injEq] at heq
    obtain ⟨hitem, hsign, happ⟩ := heq
    rw [← hsign, hsession, SignSessionProgress.tweakedFrostKey,
      SignSessionProgress.tweakedFrostKey, hitem, happ]

theorem signsFor (h : Progressed session session') {key : CoordFrostKey}
    {a : CoordAccessStructure} (hsigns : SignsFor session key a) : SignsFor session' key a where
  items := by
    rw [h.init, hsigns.items]
    exact congrArg Except.ok (h.map_eq Prod.fst).symm
  app progress' hmem := by
    obtain ⟨i, hget⟩ := List.mem_iff_getElem?.1 hmem
    obtain ⟨progress, hget, heq⟩ := h.getElem? hget
    simp only [bare, Prod.mk.injEq] at heq
    rw [← heq.2.2]
    exact hsigns.app progress (List.mem_of_getElem? hget)

end Progressed

/-- A session that is active has been, and for the same signatures. -/
def Persistent.Resumes (sessionId : SignSessionId) (p p' : Persistent L) : Prop :=
  ∀ session', p'.activeSigningSessions[sessionId]? = some session' →
    ∃ session, p.activeSigningSessions[sessionId]? = some session ∧ Progressed session session'

namespace Persistent.Resumes

variable {sessionId : SignSessionId} {p p' p'' : Persistent L}

theorem of_active (h : p'.activeSigningSessions[sessionId]? = p.activeSigningSessions[sessionId]?) :
    Resumes sessionId p p' := fun session' hsession' =>
  ⟨session', h ▸ hsession', rfl, rfl, rfl⟩

theorem trans (h : Resumes sessionId p p') (h' : Resumes sessionId p' p'') :
    Resumes sessionId p p'' := by
  intro session'' hsession''
  obtain ⟨session', hsession', hlater⟩ := h' session'' hsession''
  obtain ⟨session, hsession, hearlier⟩ := h session' hsession'
  exact ⟨session, hsession, hlater.init.trans hearlier.init, hlater.keyId.trans hearlier.keyId,
    hlater.progress.trans hearlier.progress⟩

/-- Shares are delivered, for this session or another. -/
theorem gotSignatureShares {delivered : SignSessionId} {sender : DeviceId}
    {shares : List SignatureShare} :
    Resumes sessionId p (p.gotSignatureShares delivered sender shares) := by
  rw [Persistent.gotSignatureShares]
  split
  · exact of_active rfl
  · rename_i session hsession
    intro session' hsession'
    dsimp only at hsession'
    rw [BTreeMap.getElem?_insert] at hsession'
    split at hsession'
    · rename_i hid
      subst hid
      obtain rfl := Option.some.inj hsession'
      exact ⟨session, hsession, rfl, rfl, map_addShares (f := bare) (fun _ _ => rfl) sender
        session.progress shares⟩
    · exact ⟨session', hsession', rfl, rfl, rfl⟩

theorem keepsSessions (h : p.KeepsSessions p') : Resumes sessionId p p' := by
  intro session' hsession'
  obtain ⟨session, hsession, hprogress, hinit, hkeyId⟩ := h.session sessionId session' hsession'
  exact ⟨session, hsession, hinit, hkeyId, by rw [hprogress]⟩

end Persistent.Resumes

namespace Persistent

/-! ### Nonces by share index -/

/-- Nonces are not taken for other share indices. -/
theorem getElem?_indexedNonces_of_not_mem {i : ℕ} {segments : List (ShareIndex × NonceSegment)}
    {nonces nonces' : BTreeMap ShareIndex Binonce}
    (h : indexedNonces i segments nonces = .ret nonces') {index : ShareIndex}
    (hindex : index ∉ segments.map Prod.fst) : nonces'[index]? = nonces[index]? := by
  induction segments generalizing nonces with
  | nil => rw [← Exec.ret.inj h]
  | cons segment rest ih =>
      obtain ⟨partyIndex, nonceSegment⟩ := segment
      obtain ⟨nonce, -, h⟩ := Exec.bind_eq_ret_iff.1 h
      rw [List.map_cons, List.mem_cons, not_or] at hindex
      rw [ih h hindex.2, BTreeMap.getElem?_insert, if_neg (Ne.symm hindex.1)]

/-- The nonce of a share index for a signature. -/
theorem getElem?_indexedNonces {i : ℕ} {segments : List (ShareIndex × NonceSegment)}
    {nonces nonces' : BTreeMap ShareIndex Binonce}
    (h : indexedNonces i segments nonces = .ret nonces') (hnodup : (segments.map Prod.fst).Nodup)
    {index : ShareIndex} {segment : NonceSegment} (hmem : (index, segment) ∈ segments) :
    ∃ nonce, segment.nonces[i]? = some nonce ∧ nonces'[index]? = some nonce := by
  induction segments generalizing nonces with
  | nil => cases hmem
  | cons first rest ih =>
      obtain ⟨partyIndex, nonceSegment⟩ := first
      obtain ⟨nonce, hnonce, hrest⟩ := Exec.bind_eq_ret_iff.1 h
      rw [Exec.expect_eq_ret_iff] at hnonce
      rw [List.map_cons, List.nodup_cons] at hnodup
      rcases List.mem_cons.1 hmem with heq | hmem
      · obtain ⟨rfl, rfl⟩ := Prod.mk.inj heq
        refine ⟨nonce, hnonce, ?_⟩
        rw [getElem?_indexedNonces_of_not_mem hrest hnodup.1, BTreeMap.getElem?_insert, if_pos rfl]
      · exact ih hrest hnodup.2 hmem

/-- Other devices do not give nonces for a share index. -/
theorem getElem?_noncesByParty_of_ne {indices : BTreeMap DeviceId ShareIndex}
    {segments : List (DeviceId × SigningReqSubSegment Binonce)}
    {byParty byParty' : BTreeMap ShareIndex NonceSegment}
    (h : noncesByParty indices segments byParty = .ret byParty') {index : ShareIndex}
    (hother : ∀ entry ∈ segments, indices[entry.1]? ≠ some index) :
    byParty'[index]? = byParty[index]? := by
  induction segments generalizing byParty with
  | nil => rw [← Exec.ret.inj h]
  | cons first rest ih =>
      obtain ⟨deviceId, subSegment⟩ := first
      obtain ⟨shareIndex, hindex, h⟩ := Exec.bind_eq_ret_iff.1 h
      rw [Exec.expect_eq_ret_iff] at hindex
      obtain ⟨hfirst, hrest⟩ := List.forall_mem_cons.1 hother
      have hne : shareIndex ≠ index := by
        rintro rfl
        exact hfirst hindex
      rw [ih h hrest, BTreeMap.getElem?_insert, if_neg hne]

/-- The nonces for the share index of a device that no other device of the session has. -/
theorem getElem?_noncesByParty {indices : BTreeMap DeviceId ShareIndex}
    {segments : List (DeviceId × SigningReqSubSegment Binonce)}
    {byParty byParty' : BTreeMap ShareIndex NonceSegment}
    (h : noncesByParty indices segments byParty = .ret byParty')
    (hnodup : (segments.map Prod.fst).Nodup) {deviceId : DeviceId} {index : ShareIndex}
    {subSegment : SigningReqSubSegment Binonce} (hmem : (deviceId, subSegment) ∈ segments)
    (hindex : indices[deviceId]? = some index)
    (hown : ∀ entry ∈ segments, indices[entry.1]? = some index → entry.1 = deviceId) :
    byParty'[index]? = some subSegment.segment := by
  induction segments generalizing byParty with
  | nil => cases hmem
  | cons first rest ih =>
      obtain ⟨other, otherSegment⟩ := first
      obtain ⟨shareIndex, hshareIndex, h⟩ := Exec.bind_eq_ret_iff.1 h
      rw [Exec.expect_eq_ret_iff] at hshareIndex
      rw [List.map_cons, List.nodup_cons] at hnodup
      obtain ⟨-, hrest⟩ := List.forall_mem_cons.1 hown
      rcases List.mem_cons.1 hmem with heq | hmem
      · obtain ⟨rfl, rfl⟩ := Prod.mk.inj heq
        obtain rfl := Option.some.inj (hindex.symm.trans hshareIndex)
        rw [getElem?_noncesByParty_of_ne h, BTreeMap.getElem?_insert, if_pos rfl]
        intro entry hentry hget
        exact hnodup.1 (List.mem_map.2 ⟨entry, hentry, hrest entry hentry hget⟩)
      · exact ih h hnodup.2 hmem hrest

/-! ### Starting a session -/

/-- The session of each sign item. -/
theorem newSessions_built {app : Xpub SharedKey} {byParty : BTreeMap ShareIndex NonceSegment}
    {rng : ℕ → L.Rng} {start : ℕ} {signItems : List L.SignItem}
    {sessions : List (SignSessionProgress L)}
    (h : newSessions app byParty rng start signItems = .ret sessions) :
    sessions.map SignSessionProgress.signItem = signItems ∧
      (∀ progress ∈ sessions, progress.appSharedKey = app) ∧
      ∀ (i : ℕ) (progress : SignSessionProgress L), sessions[i]? = some progress →
        ∃ nonces, indexedNonces (start + i) byParty.toList ∅ = .ret nonces ∧
          progress.signSession = L.randomizedCoordinatorSignSession progress.tweakedFrostKey nonces
            progress.signItem (rng (start + i)) := by
  induction signItems generalizing start sessions with
  | nil =>
      obtain rfl := Exec.ret.inj h
      simp
  | cons signItem rest ih =>
      obtain ⟨nonces, later, hnonces, hlater, rfl⟩ := newSessions_cons_eq_ret h
      obtain ⟨hitems, happ, hsessions⟩ := ih hlater
      refine ⟨?_, List.forall_mem_cons.2 ⟨rfl, happ⟩, fun i progress hget => ?_⟩
      · rw [List.map_cons, hitems]
        rfl
      · cases i with
        | zero =>
            obtain rfl := Option.some.inj hget
            exact ⟨nonces, hnonces, rfl⟩
        | succ i =>
            obtain ⟨nonces', hnonces', hsession⟩ := hsessions i progress hget
            rw [show start + (i + 1) = start + 1 + i by omega]
            exact ⟨nonces', hnonces', hsession⟩

/-- What `start_sign` takes for a session. -/
def startOf (p : Persistent L) (ref : AccessStructureRef) (signTask : L.SignTask)
    (signingDevices : BTreeSet DeviceId) : Start where
  nonces :=
    match p.keys[ref.keyId]? with
    | none => ∅
    | some key =>
        match L.checkSignTask signTask key.completeKey.masterAppkey key.purpose with
        | .error _ => ∅
        | .ok signItems =>
            match p.nonceCache.newSigningSession signingDevices signItems.length
                p.allUsedNonceStreams with
            | .error _ => ∅
            | .ok nonces => nonces
  indices := ((p.getAccessStructure ref).map CoordAccessStructure.deviceToShareIndex).getD ∅

/-- A session that is started is built from what is taken for it. -/
theorem signSession_built {p : Persistent L} {ref : AccessStructureRef} {signTask : L.SignTask}
    {signingDevices : BTreeSet DeviceId} {rng : ℕ → L.Rng} {session : ActiveSignSession L}
    (h : p.signSession ref signTask signingDevices rng = .ret (.ok session)) :
    (p.startOf ref signTask signingDevices).Builds session ∧
      ∃ key a, p.keys[session.keyId]? = some key ∧
        key.completeKey.accessStructures[session.accessStructureRef.accessStructureId]? = some a ∧
        SignsFor session key a := by
  obtain ⟨key, a, signItems, nonces, byParty, sessions, hkey, ha, -, hitems, hnonces, hparties,
    hsessions, rfl⟩ := signSession_eq_ret h
  obtain ⟨hsignItems, happ, hbuilt⟩ := newSessions_built hsessions
  have hstart : p.startOf ref signTask signingDevices =
      { nonces := nonces, indices := a.deviceToShareIndex } := by
    simp only [startOf, hkey, hitems, hnonces, getAccessStructure, Option.bind_some, ha,
      Option.map_some, Option.getD_some]
  rw [hstart]
  refine ⟨{ nonces := rfl, aggNonces := rfl, sessions := ?_ }, key, a, hkey, ha, ?_⟩
  · refine ⟨byParty, rng, hparties, rfl, fun i progress hget => ?_⟩
    have hprogress := hbuilt i progress hget
    rw [Nat.zero_add] at hprogress
    exact hprogress
  · exact { items := by rw [hsignItems]; exact hitems, app := happ }

/-! ### Keys that stay -/

/-- A key is still what it was for signing. -/
def StaysKey (p p' : Persistent L) (keyId : KeyId) : Prop :=
  ∀ key, p.keys[keyId]? = some key → ∃ key', p'.keys[keyId]? = some key' ∧
    key'.completeKey.masterAppkey = key.completeKey.masterAppkey ∧ key'.purpose = key.purpose ∧
    ∀ (id : AccessStructureId) (a : CoordAccessStructure),
      key.completeKey.accessStructures[id]? = some a →
        ∃ a', key'.completeKey.accessStructures[id]? = some a' ∧ a'.appSharedKey = a.appSharedKey

theorem StaysKey.of_keys {p p' : Persistent L} {keyId : KeyId}
    (h : p'.keys[keyId]? = p.keys[keyId]?) : StaysKey p p' keyId := fun key hkey =>
  ⟨key, h ▸ hkey, rfl, rfl, fun _ a ha => ⟨a, ha, rfl⟩⟩

/-- An access structure is added, or changed but for its polynomial. -/
theorem StaysKey.setAccessStructure {p : Persistent L} {key : CoordFrostKey} {keyId : KeyId}
    (hkey : p.keys[keyId]? = some key) {id : AccessStructureId} {a : CoordAccessStructure}
    (ha : ∀ old, key.completeKey.accessStructures[id]? = some old →
      a.appSharedKey = old.appSharedKey) (other : KeyId) :
    StaysKey p (p.setAccessStructure key keyId id a) other := by
  intro old hold
  by_cases hid : keyId = other
  · subst hid
    obtain rfl := Option.some.inj (hkey.symm.trans hold)
    refine ⟨_, (BTreeMap.getElem?_insert _ _ _ _).trans (if_pos rfl), rfl, rfl, ?_⟩
    intro id' a' ha'
    dsimp only
    rw [BTreeMap.getElem?_insert]
    split
    · rename_i heq
      subst heq
      exact ⟨a, rfl, ha a' ha'⟩
    · exact ⟨a', ha', rfl⟩
  · refine of_keys ?_ old hold
    exact (BTreeMap.getElem?_insert _ _ _ _).trans (if_neg hid)

variable [Build] {p p' : Persistent L}

/-- Every mutation of the keys but that which deletes one. -/
theorem StaysKey.keygen {fingerprint : Fingerprint} {m : KeyMutation} {changed : Bool}
    (hm : ∀ keyId, m ≠ .deleteKey keyId)
    (h : p.change fingerprint (.keygen m) = .ret (changed, p')) (keyId : KeyId) :
    StaysKey p p' keyId := by
  have hwith {ref : AccessStructureRef} {noAccessStructure noKey : String}
      {f : CoordAccessStructure → Bool × CoordAccessStructure}
      (hf : ∀ a, (f a).2.appSharedKey = a.appSharedKey)
      (h : p.withAccessStructure ref noAccessStructure noKey f = .ret (changed, p')) :
      StaysKey p p' keyId := by
    rw [withAccessStructure] at h
    split at h
    · rw [(fail_eq h).2]
      exact of_keys rfl
    · rename_i key hkey
      split at h
      · rw [(fail_eq h).2]
        exact of_keys rfl
      · rename_i a ha
        rw [← (Prod.mk.inj (Exec.ret.inj h)).2]
        refine setAccessStructure hkey (fun old hold => ?_) keyId
        rw [hf a, Option.some.inj (ha.symm.trans hold)]
  cases m with
  | deleteKey keyId' => exact absurd rfl (hm keyId')
  | newShare => exact hwith (fun _ => rfl) h
  | deleteShare => exact hwith (fun _ => rfl) h
  | newKey keyName purpose completeKey =>
      rw [← (Prod.mk.inj (Exec.ret.inj h)).2, ensureKey]
      split
      · exact of_keys rfl
      · rename_i hnew
        intro key hkey
        refine of_keys ?_ key hkey
        refine (BTreeMap.getElem?_insert _ _ _ _).trans (if_neg ?_)
        rintro rfl
        exact hnew (BTreeMap.mem_iff_getElem?.2 ⟨key, hkey⟩)
  | newAccessStructure sharedKey kind =>
      simp only [change, newAccessStructure] at h
      split at h
      · rw [(fail_eq h).2]
        exact of_keys rfl
      · rename_i key hkey
        split at h
        · rw [← (Prod.mk.inj (Exec.ret.inj h)).2]
          exact of_keys rfl
        · rename_i hnew
          rw [← (Prod.mk.inj (Exec.ret.inj h)).2]
          refine setAccessStructure hkey (fun old hold => ?_) keyId
          exact absurd (BTreeMap.mem_iff_getElem?.2 ⟨old, hold⟩) hnew

/-! ### Sessions and their starts -/

/-- Sessions that are closed are gone. -/
theorem not_mem_of_closeSignSessions {ids : List SignSessionId}
    (horder : ∀ sessionId ∈ p.activeSigningSessions, sessionId ∈ p.activeSignSessionOrder)
    (h : closeSignSessions ids p = .ret p') :
    ∀ sessionId ∈ ids, sessionId ∉ p'.activeSigningSessions := by
  induction ids generalizing p with
  | nil => exact fun sessionId hmem => absurd hmem List.not_mem_nil
  | cons first rest ih =>
      obtain ⟨⟨changed, q⟩, hclose, hrest⟩ := Exec.bind_eq_ret_iff.1 h
      have hkeeps := KeepsSessions.closeSignSession hclose
      have hfirst : first ∉ q.activeSigningSessions := by
        obtain ⟨hnot, -, rfl⟩ | ⟨-, -, session, nonceCache, -, -, rfl⟩ :=
          closeSignSession_eq hclose
        · exact fun hmem => hnot (horder first hmem)
        · exact fun hmem => (BTreeMap.mem_erase.1 hmem).1 rfl
      refine List.forall_mem_cons.2 ⟨?_, ih (fun sessionId hmem => ?_) hrest⟩
      · exact fun hmem => hfirst ((KeepsSessions.closeSignSessions hrest).mem hmem)
      · exact hkeeps.order sessionId hmem (horder sessionId (hkeeps.mem hmem))

end Persistent

/-- The start of each session. -/
abbrev Starts := SignSessionId → Start

/-- The starts after an operation. -/
def Starts.after (starts : Starts) (s : FrostCoordinator L) : Op L → Starts
  | .startSign ref signTask signingDevices rng =>
      match s.signSession ref signTask signingDevices rng with
      | .ret (.ok session) =>
          Function.update starts session.sessionId (s.startOf ref signTask signingDevices)
      | _ => starts
  | _ => starts

/-- What an active session is, with what it was started with. -/
structure Persistent.Begun (starts : Starts) (p : Persistent L) (sessionId : SignSessionId)
    (session : ActiveSignSession L) : Prop where
  order : sessionId ∈ p.activeSignSessionOrder
  id : session.sessionId = sessionId
  builds : (starts sessionId).Builds session
  signs : ∃ key a, p.keys[session.keyId]? = some key ∧
    key.completeKey.accessStructures[session.accessStructureRef.accessStructureId]? = some a ∧
    SignsFor session key a

/-- Every active session is built from its start. -/
def Persistent.AllBegun (starts : Starts) (p : Persistent L) : Prop :=
  ∀ (sessionId : SignSessionId) (session : ActiveSignSession L),
    p.activeSigningSessions[sessionId]? = some session → p.Begun starts sessionId session

namespace Persistent.AllBegun

variable {starts : Starts} {p p' : Persistent L}

/-- A session that goes on, for a key that stays. -/
theorem progressed {sessionId : SignSessionId} {session session' : ActiveSignSession L}
    (h : p.Begun starts sessionId session) (hsession : Progressed session session')
    (horder : sessionId ∈ p'.activeSignSessionOrder) (hkey : StaysKey p p' session.keyId) :
    p'.Begun starts sessionId session' where
  order := horder
  id := by rw [← h.id, ActiveSignSession.sessionId, hsession.init]; rfl
  builds := hsession.builds h.builds
  signs := by
    obtain ⟨key, a, hget, ha, hsigns⟩ := h.signs
    obtain ⟨key', hget', hmaster, hpurpose, hstructures⟩ := hkey key hget
    obtain ⟨a', ha', happ⟩ := hstructures _ a ha
    have hsigns' := hsession.signsFor hsigns
    refine ⟨key', a', by rw [hsession.keyId]; exact hget', ?_, ?_⟩
    · rw [ActiveSignSession.accessStructureRef, hsession.init]
      exact ha'
    · exact
        { items := by rw [hmaster, hpurpose]; exact hsigns'.items
          app := fun progress hmem => by rw [happ]; exact hsigns'.app progress hmem }

theorem keeps (h : p.AllBegun starts) (hkeeps : p.KeepsSessions p')
    (hkeys : ∀ (sessionId : SignSessionId) (session : ActiveSignSession L),
      p.activeSigningSessions[sessionId]? = some session →
      sessionId ∈ p'.activeSigningSessions → StaysKey p p' session.keyId) :
    p'.AllBegun starts := by
  intro sessionId session' hsession'
  obtain ⟨session, hsession, hprogressed⟩ := Resumes.keepsSessions hkeeps session' hsession'
  have hbegun := h sessionId session hsession
  have hmem := BTreeMap.mem_iff_getElem?.2 ⟨session', hsession'⟩
  exact progressed hbegun hprogressed (hkeeps.order sessionId hmem hbegun.order)
    (hkeys sessionId session hsession hmem)

/-- Shares are delivered. -/
theorem gotSignatureShares (h : p.AllBegun starts) (sessionId : SignSessionId) (sender : DeviceId)
    (shares : List SignatureShare) :
    (p.gotSignatureShares sessionId sender shares).AllBegun starts := by
  obtain ⟨horder, hkeys⟩ : (p.gotSignatureShares sessionId sender shares).activeSignSessionOrder =
      p.activeSignSessionOrder ∧ (p.gotSignatureShares sessionId sender shares).keys = p.keys := by
    rw [Persistent.gotSignatureShares]
    split <;> exact ⟨rfl, rfl⟩
  intro other session' hother
  obtain ⟨session, hsession, hprogressed⟩ := Resumes.gotSignatureShares session' hother
  have hbegun := h other session hsession
  refine progressed hbegun hprogressed ?_ (.of_keys (by rw [hkeys]))
  rw [horder]
  exact hbegun.order

/-- A key is deleted with its sessions. -/
theorem deleteKey [Build] (h : p.AllBegun starts) {keyId : KeyId} {changed : Bool}
    (hdelete : p.deleteKey keyId = .ret (changed, p')) : p'.AllBegun starts := by
  rw [Persistent.deleteKey] at hdelete
  split at hdelete
  · obtain ⟨q, hclose, hret⟩ := Exec.bind_eq_ret_iff.1 hdelete
    obtain ⟨-, rfl⟩ := Prod.mk.inj (Exec.ret.inj hret)
    have hgone := not_mem_of_closeSignSessions (fun sessionId hmem => by
      obtain ⟨session, hsession⟩ := BTreeMap.mem_iff_getElem?.1 hmem
      exact (h sessionId session hsession).order) hclose
    refine h.keeps (KeepsSessions.trans ?_ (KeepsSessions.closeSignSessions hclose))
      fun sessionId session hsession hmem => .of_keys ?_
    · exact .of_same ⟨rfl, rfl, rfl⟩
    · have hne : keyId ≠ session.keyId := by
        rintro rfl
        exact hgone sessionId (mem_sessionsOfKey.2 ⟨session, hsession, rfl⟩) hmem
      rw [KeepsRoots.closeSignSessions hclose]
      exact (BTreeMap.getElem?_erase _ _ _).trans (if_neg hne)
  · rw [← (Prod.mk.inj (Exec.ret.inj hdelete)).2]
    exact h

/-- Every mutation that starts no session. -/
theorem change [Build] (h : p.AllBegun starts) {fingerprint : Fingerprint} {m : Mutation L}
    {changed : Bool} (hm : ¬ m.Starts)
    (hchange : p.change fingerprint m = .ret (changed, p')) : p'.AllBegun starts := by
  cases m with
  | keygen m =>
      by_cases hdelete : ∃ keyId, m = .deleteKey keyId
      · obtain ⟨keyId, rfl⟩ := hdelete
        exact h.deleteKey hchange
      · exact h.keeps (KeepsSessions.change ⟨id, id⟩ hchange) fun _ session _ _ =>
          .keygen (fun keyId heq => hdelete ⟨keyId, heq⟩) hchange session.keyId
  | signing m =>
      by_cases hdelivers : (Mutation.signing m).Delivers
      · cases m with
        | gotSignatureSharesFromDevice sessionId sender shares =>
            rw [← (Prod.mk.inj (Exec.ret.inj hchange)).2]
            exact h.gotSignatureShares sessionId sender shares
        | _ => exact hdelivers.elim
      · exact h.keeps (KeepsSessions.change ⟨hm, hdelivers⟩ hchange) fun _ _ _ _ =>
          .of_keys (by rw [KeepsRoots.signing hchange])
  | restoration m =>
      exact h.keeps (KeepsSessions.change ⟨id, id⟩ hchange) fun _ _ _ _ =>
        .of_keys (by rw [change_restoration hchange])

/-- A session is started. -/
theorem newSigningSession (h : p.AllBegun starts) {session : ActiveSignSession L} {start : Start}
    (hbuilds : start.Builds session) {key : CoordFrostKey} {a : CoordAccessStructure}
    (hkey : p.keys[session.keyId]? = some key)
    (ha : key.completeKey.accessStructures[session.accessStructureRef.accessStructureId]? = some a)
    (hsigns : SignsFor session key a) :
    (p.newSigningSession session).AllBegun (Function.update starts session.sessionId start) := by
  rw [Persistent.newSigningSession]
  intro sessionId other hother
  dsimp only at hother
  rw [BTreeMap.getElem?_insert] at hother
  split at hother
  · rename_i hid
    subst hid
    obtain rfl := Option.some.inj hother
    exact
      { order := List.mem_append_right _ List.mem_cons_self
        id := rfl
        builds := by rw [Function.update_self]; exact hbuilds
        signs := ⟨key, a, hkey, ha, hsigns⟩ }
  · rename_i hid
    have hbegun := h sessionId other hother
    exact
      { order := List.mem_append_left _ hbegun.order
        id := hbegun.id
        builds := by rw [Function.update_of_ne (Ne.symm hid)]; exact hbegun.builds
        signs := hbegun.signs }

end Persistent.AllBegun

/-! ### Runs -/

section

variable [Build]

/-- A run, with the start of each session. -/
inductive Begins : Starts → FrostCoordinator L → Prop where
  | new (starts : Starts) : Begins starts (.new L)
  | perform {starts : Starts} {s s' : FrostCoordinator L} {op : Op L} {failed : Bool}
      (h : Begins starts s) (hop : s.perform op = .ret (failed, s')) :
      Begins (starts.after s op) s'
  | takeStagedMutations {starts : Starts} {s : FrostCoordinator L} (h : Begins starts s) :
      Begins starts { s with mutations := [] }

/-- **An operation** starts a session from what it takes, and keeps the others. -/
theorem FrostCoordinator.perform_allBegun {starts : Starts} {s : FrostCoordinator L}
    (h : s.AllBegun starts) (op : Op L) :
    (s.perform op).Always fun r => r.2.AllBegun (starts.after s op) := by
  by_cases hop : op.Starts
  · cases op with
    | startSign ref signTask signingDevices rng =>
        refine always_outcome (P := fun t => t.AllBegun _) ?_
        refine Exec.always_bind' fun started hstarted => ?_
        rw [Starts.after, hstarted]
        cases started with
        | error e => exact Exec.always_ret h
        | ok session =>
            refine Exec.always_bind (P := fun r : _ × FrostCoordinator L => r.2.AllBegun
              (Function.update starts session.sessionId (s.startOf ref signTask signingDevices)))
              ?_ fun _ h => Exec.always_ret h
            refine Exec.always_bind' fun t ht => ?_
            obtain ⟨_, hnew⟩ := mutate_change ht
            refine Exec.always_ret ?_
            rw [← (Prod.mk.inj (Exec.ret.inj hnew)).2]
            obtain ⟨hbuilds, key, a, hkey, ha, hsigns⟩ := Persistent.signSession_built hstarted
            exact h.newSigningSession hbuilds hkey ha hsigns
    | _ => exact hop.elim
  · have hsame : starts.after s op = starts := by
      unfold Starts.after
      split
      · exact absurd trivial hop
      · rfl
    rw [hsame]
    have hkeeps : (s.perform op).Always fun r =>
        s.toPersistent.AllBegun starts → r.2.toPersistent.AllBegun starts :=
      perform_keeps (R := fun p p' => p.AllBegun starts → p'.AllBegun starts) (fun _ => id)
        (fun hpq hqr h => hqr (hpq h))
        fun hm hchange h => h.change (fun hm' => hop (hm.starts hm')) hchange
    exact hkeeps.mono fun _ hr => hr h

/-- **In every run**, every active session is what `start_sign` builds from its start. -/
theorem Begins.allBegun {starts : Starts} {s : FrostCoordinator L} (h : Begins starts s) :
    s.AllBegun starts := by
  induction h with
  | new =>
      intro sessionId session hsession
      rw [FrostCoordinator.new, Persistent.empty, Std.ExtTreeMap.getElem?_empty] at hsession
      cases hsession
  | perform _ hop ih => exact FrostCoordinator.perform_allBegun ih _ _ hop
  | takeStagedMutations _ ih => exact ih

/-! ### While a session goes on -/

omit [Build] in
/-- The operation starts a session. -/
def Op.StartsSession (op : Op L) (s : FrostCoordinator L) (sessionId : SignSessionId) : Prop :=
  ∃ (ref : AccessStructureRef) (signTask : L.SignTask) (signingDevices : BTreeSet DeviceId)
    (rng : ℕ → L.Rng) (session : ActiveSignSession L),
    op = .startSign ref signTask signingDevices rng ∧
      s.signSession ref signTask signingDevices rng = .ret (.ok session) ∧
      session.sessionId = sessionId

/-- Anything happens but that a session is started again. -/
inductive GoesOn (sessionId : SignSessionId) (s : FrostCoordinator L) :
    FrostCoordinator L → Prop where
  | here : GoesOn sessionId s s
  | perform {t t' : FrostCoordinator L} {op : Op L} {failed : Bool} (h : GoesOn sessionId s t)
      (hstarts : ¬ op.StartsSession t sessionId) (hop : t.perform op = .ret (failed, t')) :
      GoesOn sessionId s t'
  | takeStagedMutations {t : FrostCoordinator L} (h : GoesOn sessionId s t) :
      GoesOn sessionId s { t with mutations := [] }

namespace Persistent.Resumes

variable {sessionId : SignSessionId} {p p' : Persistent L}

/-- Every mutation that starts no session. -/
theorem change {fingerprint : Fingerprint} {m : Mutation L} {changed : Bool} (hm : ¬ m.Starts)
    (h : p.change fingerprint m = .ret (changed, p')) : Resumes sessionId p p' := by
  by_cases hdelivers : m.Delivers
  · obtain ⟨delivered, sender, shares, rfl⟩ : ∃ delivered sender shares,
        m = .signing (.gotSignatureSharesFromDevice delivered sender shares) := by
      cases m with
      | signing m =>
          cases m with
          | gotSignatureSharesFromDevice delivered sender shares => exact ⟨_, _, _, rfl⟩
          | _ => exact hdelivers.elim
      | _ => exact hdelivers.elim
    rw [← (Prod.mk.inj (Exec.ret.inj h)).2]
    exact .gotSignatureShares
  · exact .keepsSessions (KeepsSessions.change ⟨hm, hdelivers⟩ h)

end Persistent.Resumes

/-- **An operation** that does not start a session lets it go on. -/
theorem FrostCoordinator.perform_resumes {s : FrostCoordinator L} {op : Op L}
    {sessionId : SignSessionId} (hop : ¬ op.StartsSession s sessionId) :
    (s.perform op).Always fun r => s.toPersistent.Resumes sessionId r.2.toPersistent := by
  by_cases hstarts : op.Starts
  · cases op with
    | startSign ref signTask signingDevices rng =>
        refine always_outcome (P := fun t => s.toPersistent.Resumes sessionId t.toPersistent) ?_
        refine Exec.always_bind' fun started hstarted => ?_
        cases started with
        | error e => exact Exec.always_ret (.of_active rfl)
        | ok session =>
            refine Exec.always_bind (P := fun r : _ × FrostCoordinator L =>
              s.toPersistent.Resumes sessionId r.2.toPersistent) ?_ fun _ h => Exec.always_ret h
            refine Exec.always_bind' fun t ht => ?_
            obtain ⟨_, hnew⟩ := mutate_change ht
            refine Exec.always_ret (.of_active ?_)
            dsimp only
            rw [← (Prod.mk.inj (Exec.ret.inj hnew)).2]
            refine (BTreeMap.getElem?_insert _ _ _ _).trans (if_neg ?_)
            exact fun hid => hop ⟨ref, signTask, signingDevices, rng, session, rfl, hstarted, hid⟩
    | _ => exact hstarts.elim
  · exact perform_keeps (R := Persistent.Resumes sessionId) (fun _ => .of_active rfl) .trans
      fun hm hchange => .change (fun hm' => hstarts (hm.starts hm')) hchange

/-- **A session that goes on** is for the same signatures. -/
theorem GoesOn.progressed {sessionId : SignSessionId} {s t : FrostCoordinator L}
    (h : GoesOn sessionId s t) {session session' : ActiveSignSession L}
    (hsession : s.activeSigningSessions[sessionId]? = some session)
    (hsession' : t.activeSigningSessions[sessionId]? = some session') :
    Progressed session session' := by
  have hresumes : s.toPersistent.Resumes sessionId t.toPersistent := by
    clear hsession'
    induction h with
    | here => exact .of_active rfl
    | perform _ hstarts hop ih => exact ih.trans (FrostCoordinator.perform_resumes hstarts _ hop)
    | takeStagedMutations _ ih => exact ih
  obtain ⟨first, hfirst, hprogressed⟩ := hresumes session' hsession'
  obtain rfl := Option.some.inj (hsession.symm.trans hfirst)
  exact hprogressed

end

end Coordinator

end Frostsnap
