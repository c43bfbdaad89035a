import Frostsnap.Coordinator.PlainLib
import Frostsnap.Coordinator.Steps

/-!
# Signing sessions of the coordinator

What holds of the active signing sessions in every state that a coordinator can reach: the order
lists exactly them, no two of them use one nonce stream, and their access structures are there.
From it follows what the coordinator asks devices to sign with: as long as no device sends nonces
that the coordinator has dropped already, no nonce is in the requests of two sessions.

The coordinator takes nonces back by design. The nonces of a session that is cancelled are dropped
from the cache when its request was sent; when the device has not signed, its next segment starts
with them again. It is the device that makes sure that no nonce is used twice.

## Main results

* `sessions_sound`: the invariant, and which requests can share a nonce.
-/

namespace Frostsnap.Coordinator

variable {L : FrostLib}

/-! ### Closing sessions -/

namespace Persistent

variable [Build]

/-- Consuming the nonces of a session leaves the cache past those that the devices which were
asked have seen. -/
theorem consumeNonces_grows {sentReqToDevice : BTreeSet DeviceId} {nSigs : ℕ}
    {nonces : List (DeviceId × CoordNonceStreamState)} {cache cache' : NonceCache}
    (h : consumeNonces sentReqToDevice nSigs nonces cache = .ret cache')
    (hnamed : cache.WellNamed) :
    cache'.WellNamed ∧ cache.Grows cache' ∧
      ∀ entry ∈ nonces, entry.1 ∈ sentReqToDevice → cache.IsPast entry.1 entry.2.streamId 0 →
        cache'.IsPast entry.1 entry.2.streamId (entry.2.index + asU32 nSigs) := by
  induction nonces generalizing cache with
  | nil =>
      obtain rfl : cache = cache' := by simpa [consumeNonces] using h
      exact ⟨hnamed, fun _ _ _ => id, fun _ hmem => absurd hmem List.not_mem_nil⟩
  | cons first rest ih =>
      obtain ⟨deviceId, state⟩ := first
      unfold consumeNonces at h
      split at h
      · obtain ⟨-, -, h⟩ := Exec.bind_eq_ret_iff.1 h
        obtain ⟨⟨mid, changed⟩, hconsume, h⟩ := Exec.bind_eq_ret_iff.1 h
        obtain ⟨hmidNamed, hgrows, hpast⟩ := NonceCache.consume_grows hconsume hnamed
        obtain ⟨hnamed', hgrows', hpast'⟩ := ih h hmidNamed
        refine ⟨hnamed', hgrows.trans hgrows', fun entry hmem hsent hknown => ?_⟩
        obtain rfl | hmem := List.mem_cons.1 hmem
        · exact hgrows' _ _ _ (hpast hknown)
        · exact hpast' entry hmem hsent (hgrows _ _ _ hknown)
      · rename_i hunsent
        obtain ⟨hnamed', hgrows', hpast'⟩ := ih h hnamed
        refine ⟨hnamed', hgrows', fun entry hmem hsent hknown => ?_⟩
        obtain rfl | hmem := List.mem_cons.1 hmem
        · exact absurd (Std.ExtTreeSet.mem_iff_contains.1 hsent) hunsent
        · exact hpast' entry hmem hsent hknown

/-- Without requests nothing is consumed. -/
theorem consumeNonces_empty (nSigs : ℕ) (nonces : List (DeviceId × CoordNonceStreamState))
    (cache : NonceCache) : consumeNonces ∅ nSigs nonces cache = .ret cache := by
  induction nonces with
  | nil => rfl
  | cons first rest ih =>
      rw [consumeNonces, if_neg (by simp), ih]

/-- A session is closed, or it is not active. -/
theorem closeSignSession_eq {p p' : Persistent L} {sessionId : SignSessionId}
    {finished : Option (List EncodedSignature)} {changed : Bool}
    (h : p.closeSignSession sessionId finished = .ret (changed, p')) :
    (sessionId ∉ p.activeSignSessionOrder ∧ changed = false ∧ p' = p) ∨
      sessionId ∈ p.activeSignSessionOrder ∧ changed = true ∧
        ∃ session nonceCache, p.activeSigningSessions[sessionId]? = some session ∧
          consumeNonces session.sentReqToDevice session.init.groupRequest.nSignatures
            session.init.nonces.toList p.nonceCache = .ret nonceCache ∧
          p' = { p with
            activeSignSessionOrder := p.activeSignSessionOrder.erase sessionId
            activeSigningSessions := p.activeSigningSessions.erase sessionId
            nonceCache := nonceCache
            finishedSigningSessions := finished.elim p.finishedSigningSessions fun signatures =>
              p.finishedSigningSessions.insert sessionId
                { init := session.init, signatures := signatures, keyId := session.keyId } } := by
  unfold closeSignSession at h
  split at h
  · rename_i hmem
    obtain ⟨session, hsession, h⟩ := Exec.bind_eq_ret_iff.1 h
    obtain ⟨nonceCache, hcache, hret⟩ := Exec.bind_eq_ret_iff.1 h
    rw [Exec.expect_eq_ret_iff] at hsession
    obtain ⟨rfl, rfl⟩ := Prod.mk.inj (Exec.ret.inj hret)
    exact .inr ⟨hmem, rfl, session, nonceCache, hsession, hcache, rfl⟩
  · rename_i hmem
    obtain ⟨rfl, rfl⟩ := Prod.mk.inj (Exec.ret.inj h)
    exact .inl ⟨hmem, rfl, rfl⟩

/-- The nonces of the devices that were sent their request can be consumed. -/
def Consumable (cache : NonceCache) (session : ActiveSignSession L) : Prop :=
  ∀ (deviceId : DeviceId) (nonces : CoordNonceStreamState),
    session.init.nonces[deviceId]? = some nonces → deviceId ∈ session.sentReqToDevice →
    nonces.index + asU32 session.init.groupRequest.nSignatures ≤ u32Max ∧
      cache.ConsumableTo deviceId nonces.streamId
        (nonces.index + asU32 session.init.groupRequest.nSignatures)

/-- The loop that consumes nonces returns when those of each device can be consumed. -/
theorem consumeNonces_returns_iff {sentReqToDevice : BTreeSet DeviceId} {nSigs : ℕ}
    {nonces : List (DeviceId × CoordNonceStreamState)} (hdistinct : (nonces.map Prod.fst).Nodup)
    (cache : NonceCache) :
    (consumeNonces sentReqToDevice nSigs nonces cache).Returns ↔
      ∀ entry ∈ nonces, entry.1 ∈ sentReqToDevice → entry.2.index + asU32 nSigs ≤ u32Max ∧
        cache.ConsumableTo entry.1 entry.2.streamId (entry.2.index + asU32 nSigs) := by
  induction nonces generalizing cache with
  | nil => exact iff_of_true (Exec.returns_ret _) fun _ h => absurd h List.not_mem_nil
  | cons first rest ih =>
      obtain ⟨deviceId, nonceSegment⟩ := first
      rw [List.map_cons, List.nodup_cons] at hdistinct
      rw [consumeNonces, List.forall_mem_cons]
      by_cases hsent : deviceId ∈ sentReqToDevice
      · have hothers {cache' : NonceCache} {changed : Bool}
            (h : cache.consume deviceId nonceSegment.streamId (nonceSegment.index + asU32 nSigs) =
              .ret (cache', changed)) :
            (consumeNonces sentReqToDevice nSigs rest cache').Returns ↔
              ∀ entry ∈ rest, entry.1 ∈ sentReqToDevice →
                entry.2.index + asU32 nSigs ≤ u32Max ∧
                cache.ConsumableTo entry.1 entry.2.streamId (entry.2.index + asU32 nSigs) := by
          rw [ih hdistinct.2]
          refine forall₂_congr fun entry hmem => ?_
          have hne : deviceId ≠ entry.1 := fun heq =>
            hdistinct.1 (List.mem_map.2 ⟨entry, hmem, heq.symm⟩)
          rw [NonceCache.consume_consumableTo_iff h hne]
        rw [if_pos (Std.ExtTreeSet.contains_iff_mem.2 hsent), Exec.returns_assert_bind,
          Exec.returns_bind, imp_iff_right hsent, and_assoc, and_congr_right_iff]
        intro _
        constructor
        · rintro ⟨⟨cache', changed⟩, hconsume, hrest⟩
          exact ⟨NonceCache.consume_returns_iff.1 ⟨_, hconsume⟩, (hothers hconsume).1 hrest⟩
        · rintro ⟨hfirst, hrest⟩
          obtain ⟨⟨cache', changed⟩, hconsume⟩ := NonceCache.consume_returns_iff.2 hfirst
          exact ⟨_, hconsume, (hothers hconsume).2 hrest⟩
      · rw [if_neg fun h => hsent (Std.ExtTreeSet.contains_iff_mem.1 h), ih hdistinct.2]
        exact (and_iff_right fun h => absurd h hsent).symm

/-- **A session can be closed** exactly when its nonces can be consumed. -/
theorem closeSignSession_returns_iff {p : Persistent L} {sessionId : SignSessionId}
    {session : ActiveSignSession L} (horder : sessionId ∈ p.activeSignSessionOrder)
    (hsession : p.activeSigningSessions[sessionId]? = some session)
    (finished : Option (List EncodedSignature)) :
    (p.closeSignSession sessionId finished).Returns ↔ Consumable p.nonceCache session := by
  have hdistinct : (session.init.nonces.toList.map Prod.fst).Nodup := by
    rw [Std.ExtTreeMap.map_fst_toList_eq_keys]
    exact Std.ExtTreeMap.nodup_keys
  have hreturns : (p.closeSignSession sessionId finished).Returns ↔
      (consumeNonces session.sentReqToDevice session.init.groupRequest.nSignatures
        session.init.nonces.toList p.nonceCache).Returns := by
    rw [closeSignSession, if_pos horder, hsession, Exec.expect_some, Exec.ret_bind,
      Exec.returns_bind]
    exact exists_congr fun _ => and_iff_left (Exec.returns_ret _)
  rw [hreturns, consumeNonces_returns_iff hdistinct]
  constructor
  · intro h deviceId nonces hget
    exact h (deviceId, nonces) (Std.ExtTreeMap.mem_toList_iff_getElem?_eq_some.2 hget)
  · rintro h ⟨deviceId, nonces⟩ hmem
    exact h deviceId nonces (Std.ExtTreeMap.mem_toList_iff_getElem?_eq_some.1 hmem)

end Persistent

/-! ### The invariant -/

namespace Persistent

/-- The order lists the active sessions, which are not finished and use streams of their own. -/
structure SessionsSound (p : Persistent L) : Prop where
  wellNamed : p.nonceCache.WellNamed
  order_nodup : p.activeSignSessionOrder.Nodup
  mem_order : ∀ sessionId,
    sessionId ∈ p.activeSignSessionOrder ↔ sessionId ∈ p.activeSigningSessions
  not_both : ∀ sessionId, sessionId ∈ p.activeSigningSessions →
    sessionId ∉ p.finishedSigningSessions
  disjoint : ∀ {sessionId sessionId' : SignSessionId} {session session' : ActiveSignSession L}
    {deviceId deviceId' : DeviceId} {nonces nonces' : CoordNonceStreamState},
    p.activeSigningSessions[sessionId]? = some session →
    p.activeSigningSessions[sessionId']? = some session' → sessionId ≠ sessionId' →
    session.init.nonces[deviceId]? = some nonces →
    session'.init.nonces[deviceId']? = some nonces' → nonces.streamId ≠ nonces'.streamId

/-- The order lists the keys. -/
structure KeysSound (p : Persistent L) : Prop where
  keyOrder_nodup : p.keyOrder.Nodup
  mem_keyOrder : ∀ keyId, keyId ∈ p.keyOrder ↔ keyId ∈ p.keys

/-- The access structure of every active session is there, and records a share for each of the
devices of the session that it has to. -/
def Records (p : Persistent L) (needed : ActiveSignSession L → DeviceId → Prop) : Prop :=
  ∀ (sessionId : SignSessionId) (session : ActiveSignSession L),
    p.activeSigningSessions[sessionId]? = some session →
    ∃ a, p.getAccessStructure session.accessStructureRef = some a ∧
      ∀ deviceId, needed session deviceId → deviceId ∈ a.deviceToShareIndex

/-- What sessions are about is the same. -/
structure SameSessions (p p' : Persistent L) : Prop where
  order : p'.activeSignSessionOrder = p.activeSignSessionOrder
  active : p'.activeSigningSessions = p.activeSigningSessions
  finished : p'.finishedSigningSessions = p.finishedSigningSessions

/-- When a session makes progress, a session is looked up with what it was started with. -/
theorem getElem?_insert_session {active : BTreeMap SignSessionId (ActiveSignSession L)}
    {sessionId id : SignSessionId} {session session' other : ActiveSignSession L}
    (hsession : active[sessionId]? = some session) (hinit : session'.init = session.init)
    (hother : (active.insert sessionId session')[id]? = some other) :
    ∃ old, active[id]? = some old ∧ old.init = other.init := by
  rw [BTreeMap.getElem?_insert] at hother
  split at hother
  · rename_i hid
    subst hid
    obtain rfl := Option.some.inj hother
    exact ⟨session, hsession, hinit.symm⟩
  · exact ⟨other, hother, rfl⟩

namespace SessionsSound

variable {p p' : Persistent L}

theorem of_same (h : p.SessionsSound) (hsame : SameSessions p p')
    (hnamed : p'.nonceCache.WellNamed) : p'.SessionsSound where
  wellNamed := hnamed
  order_nodup := by rw [hsame.order]; exact h.order_nodup
  mem_order := by rw [hsame.order, hsame.active]; exact h.mem_order
  not_both := by rw [hsame.active, hsame.finished]; exact h.not_both
  disjoint := by rw [hsame.active]; exact h.disjoint

theorem empty : (empty L).SessionsSound where
  wellNamed deviceId streamId segment hsegment := by
    simp [Persistent.empty, NonceCache.segment?, NonceCache.streams] at hsegment
  order_nodup := List.nodup_nil
  mem_order sessionId := by simp [Persistent.empty]
  not_both sessionId hmem := by simp [Persistent.empty] at hmem
  disjoint hsession := by simp [Persistent.empty] at hsession

theorem newSigningSession (h : p.SessionsSound) {session : ActiveSignSession L}
    (hactive : session.sessionId ∉ p.activeSigningSessions)
    (hfinished : session.sessionId ∉ p.finishedSigningSessions)
    (hunused : ∀ (deviceId : DeviceId) (nonces : CoordNonceStreamState),
      session.init.nonces[deviceId]? = some nonces → nonces.streamId ∉ p.allUsedNonceStreams) :
    (p.newSigningSession session).SessionsSound where
  wellNamed := h.wellNamed
  order_nodup := by
    refine List.nodup_append.2 ⟨h.order_nodup, List.nodup_singleton _, ?_⟩
    rintro sessionId hmem other hother rfl
    rw [List.mem_singleton.1 hother, h.mem_order] at hmem
    exact hactive hmem
  mem_order sessionId := by
    simp only [Persistent.newSigningSession, List.mem_append, List.mem_singleton,
      BTreeMap.mem_insert, h.mem_order]
    exact or_comm
  not_both sessionId hmem := by
    simp only [Persistent.newSigningSession, BTreeMap.mem_insert] at hmem ⊢
    obtain rfl | hmem := hmem
    · exact hfinished
    · exact h.not_both sessionId hmem
  disjoint {sessionId sessionId' session₁ session₂ deviceId deviceId' nonces nonces'}
      h₁ h₂ hne hnonces hnonces' heq := by
    simp only [Persistent.newSigningSession, BTreeMap.getElem?_insert] at h₁ h₂
    split at h₁
    · obtain rfl := Option.some.inj h₁
      split at h₂
      · exact hne (by simp_all)
      · exact hunused deviceId nonces hnonces
          (mem_allUsedNonceStreams.2 ⟨_, _, _, _, h₂, hnonces', heq.symm⟩)
    · split at h₂
      · obtain rfl := Option.some.inj h₂
        exact hunused deviceId' nonces' hnonces'
          (mem_allUsedNonceStreams.2 ⟨_, _, _, _, h₁, hnonces, heq⟩)
      · exact h.disjoint h₁ h₂ hne hnonces hnonces' heq

/-- A session makes progress. -/
theorem update (h : p.SessionsSound) {sessionId : SignSessionId}
    {session session' : ActiveSignSession L}
    (hsession : p.activeSigningSessions[sessionId]? = some session)
    (hinit : session'.init = session.init) :
    SessionsSound { p with
      activeSigningSessions := p.activeSigningSessions.insert sessionId session' } where
  wellNamed := h.wellNamed
  order_nodup := h.order_nodup
  mem_order id := by
    rw [h.mem_order, BTreeMap.mem_insert]
    refine ⟨.inr, ?_⟩
    rintro (rfl | hmem)
    · exact BTreeMap.mem_iff_getElem?.2 ⟨session, hsession⟩
    · exact hmem
  not_both id hmem := by
    rw [BTreeMap.mem_insert] at hmem
    obtain rfl | hmem := hmem
    · exact h.not_both _ (BTreeMap.mem_iff_getElem?.2 ⟨session, hsession⟩)
    · exact h.not_both id hmem
  disjoint h₁ h₂ hne := by
    obtain ⟨old₁, hold₁, hinit₁⟩ := getElem?_insert_session hsession hinit h₁
    obtain ⟨old₂, hold₂, hinit₂⟩ := getElem?_insert_session hsession hinit h₂
    rw [← hinit₁, ← hinit₂]
    exact h.disjoint hold₁ hold₂ hne

/-- A session is closed. -/
theorem close (h : p.SessionsSound) (sessionId : SignSessionId) {nonceCache : NonceCache}
    (hnamed : nonceCache.WellNamed) {finished : BTreeMap SignSessionId (FinishedSignSession L)}
    (hfinished : ∀ id, id ∈ finished → id ∈ p.finishedSigningSessions ∨ id = sessionId) :
    SessionsSound { p with
      activeSignSessionOrder := p.activeSignSessionOrder.erase sessionId
      activeSigningSessions := p.activeSigningSessions.erase sessionId
      nonceCache := nonceCache
      finishedSigningSessions := finished } where
  wellNamed := hnamed
  order_nodup := h.order_nodup.erase _
  mem_order id := by
    rw [h.order_nodup.mem_erase_iff, h.mem_order, BTreeMap.mem_erase]
  not_both id hmem hid := by
    rw [BTreeMap.mem_erase] at hmem
    obtain hid | rfl := hfinished id hid
    · exact h.not_both id hmem.2 hid
    · exact hmem.1 rfl
  disjoint h₁ h₂ := by
    rw [BTreeMap.getElem?_erase] at h₁ h₂
    split at h₁
    · cases h₁
    · split at h₂
      · cases h₂
      · exact h.disjoint h₁ h₂

/-- A finished session is forgotten. -/
theorem forget (h : p.SessionsSound) (sessionId : SignSessionId) :
    SessionsSound { p with
      finishedSigningSessions := p.finishedSigningSessions.erase sessionId } where
  wellNamed := h.wellNamed
  order_nodup := h.order_nodup
  mem_order := h.mem_order
  not_both id hmem hid := by
    rw [BTreeMap.mem_erase] at hid
    exact h.not_both id hmem hid.2
  disjoint := h.disjoint

end SessionsSound

/-! ### Recorded shares -/

theorem getAccessStructure_setAccessStructure {p : Persistent L} {key : CoordFrostKey}
    {keyId : KeyId} (hkey : p.keys[keyId]? = some key) (id : AccessStructureId)
    (a : CoordAccessStructure) (ref : AccessStructureRef) :
    (p.setAccessStructure key keyId id a).getAccessStructure ref =
      if ref = ⟨keyId, id⟩ then some a else p.getAccessStructure ref := by
  obtain ⟨keyId', id'⟩ := ref
  simp only [getAccessStructure, setAccessStructure, BTreeMap.getElem?_insert,
    AccessStructureRef.mk.injEq]
  by_cases hk : keyId = keyId'
  · subst hk
    simp only [↓reduceIte, Option.bind_some, BTreeMap.getElem?_insert, hkey, true_and]
    by_cases hid : id = id'
    · simp only [hid, ↓reduceIte]
    · simp only [hid, Ne.symm hid, ↓reduceIte]
  · simp only [hk, Ne.symm hk, ↓reduceIte, false_and]

theorem getAccessStructure_ensureKey {p : Persistent L} {ref : AccessStructureRef}
    {a : CoordAccessStructure} (h : p.getAccessStructure ref = some a) (completeKey : CompleteKey)
    (keyName : String) (purpose : KeyPurpose) :
    (p.ensureKey completeKey keyName purpose).getAccessStructure ref = some a := by
  unfold ensureKey
  dsimp only
  split
  · exact h
  · rename_i hnew
    obtain ⟨key, hkey, -⟩ := Option.bind_eq_some_iff.1 h
    have hne : L.keyIdOfMasterAppkey completeKey.masterAppkey ≠ ref.keyId := by
      intro heq
      rw [heq] at hnew
      exact hnew (BTreeMap.mem_iff_getElem?.2 ⟨key, hkey⟩)
    rw [getAccessStructure, BTreeMap.getElem?_insert, if_neg hne]
    exact h

namespace Records

variable {p p' : Persistent L} {needed : ActiveSignSession L → DeviceId → Prop}

theorem empty : (Persistent.empty L).Records needed := by
  intro sessionId session hsession
  simp [Persistent.empty] at hsession

/-- The keys change, and of what is recorded nothing is lost that sessions need. -/
theorem of_keys (h : p.Records needed)
    (hactive : p'.activeSigningSessions = p.activeSigningSessions)
    (hkept : ∀ (sessionId : SignSessionId) (session : ActiveSignSession L)
      (a : CoordAccessStructure), p.activeSigningSessions[sessionId]? = some session →
      p.getAccessStructure session.accessStructureRef = some a →
      ∃ a', p'.getAccessStructure session.accessStructureRef = some a' ∧
        ∀ deviceId, needed session deviceId → deviceId ∈ a.deviceToShareIndex →
          deviceId ∈ a'.deviceToShareIndex) : p'.Records needed := by
  intro sessionId session hsession
  rw [hactive] at hsession
  obtain ⟨a, ha, hdevices⟩ := h sessionId session hsession
  obtain ⟨a', ha', hkept⟩ := hkept sessionId session a hsession ha
  exact ⟨a', ha', fun deviceId hneeded => hkept deviceId hneeded (hdevices deviceId hneeded)⟩

/-- One access structure changes, and loses nothing that sessions need. -/
theorem setAccessStructure (h : p.Records needed) {key : CoordFrostKey} {ref : AccessStructureRef}
    (hkey : p.keys[ref.keyId]? = some key) {new : CoordAccessStructure}
    (hkept : ∀ (sessionId : SignSessionId) (session : ActiveSignSession L)
      (a : CoordAccessStructure) (deviceId : DeviceId),
      p.activeSigningSessions[sessionId]? = some session → session.accessStructureRef = ref →
      key.completeKey.accessStructures[ref.accessStructureId]? = some a →
      needed session deviceId → deviceId ∈ a.deviceToShareIndex →
      deviceId ∈ new.deviceToShareIndex) :
    (p.setAccessStructure key ref.keyId ref.accessStructureId new).Records needed := by
  refine h.of_keys rfl fun sessionId session a hsession ha => ?_
  rw [getAccessStructure_setAccessStructure hkey]
  split
  · rename_i href
    rw [getAccessStructure, href] at ha
    simp only [hkey, Option.bind_some] at ha
    exact ⟨new, rfl, fun deviceId => hkept sessionId session a deviceId hsession href ha⟩
  · exact ⟨a, ha, fun _ _ => id⟩

theorem newSigningSession (h : p.Records needed) {session : ActiveSignSession L}
    {a : CoordAccessStructure} (ha : p.getAccessStructure session.accessStructureRef = some a)
    (hneeded : ∀ deviceId, needed session deviceId → deviceId ∈ a.deviceToShareIndex) :
    (p.newSigningSession session).Records needed := by
  intro sessionId session' hsession
  simp only [Persistent.newSigningSession, BTreeMap.getElem?_insert] at hsession
  split at hsession
  · obtain rfl := Option.some.inj hsession
    exact ⟨a, ha, hneeded⟩
  · exact h sessionId session' hsession

/-- A session makes progress. -/
theorem update (h : p.Records needed) {sessionId : SignSessionId}
    {session session' : ActiveSignSession L} {a : CoordAccessStructure}
    (hsession : p.activeSigningSessions[sessionId]? = some session)
    (href : session'.accessStructureRef = session.accessStructureRef)
    (ha : p.getAccessStructure session.accessStructureRef = some a)
    (hneeded : ∀ deviceId, needed session' deviceId →
      needed session deviceId ∨ deviceId ∈ a.deviceToShareIndex) :
    Records { p with
      activeSigningSessions := p.activeSigningSessions.insert sessionId session' } needed := by
  intro id other hother
  rw [BTreeMap.getElem?_insert] at hother
  split at hother
  · obtain rfl := Option.some.inj hother
    obtain ⟨a', ha', hdevices⟩ := h sessionId session hsession
    obtain rfl := Option.some.inj (ha.symm.trans ha')
    refine ⟨a, href ▸ ha, fun deviceId hdevice => ?_⟩
    obtain hold | hrecorded := hneeded deviceId hdevice
    · exact hdevices deviceId hold
    · exact hrecorded
  · exact h id other hother

/-- Sessions are closed. -/
theorem of_subset (h : p.Records needed)
    (hactive : ∀ (sessionId : SignSessionId) (session : ActiveSignSession L),
      p'.activeSigningSessions[sessionId]? = some session →
      p.activeSigningSessions[sessionId]? = some session ∧
        p'.keys[session.keyId]? = p.keys[session.keyId]?) : p'.Records needed := by
  intro sessionId session hsession
  obtain ⟨hold, hkey⟩ := hactive sessionId session hsession
  obtain ⟨a, ha, hdevices⟩ := h sessionId session hold
  refine ⟨a, ?_, hdevices⟩
  rw [getAccessStructure, ActiveSignSession.accessStructureRef] at ha ⊢
  rw [hkey, ha]

end Records

end Persistent

/-! ### The requests that were sent -/

namespace RequestDeviceSign

/-- The nonces that a device is asked to sign with. -/
def nonces (r : RequestDeviceSign L) : CoordNonceStreamState := r.requestSign.deviceSignReq.nonces

/-- The index after the last nonce of a request. -/
def afterLast (r : RequestDeviceSign L) : ℕ :=
  r.nonces.index + r.requestSign.groupSignReq.nSignatures

/-- Two requests ask a device to sign with one nonce. -/
def SharesNonce (r r' : RequestDeviceSign L) : Prop :=
  r.deviceId = r'.deviceId ∧ r.nonces.streamId = r'.nonces.streamId ∧
    ∃ index, r.nonces.index ≤ index ∧ index < r.afterLast ∧
      r'.nonces.index ≤ index ∧ index < r'.afterLast

/-- Two requests are for the same signatures with the same nonces. -/
def Same (r r' : RequestDeviceSign L) : Prop :=
  r.requestSign.groupSignReq = r'.requestSign.groupSignReq ∧ r.nonces = r'.nonces

/-- A request is one of a session. -/
def IsOf (r : RequestDeviceSign L) (session : ActiveSignSession L) : Prop :=
  r.requestSign.groupSignReq = session.init.groupRequest ∧
    session.init.nonces[r.deviceId]? = some r.nonces

theorem IsOf.congr {r : RequestDeviceSign L} {session session' : ActiveSignSession L}
    (h : r.IsOf session) (hinit : session.init = session'.init) : r.IsOf session' := by
  unfold IsOf at h ⊢
  rw [← hinit]
  exact h

theorem IsOf.same {r r' : RequestDeviceSign L} {session : ActiveSignSession L}
    (h : r.IsOf session) (h' : r'.IsOf session) (hdevice : r.deviceId = r'.deviceId) :
    r.Same r' := by
  refine ⟨h.1.trans h'.1.symm, ?_⟩
  have hnonces := h.2
  rw [hdevice, h'.2] at hnonces
  exact (Option.some.inj hnonces).symm

end RequestDeviceSign

/-- What is known of the requests that were sent, and of the sessions that more may be sent for.
A request is of an active session, or the cache is past its nonces; a session has nonces after
those of all requests but its own. -/
structure Ledger (requests : List (RequestDeviceSign L)) (p : Persistent L) : Prop where
  known : ∀ {sessionId : SignSessionId} {session : ActiveSignSession L} {deviceId : DeviceId}
    {nonces : CoordNonceStreamState}, p.activeSigningSessions[sessionId]? = some session →
    session.init.nonces[deviceId]? = some nonces →
    p.nonceCache.IsPast deviceId nonces.streamId 0
  nSignatures_le : ∀ {sessionId : SignSessionId} {session : ActiveSignSession L}
    {deviceId : DeviceId}, p.activeSigningSessions[sessionId]? = some session →
    deviceId ∈ session.init.nonces → session.init.groupRequest.nSignatures ≤ u32Max
  sent : ∀ r ∈ requests,
    (∃ (sessionId : SignSessionId) (session : ActiveSignSession L),
      p.activeSigningSessions[sessionId]? = some session ∧ r.IsOf session ∧
        r.deviceId ∈ session.sentReqToDevice) ∨
    p.nonceCache.IsPast r.deviceId r.nonces.streamId r.afterLast
  older : ∀ r ∈ requests, ∀ {sessionId : SignSessionId} {session : ActiveSignSession L}
    {nonces : CoordNonceStreamState}, p.activeSigningSessions[sessionId]? = some session →
    session.init.nonces[r.deviceId]? = some nonces → nonces.streamId = r.nonces.streamId →
    r.IsOf session ∨ r.afterLast ≤ nonces.index
  distinct : ∀ r ∈ requests, ∀ r' ∈ requests, r.SharesNonce r' → r.Same r'

namespace Ledger

variable {requests : List (RequestDeviceSign L)} {p p' : Persistent L}

theorem empty : Ledger [] (Persistent.empty L) where
  known hsession := by simp [Persistent.empty] at hsession
  nSignatures_le hsession := by simp [Persistent.empty] at hsession
  sent r hr := absurd hr List.not_mem_nil
  older r hr := absurd hr List.not_mem_nil
  distinct r hr := absurd hr List.not_mem_nil

/-- The cache grows. -/
theorem of_grows (h : Ledger requests p)
    (hactive : p'.activeSigningSessions = p.activeSigningSessions)
    (hgrows : p.nonceCache.Grows p'.nonceCache) : Ledger requests p' where
  known hsession hnonces := by
    rw [hactive] at hsession
    exact hgrows _ _ _ (h.known hsession hnonces)
  nSignatures_le hsession := by
    rw [hactive] at hsession
    exact h.nSignatures_le hsession
  sent r hr := by
    rw [hactive]
    exact (h.sent r hr).imp_right (hgrows _ _ _)
  older r hr _ _ _ hsession := by
    rw [hactive] at hsession
    exact h.older r hr hsession
  distinct := h.distinct

theorem of_same (h : Ledger requests p)
    (hactive : p'.activeSigningSessions = p.activeSigningSessions)
    (hcache : p'.nonceCache = p.nonceCache) : Ledger requests p' :=
  h.of_grows hactive (hcache ▸ fun _ _ _ => id)

theorem newSigningSession (h : Ledger requests p) (hnamed : p.nonceCache.WellNamed)
    {session : ActiveSignSession L} (hfresh : session.sessionId ∉ p.activeSigningSessions)
    (hnonces : ∀ (deviceId : DeviceId) (nonces : CoordNonceStreamState),
      session.init.nonces[deviceId]? = some nonces → ∃ subSegment,
        p.nonceCache.Supplies session.init.groupRequest.nSignatures p.allUsedNonceStreams
          deviceId subSegment ∧ nonces = subSegment.coordNonceState) :
    Ledger requests (p.newSigningSession session) where
  known {sessionId session' deviceId nonces} hsession hget := by
    simp only [Persistent.newSigningSession, BTreeMap.getElem?_insert] at hsession
    split at hsession
    · obtain rfl := Option.some.inj hsession
      obtain ⟨subSegment, hsupplies, rfl⟩ := hnonces deviceId nonces hget
      obtain ⟨-, -, segment, hsegment, -⟩ := hsupplies.spec hnamed
      exact ⟨segment, hsegment, Nat.zero_le _⟩
    · exact h.known hsession hget
  nSignatures_le {sessionId session' deviceId} hsession hdevice := by
    simp only [Persistent.newSigningSession, BTreeMap.getElem?_insert] at hsession
    split at hsession
    · obtain rfl := Option.some.inj hsession
      obtain ⟨nonces, hget⟩ := BTreeMap.mem_iff_getElem?.1 hdevice
      obtain ⟨subSegment, hsupplies, -⟩ := hnonces deviceId nonces hget
      exact (hsupplies.spec hnamed).2.1
    · exact h.nSignatures_le hsession hdevice
  sent r hr := by
    obtain ⟨sessionId, session', hsession, hof⟩ | hpast := h.sent r hr
    · refine .inl ⟨sessionId, session', ?_, hof⟩
      rw [Persistent.newSigningSession, BTreeMap.getElem?_insert, if_neg ?_, hsession]
      rintro rfl
      exact hfresh (BTreeMap.mem_iff_getElem?.2 ⟨session', hsession⟩)
    · exact .inr hpast
  older r hr sessionId session' nonces hsession hget hstream := by
    simp only [Persistent.newSigningSession, BTreeMap.getElem?_insert] at hsession
    split at hsession
    · obtain rfl := Option.some.inj hsession
      obtain ⟨subSegment, hsupplies, rfl⟩ := hnonces r.deviceId nonces hget
      obtain ⟨hunused, -, segment, hsegment, hindex⟩ := hsupplies.spec hnamed
      obtain ⟨id, other, hother, hof, -⟩ | ⟨segment', hsegment', hpast⟩ := h.sent r hr
      · exact absurd (Persistent.mem_allUsedNonceStreams.2
          ⟨id, other, r.deviceId, r.nonces, hother, hof.2, hstream.symm⟩) hunused
      · rw [← hstream] at hsegment'
        obtain rfl := Option.some.inj (hsegment.symm.trans hsegment')
        exact .inr (hpast.trans_eq hindex)
    · exact h.older r hr hsession hget hstream
  distinct := h.distinct

/-- A session makes progress. -/
theorem update (h : Ledger requests p) {sessionId : SignSessionId}
    {session session' : ActiveSignSession L}
    (hsession : p.activeSigningSessions[sessionId]? = some session)
    (hinit : session'.init = session.init)
    (hsent : ∀ deviceId, deviceId ∈ session.sentReqToDevice →
      deviceId ∈ session'.sentReqToDevice) :
    Ledger requests { p with
      activeSigningSessions := p.activeSigningSessions.insert sessionId session' } where
  known hother hget := by
    obtain ⟨old, hold, holdInit⟩ := Persistent.getElem?_insert_session hsession hinit hother
    exact h.known hold (holdInit ▸ hget)
  nSignatures_le hother hdevice := by
    obtain ⟨old, hold, holdInit⟩ := Persistent.getElem?_insert_session hsession hinit hother
    rw [← holdInit] at hdevice ⊢
    exact h.nSignatures_le hold hdevice
  sent r hr := by
    obtain ⟨id, other, hother, hof, hdevice⟩ | hpast := h.sent r hr
    · refine .inl ?_
      by_cases hid : sessionId = id
      · subst hid
        obtain rfl := Option.some.inj (hsession.symm.trans hother)
        exact ⟨sessionId, session', by rw [BTreeMap.getElem?_insert, if_pos rfl],
          hof.congr hinit.symm, hsent _ hdevice⟩
      · exact ⟨id, other, by rw [BTreeMap.getElem?_insert, if_neg hid, hother], hof, hdevice⟩
    · exact .inr hpast
  older r hr id other nonces hother hget hstream := by
    obtain ⟨old, hold, holdInit⟩ := Persistent.getElem?_insert_session hsession hinit hother
    exact (h.older r hr hold (holdInit ▸ hget) hstream).imp_left fun hof => hof.congr holdInit
  distinct := h.distinct

/-- A session is closed, and the nonces that were asked for are dropped. -/
theorem close [Build] (h : Ledger requests p) (hnamed : p.nonceCache.WellNamed)
    {sessionId : SignSessionId}
    {session : ActiveSignSession L} (hsession : p.activeSigningSessions[sessionId]? = some session)
    (hactive : p'.activeSigningSessions = p.activeSigningSessions.erase sessionId)
    (hcache : Persistent.consumeNonces session.sentReqToDevice
      session.init.groupRequest.nSignatures session.init.nonces.toList p.nonceCache =
        .ret p'.nonceCache) : Ledger requests p' := by
  obtain ⟨-, hgrows, hpast⟩ := Persistent.consumeNonces_grows hcache hnamed
  have hlookup : ∀ {id : SignSessionId} {other : ActiveSignSession L},
      p'.activeSigningSessions[id]? = some other → p.activeSigningSessions[id]? = some other := by
    intro id other hother
    rw [hactive, BTreeMap.getElem?_erase] at hother
    split at hother
    · cases hother
    · exact hother
  exact
    { known := fun hother hget => hgrows _ _ _ (h.known (hlookup hother) hget)
      nSignatures_le := fun hother => h.nSignatures_le (hlookup hother)
      sent := fun r hr => by
        obtain ⟨id, other, hother, hof, hdevice⟩ | hr := h.sent r hr
        · by_cases hid : sessionId = id
          · subst hid
            obtain rfl := Option.some.inj (hsession.symm.trans hother)
            have hmem : (r.deviceId, r.nonces) ∈ session.init.nonces.toList :=
              Std.ExtTreeMap.mem_toList_iff_getElem?_eq_some.2 hof.2
            have hn := h.nSignatures_le hsession (BTreeMap.mem_iff_getElem?.2 ⟨_, hof.2⟩)
            have hend := hpast _ hmem hdevice (h.known hsession hof.2)
            rw [asU32_of_le hn, ← hof.1] at hend
            exact .inr hend
          · refine .inl ⟨id, other, ?_, hof, hdevice⟩
            rw [hactive, BTreeMap.getElem?_erase, if_neg hid, hother]
        · exact .inr (hgrows _ _ _ hr)
      older := fun r hr _ _ _ hother => h.older r hr (hlookup hother)
      distinct := h.distinct }

/-- A request of an active session is sent. -/
theorem request (h : Ledger requests p) (hsound : p.SessionsSound) {r : RequestDeviceSign L}
    {sessionId : SignSessionId} {session : ActiveSignSession L}
    (hsession : p.activeSigningSessions[sessionId]? = some session) (hof : r.IsOf session)
    (hsent : r.deviceId ∈ session.sentReqToDevice) : Ledger (requests ++ [r]) p where
  known := h.known
  nSignatures_le := h.nSignatures_le
  sent r' hr' := by
    obtain hr' | hr' := List.mem_append.1 hr'
    · exact h.sent r' hr'
    · obtain rfl := List.mem_singleton.1 hr'
      exact .inl ⟨sessionId, session, hsession, hof, hsent⟩
  older r' hr' id other nonces hother hget hstream := by
    obtain hr' | hr' := List.mem_append.1 hr'
    · exact h.older r' hr' hother hget hstream
    · obtain rfl := List.mem_singleton.1 hr'
      by_cases hid : id = sessionId
      · subst hid
        obtain rfl := Option.some.inj (hsession.symm.trans hother)
        exact .inl hof
      · exact absurd hstream (hsound.disjoint hother hsession hid hget hof.2)
  distinct := by
    -- an earlier request on the stream is one of the session, or ends before the session's nonces
    have hearlier : ∀ r' ∈ requests, r'.deviceId = r.deviceId →
        r.nonces.streamId = r'.nonces.streamId →
        r'.Same r ∨ r'.afterLast ≤ r.nonces.index := by
      intro r' hr' hdevice hstream
      have hget : session.init.nonces[r'.deviceId]? = some r.nonces := hdevice ▸ hof.2
      exact (h.older r' hr' hsession hget hstream).imp_left fun hof' => hof'.same hof hdevice
    intro r₁ hr₁ r₂ hr₂ hshares
    obtain ⟨hdevice, hstream, index, hlo₁, hhi₁, hlo₂, hhi₂⟩ := hshares
    obtain hold₁ | hnew₁ := List.mem_append.1 hr₁
    · obtain hold₂ | hnew₂ := List.mem_append.1 hr₂
      · exact h.distinct r₁ hold₁ r₂ hold₂ ⟨hdevice, hstream, index, hlo₁, hhi₁, hlo₂, hhi₂⟩
      · obtain rfl := List.mem_singleton.1 hnew₂
        obtain hsame | hbefore := hearlier r₁ hold₁ hdevice hstream.symm
        · exact hsame
        · omega
    · obtain rfl := List.mem_singleton.1 hnew₁
      obtain hold₂ | hnew₂ := List.mem_append.1 hr₂
      · obtain hsame | hbefore := hearlier r₂ hold₂ hdevice.symm hstream
        · exact ⟨hsame.1.symm, hsame.2.symm⟩
        · omega
      · obtain rfl := List.mem_singleton.1 hnew₂
        exact ⟨rfl, rfl⟩

end Ledger

/-! ### Mutations keep the invariant -/

section

variable [Build] {p p' : Persistent L} {requests : List (RequestDeviceSign L)}

theorem Persistent.SessionsSound.closeSignSession (h : p.SessionsSound)
    {sessionId : SignSessionId} {finished : Option (List EncodedSignature)} {changed : Bool}
    (hclose : p.closeSignSession sessionId finished = .ret (changed, p')) : p'.SessionsSound := by
  obtain ⟨-, -, rfl⟩ | ⟨hmem, -, session, nonceCache, hsession, hcache, rfl⟩ :=
    Persistent.closeSignSession_eq hclose
  · exact h
  · refine h.close sessionId (Persistent.consumeNonces_grows hcache h.wellNamed).1
      fun id hid => ?_
    cases finished with
    | none => exact .inl hid
    | some signatures => exact (BTreeMap.mem_insert.1 hid).symm

theorem Ledger.closeSignSession (h : Ledger requests p) (hnamed : p.nonceCache.WellNamed)
    {sessionId : SignSessionId}
    {finished : Option (List EncodedSignature)} {changed : Bool}
    (hclose : p.closeSignSession sessionId finished = .ret (changed, p')) : Ledger requests p' := by
  obtain ⟨-, -, rfl⟩ | ⟨-, -, session, nonceCache, hsession, hcache, rfl⟩ :=
    Persistent.closeSignSession_eq hclose
  · exact h
  · exact h.close hnamed hsession rfl hcache

/-- Closing a session takes it out of the order and of the active sessions, where it is not when
nothing happens. -/
theorem Persistent.SessionsSound.closeSignSession_eq (h : p.SessionsSound)
    {sessionId : SignSessionId} {changed : Bool}
    (hclose : p.closeSignSession sessionId none = .ret (changed, p')) :
    ∃ nonceCache, p' = { p with
      activeSignSessionOrder := p.activeSignSessionOrder.filter (· ≠ sessionId)
      activeSigningSessions := p.activeSigningSessions.erase sessionId
      nonceCache := nonceCache } ∧
      ((∀ session, p.activeSigningSessions[sessionId]? = some session →
        session.sentReqToDevice = ∅) → nonceCache = p.nonceCache) := by
  obtain ⟨hmem, -, rfl⟩ | ⟨hmem, -, session, nonceCache, hsession, hcache, rfl⟩ :=
    Persistent.closeSignSession_eq hclose
  · have horder : p'.activeSignSessionOrder.filter (· ≠ sessionId) = p'.activeSignSessionOrder := by
      refine List.filter_eq_self.2 fun id hid => ?_
      rw [decide_eq_true_eq]
      rintro rfl
      exact hmem hid
    rw [h.mem_order, BTreeMap.not_mem_iff_getElem?] at hmem
    refine ⟨p'.nonceCache, ?_, fun _ => rfl⟩
    rw [horder, BTreeMap.erase_of_getElem? hmem]
  · refine ⟨nonceCache, ?_, fun hunasked => ?_⟩
    swap
    · rw [hunasked session hsession, consumeNonces_empty] at hcache
      exact (Exec.ret.inj hcache).symm
    have herase : p.activeSignSessionOrder.erase sessionId =
        p.activeSignSessionOrder.filter (· ≠ sessionId) := by
      rw [h.order_nodup.erase_eq_filter]
      refine List.filter_congr fun id _ => ?_
      rw [Bool.eq_iff_iff, bne_iff_ne, decide_eq_true_eq]
    rw [herase]
    rfl

/-- Sessions are closed one after the other. -/
theorem Persistent.SessionsSound.closeSignSessions (h : p.SessionsSound)
    {sessionIds : List SignSessionId} (hclose : closeSignSessions sessionIds p = .ret p') :
    p'.SessionsSound ∧ (∀ requests, Ledger requests p → Ledger requests p') ∧
      ∃ nonceCache, p' = { p with
        activeSignSessionOrder := p.activeSignSessionOrder.filter (· ∉ sessionIds)
        activeSigningSessions := p.activeSigningSessions.filter fun id _ => id ∉ sessionIds
        nonceCache := nonceCache } ∧
      ((∀ sessionId ∈ sessionIds, ∀ session, p.activeSigningSessions[sessionId]? = some session →
        session.sentReqToDevice = ∅) → nonceCache = p.nonceCache) := by
  induction sessionIds generalizing p with
  | nil =>
      obtain rfl : p = p' := by simpa [Persistent.closeSignSessions] using hclose
      refine ⟨h, fun _ => id, p.nonceCache, ?_, fun _ => rfl⟩
      have hall : p.activeSigningSessions.filter
          (fun id _ => decide (id ∉ ([] : List SignSessionId))) = p.activeSigningSessions := by
        refine Std.ExtTreeMap.ext_getElem? fun {id} => ?_
        rw [BTreeMap.getElem?_filter]
        cases p.activeSigningSessions[id]? <;> simp
      rw [hall, List.filter_eq_self.2 fun id _ => by simp]
  | cons sessionId rest ih =>
      obtain ⟨⟨changed, mid⟩, hfirst, hrest⟩ := Exec.bind_eq_ret_iff.1 hclose
      obtain ⟨hsound, hledger, nonceCache, hp', hcache⟩ := ih (h.closeSignSession hfirst) hrest
      refine ⟨hsound, fun _ hl => hledger _ (hl.closeSignSession h.wellNamed hfirst),
        nonceCache, ?_,
        fun hunasked => ?_⟩
      swap
      · obtain ⟨cache, rfl, hmid⟩ := h.closeSignSession_eq hfirst
        rw [hcache, hmid (hunasked sessionId List.mem_cons_self)]
        intro id hid session hsession
        simp only [BTreeMap.getElem?_erase] at hsession
        split at hsession
        · cases hsession
        · exact hunasked id (List.mem_cons_of_mem _ hid) session hsession
      obtain ⟨cache, rfl, -⟩ := h.closeSignSession_eq hfirst
      have horder : (p.activeSignSessionOrder.filter (· ≠ sessionId)).filter (· ∉ rest) =
          p.activeSignSessionOrder.filter (· ∉ sessionId :: rest) := by
        rw [List.filter_filter]
        refine List.filter_congr fun id _ => ?_
        simp [Bool.and_comm]
      have hactive : (p.activeSigningSessions.erase sessionId).filter (fun id _ => id ∉ rest) =
          p.activeSigningSessions.filter fun id _ => id ∉ sessionId :: rest := by
        refine Std.ExtTreeMap.ext_getElem? fun {id} => ?_
        rw [BTreeMap.getElem?_filter, BTreeMap.getElem?_filter, BTreeMap.getElem?_erase]
        split
        · rename_i hid
          subst hid
          cases p.activeSigningSessions[sessionId]? <;> simp
        · rename_i hid
          cases p.activeSigningSessions[id]? <;> simp [Ne.symm hid]
      rw [hp', horder, hactive]

omit [Build] in
theorem Persistent.mem_sessionsOfKey {keyId : KeyId} {sessionId : SignSessionId} :
    sessionId ∈ p.sessionsOfKey keyId ↔
      ∃ session, p.activeSigningSessions[sessionId]? = some session ∧ session.keyId = keyId := by
  simp only [sessionsOfKey, List.mem_map, List.mem_filter, beq_iff_eq, Prod.exists,
    Std.ExtTreeMap.mem_toList_iff_getElem?_eq_some]
  constructor
  · rintro ⟨id, session, ⟨hsession, hkey⟩, rfl⟩
    exact ⟨session, hsession, hkey⟩
  · rintro ⟨session, hsession, hkey⟩
    exact ⟨sessionId, session, ⟨hsession, hkey⟩, rfl⟩

/-- A key is deleted with its sessions. -/
theorem Persistent.SessionsSound.deleteKey (h : p.SessionsSound) {keyId : KeyId} {changed : Bool}
    (hdelete : p.deleteKey keyId = .ret (changed, p')) :
    (keyId ∉ p.keys ∧ changed = false ∧ p' = p) ∨
      keyId ∈ p.keys ∧ changed = true ∧ p'.SessionsSound ∧
        (∀ requests, Ledger requests p → Ledger requests p') ∧
        ∃ nonceCache, p' = { p with
          keys := p.keys.erase keyId
          keyOrder := p.keyOrder.filter (· ≠ keyId)
          pendingPhysicalConsolidations := p.pendingPhysicalConsolidations.filter
            fun consolidation => consolidation.accessStructureRef.keyId != keyId
          activeSignSessionOrder := p.activeSignSessionOrder.filter (· ∉ p.sessionsOfKey keyId)
          activeSigningSessions :=
            p.activeSigningSessions.filter fun id _ => id ∉ p.sessionsOfKey keyId
          nonceCache := nonceCache } ∧
        ((∀ (sessionId : SignSessionId) (session : ActiveSignSession L),
          p.activeSigningSessions[sessionId]? = some session → session.keyId = keyId →
          session.sentReqToDevice = ∅) → nonceCache = p.nonceCache) := by
  unfold Persistent.deleteKey at hdelete
  split at hdelete
  · rename_i hmem
    obtain ⟨q, hclose, hret⟩ := Exec.bind_eq_ret_iff.1 hdelete
    obtain ⟨rfl, rfl⟩ := Prod.mk.inj (Exec.ret.inj hret)
    have hsame : SameSessions p
        { p with
          keys := p.keys.erase keyId
          keyOrder := p.keyOrder.filter (· ≠ keyId)
          pendingPhysicalConsolidations := p.pendingPhysicalConsolidations.filter
            fun consolidation => consolidation.accessStructureRef.keyId != keyId } :=
      ⟨rfl, rfl, rfl⟩
    obtain ⟨hsound, hledger, nonceCache, hq, hcache⟩ :=
      (h.of_same hsame h.wellNamed).closeSignSessions hclose
    refine .inr ⟨hmem, rfl, hsound, fun _ hl => hledger _ (hl.of_same rfl rfl), nonceCache, hq,
      fun hunasked => hcache fun sessionId hid session hsession => ?_⟩
    obtain ⟨session', hsession', hkey⟩ := mem_sessionsOfKey.1 hid
    obtain rfl := Option.some.inj (hsession.symm.trans hsession')
    exact hunasked sessionId session hsession hkey
  · rename_i hmem
    obtain ⟨rfl, rfl⟩ := Prod.mk.inj (Exec.ret.inj hdelete)
    exact .inl ⟨hmem, rfl, rfl⟩

/-- A mutation of the restorations leaves keys and sessions as they are. -/
theorem Persistent.change_restoration {fingerprint : Fingerprint} {m : RestorationMutation}
    {changed : Bool}
    (h : p.change fingerprint (.restoration m) = .ret (changed, p')) :
    p' = { p with
      restorations := p'.restorations
      pendingPhysicalConsolidations := p'.pendingPhysicalConsolidations } := by
  have hprogress : ∀ {restorationId deviceId heldShare},
      p.restorationProgress2 fingerprint restorationId deviceId heldShare = .ret (changed, p') →
      p' = { p with
        restorations := p'.restorations
        pendingPhysicalConsolidations := p'.pendingPhysicalConsolidations } := by
    intro restorationId deviceId heldShare hstep
    unfold restorationProgress2 at hstep
    split at hstep
    · rw [(fail_eq hstep).2]
    · split at hstep
      · rw [← (Prod.mk.inj (Exec.ret.inj hstep)).2]
      · split at hstep
        · rw [(fail_eq hstep).2]
        · rw [← (Prod.mk.inj (Exec.ret.inj hstep)).2]
          rfl
  cases m with
  | newRestoration | newRestoration2 =>
      rw [← (Prod.mk.inj (Exec.ret.inj h)).2]
      rfl
  | restorationProgress | restorationProgress2 => exact hprogress h
  | deleteRestoration | deviceNeedsConsolidation =>
      rw [← (Prod.mk.inj (Exec.ret.inj h)).2]
  | deviceFinishedConsolidation =>
      simp only [change, deviceFinishedConsolidation] at h
      split at h
      · rw [← (Prod.mk.inj (Exec.ret.inj h)).2]
      · rw [(fail_eq h).2]
  | deleteRestorationShare =>
      simp only [change, deleteRestorationShare] at h
      split at h
      · rw [(fail_eq h).2]
      · split at h
        · rw [← (Prod.mk.inj (Exec.ret.inj h)).2]
        · rw [← (Prod.mk.inj (Exec.ret.inj h)).2]
          rfl

/-- A mutation of the keys that does not delete one changes nothing but the keys. -/
theorem Persistent.change_keygen {fingerprint : Fingerprint} {m : KeyMutation} {changed : Bool}
    (hm : ∀ keyId, m ≠ .deleteKey keyId)
    (h : p.change fingerprint (.keygen m) = .ret (changed, p')) :
    p' = { p with keys := p'.keys, keyOrder := p'.keyOrder } := by
  cases m with
  | newKey =>
      rw [← (Prod.mk.inj (Exec.ret.inj h)).2]
      unfold ensureKey
      dsimp only
      split <;> rfl
  | newAccessStructure sharedKey kind =>
      simp only [change, newAccessStructure] at h
      split at h
      · rw [(fail_eq h).2]
      · split at h
        · rw [← (Prod.mk.inj (Exec.ret.inj h)).2]
        · rw [← (Prod.mk.inj (Exec.ret.inj h)).2]
          rfl
  | newShare | deleteShare =>
      simp only [change, newShare, deleteShare, withAccessStructure] at h
      split at h
      · rw [(fail_eq h).2]
      · split at h
        · rw [(fail_eq h).2]
        · rw [← (Prod.mk.inj (Exec.ret.inj h)).2]
          rfl
  | deleteKey keyId => exact absurd rfl (hm keyId)

/-- Nonces that a device sends change nothing but the cache. -/
theorem Persistent.change_newNonces {deviceId : DeviceId} {segment : NonceSegment} {changed : Bool}
    (h : p.newNonces deviceId segment = .ret (changed, p')) :
    p' = { p with nonceCache := p'.nonceCache } ∧
      ∃ r, p.nonceCache.extendSegment deviceId segment = .ret (r, p'.nonceCache) := by
  obtain ⟨⟨r, cache⟩, hextend, hrest⟩ := Exec.bind_eq_ret_iff.1 h
  rw [hextend]
  cases r with
  | error e =>
      rw [(fail_eq hrest).2]
      exact ⟨rfl, _, rfl⟩
  | ok b =>
      rw [← (Prod.mk.inj (Exec.ret.inj hrest)).2]
      exact ⟨rfl, _, rfl⟩

omit [Build] in
/-- A session is not one that the coordinator has. -/
def Persistent.IsFresh (p : Persistent L) (session : ActiveSignSession L) : Prop :=
  session.sessionId ∉ p.activeSigningSessions ∧ session.sessionId ∉ p.finishedSigningSessions

omit [Build] in
/-- A session can be started: it is a new one, and uses streams that no active session uses. -/
structure Persistent.CanStart (p : Persistent L) (session : ActiveSignSession L) : Prop where
  fresh : p.IsFresh session
  unused : ∀ (deviceId : DeviceId) (nonces : CoordNonceStreamState),
    session.init.nonces[deviceId]? = some nonces → nonces.streamId ∉ p.allUsedNonceStreams

theorem Persistent.SessionsSound.change (h : p.SessionsSound) {fingerprint : Fingerprint}
    {m : Mutation L} {changed : Bool}
    (hstart : ∀ session, m = .signing (.newSigningSession session) → p.CanStart session)
    (hchange : p.change fingerprint m = .ret (changed, p')) : p'.SessionsSound := by
  cases m with
  | keygen m =>
      by_cases hm : ∃ keyId, m = .deleteKey keyId
      · obtain ⟨keyId, rfl⟩ := hm
        obtain ⟨-, -, rfl⟩ | ⟨-, -, hsound, -⟩ := h.deleteKey hchange
        · exact h
        · exact hsound
      · rw [change_keygen (fun keyId heq => hm ⟨keyId, heq⟩) hchange]
        exact h.of_same ⟨rfl, rfl, rfl⟩ h.wellNamed
  | signing m =>
      cases m with
      | newNonces deviceId segment =>
          obtain ⟨hsame, r, hextend⟩ := change_newNonces hchange
          rw [hsame]
          exact h.of_same ⟨rfl, rfl, rfl⟩ (NonceCache.extendSegment_grows hextend h.wellNamed).1
      | newSigningSession session =>
          obtain ⟨⟨hactive, hfinished⟩, hunused⟩ := hstart session rfl
          rw [← (Prod.mk.inj (Exec.ret.inj hchange)).2]
          exact h.newSigningSession hactive hfinished hunused
      | sentSignReq sessionId deviceId =>
          simp only [Persistent.change, sentSignReq] at hchange
          split at hchange
          · rw [← (Prod.mk.inj (Exec.ret.inj hchange)).2]
            exact h
          · rename_i session hsession
            rw [← (Prod.mk.inj (Exec.ret.inj hchange)).2]
            exact h.update hsession rfl
      | gotSignatureSharesFromDevice sessionId deviceId shares =>
          rw [← (Prod.mk.inj (Exec.ret.inj hchange)).2]
          unfold gotSignatureShares
          split
          · exact h
          · rename_i session hsession
            exact h.update hsession rfl
      | closeSignSession => exact h.closeSignSession hchange
      | forgetFinishedSignSession sessionId =>
          rw [← (Prod.mk.inj (Exec.ret.inj hchange)).2]
          exact h.forget sessionId
  | restoration m =>
      have hsame := change_restoration hchange
      refine h.of_same ⟨?_, ?_, ?_⟩ ?_
      · rw [hsame]
      · rw [hsame]
      · rw [hsame]
      · rw [hsame]
        exact h.wellNamed

end

/-- A share is of a device that an active session lists. -/
def Persistent.Lists (p : Persistent L) (ref : AccessStructureRef) (deviceId : DeviceId) : Prop :=
  ∃ (sessionId : SignSessionId) (session : ActiveSignSession L),
    p.activeSigningSessions[sessionId]? = some session ∧ session.accessStructureRef = ref ∧
      deviceId ∈ session.init.nonces

namespace Assumptions

variable (A : Assumptions L)

/-- No share is deleted of a device that an active session lists. -/
def KeepsListed : Prop := ∀ p ref deviceId, A.share p ref deviceId → ¬ p.Lists ref deviceId

/-- No device sends nonces that the coordinator has dropped. -/
def KeepsForward : Prop :=
  ∀ cache deviceId segment, A.segment cache deviceId segment → ¬ cache.ReachesBack deviceId segment

/-- Every session that is started is a new one. -/
def StartsFresh : Prop := ∀ p session, A.session p session → p.IsFresh session

theorem StartsFresh.canStart {A : Assumptions L} (hfresh : A.StartsFresh) {p : Persistent L}
    (hnamed : p.nonceCache.WellNamed) {session : ActiveSignSession L}
    (h : Permitted A p (.signing (.newSigningSession session))) : p.CanStart session := by
  obtain ⟨⟨ref, signTask, signingDevices, rng, hsession⟩, hA⟩ := h
  refine ⟨hfresh p session hA, fun deviceId nonces hget => ?_⟩
  obtain ⟨-, -, -, a, -, hnonces⟩ := Persistent.signSession_eq_ok hsession
  obtain ⟨-, subSegment, hsupplies, rfl⟩ := hnonces deviceId nonces hget
  exact (hsupplies.spec hnamed).1

/-- The devices whose shares a session needs: those that it has asked or heard of and, when no
share of a listed device is deleted, all that it lists. -/
def Needs (session : ActiveSignSession L) (deviceId : DeviceId) : Prop :=
  deviceId ∈ session.sentReqToDevice ∨ session.hasReceivedFrom deviceId = true ∨
    A.KeepsListed ∧ deviceId ∈ session.init.nonces

/-- The invariant of runs. -/
structure Inv (requests : List (RequestDeviceSign L)) (p : Persistent L) : Prop where
  sessions : p.SessionsSound
  keys : p.KeysSound
  records : p.Records A.Needs
  ledger : A.KeepsForward → Ledger requests p

end Assumptions

section

variable [Build] {A : Assumptions L} {requests : List (RequestDeviceSign L)}
  {p p' : Persistent L} {fingerprint : Fingerprint}

omit [Build] in
theorem Assumptions.Inv.empty : A.Inv [] (Persistent.empty L) where
  sessions := .empty
  keys :=
    { keyOrder_nodup := List.nodup_nil
      mem_keyOrder := fun keyId => by simp [Persistent.empty] }
  records := .empty
  ledger _ := .empty

omit [Build] in
/-- Changes of what is not about keys and sessions. -/
theorem Assumptions.Inv.of_same (h : A.Inv requests p) (hsame : p.SameSessions p')
    (hcache : p'.nonceCache = p.nonceCache) (hkeys : p'.keys = p.keys)
    (horder : p'.keyOrder = p.keyOrder) : A.Inv requests p' where
  sessions := h.sessions.of_same hsame (hcache ▸ h.sessions.wellNamed)
  keys :=
    { keyOrder_nodup := by rw [horder]; exact h.keys.keyOrder_nodup
      mem_keyOrder := by rw [horder, hkeys]; exact h.keys.mem_keyOrder }
  records := h.records.of_subset fun sessionId session hsession =>
    ⟨hsame.active ▸ hsession, by rw [hkeys]⟩
  ledger hforward := (h.ledger hforward).of_same hsame.active hcache

omit [Build] in
/-- A change of an access structure that is there. -/
theorem Assumptions.Inv.setAccessStructure (h : A.Inv requests p) {key : CoordFrostKey}
    (ref : AccessStructureRef) (hkey : p.keys[ref.keyId]? = some key) {new : CoordAccessStructure}
    (hkept : ∀ (sessionId : SignSessionId) (session : ActiveSignSession L)
      (a : CoordAccessStructure) (deviceId : DeviceId),
      p.activeSigningSessions[sessionId]? = some session → session.accessStructureRef = ref →
      key.completeKey.accessStructures[ref.accessStructureId]? = some a →
      A.Needs session deviceId → deviceId ∈ a.deviceToShareIndex →
      deviceId ∈ new.deviceToShareIndex) :
    A.Inv requests (p.setAccessStructure key ref.keyId ref.accessStructureId new) where
  sessions := h.sessions.of_same ⟨rfl, rfl, rfl⟩ h.sessions.wellNamed
  keys :=
    { keyOrder_nodup := h.keys.keyOrder_nodup
      mem_keyOrder := fun keyId => by
        rw [Persistent.setAccessStructure, BTreeMap.mem_insert, ← h.keys.mem_keyOrder]
        refine ⟨.inr, ?_⟩
        rintro (rfl | hmem)
        · exact (h.keys.mem_keyOrder _).2 (BTreeMap.mem_iff_getElem?.2 ⟨key, hkey⟩)
        · exact hmem }
  records := h.records.setAccessStructure hkey hkept
  ledger hforward := (h.ledger hforward).of_same rfl rfl

theorem Assumptions.Inv.withAccessStructure (h : A.Inv requests p) {ref : AccessStructureRef}
    {noAccessStructure noKey : String} {f : CoordAccessStructure → Bool × CoordAccessStructure}
    {changed : Bool}
    (hchange : p.withAccessStructure ref noAccessStructure noKey f = .ret (changed, p'))
    (hkept : ∀ (sessionId : SignSessionId) (session : ActiveSignSession L)
      (a : CoordAccessStructure) (deviceId : DeviceId),
      p.activeSigningSessions[sessionId]? = some session → session.accessStructureRef = ref →
      A.Needs session deviceId → deviceId ∈ a.deviceToShareIndex →
      deviceId ∈ (f a).2.deviceToShareIndex) : A.Inv requests p' := by
  unfold Persistent.withAccessStructure at hchange
  split at hchange
  · rw [(Persistent.fail_eq hchange).2]
    exact h
  · rename_i key hkey
    split at hchange
    · rw [(Persistent.fail_eq hchange).2]
      exact h
    · rename_i a ha
      obtain ⟨-, rfl⟩ := Prod.mk.inj (Exec.ret.inj hchange)
      refine h.setAccessStructure ref hkey fun sessionId session a' deviceId hsession href ha' => ?_
      obtain rfl := Option.some.inj (ha.symm.trans ha')
      exact hkept sessionId session a deviceId hsession href

omit [Build] in
/-- A session makes progress. -/
theorem Assumptions.Inv.update (h : A.Inv requests p) {sessionId : SignSessionId}
    {session session' : ActiveSignSession L} {a : CoordAccessStructure}
    (hsession : p.activeSigningSessions[sessionId]? = some session)
    (hinit : session'.init = session.init) (hkey : session'.keyId = session.keyId)
    (ha : p.getAccessStructure session.accessStructureRef = some a)
    (hsent : ∀ deviceId, deviceId ∈ session.sentReqToDevice →
      deviceId ∈ session'.sentReqToDevice)
    (hneeds : ∀ deviceId, A.Needs session' deviceId →
      A.Needs session deviceId ∨ deviceId ∈ a.deviceToShareIndex) :
    A.Inv requests { p with
      activeSigningSessions := p.activeSigningSessions.insert sessionId session' } where
  sessions := h.sessions.update hsession hinit
  keys := ⟨h.keys.keyOrder_nodup, h.keys.mem_keyOrder⟩
  records := h.records.update hsession
    (by rw [ActiveSignSession.accessStructureRef, hinit, hkey]; rfl) ha hneeds
  ledger hforward := (h.ledger hforward).update hsession hinit hsent

theorem Assumptions.Inv.keygen (h : A.Inv requests p) {m : KeyMutation} {changed : Bool}
    (hsound : p'.SessionsSound) (hpermitted : Permitted A p (.keygen m))
    (hchange : p.change fingerprint (.keygen m) = .ret (changed, p')) : A.Inv requests p' := by
  cases m with
  | newKey keyName purpose completeKey =>
      obtain ⟨-, rfl⟩ := Prod.mk.inj (Exec.ret.inj hchange)
      obtain ⟨hnew, -⟩ := hpermitted
      have hkeys : p.ensureKey completeKey keyName purpose = { p with
          keys := (p.ensureKey completeKey keyName purpose).keys
          keyOrder := p.keyOrder ++ [L.keyIdOfMasterAppkey completeKey.masterAppkey] } := by
        simp only [Persistent.ensureKey, hnew, ↓reduceIte]
      refine
        { sessions := hsound
          keys := ?_
          records := h.records.of_keys (by rw [hkeys]) fun _ session a _ ha =>
            ⟨a, Persistent.getAccessStructure_ensureKey ha _ _ _, fun _ _ => id⟩
          ledger := fun hforward =>
            (h.ledger hforward).of_same (by rw [hkeys]) (by rw [hkeys]) }
      simp only [Persistent.ensureKey, hnew, ↓reduceIte]
      constructor
      · refine List.nodup_append.2 ⟨h.keys.keyOrder_nodup, List.nodup_singleton _, ?_⟩
        rintro keyId hmem other hother rfl
        rw [List.mem_singleton.1 hother, h.keys.mem_keyOrder] at hmem
        exact hnew hmem
      · intro keyId
        rw [List.mem_append, List.mem_singleton, h.keys.mem_keyOrder, BTreeMap.mem_insert]
        exact or_comm
  | newAccessStructure sharedKey kind =>
      simp only [Persistent.change, Persistent.newAccessStructure] at hchange
      split at hchange
      · rw [(Persistent.fail_eq hchange).2]
        exact h
      · rename_i key hkey
        split at hchange
        · rw [← (Prod.mk.inj (Exec.ret.inj hchange)).2]
          exact h
        · rename_i hnew
          rw [← (Prod.mk.inj (Exec.ret.inj hchange)).2]
          refine h.setAccessStructure ⟨_, _⟩ hkey fun _ _ a _ _ _ ha => ?_
          exact absurd (BTreeMap.mem_iff_getElem?.2 ⟨a, ha⟩) hnew
  | newShare ref deviceId shareIndex =>
      refine h.withAccessStructure hchange fun _ _ a device _ _ _ hdevice => ?_
      exact BTreeMap.mem_insert.2 (.inr hdevice)
  | deleteShare ref deviceId =>
      obtain ⟨hinvolved, -, hshare⟩ := hpermitted
      refine h.withAccessStructure hchange fun sessionId session a device hsession href hneeds
        hdevice => BTreeMap.mem_erase.2 ⟨?_, hdevice⟩
      rintro rfl
      rw [List.any_eq_false] at hinvolved
      have hnot := hinvolved session (BTreeMap.mem_values.2 ⟨sessionId, hsession⟩)
      obtain hsent | hreceived | ⟨hkeeps, hlisted⟩ := hneeds
      · refine hnot ?_
        simp [Persistent.isInvolved, href, Std.ExtTreeSet.mem_iff_contains.1 hsent]
      · refine hnot ?_
        simp [Persistent.isInvolved, href, hreceived]
      · exact hkeeps p ref device hshare ⟨sessionId, session, hsession, href, hlisted⟩
  | deleteKey keyId =>
      obtain ⟨-, -, rfl⟩ | ⟨hmem, -, -, hledger, nonceCache, hp', -⟩ :=
        h.sessions.deleteKey hchange
      · exact h
      · refine
          { sessions := hsound
            keys := ?_
            records := h.records.of_subset fun sessionId session hsession => ?_
            ledger := fun hforward => hledger _ (h.ledger hforward) }
        · rw [hp']
          constructor
          · exact h.keys.keyOrder_nodup.filter _
          · intro other
            rw [List.mem_filter, decide_eq_true_eq, h.keys.mem_keyOrder, BTreeMap.mem_erase]
            exact and_comm
        · rw [hp'] at hsession ⊢
          rw [BTreeMap.getElem?_filter, Option.filter_eq_some_iff, decide_eq_true_eq,
            Persistent.mem_sessionsOfKey] at hsession
          obtain ⟨hsession, hother⟩ := hsession
          refine ⟨hsession, ?_⟩
          rw [BTreeMap.getElem?_erase, if_neg]
          rintro rfl
          exact hother ⟨session, hsession, rfl⟩

omit [Build] in
/-- Whom a session has received from, when it gets the shares of a device. -/
theorem hasReceivedFrom_addShares {session : ActiveSignSession L} {sender deviceId : DeviceId}
    {shares : List SignatureShare}
    (h : ActiveSignSession.hasReceivedFrom
      { session with progress := Persistent.addShares sender session.progress shares } deviceId =
        true) : session.hasReceivedFrom deviceId = true ∨ deviceId = sender := by
  unfold ActiveSignSession.hasReceivedFrom at h ⊢
  rcases hprogress : session.progress with - | ⟨progress, rest⟩
  · rw [hprogress] at h
    exact .inl h
  · rcases shares with - | ⟨share, shares⟩
    · rw [hprogress] at h
      exact .inl h
    · rw [hprogress] at h
      simp only [Persistent.addShares, List.head?_cons, Option.map_some, Option.getD_some,
        ← Std.ExtTreeMap.mem_iff_contains, BTreeMap.mem_insert] at h ⊢
      exact h.symm

omit [Build] in
/-- The signature shares of a device are checked against its recorded share. -/
theorem Persistent.recorded_of_checkSignatureShares {sender : DeviceId}
    {sessionId : SignSessionId} {signatureShares : List SignatureShare}
    {session : ActiveSignSession L} (hsession : p.activeSigningSessions[sessionId]? = some session)
    (h : p.checkSignatureShares sender sessionId signatureShares = .ret (.ok ())) :
    ∃ a, p.getAccessStructure session.accessStructureRef = some a ∧
      sender ∈ a.deviceToShareIndex := by
  simp only [checkSignatureShares, hsession] at h
  obtain ⟨a, ha, h⟩ := Exec.bind_eq_ret_iff.1 h
  rw [Exec.expect_eq_ret_iff] at ha
  refine ⟨a, ha, ?_⟩
  split at h
  · simp at h
  · rename_i index hindex
    exact BTreeMap.mem_iff_getElem?.2 ⟨index, hindex⟩

theorem Assumptions.Inv.signing (h : A.Inv requests p) {m : SigningMutation L} {changed : Bool}
    (hsound : p'.SessionsSound)
    (hstart : ∀ session, m = .newSigningSession session → p.CanStart session)
    (hpermitted : Permitted A p (.signing m))
    (hchange : p.change fingerprint (.signing m) = .ret (changed, p')) : A.Inv requests p' := by
  cases m with
  | newNonces deviceId segment =>
      obtain ⟨⟨r, cache⟩, hextend, hrest⟩ := Exec.bind_eq_ret_iff.1 hchange
      have hp' : p' = { p with nonceCache := cache } := by
        cases r with
        | error e => exact (Persistent.fail_eq hrest).2
        | ok b => exact (Prod.mk.inj (Exec.ret.inj hrest)).2.symm
      subst hp'
      have hgrows := (NonceCache.extendSegment_grows hextend h.sessions.wellNamed).2
      exact
        { sessions := hsound
          keys := ⟨h.keys.keyOrder_nodup, h.keys.mem_keyOrder⟩
          records := h.records.of_subset fun _ _ hsession => ⟨hsession, rfl⟩
          ledger := fun hforward =>
            (h.ledger hforward).of_grows rfl (hgrows (hforward _ _ _ hpermitted)) }
  | newSigningSession session =>
      obtain ⟨-, rfl⟩ := Prod.mk.inj (Exec.ret.inj hchange)
      obtain ⟨⟨ref, signTask, signingDevices, rng, hsession⟩, -⟩ := hpermitted
      obtain ⟨rfl, hsent, hreceived, a, ha, hnonces⟩ := Persistent.signSession_eq_ok hsession
      refine
        { sessions := hsound
          keys := ⟨h.keys.keyOrder_nodup, h.keys.mem_keyOrder⟩
          records := h.records.newSigningSession ha ?_
          ledger := fun hforward => (h.ledger hforward).newSigningSession
            h.sessions.wellNamed (hstart session rfl).fresh.1 fun deviceId nonces hget =>
              (hnonces deviceId nonces hget).2 }
      · rintro deviceId (hdevice | hdevice | ⟨-, hdevice⟩)
        · rw [hsent] at hdevice
          exact absurd hdevice Std.ExtTreeSet.not_mem_empty
        · rw [hreceived deviceId] at hdevice
          cases hdevice
        · obtain ⟨nonces, hget⟩ := BTreeMap.mem_iff_getElem?.1 hdevice
          exact (hnonces deviceId nonces hget).1
  | sentSignReq sessionId deviceId =>
      obtain ⟨session, a, hsession, hlisted, ha, hdevice⟩ := hpermitted
      simp only [Persistent.change, Persistent.sentSignReq, hsession] at hchange
      rw [← (Prod.mk.inj (Exec.ret.inj hchange)).2]
      refine h.update hsession rfl rfl ha (fun device hsent => ?_) fun device hneeds => ?_
      · exact Std.ExtTreeSet.mem_insert.2 (.inr hsent)
      · obtain hsent | hreceived | hkeeps := hneeds
        · rw [Std.ExtTreeSet.mem_insert, Std.compare_eq_iff_eq] at hsent
          obtain rfl | hsent := hsent
          · exact .inr hdevice
          · exact .inl (.inl hsent)
        · exact .inl (.inr (.inl hreceived))
        · exact .inl (.inr (.inr hkeeps))
  | gotSignatureSharesFromDevice sessionId deviceId shares =>
      obtain ⟨-, rfl⟩ := Prod.mk.inj (Exec.ret.inj hchange)
      unfold Persistent.gotSignatureShares
      split
      · exact h
      · rename_i session hsession
        obtain ⟨a, ha, hdevice⟩ := Persistent.recorded_of_checkSignatureShares hsession hpermitted
        refine h.update hsession rfl rfl ha (fun _ => id) fun device hneeds => ?_
        obtain hsent | hreceived | hkeeps := hneeds
        · exact .inl (.inl hsent)
        · obtain hreceived | rfl := hasReceivedFrom_addShares hreceived
          · exact .inl (.inr (.inl hreceived))
          · exact .inr hdevice
        · exact .inl (.inr (.inr hkeeps))
  | closeSignSession sessionId finished =>
      refine
        { sessions := hsound
          keys := ?_
          records := ?_
          ledger := fun hforward =>
            (h.ledger hforward).closeSignSession h.sessions.wellNamed hchange }
      · obtain ⟨-, -, rfl⟩ | ⟨-, -, session, nonceCache, -, -, rfl⟩ :=
          Persistent.closeSignSession_eq hchange
        · exact h.keys
        · exact ⟨h.keys.keyOrder_nodup, h.keys.mem_keyOrder⟩
      · obtain ⟨-, -, rfl⟩ | ⟨-, -, session, nonceCache, -, -, rfl⟩ :=
          Persistent.closeSignSession_eq hchange
        · exact h.records
        · refine h.records.of_subset fun id other hother => ⟨?_, rfl⟩
          rw [BTreeMap.getElem?_erase] at hother
          split at hother
          · cases hother
          · exact hother
  | forgetFinishedSignSession sessionId =>
      obtain ⟨-, rfl⟩ := Prod.mk.inj (Exec.ret.inj hchange)
      exact
        { sessions := hsound
          keys := ⟨h.keys.keyOrder_nodup, h.keys.mem_keyOrder⟩
          records := h.records.of_subset fun _ _ hsession => ⟨hsession, rfl⟩
          ledger := fun hforward => (h.ledger hforward).of_same rfl rfl }

theorem Assumptions.Inv.step (h : A.Inv requests p) (hfresh : A.StartsFresh) {m : Mutation L}
    {changed : Bool} (hpermitted : Permitted A p m)
    (hchange : p.change fingerprint m = .ret (changed, p')) : A.Inv requests p' := by
  have hstart : ∀ session, m = .signing (.newSigningSession session) → p.CanStart session := by
    rintro session rfl
    exact hfresh.canStart h.sessions.wellNamed hpermitted
  have hsound := h.sessions.change hstart hchange
  cases m with
  | keygen m => exact h.keygen hsound hpermitted hchange
  | signing m =>
      exact h.signing hsound (fun session hm => hstart session (hm ▸ rfl)) hpermitted hchange
  | restoration m =>
      have hsame := Persistent.change_restoration hchange
      refine h.of_same ⟨?_, ?_, ?_⟩ ?_ ?_ ?_
      all_goals rw [hsame]

theorem Assumptions.Inv.chain (h : A.Inv requests p) (hfresh : A.StartsFresh)
    {ms : List (Mutation L)} (hchain : Chain A fingerprint p ms p') : A.Inv requests p' := by
  induction hchain with
  | nil p => exact h
  | recorded permitted applied rest ih | ignored permitted applied rest ih =>
      obtain ⟨⟨changed, q⟩, hchange, hq⟩ := Exec.bind_eq_ret_iff.1 applied
      obtain ⟨-, rfl⟩ := Prod.mk.inj (Exec.ret.inj hq)
      exact ih (h.step hfresh permitted hchange)

/-! ### Runs -/

/-- The request that an operation sends. -/
def FrostCoordinator.requestOf (s : FrostCoordinator L) : Op L → List (RequestDeviceSign L)
  | .requestDeviceSign sessionId deviceId encryptionKey =>
      match s.requestDeviceSign sessionId deviceId encryptionKey with
      | .ret (request, _) => [request]
      | .panic _ => []
  | _ => []

/-- The states of a run, with all the requests to sign that it has sent. -/
inductive Requested (A : Assumptions L) :
    List (RequestDeviceSign L) → FrostCoordinator L → Prop where
  | new : Requested A [] (.new L)
  | perform {requests : List (RequestDeviceSign L)} {s s' : FrostCoordinator L} {op : Op L}
      {failed : Bool} (h : Requested A requests s) (hA : op.Satisfies A s)
      (hop : s.perform op = .ret (failed, s')) : Requested A (requests ++ s.requestOf op) s'
  | takeStagedMutations {requests : List (RequestDeviceSign L)} {s : FrostCoordinator L}
      (h : Requested A requests s) : Requested A requests { s with mutations := [] }

/-- A request is of an active session that has been asked for it. -/
theorem FrostCoordinator.requestDeviceSign_isOf {s s' : FrostCoordinator L}
    {sessionId : SignSessionId} {deviceId : DeviceId} {encryptionKey : SymmetricKey}
    {request : RequestDeviceSign L}
    (h : s.requestDeviceSign sessionId deviceId encryptionKey = .ret (request, s')) :
    ∃ session, s'.activeSigningSessions[sessionId]? = some session ∧ request.IsOf session ∧
      request.deviceId ∈ session.sentReqToDevice := by
  obtain ⟨session, nonces, a, hsession, hnonces, -, -, rfl, hgroup, rfl, hmutate⟩ :=
    requestDeviceSign_eq h
  obtain ⟨reduced, happly, -⟩ := mutate_eq hmutate
  obtain ⟨⟨changed, q⟩, hchange, hq⟩ := Exec.bind_eq_ret_iff.1 happly
  obtain ⟨-, rfl⟩ := Prod.mk.inj (Exec.ret.inj hq)
  simp only [Persistent.change, Persistent.sentSignReq, hsession] at hchange
  rw [← (Prod.mk.inj (Exec.ret.inj hchange)).2]
  refine ⟨{ session with
    sentReqToDevice := session.sentReqToDevice.insert request.deviceId }, ?_, ⟨hgroup, hnonces⟩,
    Std.ExtTreeSet.mem_insert_self⟩
  rw [BTreeMap.getElem?_insert, if_pos rfl]

theorem Requested.inv {s : FrostCoordinator L} (h : Requested A requests s)
    (hfresh : A.StartsFresh) : A.Inv requests s.toPersistent := by
  induction h with
  | new => exact .empty
  | @perform requests s s' op failed h hA hop ih =>
      obtain ⟨ms, hmutated⟩ := FrostCoordinator.perform_mutates hA _ hop
      have hinv := ih.chain hfresh hmutated.chain
      unfold FrostCoordinator.requestOf
      split
      · rename_i sessionId deviceId encryptionKey
        split
        · rename_i request t hrequest
          obtain ⟨-, request', hrequest'⟩ := FrostCoordinator.done_eq hop
          obtain ⟨rfl, rfl⟩ := Prod.mk.inj (Exec.ret.inj (hrequest.symm.trans hrequest'))
          obtain ⟨session, hsession, hof, hsent⟩ :=
            FrostCoordinator.requestDeviceSign_isOf hrequest
          exact
            { hinv with
              ledger := fun hforward =>
                (hinv.ledger hforward).request hinv.sessions hsession hof hsent }
        · rw [List.append_nil]
          exact hinv
      · rw [List.append_nil]
        exact hinv
  | takeStagedMutations h ih => exact ih

/-- A request for a listed device whose share is recorded can be made with the right key. -/
theorem FrostCoordinator.requestDeviceSign_returns {s : FrostCoordinator L}
    {sessionId : SignSessionId} {session : ActiveSignSession L} {key : CoordFrostKey}
    {a : CoordAccessStructure} {deviceId : DeviceId} {encryptionKey : SymmetricKey}
    {rootSharedKey : SharedKey} (hsession : s.activeSigningSessions[sessionId]? = some session)
    (hlisted : deviceId ∈ session.init.nonces) (hkey : s.keys[session.keyId]? = some key)
    (ha : s.getAccessStructure session.accessStructureRef = some a)
    (hrecorded : deviceId ∈ a.deviceToShareIndex)
    (hroot : key.completeKey.rootSharedKey L session.init.groupRequest.accessStructureId
      encryptionKey = .ret (some rootSharedKey)) :
    (s.requestDeviceSign sessionId deviceId encryptionKey).Returns := by
  obtain ⟨nonces, hnonces⟩ := BTreeMap.mem_iff_getElem?.1 hlisted
  obtain ⟨shareIndex, hindex⟩ := BTreeMap.mem_iff_getElem?.1 hrecorded
  have hstructure : key.completeKey.accessStructures[
      session.init.groupRequest.accessStructureId]? = some a := by
    rw [Persistent.getAccessStructure, ActiveSignSession.accessStructureRef, hkey] at ha
    exact ha
  obtain ⟨s', hmutate⟩ : ∃ s', s.mutate (.signing (.sentSignReq sessionId deviceId)) = .ret s' :=
    mutate_returns (s := s) (m := .signing (.sentSignReq sessionId deviceId)) rfl
  rw [requestDeviceSign, hsession, Exec.expect_some, Exec.ret_bind, hnonces, Exec.expect_some,
    Exec.ret_bind, hkey, Exec.expect_some, Exec.ret_bind,
    CompleteKey.coordShareDecryptionContrib_of_recorded hroot hstructure hindex, Exec.ret_bind,
    Exec.expect_some, Exec.ret_bind, hmutate]
  exact Exec.returns_ret _

/-- **Signing sessions.** In every run that starts only new sessions the active sessions and the
keys are in order, and the access structure of every active session records the shares of the
devices it has asked or heard of, and of all it lists when no such share is deleted. When no
device sends nonces that were dropped, no nonce is in the requests of two sessions. -/
theorem sessions_sound (A : Assumptions L) (hfresh : A.StartsFresh)
    (requests : List (RequestDeviceSign L)) (s : FrostCoordinator L) (h : Requested A requests s) :
    s.SessionsSound ∧ s.KeysSound ∧ s.Records A.Needs ∧
      (A.KeepsForward → ∀ r ∈ requests, ∀ r' ∈ requests, r.SharesNonce r' → r.Same r') ∧
      ∀ (sessionId : SignSessionId) (session : ActiveSignSession L) (key : CoordFrostKey)
        (a : CoordAccessStructure) (deviceId : DeviceId) (encryptionKey : SymmetricKey)
        (rootSharedKey : SharedKey), s.activeSigningSessions[sessionId]? = some session →
        deviceId ∈ session.init.nonces → s.keys[session.keyId]? = some key →
        s.getAccessStructure session.accessStructureRef = some a →
        deviceId ∈ a.deviceToShareIndex →
        key.completeKey.rootSharedKey L session.init.groupRequest.accessStructureId
          encryptionKey = .ret (some rootSharedKey) →
        (s.requestDeviceSign sessionId deviceId encryptionKey).Returns := by
  have hinv := h.inv hfresh
  refine ⟨hinv.sessions, hinv.keys, hinv.records, fun hforward => (hinv.ledger hforward).distinct,
    ?_⟩
  intro sessionId session key a deviceId encryptionKey rootSharedKey hsession hlisted hkey ha
    hrecorded hroot
  exact FrostCoordinator.requestDeviceSign_returns hsession hlisted hkey ha hrecorded hroot

end

section

attribute [local instance] Build.release

/-- The state that an operation leaves. -/
def FrostCoordinator.after (s : FrostCoordinator plainLib) (op : Op plainLib) :
    FrostCoordinator plainLib :=
  match s.perform op with
  | .ret (_, s') => s'
  | .panic _ => s

theorem Requested.after {A : Assumptions plainLib} {requests : List (RequestDeviceSign plainLib)}
    {s : FrostCoordinator plainLib} (h : Requested A requests s) (op : Op plainLib)
    (hA : op.Satisfies A s) : Requested A (requests ++ s.requestOf op) (s.after op) := by
  cases hop : s.perform op with
  | ret r =>
      rw [FrostCoordinator.after, hop]
      exact .perform h hA hop
  | panic msg =>
      have hnone : s.requestOf op = [] := by
        unfold FrostCoordinator.requestOf
        split
        · split
          · rename_i hrequest
            simp [FrostCoordinator.perform, FrostCoordinator.done, hrequest] at hop
          · rfl
        · rfl
      rw [FrostCoordinator.after, hop, hnone, List.append_nil]
      exact h

/-- A share of a one of one key. -/
def oneShare : RecoverShare where
  heldBy := 1
  heldShare :=
    { accessStructureRef := none
      shareImage := { index := 1, image := 9 }
      threshold := some 1
      keyName := some ""
      purpose := some .test
      needsConsolidation := false }

/-- The access structure that is restored from it. -/
def oneShareRef : AccessStructureRef where
  keyId := 237
  accessStructureId := 228

/-- Two nonces of its device. -/
def twoNonces : NonceSegment where
  streamId := 1
  nonces := [5, 6]
  index := 0

/-- The device sends its nonces. -/
def sendNonces : Op plainLib := .recvDeviceMessage 1 (.signing (.nonceResponse [twoNonces]))

/-- A session with the device is started. -/
def startOneShare (seed : ℕ) : Op plainLib :=
  .startSign oneShareRef (1 : ℕ) (.ofList [1] compare) fun _ => seed

/-- A coordinator that has restored the key and has the nonces. -/
def oneShareRestored : FrostCoordinator plainLib :=
  (((FrostCoordinator.new plainLib).after (.startRestoringKeyFromRecoverShare oneShare 1)).after
    (.finishRestoring 1 0 (0 : ℕ))).after sendNonces

/-- Every session is new, and no share of a listed device is deleted. -/
def newSessionsOnly : Assumptions plainLib where
  segment _ _ _ := True
  session := Persistent.IsFresh
  share p ref deviceId := ¬ p.Lists ref deviceId
  key _ _ := True

theorem satisfies_sendNonces (s : FrostCoordinator plainLib) :
    sendNonces.Satisfies newSessionsOnly s := ⟨trivial, fun _ _ _ => trivial⟩

theorem isFresh_of_keys_eq_nil {p : Persistent plainLib} {session : ActiveSignSession plainLib}
    (hactive : p.activeSigningSessions.keys = [])
    (hfinished : p.finishedSigningSessions.keys = []) :
    p.IsFresh session := by
  constructor
  · rw [← Std.ExtTreeMap.mem_keys, hactive]
    exact List.not_mem_nil
  · rw [← Std.ExtTreeMap.mem_keys, hfinished]
    exact List.not_mem_nil

/-- A coordinator that has restored the key. -/
def oneShareKey : FrostCoordinator plainLib :=
  ((FrostCoordinator.new plainLib).after (.startRestoringKeyFromRecoverShare oneShare 1)).after
    (.finishRestoring 1 0 (0 : ℕ))

theorem requested_oneShareRestored {A : Assumptions plainLib}
    (hA : sendNonces.Satisfies A oneShareKey) : Requested A [] oneShareRestored :=
  ((Requested.new.after (.startRestoringKeyFromRecoverShare oneShare 1) trivial).after
    (.finishRestoring 1 0 (0 : ℕ)) trivial).after sendNonces hA

/-- Every session is new, no share of a listed device is deleted, and no device sends nonces that
were dropped. -/
def forwardOnly : Assumptions plainLib where
  segment cache deviceId segment := ¬ cache.ReachesBack deviceId segment
  session := Persistent.IsFresh
  share p ref deviceId := ¬ p.Lists ref deviceId
  key _ _ := True

theorem satisfies_forwardOnly_sendNonces : sendNonces.Satisfies forwardOnly oneShareKey := by
  refine ⟨?_, fun _ _ _ => trivial⟩
  rintro ⟨own, hown, -⟩
  cases (rfl : oneShareKey.nonceCache.segment? 1 twoNonces.streamId = none).symm.trans hown

/-- A session is cancelled once its request was made, and another one is started and requested. -/
theorem sessions_sound_of_oneShare :
    ∃ requests s, Requested forwardOnly requests s ∧
      requests.map (fun r => (r.deviceId, r.nonces.index)) = [(1, 0), (1, 1)] ∧
      s.activeSigningSessions.keys = [454] ∧
      s.SessionsSound ∧ s.KeysSound ∧ s.Records forwardOnly.Needs ∧
      ∀ r ∈ requests, ∀ r' ∈ requests, r.SharesNonce r' → r.Same r' := by
  have hrestored := requested_oneShareRestored satisfies_forwardOnly_sendNonces
  have hcancelled := ((hrestored.after (startOneShare 0)
    fun _ _ => isFresh_of_keys_eq_nil (by decide +kernel) (by decide +kernel)).after
      (.requestDeviceSign 452 1 0) trivial).after (.cancelSignSession 452) trivial
  have hrun := (hcancelled.after (startOneShare 1)
    fun _ _ => isFresh_of_keys_eq_nil (by decide +kernel) (by decide +kernel)).after
      (.requestDeviceSign 454 1 0) trivial
  obtain ⟨hsessions, hkeys, hrecords, hdistinct, -⟩ :=
    sessions_sound forwardOnly (fun _ _ hfresh => hfresh) _ _ hrun
  exact ⟨_, _, hrun, by decide +kernel, by decide +kernel, hsessions, hkeys, hrecords,
    hdistinct fun _ _ _ hforward => hforward⟩

/-- The nonces of a cancelled session that the device sends again are in a second request. -/
theorem cancelled_nonces_requested_again :
    ¬ ∀ (A : Assumptions plainLib) (requests : List (RequestDeviceSign plainLib))
      (s : FrostCoordinator plainLib), A.StartsFresh → A.KeepsListed → Requested A requests s →
      ∀ r ∈ requests, ∀ r' ∈ requests, r.SharesNonce r' → r.Same r' := by
  intro hall
  have hrestored := requested_oneShareRestored (satisfies_sendNonces oneShareKey)
  have hcancelled := (((hrestored.after (startOneShare 0)
    fun _ _ => isFresh_of_keys_eq_nil (by decide +kernel) (by decide +kernel)).after
      (.requestDeviceSign 452 1 0) trivial).after (.cancelSignSession 452) trivial).after sendNonces
        (satisfies_sendNonces _)
  have hrun := (hcancelled.after (startOneShare 1)
    fun _ _ => isFresh_of_keys_eq_nil (by decide +kernel) (by decide +kernel)).after
      (.requestDeviceSign 453 1 0) trivial
  obtain ⟨requests, s, hrun, hfields⟩ : ∃ requests s, Requested newSessionsOnly requests s ∧
      requests.map (fun r => (r.deviceId, r.nonces, r.requestSign.groupSignReq.aggNonces)) =
        [(1, { streamId := 1, index := 0, remaining := 1 }, [5]),
          (1, { streamId := 1, index := 0, remaining := 1 }, [6])] :=
    ⟨_, _, hrun, by decide +kernel⟩
  obtain ⟨r, rest, rfl, hr, hrest⟩ := List.map_eq_cons_iff.1 hfields
  obtain ⟨r', rest', rfl, hr', -⟩ := List.map_eq_cons_iff.1 hrest
  simp only [Prod.mk.injEq] at hr hr'
  obtain ⟨hdevice, hnonces, haggNonces⟩ := hr
  obtain ⟨hdevice', hnonces', haggNonces'⟩ := hr'
  have hshares : r.SharesNonce r' := by
    refine ⟨hdevice.trans hdevice'.symm, by rw [hnonces, hnonces'], 0, ?_⟩
    simp only [RequestDeviceSign.afterLast, GroupSignReq.nSignatures, hnonces, hnonces',
      haggNonces, haggNonces']
    decide
  have hsame := hall newSessionsOnly _ _ (fun _ _ hfresh => hfresh) (fun _ _ _ hshare => hshare)
    hrun r (by simp) r' (by simp) hshares
  rw [RequestDeviceSign.Same] at hsame
  rw [hsame.1, haggNonces'] at haggNonces
  exact absurd haggNonces (by decide +kernel)

end

end Frostsnap.Coordinator
