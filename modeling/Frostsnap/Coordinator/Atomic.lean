import Frostsnap.Coordinator.Steps
import Frostsnap.Coordinator.PlainLib

/-!
# Operations that fail

What an operation that returns an error leaves behind. Those that check before they change
anything leave the coordinator as it was. A message about a key generation, and finalizing one,
take it out of the pending ones first and do not put it back on every path that fails; and a nonce
response is added segment by segment until one cannot be added.

## Main results

* `failed_unchanged_iff`: exactly which failed operations leave the coordinator as it was.
-/

namespace Frostsnap.Coordinator

variable {L : FrostLib}

/-- The persistent state, the pending key generations and the staged mutations are the same. -/
structure Unchanged (s s' : FrostCoordinator L) : Prop where
  persistent : s'.toPersistent = s.toPersistent
  pendingKeygens : s'.pendingKeygens = s.pendingKeygens
  mutations : s'.mutations = s.mutations

theorem Unchanged.refl (s : FrostCoordinator L) : Unchanged s s := ⟨rfl, rfl, rfl⟩

section

variable [Build]

/-- The cache has what a segment says. -/
def Covers (cache : NonceCache) (sender : DeviceId) (segment : NonceSegment) : Prop :=
  ∃ own, cache.segment? sender segment.streamId = some own ∧ own._extend segment = .ret (.ok own)

/-- The cache has what the segments of a message say, up to the first one that it cannot be
extended by. -/
def CoversUntilError (cache : NonceCache) (sender : DeviceId) : List NonceSegment → Prop
  | [] => True
  | segment :: rest =>
      (∃ e, cache.checkCanExtend sender segment = .ret (.error e)) ∨
        Covers cache sender segment ∧ CoversUntilError cache sender rest

/-- When an operation that fails leaves the coordinator as it was: a nonce response, when no
segment before the one that fails is new; a message about a key generation that is pending, when
it is an acknowledgement that was waited for; and finalizing a key generation, when there is
none. -/
def FailsClean (s : FrostCoordinator L) : Op L → Prop
  | .recvDeviceMessage sender (.signing (.nonceResponse segments)) =>
      CoversUntilError s.nonceCache sender segments
  | .recvDeviceMessage _ (.keyGen (.response keygenId _))
  | .recvDeviceMessage _ (.keyGen (.certify keygenId _))
  | .finalizeKeygen keygenId _ _ => keygenId ∉ s.pendingKeygens
  | .recvDeviceMessage _ (.keyGen (.ack keygenId _)) =>
      keygenId ∉ s.pendingKeygens ∨
        ∃ state, s.pendingKeygens[keygenId]? = some (.waitingForAcks state)
  | _ => True

/-! ### Nonce responses -/

theorem checkCanExtend_ok {cache : NonceCache} {sender : DeviceId} {segment own : NonceSegment}
    (hown : cache.segment? sender segment.streamId = some own)
    (h : cache.checkCanExtend sender segment = .ret (.ok ())) :
    ∃ new, own._extend segment = .ret (.ok new) := by
  rw [NonceCache.checkCanExtend, hown] at h
  exact NonceStreamSegment.checkCanExtend_eq_ok_iff.1 h

/-- A segment that the cache covers passes the check and changes nothing. -/
theorem Covers.extendSegment {cache cache' : NonceCache} {sender : DeviceId}
    {segment : NonceSegment} {r : Except NonceSegmentIncompatible Bool}
    (hcovers : Covers cache sender segment)
    (h : cache.extendSegment sender segment = .ret (r, cache')) :
    r = .ok false ∧ cache' = cache := by
  obtain ⟨own, hown, hextend⟩ := hcovers
  have hself : cache.ownSegment sender segment.streamId = own := by
    rw [NonceCache.ownSegment, hown, Option.getD_some]
  obtain ⟨e, he, -⟩ | ⟨new, hnew, rfl, rfl⟩ := NonceCache.extendSegment_cases h
  · rw [hself, hextend] at he
    cases he
  · rw [hself, hextend] at hnew
    obtain rfl : own = new := by simpa using hnew
    exact ⟨by simp [hself], NonceCache.setSegment_of_segment? hown⟩

namespace FrostCoordinator

variable {s s' : FrostCoordinator L} {sender : DeviceId}

/-- Adding a segment stages it or not, and leaves the cache extended by it. -/
theorem mutate_newNonces {segment : NonceSegment}
    (h : s.mutate (.signing (.newNonces sender segment)) = .ret s') :
    ∃ changed : Bool, s.toPersistent.newNonces sender segment = .ret (changed, s'.toPersistent) ∧
      s' = { s with
        toPersistent := s'.toPersistent
        mutations := s.mutations ++
          if changed then [.signing (.newNonces sender segment)] else [] } := by
  obtain ⟨⟨reduced, t⟩, happly, h⟩ := Exec.bind_eq_ret_iff.1 h
  obtain ⟨⟨reduced', p⟩, hp, hret⟩ := Exec.bind_eq_ret_iff.1 happly
  obtain ⟨⟨changed, p'⟩, hchange, hp⟩ := Exec.bind_eq_ret_iff.1 hp
  obtain ⟨rfl, rfl⟩ := Prod.mk.inj (Exec.ret.inj hp)
  obtain ⟨rfl, rfl⟩ := Prod.mk.inj (Exec.ret.inj hret)
  cases changed with
  | true =>
      obtain rfl := Exec.ret.inj h
      exact ⟨true, hchange, rfl⟩
  | false =>
      obtain rfl := Exec.ret.inj h
      exact ⟨false, hchange, by simp⟩

/-- Adding a segment that the cache covers changes nothing. -/
theorem mutate_covered {segment : NonceSegment} (hcovers : Covers s.nonceCache sender segment)
    (h : s.mutate (.signing (.newNonces sender segment)) = .ret s') : s' = s := by
  obtain ⟨changed, hnew, hs'⟩ := mutate_newNonces h
  obtain ⟨⟨r, cache⟩, hextend, hnew⟩ := Exec.bind_eq_ret_iff.1 hnew
  obtain ⟨rfl, rfl⟩ := hcovers.extendSegment hextend
  obtain ⟨rfl, hp⟩ := Prod.mk.inj (Exec.ret.inj hnew)
  rw [hs', ← hp]
  simp

/-- A stream that the cache knows stays known. -/
theorem segment?_of_mutate {segment : NonceSegment} {streamId : NonceStreamId}
    (h : s.mutate (.signing (.newNonces sender segment)) = .ret s')
    (hknown : s.nonceCache.segment? sender streamId ≠ none ∨ segment.streamId = streamId) :
    s'.nonceCache.segment? sender streamId ≠ none := by
  obtain ⟨r, hextend⟩ := extendSegment_of_mutate h
  have hset : ∃ new, s'.nonceCache = s.nonceCache.setSegment sender segment.streamId new := by
    obtain ⟨e, -, -, hcache⟩ | ⟨new, -, -, hcache⟩ := NonceCache.extendSegment_cases hextend
    · exact ⟨_, hcache⟩
    · exact ⟨new, hcache⟩
  obtain ⟨new, hcache⟩ := hset
  rw [hcache, NonceCache.segment?_setSegment]
  split
  · exact nofun
  · rename_i hne
    obtain hknown | hid := hknown
    · exact hknown
    · exact absurd ⟨rfl, hid⟩ hne

theorem recvNonceSegments_known {segments : List NonceSegment} {r : Except Error Unit}
    {streamId : NonceStreamId} (h : recvNonceSegments sender segments s = .ret (r, s'))
    (hknown : s.nonceCache.segment? sender streamId ≠ none) :
    s'.nonceCache.segment? sender streamId ≠ none := by
  induction segments generalizing s with
  | nil =>
      obtain ⟨-, rfl⟩ := Prod.mk.inj (Exec.ret.inj h)
      exact hknown
  | cons segment rest ih =>
      obtain ⟨check, -, h⟩ := Exec.bind_eq_ret_iff.1 h
      cases check with
      | error e =>
          obtain ⟨-, rfl⟩ := Prod.mk.inj (Exec.ret.inj h)
          exact hknown
      | ok u =>
          obtain ⟨t, ht, h⟩ := Exec.bind_eq_ret_iff.1 h
          exact ih h (segment?_of_mutate ht (.inl hknown))

/-- Staged mutations are only added to. -/
theorem recvNonceSegments_staged {segments : List NonceSegment} {r : Except Error Unit}
    (h : recvNonceSegments sender segments s = .ret (r, s')) :
    ∃ ms, s'.mutations = s.mutations ++ ms := by
  obtain ⟨ms, hms⟩ := recvNonceSegments_mutates (A := .none)
    (segmentsSatisfy_none sender segments s.nonceCache) _ h
  exact ⟨ms, hms.staged⟩

/-- A segment that was added without a trace was covered. -/
theorem covers_of_unchanged {segment : NonceSegment} {t : FrostCoordinator L}
    (hcheck : s.nonceCache.checkCanExtend sender segment = .ret (.ok ()))
    (ht : s.mutate (.signing (.newNonces sender segment)) = .ret t)
    (hstaged : t.mutations = s.mutations)
    (hknown : s.nonceCache.segment? sender segment.streamId ≠ none) :
    Covers s.nonceCache sender segment := by
  obtain ⟨own, hown⟩ := Option.ne_none_iff_exists'.1 hknown
  obtain ⟨new, hnew⟩ := checkCanExtend_ok hown hcheck
  obtain ⟨changed, hchange, hs⟩ := mutate_newNonces ht
  have hself : s.nonceCache.ownSegment sender segment.streamId = own := by
    rw [NonceCache.ownSegment, hown, Option.getD_some]
  have hchanged : changed = false := by
    rw [hs] at hstaged
    cases changed with
    | true => simp at hstaged
    | false => rfl
  obtain ⟨⟨r, cache⟩, hextend, hchange⟩ := Exec.bind_eq_ret_iff.1 hchange
  obtain ⟨e, he, -⟩ | ⟨new', hnew', rfl, rfl⟩ := NonceCache.extendSegment_cases hextend
  · rw [hself, hnew] at he
    cases he
  · obtain ⟨hc, -⟩ := Prod.mk.inj (Exec.ret.inj hchange)
    rw [hchanged, decide_eq_false_iff_not, not_not, hself] at hc
    rw [hself, hc] at hnew'
    exact ⟨own, hown, hnew'⟩

theorem recvNonceSegments_unchanged_iff {segments : List NonceSegment} {e : Error}
    (h : recvNonceSegments sender segments s = .ret (.error e, s')) :
    Unchanged s s' ↔ CoversUntilError s.nonceCache sender segments := by
  induction segments generalizing s with
  | nil => cases (Prod.mk.inj (Exec.ret.inj h)).1
  | cons segment rest ih =>
      obtain ⟨check, hcheck, h⟩ := Exec.bind_eq_ret_iff.1 h
      cases check with
      | error e' =>
          obtain ⟨-, rfl⟩ := Prod.mk.inj (Exec.ret.inj h)
          exact iff_of_true (.refl s) (.inl ⟨e', hcheck⟩)
      | ok u =>
          obtain ⟨t, ht, hrest⟩ := Exec.bind_eq_ret_iff.1 h
          have hnoError : ¬ ∃ e, s.nonceCache.checkCanExtend sender segment = .ret (.error e) := by
            rintro ⟨e', he'⟩
            rw [hcheck] at he'
            cases he'
          rw [CoversUntilError, or_iff_right hnoError]
          constructor
          · intro hsame
            have hstaged : t.mutations = s.mutations := by
              obtain ⟨changed, -, hs⟩ := mutate_newNonces ht
              obtain ⟨ms, hms⟩ := recvNonceSegments_staged hrest
              have hlength := congrArg List.length hms
              rw [hsame.mutations, hs] at hlength
              rw [hs]
              cases changed with
              | true =>
                  simp only [List.length_append, ↓reduceIte, List.length_cons] at hlength
                  omega
              | false => simp
            have hknown : s.nonceCache.segment? sender segment.streamId ≠ none := by
              have hafter := recvNonceSegments_known hrest (segment?_of_mutate ht (.inr rfl))
              rwa [hsame.persistent] at hafter
            have hcovers := covers_of_unchanged hcheck ht hstaged hknown
            obtain rfl := mutate_covered hcovers ht
            exact ⟨hcovers, (ih hrest).1 hsame⟩
          · rintro ⟨hcovers, huntil⟩
            obtain rfl := mutate_covered hcovers ht
            exact (ih hrest).2 huntil

theorem recvNonceResponse_unchanged_iff {segments : List NonceSegment} {e : Error}
    (h : s.recvNonceResponse sender segments = .ret (.error e, s')) :
    Unchanged s s' ↔ CoversUntilError s.nonceCache sender segments := by
  obtain ⟨⟨received, t⟩, hsegments, h⟩ := Exec.bind_eq_ret_iff.1 h
  cases received with
  | error e' =>
      obtain ⟨-, rfl⟩ := Prod.mk.inj (Exec.ret.inj h)
      exact recvNonceSegments_unchanged_iff hsegments
  | ok u => cases (Prod.mk.inj (Exec.ret.inj h)).1

/-! ### Key generations -/

omit [Build] in
/-- Taking out a key generation that is pending is a change. -/
theorem unchanged_takeEntry_iff (keygenId : KeygenId) :
    Unchanged s (s.takeEntry keygenId).2 ↔ keygenId ∉ s.pendingKeygens := by
  rw [BTreeMap.not_mem_iff_getElem?]
  constructor
  · intro h
    rw [← h.pendingKeygens]
    simp [takeEntry]
  · intro h
    exact ⟨rfl, BTreeMap.erase_of_getElem? h, rfl⟩

omit [Build] in
/-- Putting a key generation back undoes taking it out. -/
theorem unchanged_insertEntry {keygenId : KeygenId} {state : KeyGenState L}
    (h : s.pendingKeygens[keygenId]? = some state) :
    Unchanged s ((s.takeEntry keygenId).2.insertEntry keygenId state) := by
  refine ⟨rfl, ?_, rfl⟩
  refine Std.ExtTreeMap.ext_getElem? fun {id} => ?_
  simp only [takeEntry, insertEntry, BTreeMap.getElem?_insert, BTreeMap.getElem?_erase]
  split
  · rename_i hid
    rw [← hid, h]
  · rfl

omit [Build] in
theorem recvKeygenResponse_error (keygenId : KeygenId) (input : L.KeygenInput) :
    (s.recvKeygenResponse sender keygenId input).Always fun r =>
      ∀ e, r.1 = .error e → r.2 = (s.takeEntry keygenId).2 := by
  unfold recvKeygenResponse
  dsimp only
  split
  · split
    · exact Exec.always_ret fun _ _ => rfl
    · split
      · exact Exec.always_ret fun _ _ => rfl
      · split
        · exact Exec.always_bind' fun _ _ => Exec.always_bind' fun _ _ =>
            Exec.always_bind' fun _ _ => Exec.always_ret nofun
        · exact Exec.always_ret nofun
  · exact Exec.always_ret fun _ _ => rfl

theorem recvKeygenCertify_error (keygenId : KeygenId) (vrfCert : L.CertVrfProof) :
    (s.recvKeygenCertify sender keygenId vrfCert).Always fun r =>
      ∀ e, r.1 = .error e → r.2 = (s.takeEntry keygenId).2 := by
  unfold recvKeygenCertify
  dsimp only
  split
  · refine Exec.always_bind' fun _ _ => ?_
    split
    · exact Exec.always_ret fun _ _ => rfl
    · split
      · exact Exec.always_bind' fun _ _ => Exec.always_ret nofun
      · exact Exec.always_ret nofun
  · exact Exec.always_ret fun _ _ => rfl

/-- An acknowledgement that is waited for is put back when it is wrong; another one is not. -/
theorem recvKeygenAck_error (keygenId : KeygenId) (hash : SessionHash) :
    (s.recvKeygenAck sender keygenId hash).Always fun r => ∀ e, r.1 = .error e →
      (∃ state, s.pendingKeygens[keygenId]? = some (.waitingForAcks state) ∧
        r.2 = (s.takeEntry keygenId).2.insertEntry keygenId (.waitingForAcks state)) ∨
      (∀ state, s.pendingKeygens[keygenId]? ≠ some (.waitingForAcks state)) ∧
        r.2 = (s.takeEntry keygenId).2 := by
  unfold recvKeygenAck
  dsimp only
  split
  · rename_i state hstate
    split
    · exact Exec.always_ret fun _ _ => .inl ⟨state, hstate, rfl⟩
    · split
      · exact Exec.always_ret fun _ _ => .inl ⟨state, hstate, rfl⟩
      · split
        · exact Exec.always_ret fun e he => by cases he
        · split
          · exact Exec.always_bind' fun _ _ => Exec.always_bind' fun _ _ =>
              Exec.always_ret fun e he => by cases he
          · exact Exec.always_ret fun e he => by cases he
  · rename_i hother
    exact Exec.always_ret fun _ _ => .inr ⟨hother, rfl⟩

theorem recvKeygenAck_unchanged_iff {keygenId : KeygenId} {hash : SessionHash} {e : Error}
    (h : s.recvKeygenAck sender keygenId hash = .ret (.error e, s')) :
    Unchanged s s' ↔ keygenId ∉ s.pendingKeygens ∨
      ∃ state, s.pendingKeygens[keygenId]? = some (.waitingForAcks state) := by
  obtain ⟨state, hstate, rfl⟩ | ⟨hother, rfl⟩ := recvKeygenAck_error keygenId hash _ h e rfl
  · exact iff_of_true (unchanged_insertEntry hstate) (.inr ⟨state, hstate⟩)
  · rw [unchanged_takeEntry_iff, or_iff_left]
    rintro ⟨state, hstate⟩
    exact hother state hstate

theorem finalizeKeygen_error (keygenId : KeygenId) (encryptionKey : SymmetricKey) (rng : L.Rng) :
    (s.finalizeKeygen keygenId encryptionKey rng).Always fun r =>
      ∀ e, r.1 = .error e → r.2 = (s.takeEntry keygenId).2 := by
  unfold finalizeKeygen
  dsimp only
  split
  · exact Exec.always_bind' fun _ _ => Exec.always_ret fun e he => by cases he
  · exact Exec.always_ret fun _ _ => rfl

theorem beginKeygen_error (request : BeginKeygen) (rng : ℕ → L.Rng) :
    (s.beginKeygen request rng).Always fun r => ∀ e, r.1 = .error e → r.2 = s := by
  unfold beginKeygen
  split
  · exact Exec.always_ret fun _ _ => rfl
  · refine Exec.always_bind' fun _ _ => Exec.always_bind' fun _ _ => ?_
    dsimp only
    split
    · exact Exec.always_ret fun _ _ => rfl
    · split
      · exact Exec.always_panic _
      · exact Exec.always_ret fun e he => by cases he

/-! ### All operations -/

theorem deleteShare_error (ref : AccessStructureRef) (deviceId : DeviceId) :
    (s.deleteShare ref deviceId).Always fun r => ∀ e, r.1 = .error e → r.2 = s := by
  unfold deleteShare
  split
  · exact Exec.always_ret fun _ _ => rfl
  · split
    · split
      · exact Exec.always_bind' fun _ _ => Exec.always_ret fun e he => by cases he
      · exact Exec.always_ret fun e he => by cases he
    · exact Exec.always_ret fun e he => by cases he

theorem recvPhysicalSaved_error (shareImage : ShareImage) :
    (s.recvPhysicalSaved sender shareImage).Always fun r => ∀ e, r.1 = .error e → r.2 = s := by
  unfold recvPhysicalSaved
  split
  · exact Exec.always_ret fun _ _ => rfl
  · exact Exec.always_bind' fun _ _ => Exec.always_ret nofun

theorem recvFinishedConsolidation_error (ref : AccessStructureRef) (shareIndex : ShareIndex) :
    (s.recvFinishedConsolidation sender ref shareIndex).Always fun r =>
      ∀ e, r.1 = .error e → r.2 = s := by
  unfold recvFinishedConsolidation
  dsimp only
  split
  · exact Exec.always_bind' fun _ _ => Exec.always_ret nofun
  · split
    · exact Exec.always_bind' fun _ _ => Exec.always_ret nofun
    · exact Exec.always_ret fun _ _ => rfl

theorem recvDeviceMessage_unchanged_iff {message : DeviceToCoordinatorMessage L} {e : Error}
    (h : s.recvDeviceMessage sender message = .ret (.error e, s')) :
    Unchanged s s' ↔ FailsClean s (.recvDeviceMessage sender message) := by
  match message with
  | .signing (.nonceResponse segments) => exact recvNonceResponse_unchanged_iff h
  | .signing (.signatureShare _ _ _) =>
      obtain rfl := checked_error h
      exact iff_of_true (.refl s') trivial
  | .keyGen (.response keygenId input) =>
      obtain rfl := recvKeygenResponse_error keygenId input _ h e rfl
      exact unchanged_takeEntry_iff keygenId
  | .keyGen (.certify keygenId vrfCert) =>
      obtain rfl := recvKeygenCertify_error keygenId vrfCert _ h e rfl
      exact unchanged_takeEntry_iff keygenId
  | .keyGen (.ack keygenId hash) => exact recvKeygenAck_unchanged_iff h
  | .restoration (.physicalSaved shareImage) =>
      obtain rfl := recvPhysicalSaved_error shareImage _ h e rfl
      exact iff_of_true (.refl _) trivial
  | .restoration (.finishedConsolidation ref shareIndex) =>
      obtain rfl := recvFinishedConsolidation_error ref shareIndex _ h e rfl
      exact iff_of_true (.refl _) trivial
  | .restoration (.physicalEntered _) | .restoration (.heldShares _)
  | .restoration (.heldShares2 _) => cases (Prod.mk.inj (Exec.ret.inj h)).1

/-- **A failed operation leaves the coordinator as it was**, or not: exactly when. -/
theorem failed_unchanged_iff {op : Op L} (h : s.perform op = .ret (true, s')) :
    Unchanged s s' ↔ FailsClean s op := by
  have hfails {ε α : Type} {x : Exec (Except ε α × FrostCoordinator L)}
      (hx : outcome x = .ret (true, s')) : ∃ e, x = .ret (.error e, s') := by
    obtain ⟨e, he, -⟩ | ⟨a, -, ha⟩ := outcome_eq hx
    · exact ⟨e, he⟩
    · cases ha
  have hsame (hs : s' = s) (hclean : FailsClean s op) : Unchanged s s' ↔ FailsClean s op :=
    iff_of_true (hs ▸ .refl s) hclean
  cases op with
  | recvDeviceMessage sender message =>
      obtain ⟨e, he⟩ := hfails h
      exact recvDeviceMessage_unchanged_iff he
  | beginKeygen request rng =>
      obtain ⟨e, he⟩ := hfails h
      exact hsame (beginKeygen_error request rng _ he e rfl) trivial
  | finalizeKeygen keygenId encryptionKey rng =>
      obtain ⟨e, he⟩ := hfails h
      obtain rfl := finalizeKeygen_error keygenId encryptionKey rng _ he e rfl
      exact unchanged_takeEntry_iff keygenId
  | deleteShare ref deviceId =>
      obtain ⟨e, he⟩ := hfails h
      exact hsame (deleteShare_error ref deviceId _ he e rfl) trivial
  | startSign | addRecoveryShareToRestoration | finishRestoring
  | startRestoringKeyFromRecoverShare | recoverShare | tellDeviceToConsolidatePhysicalBackup
  | requestDeviceDisplayBackup | requestDeviceCheckBackup =>
      obtain ⟨e, he⟩ := hfails h
      exact hsame (checked_error he) trivial
  | cancelKeygen | clearTmpData | tellDeviceToSavePhysicalBackup =>
      cases (Prod.mk.inj (Exec.ret.inj h)).1
  | requestDeviceSign | completeSignSession | forgetFinishedSignSession => cases (done_eq h).1
  | deleteKey | cancelSignSession | cancelAllSigningSessions | startRestoringKey
  | cancelRestoration | deleteRestorationShare => cases (done'_eq h).1

end FrostCoordinator

end

section

open FrostCoordinator

attribute [local instance] Build.release

/-- A one of one key. -/
def oneOfOne : BeginKeygen where
  keygenId := 0
  devicesInOrder := [1]
  threshold := 1
  keyName := ""
  purpose := .test

/-- The messages of its device until acknowledgements are waited for. -/
def oneOfOneAnswers : List (DeviceToCoordinatorMessage plainLib) :=
  [.keyGen (.response 0 [(5 : Point)]), .keyGen (.certify 0 (0 : ℕ))]

/-- The coordinator once the device has sent the first of these messages. -/
def oneOfOneAnswered (n : ℕ) : FrostCoordinator plainLib :=
  (Op.beginKeygen oneOfOne (fun _ => (0 : ℕ)) ::
    (oneOfOneAnswers.take n).map (Op.recvDeviceMessage 1)).foldl
    (fun s op => (s.perform op).toOption.elim s Prod.snd) (.new plainLib)

/-- An acknowledgement of another session hash is refused, and the key generation stays pending. -/
theorem failed_unchanged_iff_refused_ack :
    Reachable (oneOfOneAnswered 2) ∧ (0 : KeygenId) ∈ (oneOfOneAnswered 2).pendingKeygens ∧
      ∃ s', (oneOfOneAnswered 2).perform (.recvDeviceMessage 1 (.keyGen (.ack 0 222))) =
        .ret (true, s') ∧ Unchanged (oneOfOneAnswered 2) s' := by
  have hbegin : (FrostCoordinator.new plainLib).perform (.beginKeygen oneOfOne fun _ => (0 : ℕ)) =
      .ret (false, oneOfOneAnswered 0) := rfl
  have hresponse : (oneOfOneAnswered 0).perform
      (.recvDeviceMessage 1 (.keyGen (.response 0 [(5 : Point)]))) =
        .ret (false, oneOfOneAnswered 1) := rfl
  have hcertify : (oneOfOneAnswered 1).perform
      (.recvDeviceMessage 1 (.keyGen (.certify 0 (0 : ℕ)))) =
        .ret (false, oneOfOneAnswered 2) := rfl
  have hreached : Reachable (oneOfOneAnswered 2) :=
    ((Reachable.new.perform hbegin).perform hresponse).perform hcertify
  obtain ⟨state, hstate⟩ : ∃ state, (oneOfOneAnswered 2).pendingKeygens[(0 : KeygenId)]? =
      some (.waitingForAcks state) := ⟨_, rfl⟩
  have hclean : FailsClean (oneOfOneAnswered 2)
      (.recvDeviceMessage 1 (.keyGen (.ack 0 222))) := Or.inr ⟨state, hstate⟩
  obtain ⟨s', hrefused⟩ : ∃ s', (oneOfOneAnswered 2).perform
      (.recvDeviceMessage 1 (.keyGen (.ack 0 222))) = .ret (true, s') := ⟨_, rfl⟩
  exact ⟨hreached, BTreeMap.mem_iff_getElem?.2 ⟨_, hstate⟩, s', hrefused,
    (failed_unchanged_iff hrefused).2 hclean⟩

/-- Finalizing a key generation before the devices have answered fails, and forgets it. -/
theorem finalize_forgets_keygen :
    ¬ ∀ (s s' : FrostCoordinator plainLib) (op : Op plainLib), Reachable s →
      s.perform op = .ret (true, s') → Unchanged s s' := by
  intro h
  let s : FrostCoordinator plainLib :=
    match (FrostCoordinator.new plainLib).perform (.beginKeygen oneOfOne fun _ => (0 : ℕ)) with
    | .ret (_, s) => s
    | .panic _ => .new plainLib
  have hbegun : (FrostCoordinator.new plainLib).perform (.beginKeygen oneOfOne fun _ => (0 : ℕ)) =
      .ret (false, s) := rfl
  have hfailed : s.perform (.finalizeKeygen 0 0 (0 : ℕ)) = .ret (true, (s.takeEntry 0).2) := rfl
  have hpending := (unchanged_takeEntry_iff 0).1 (h s _ _ (.perform .new hbegun) hfailed)
  exact hpending (by decide +kernel)

end

end Frostsnap.Coordinator
