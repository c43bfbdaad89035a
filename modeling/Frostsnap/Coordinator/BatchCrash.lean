import Frostsnap.Coordinator.Atomic
import Frostsnap.Coordinator.Reload

/-!
# Crashes between the statements of a batch

`persist_update` runs one statement for each mutation that an operation staged, in no transaction.
When the process stops between two of them, the database has a part of the operation. What is
loaded then is the state before the operation or the state after it when the operation changes the
persistent state by one mutation only.

## Main results

* `batch_atomic`: which operations are written as a whole or not at all, in every run that keeps
  the log.
-/

namespace Frostsnap.Coordinator

variable {L : FrostLib}

section

variable [Build]

/-! ### Operations that change the state once -/

/-- At most one segment of a message is new to the cache, up to the first one that it cannot be
extended by. -/
def AtMostOneNew (cache : NonceCache) (sender : DeviceId) : List NonceSegment → Prop
  | [] => True
  | segment :: rest =>
      (∃ e, cache.checkCanExtend sender segment = .ret (.error e)) ∨
        (Covers cache sender segment ∧ AtMostOneNew cache sender rest) ∨
          ∀ r cache', cache.extendSegment sender segment = .ret (r, cache') →
            CoversUntilError cache' sender rest

omit [Build] in
/-- The shares that an access structure does not record. -/
def missingShares (a : CoordAccessStructure) (shares : List (DeviceId × ShareIndex)) :
    List (DeviceId × ShareIndex) :=
  shares.filter fun share => a.deviceToShareIndex[share.1]? ≠ some share.2

/-- A session with the shares of a device. -/
def withShares (session : ActiveSignSession L) (sender : DeviceId)
    (signatureShares : List SignatureShare) : ActiveSignSession L :=
  { session with progress := Persistent.addShares sender session.progress signatureShares }

/-- An operation whose mutations change the persistent state at most once. -/
def Op.ChangesOnce (s : FrostCoordinator L) : Op L → Prop
  | .recvDeviceMessage sender (.signing (.nonceResponse segments)) =>
      AtMostOneNew s.nonceCache sender segments
  | .recvDeviceMessage sender (.signing (.signatureShare sessionId shares replenish)) =>
      s.checkSignatureShares sender sessionId shares = .ret (.ok ()) →
      ∀ session, s.activeSigningSessions[sessionId]? = some session →
        let known := withShares session sender shares = session
        let covered := ∀ segment ∈ replenish, Covers s.nonceCache sender segment
        let unfinished := Persistent.allFinished (withShares session sender shares) = false
        (known ∧ covered) ∨ (known ∧ unfinished) ∨ (covered ∧ unfinished)
  | .finalizeKeygen keygenId _ _ =>
      ∀ finalize, s.pendingKeygens[keygenId]? = some (.needsFinalize finalize) →
        ∃ a, s.getAccessStructure (.fromRootSharedKey L finalize.rootSharedKey) = some a ∧
          (missingShares a finalize.deviceToShareIndex.toList).length ≤ 1
  | .cancelAllSigningSessions => s.activeSignSessionOrder.length ≤ 1
  | .finishRestoring restorationId _ _ =>
      ∀ state rootSharedKey shares,
        s.restored restorationId = .ret (.ok (state, rootSharedKey, shares)) →
        ∃ a, s.getAccessStructure (.fromRootSharedKey L rootSharedKey) = some a ∧
          missingShares a shares.toList = [] ∧
          ∀ deviceId ∈ state.accessStructure.needsToConsolidate L, ∀ shareIndex,
            shares[deviceId]? = some shareIndex →
            { deviceId := deviceId
              accessStructureRef := .fromRootSharedKey L rootSharedKey
              shareIndex := shareIndex } ∈ s.pendingPhysicalConsolidations
  | .startRestoringKeyFromRecoverShare share restorationId =>
      ∀ metadata, s.shareMetadata share restorationId ≠ .ret (.ok metadata)
  | .recoverShare ref share encryptionKey =>
      s.checkRecoverShareCompatibleWithKey ref share encryptionKey = .ret (.ok ()) →
        share.heldShare.accessStructureRef.isNone = true →
        { deviceId := share.heldBy
          accessStructureRef := ref
          shareIndex := share.heldShare.shareImage.index } ∈ s.pendingPhysicalConsolidations
  | _ => True

/-! ### What is staged -/

namespace FrostCoordinator

variable {s s' : FrostCoordinator L}

/-- A mutation that changes nothing is not staged. -/
theorem mutate_unchanged {m : Mutation L}
    (h : s.toPersistent.change s.keygenFingerprint m = .ret (false, s.toPersistent)) :
    s.mutate m = .ret s := by
  have happly : s.toPersistent.applyMutation s.keygenFingerprint m =
      .ret (none, s.toPersistent) := by
    rw [Persistent.applyMutation, h]
    rfl
  have hstate : s.applyMutation m = .ret (none, s) := by
    rw [applyMutation, happly, Exec.ret_bind]
    dsimp only
    split
    · rename_i hnone
      cases hnone
    · rfl
  rw [mutate, hstate]
  rfl

/-- A mutation is staged once, or not at all. -/
theorem mutate_length {m : Mutation L} (h : s.mutate m = .ret s') :
    s'.mutations.length ≤ s.mutations.length + 1 := by
  obtain ⟨reduced, -, hstaged, -⟩ := mutate_eq h
  rw [hstaged, List.length_append]
  cases reduced <;> simp

/-- Several are staged at most as often as there are. -/
theorem mutateAll_length {ms : List (Mutation L)} (h : s.mutateAll ms = .ret s') :
    s'.mutations.length ≤ s.mutations.length + ms.length := by
  induction ms generalizing s with
  | nil =>
      obtain rfl := Exec.ret.inj h
      exact le_rfl
  | cons m ms ih =>
      obtain ⟨t, hm, hrest⟩ := Exec.bind_eq_ret_iff.1 h
      have hone := mutate_length hm
      have hmore := ih hrest
      rw [List.length_cons]
      omega

/-- Mutations that change nothing, one after the other. -/
theorem mutateAll_unchanged {ms : List (Mutation L)}
    (h : ∀ m ∈ ms, s.toPersistent.change s.keygenFingerprint m = .ret (false, s.toPersistent)) :
    s.mutateAll ms = .ret s := by
  induction ms with
  | nil => rfl
  | cons m ms ih =>
      rw [mutateAll, mutate_unchanged (h m List.mem_cons_self), Exec.ret_bind]
      exact ih fun m' hm' => h m' (List.mem_cons_of_mem _ hm')

/-! Nonce responses. -/

variable {sender : DeviceId}

/-- Segments that the cache covers are none. -/
theorem recvNonceSegments_covered {segments : List NonceSegment} {r : Except Error Unit}
    (hcovers : CoversUntilError s.nonceCache sender segments)
    (h : recvNonceSegments sender segments s = .ret (r, s')) : s' = s := by
  induction segments generalizing s with
  | nil => exact (Prod.mk.inj (Exec.ret.inj h)).2.symm
  | cons segment rest ih =>
      obtain ⟨checked, hchecked, hrest⟩ := Exec.bind_eq_ret_iff.1 h
      cases checked with
      | error e => exact (Prod.mk.inj (Exec.ret.inj hrest)).2.symm
      | ok u =>
          obtain ⟨t, hmutate, hlater⟩ := Exec.bind_eq_ret_iff.1 hrest
          obtain ⟨e, he⟩ | ⟨hcover, hcovers⟩ := hcovers
          · rw [he] at hchecked
            cases Exec.ret.inj hchecked
          · obtain rfl := mutate_covered hcover hmutate
            exact ih hcovers hlater

/-- Of an answer with nonces only the segment with news is staged. -/
theorem recvNonceSegments_length {segments : List NonceSegment} {r : Except Error Unit}
    (honce : AtMostOneNew s.nonceCache sender segments)
    (h : recvNonceSegments sender segments s = .ret (r, s')) :
    s'.mutations.length ≤ s.mutations.length + 1 := by
  induction segments generalizing s with
  | nil =>
      obtain rfl := (Prod.mk.inj (Exec.ret.inj h)).2
      omega
  | cons segment rest ih =>
      obtain ⟨checked, hchecked, hrest⟩ := Exec.bind_eq_ret_iff.1 h
      cases checked with
      | error e =>
          obtain rfl := (Prod.mk.inj (Exec.ret.inj hrest)).2
          omega
      | ok u =>
          obtain ⟨t, hmutate, hlater⟩ := Exec.bind_eq_ret_iff.1 hrest
          obtain ⟨e, he⟩ | ⟨hcover, honce⟩ | hrestCovered := honce
          · rw [he] at hchecked
            cases Exec.ret.inj hchecked
          · obtain rfl := mutate_covered hcover hmutate
            exact ih honce hlater
          · obtain ⟨r', hextend⟩ := extendSegment_of_mutate hmutate
            obtain rfl := recvNonceSegments_covered (hrestCovered r' _ hextend) hlater
            exact mutate_length hmutate

/-! Shares of a key. -/

/-- A share is recorded, and nothing is staged when it was. -/
theorem mutate_newShare {ref : AccessStructureRef} {a : CoordAccessStructure} {deviceId : DeviceId}
    {shareIndex : ShareIndex} (ha : s.getAccessStructure ref = some a)
    (h : s.mutate (.keygen (.newShare ref deviceId shareIndex)) = .ret s') :
    (a.deviceToShareIndex[deviceId]? = some shareIndex → s' = s) ∧
      s'.getAccessStructure ref = some
        { a with deviceToShareIndex := a.deviceToShareIndex.insert deviceId shareIndex } := by
  rw [Persistent.getAccessStructure, Option.bind_eq_some_iff] at ha
  obtain ⟨key, hkey, ha⟩ := ha
  have hchange : s.toPersistent.change s.keygenFingerprint
      (.keygen (.newShare ref deviceId shareIndex)) =
        .ret (decide (a.deviceToShareIndex[deviceId]? ≠ some shareIndex),
          s.toPersistent.setAccessStructure key ref.keyId ref.accessStructureId
            { a with
              deviceToShareIndex := a.deviceToShareIndex.insert deviceId shareIndex }) := by
    simp only [Persistent.change, Persistent.newShare, Persistent.withAccessStructure, hkey, ha]
  constructor
  · intro hrecorded
    have hsame : s.toPersistent.change s.keygenFingerprint
        (.keygen (.newShare ref deviceId shareIndex)) = .ret (false, s.toPersistent) := by
      rw [hchange, BTreeMap.insert_of_getElem? hrecorded,
        Persistent.setAccessStructure_self hkey ha, hrecorded]
      simp
    rw [mutate_unchanged hsame] at h
    exact (Exec.ret.inj h).symm
  · obtain ⟨reduced, happly, -⟩ := mutate_eq h
    obtain ⟨⟨changed, p'⟩, hp', hret⟩ := Exec.bind_eq_ret_iff.1 happly
    obtain ⟨-, rfl⟩ := Prod.mk.inj (Exec.ret.inj hret)
    obtain ⟨-, hp⟩ := Prod.mk.inj (Exec.ret.inj (hchange.symm.trans hp'))
    rw [← hp, Persistent.getAccessStructure_setAccessStructure hkey, if_pos rfl]

/-- The shares that were not recorded are staged. -/
theorem mutateAll_newShares {ref : AccessStructureRef} {a : CoordAccessStructure}
    {shares : List (DeviceId × ShareIndex)} (ha : s.getAccessStructure ref = some a)
    (hnodup : (shares.map Prod.fst).Nodup)
    (h : s.mutateAll (shares.map fun (deviceId, shareIndex) =>
      .keygen (.newShare ref deviceId shareIndex)) = .ret s') :
    s'.mutations.length ≤ s.mutations.length + (missingShares a shares).length ∧
      (missingShares a shares = [] → s' = s) := by
  induction shares generalizing s a with
  | nil =>
      obtain rfl := Exec.ret.inj h
      exact ⟨by simp [missingShares], fun _ => rfl⟩
  | cons share rest ih =>
      obtain ⟨deviceId, shareIndex⟩ := share
      obtain ⟨t, hmutate, hrest⟩ := Exec.bind_eq_ret_iff.1 h
      obtain ⟨hsame, ht⟩ := mutate_newShare ha hmutate
      rw [List.map_cons, List.nodup_cons] at hnodup
      obtain ⟨hlength, hnone⟩ := ih ht hnodup.2 hrest
      -- the devices are different, so recording this share leaves the others as they are
      have hmissing : missingShares
          { a with deviceToShareIndex := a.deviceToShareIndex.insert deviceId shareIndex } rest =
            missingShares a rest := by
        refine List.filter_congr fun other hother => ?_
        have hne : deviceId ≠ other.1 := by
          rintro rfl
          exact hnodup.1 (List.mem_map.2 ⟨other, hother, rfl⟩)
        simp only [BTreeMap.getElem?_insert, if_neg hne]
      rw [hmissing] at hlength hnone
      by_cases hrecorded : a.deviceToShareIndex[deviceId]? = some shareIndex
      · obtain rfl := hsame hrecorded
        have hcons : missingShares a ((deviceId, shareIndex) :: rest) = missingShares a rest :=
          List.filter_cons_of_neg (by simp [hrecorded])
        rw [hcons]
        exact ⟨hlength, hnone⟩
      · have hcons : missingShares a ((deviceId, shareIndex) :: rest) =
            (deviceId, shareIndex) :: missingShares a rest :=
          List.filter_cons_of_pos (by simp [hrecorded])
        rw [hcons]
        refine ⟨?_, fun hnil => by cases hnil⟩
        have hone := mutate_length hmutate
        rw [List.length_cons]
        omega

/-- A key that is there, with its access structure, only gets the shares that are missing. -/
theorem mutateNewKey_length {name : String} {rootSharedKey : SharedKey}
    {shares : BTreeMap DeviceId ShareIndex} {encryptionKey : SymmetricKey} {purpose : KeyPurpose}
    {rng : L.Rng} {ref : AccessStructureRef} {a : CoordAccessStructure}
    (ha : s.getAccessStructure (.fromRootSharedKey L rootSharedKey) = some a)
    (h : s.mutateNewKey name rootSharedKey shares encryptionKey purpose rng = .ret (ref, s')) :
    s'.mutations.length ≤ s.mutations.length + (missingShares a shares.toList).length ∧
      (missingShares a shares.toList = [] → s' = s) := by
  obtain ⟨t, hall, hret⟩ := Exec.bind_eq_ret_iff.1 h
  obtain ⟨-, rfl⟩ := Prod.mk.inj (Exec.ret.inj hret)
  obtain ⟨key, hkey, hstructure⟩ := Option.bind_eq_some_iff.1 ha
  have hmem : (AccessStructureRef.fromRootSharedKey L rootSharedKey).keyId ∈ s.keys :=
    BTreeMap.mem_iff_getElem?.2 ⟨key, hkey⟩
  have hmutations : (s.newKeyMutations name rootSharedKey shares encryptionKey purpose rng).2 =
      .keygen (.newAccessStructure ((Xpub.fromRootkey rootSharedKey).rootkeyToMasterAppkey L)
        .master) :: shares.toList.map fun (deviceId, shareIndex) =>
          .keygen (.newShare (.fromRootSharedKey L rootSharedKey) deviceId shareIndex) := by
    have hkeys : L.keyIdOfMasterAppkey
        ((Xpub.fromRootkey rootSharedKey).rootkeyToMasterAppkey L).masterAppkey ∈ s.keys := hmem
    simp only [Persistent.newKeyMutations, if_pos hkeys]
    rfl
  have hunchanged : s.toPersistent.change s.keygenFingerprint
      (.keygen (.newAccessStructure ((Xpub.fromRootkey rootSharedKey).rootkeyToMasterAppkey L)
        .master)) = .ret (false, s.toPersistent) := by
    have hget : s.keys[L.keyIdOfMasterAppkey
        ((Xpub.fromRootkey rootSharedKey).rootkeyToMasterAppkey L).masterAppkey]? = some key := hkey
    have hid : L.accessStructureIdOfAppPoly
        ((Xpub.fromRootkey rootSharedKey).rootkeyToMasterAppkey L).key.pointPolynomial ∈
          key.completeKey.accessStructures := BTreeMap.mem_iff_getElem?.2 ⟨a, hstructure⟩
    simp only [Persistent.change, Persistent.newAccessStructure, hget, if_pos hid]
  have hshares : s.mutateAll (s.newKeyMutations name rootSharedKey shares encryptionKey purpose
      rng).2 = .ret t := hall
  rw [hmutations, mutateAll, mutate_unchanged hunchanged, Exec.ret_bind] at hshares
  refine mutateAll_newShares ha ?_ hshares
  rw [Std.ExtTreeMap.map_fst_toList_eq_keys]
  exact Std.ExtTreeMap.nodup_keys

/-! Other operations. -/

/-- A key that is finalized over no other is one mutation. -/
theorem finalizeKeygen_length {keygenId : KeygenId} {encryptionKey : SymmetricKey} {rng : L.Rng}
    {result : Except ActionError SendFinalizeKeygen}
    (honce : (Op.finalizeKeygen keygenId encryptionKey rng).ChangesOnce s)
    (h : s.finalizeKeygen keygenId encryptionKey rng = .ret (result, s')) :
    s'.mutations.length ≤ s.mutations.length + 1 := by
  unfold finalizeKeygen at h
  dsimp only at h
  split at h
  · rename_i finalize hfinalize
    obtain ⟨⟨ref, t⟩, hnew, hret⟩ := Exec.bind_eq_ret_iff.1 h
    obtain ⟨-, rfl⟩ := Prod.mk.inj (Exec.ret.inj hret)
    obtain ⟨a, ha, hmissing⟩ := honce finalize hfinalize
    obtain ⟨hlength, -⟩ := mutateNewKey_length (s := (s.takeEntry keygenId).2) ha hnew
    have hsame : (s.takeEntry keygenId).2.mutations = s.mutations := rfl
    rw [hsame] at hlength
    exact hlength.trans (Nat.add_le_add_left hmissing _)
  · obtain ⟨-, rfl⟩ := Prod.mk.inj (Exec.ret.inj h)
    exact Nat.le_succ _

omit [Build] in
/-- What is recorded of consolidations is one mutation for each device. -/
theorem consolidationMutations_eq {ref : AccessStructureRef}
    {shares : BTreeMap DeviceId ShareIndex} {devices : List DeviceId} {ms : List (Mutation L)}
    (h : Persistent.consolidationMutations ref shares devices = .ret ms) :
    ∀ m ∈ ms, ∃ deviceId ∈ devices, ∃ shareIndex, shares[deviceId]? = some shareIndex ∧
      m = .restoration (.deviceNeedsConsolidation
        { deviceId := deviceId, accessStructureRef := ref, shareIndex := shareIndex }) := by
  induction devices generalizing ms with
  | nil =>
      obtain rfl := Exec.ret.inj h
      exact fun m hm => absurd hm List.not_mem_nil
  | cons deviceId rest ih =>
      obtain ⟨shareIndex, hshare, hrest⟩ := Exec.bind_eq_ret_iff.1 h
      obtain ⟨later, hlater, hret⟩ := Exec.bind_eq_ret_iff.1 hrest
      obtain rfl := Exec.ret.inj hret
      intro m hm
      obtain rfl | hm := List.mem_cons.1 hm
      · exact ⟨deviceId, List.mem_cons_self, shareIndex, Exec.expect_eq_ret_iff.1 hshare, rfl⟩
      · obtain ⟨other, hother, index, hindex, rfl⟩ := ih hlater m hm
        exact ⟨other, List.mem_cons_of_mem _ hother, index, hindex, rfl⟩

/-- A consolidation that is already pending is no change. -/
theorem deviceNeedsConsolidation_unchanged {pending : PendingConsolidation}
    (h : pending ∈ s.pendingPhysicalConsolidations) :
    s.toPersistent.change s.keygenFingerprint (.restoration (.deviceNeedsConsolidation pending)) =
      .ret (false, s.toPersistent) := by
  simp only [Persistent.change, Persistent.deviceNeedsConsolidation, BTreeSet.insert_of_mem h,
    Std.ExtTreeSet.mem_iff_contains.1 h, Bool.not_true]

/-- A restoration that is finished, with nothing else to record. -/
theorem finishRestoring_length {restorationId : RestorationId} {encryptionKey : SymmetricKey}
    {rng : L.Rng} {result : Except RestorationError AccessStructureRef}
    (honce : (Op.finishRestoring restorationId encryptionKey rng).ChangesOnce s)
    (h : s.finishRestoring restorationId encryptionKey rng = .ret (result, s')) :
    s'.mutations.length ≤ s.mutations.length + 1 := by
  cases result with
  | error e =>
      obtain rfl := checked_error h
      omega
  | ok ref =>
      obtain ⟨⟨state, rootSharedKey, shares⟩, hrestored, hact⟩ := checked_ok h
      obtain ⟨a, ha, hmissing, hpending⟩ := honce state rootSharedKey shares hrestored
      obtain ⟨⟨ref', t⟩, hnew, hrest⟩ := Exec.bind_eq_ret_iff.1 hact
      obtain ⟨ms, hms, hrest⟩ := Exec.bind_eq_ret_iff.1 hrest
      obtain ⟨u, hall, hret⟩ := Exec.bind_eq_ret_iff.1 hrest
      obtain ⟨-, rfl⟩ := Prod.mk.inj (Exec.ret.inj hret)
      obtain rfl := (mutateNewKey_length ha hnew).2 hmissing
      have hunchanged : t.mutateAll ms = .ret t := by
        refine mutateAll_unchanged fun m hm => ?_
        obtain ⟨deviceId, hdevice, shareIndex, hshare, rfl⟩ := consolidationMutations_eq hms m hm
        exact deviceNeedsConsolidation_unchanged (hpending deviceId hdevice shareIndex hshare)
      rw [mutateAll_append, hunchanged, Exec.ret_bind] at hall
      exact mutateAll_length hall

/-- A share that is recovered, with at most one change. -/
theorem recoverShare_length {ref : AccessStructureRef} {share : RecoverShare}
    {encryptionKey : SymmetricKey} {result : Except RecoverShareError Unit}
    (honce : (Op.recoverShare ref share encryptionKey).ChangesOnce s)
    (h : s.recoverShare ref share encryptionKey = .ret (result, s')) :
    s'.mutations.length ≤ s.mutations.length + 1 := by
  cases result with
  | error e =>
      obtain rfl := checked_error h
      omega
  | ok u =>
      obtain ⟨⟨⟩, hchecked, hact⟩ := checked_ok h
      obtain ⟨t, hmutate, hrest⟩ := Exec.bind_eq_ret_iff.1 hact
      split at hrest
      · rename_i hbackup
        obtain ⟨v, hpending, hret⟩ := Exec.bind_eq_ret_iff.1 hrest
        obtain ⟨-, rfl⟩ := Prod.mk.inj (Exec.ret.inj hret)
        obtain ⟨reduced, happly, -⟩ := mutate_eq hmutate
        obtain ⟨⟨changed, p'⟩, hchange, hp'⟩ := Exec.bind_eq_ret_iff.1 happly
        obtain ⟨-, rfl⟩ := Prod.mk.inj (Exec.ret.inj hp')
        have hsame := congrArg Persistent.pendingPhysicalConsolidations
          (Persistent.change_keygen (fun _ hm => by cases hm) hchange)
        have hmem := honce hchecked hbackup
        rw [← hsame] at hmem
        rw [mutate_unchanged (deviceNeedsConsolidation_unchanged hmem)] at hpending
        obtain rfl := Exec.ret.inj hpending
        exact mutate_length hmutate
      · obtain ⟨-, rfl⟩ := Prod.mk.inj (Exec.ret.inj hrest)
        exact mutate_length hmutate

/-- One mutation or none more is staged. -/
def StagesOne (s s' : FrostCoordinator L) : Prop :=
  s'.mutations.length ≤ s.mutations.length + 1

omit [Build] in
/-- Staging nothing is allowed. -/
theorem StagesOne.of_same (h : s'.mutations = s.mutations) : StagesOne s s' := by
  rw [StagesOne, h]
  omega

omit [Build] in
/-- So is doing nothing. -/
theorem StagesOne.refl (s : FrostCoordinator L) : StagesOne s s := .of_same rfl

omit [Build] in
/-- The pending key generations are not staged. -/
theorem SameButPending.stagesOne (h : SameButPending s s') : StagesOne s s' := by
  have hsame : { s' with pendingKeygens := s.pendingKeygens } = s := h
  have hmutations := congrArg FrostCoordinator.mutations hsame
  exact .of_same hmutations

/-- One mutation. -/
theorem mutate_stagesOne {m : Mutation L} : (s.mutate m).Always (StagesOne s) :=
  fun _ h => mutate_length h

/-- What goes with a key goes in the same mutation. -/
theorem deleteKey_stagesOne (keyId : KeyId) : (s.deleteKey keyId).Always (StagesOne s) := by
  unfold deleteKey
  split
  · exact mutate_stagesOne
  · exact Exec.always_ret (.refl s)

/-- A share is deleted by one mutation. -/
theorem deleteShare_stagesOne (ref : AccessStructureRef) (deviceId : DeviceId) :
    (s.deleteShare ref deviceId).Always fun r => StagesOne s r.2 := by
  unfold deleteShare
  split
  · exact Exec.always_ret (.refl s)
  · split
    · split
      · exact Exec.always_bind mutate_stagesOne fun _ ht => Exec.always_ret ht
      · exact Exec.always_ret (.refl s)
    · exact Exec.always_ret (.refl s)

/-- A signing request is recorded by one. -/
theorem requestDeviceSign_stagesOne (sessionId : SignSessionId) (deviceId : DeviceId)
    (encryptionKey : SymmetricKey) :
    (s.requestDeviceSign sessionId deviceId encryptionKey).Always fun r => StagesOne s r.2 := by
  intro r hr
  obtain ⟨session, nonces, a, -, -, -, -, -, -, -, hmutate⟩ := requestDeviceSign_eq hr
  exact mutate_length hmutate

/-- A session is closed by one. -/
theorem completeSignSession_stagesOne (sessionId : SignSessionId) :
    (s.completeSignSession sessionId).Always fun r => StagesOne s r.2 := by
  unfold completeSignSession
  split
  · exact Exec.always_ret (.refl s)
  · split
    · exact Exec.always_bind' fun _ _ =>
        Exec.always_bind mutate_stagesOne fun _ ht => Exec.always_ret ht
    · exact Exec.always_ret (.refl s)

/-- And forgotten by one. -/
theorem forgetFinishedSignSession_stagesOne (sessionId : SignSessionId) :
    (s.forgetFinishedSignSession sessionId).Always fun r => StagesOne s r.2 := by
  unfold forgetFinishedSignSession
  split
  · exact Exec.always_ret (.refl s)
  · exact Exec.always_bind mutate_stagesOne fun _ ht => Exec.always_ret ht

/-- A share of a restoration is taken out by one. -/
theorem deleteRestorationShare_stagesOne (restorationId : RestorationId) (deviceId : DeviceId) :
    (s.deleteRestorationShare restorationId deviceId).Always (StagesOne s) := by
  unfold deleteRestorationShare
  split
  · exact Exec.always_ret (.refl s)
  · split
    · exact Exec.always_ret (.refl s)
    · exact mutate_stagesOne

omit [Build] in
/-- What is waiting to be saved is not staged. -/
theorem tellDeviceToSavePhysicalBackup_stagesOne (phase : PhysicalBackupPhase)
    (restorationId : RestorationId) :
    StagesOne s (s.tellDeviceToSavePhysicalBackup phase restorationId).2 := by
  unfold tellDeviceToSavePhysicalBackup
  split
  · exact .refl s
  · exact .of_same rfl

/-- A backup that is saved is one mutation. -/
theorem recvPhysicalSaved_stagesOne (sender : DeviceId) (shareImage : ShareImage) :
    (s.recvPhysicalSaved sender shareImage).Always fun r => StagesOne s r.2 := by
  unfold recvPhysicalSaved
  split
  · exact Exec.always_ret (.refl s)
  · exact Exec.always_bind mutate_stagesOne fun _ ht => Exec.always_ret ht

/-- A consolidation that has finished is one mutation, in each of its cases. -/
theorem recvFinishedConsolidation_stagesOne (sender : DeviceId) (ref : AccessStructureRef)
    (shareIndex : ShareIndex) :
    (s.recvFinishedConsolidation sender ref shareIndex).Always fun r => StagesOne s r.2 := by
  unfold recvFinishedConsolidation
  dsimp only
  split
  · exact Exec.always_bind mutate_stagesOne fun _ ht => Exec.always_ret ht
  · split
    · exact Exec.always_bind mutate_stagesOne fun _ ht => Exec.always_ret ht
    · exact Exec.always_ret (.refl s)

/-- **A message** other than signature shares stages one mutation at most. -/
theorem recvDeviceMessage_stagesOne {sender : DeviceId} {message : DeviceToCoordinatorMessage L}
    (honce : (Op.recvDeviceMessage sender message).ChangesOnce s)
    (hshares : ∀ sessionId shares replenish,
      message ≠ .signing (.signatureShare sessionId shares replenish)) :
    (s.recvDeviceMessage sender message).Always fun r => StagesOne s r.2 := by
  match message with
  | .signing (.nonceResponse segments) =>
      exact Exec.always_bind (P := fun r => StagesOne s r.2)
        (fun r hr => recvNonceSegments_length honce hr) fun _ ht => Exec.always_ret ht
  | .signing (.signatureShare sessionId shares replenish) => exact absurd rfl (hshares _ _ _)
  | .keyGen (.response keygenId input) =>
      exact (recvKeygenResponse_same sender keygenId input).mono fun _ => SameButPending.stagesOne
  | .keyGen (.certify keygenId vrfCert) =>
      exact (recvKeygenCertify_same sender keygenId vrfCert).mono fun _ => SameButPending.stagesOne
  | .keyGen (.ack keygenId hash) =>
      exact (recvKeygenAck_same sender keygenId hash).mono fun _ => SameButPending.stagesOne
  | .restoration (.physicalSaved shareImage) => exact recvPhysicalSaved_stagesOne sender shareImage
  | .restoration (.finishedConsolidation ref shareIndex) =>
      exact recvFinishedConsolidation_stagesOne sender ref shareIndex
  | .restoration (.physicalEntered _) | .restoration (.heldShares _)
  | .restoration (.heldShares2 _) => exact Exec.always_ret (.refl s)

/-- An operation that changes the state once stages one mutation or none. The receipt of signature
shares is apart: its first mutation is staged even when it changes nothing. -/
theorem perform_stagesOne {op : Op L} (honce : op.ChangesOnce s)
    (hshares : ∀ sender sessionId shares replenish,
      op ≠ .recvDeviceMessage sender (.signing (.signatureShare sessionId shares replenish))) :
    (s.perform op).Always fun r => StagesOne s r.2 := by
  cases op with
  | recvDeviceMessage sender message =>
      refine always_outcome (recvDeviceMessage_stagesOne honce ?_)
      exact fun _ _ _ hm => hshares _ _ _ _ (congrArg _ hm)
  | beginKeygen request rng =>
      exact always_outcome ((beginKeygen_same _ _).mono fun _ => SameButPending.stagesOne)
  | finalizeKeygen => exact always_outcome fun _ hr => finalizeKeygen_length honce hr
  | cancelKeygen => exact Exec.always_ret (.of_same rfl)
  | clearTmpData => exact Exec.always_ret (.of_same rfl)
  | deleteKey => exact always_done' (deleteKey_stagesOne _)
  | deleteShare => exact always_outcome (deleteShare_stagesOne _ _)
  | startSign =>
      exact always_outcome (always_checked (.refl s) fun _ _ =>
        Exec.always_bind mutate_stagesOne fun _ ht => Exec.always_ret ht)
  | requestDeviceSign => exact always_done (requestDeviceSign_stagesOne _ _ _)
  | completeSignSession => exact always_done (completeSignSession_stagesOne _)
  | cancelSignSession => exact always_done' mutate_stagesOne
  | cancelAllSigningSessions =>
      refine always_done' fun t ht => ?_
      have hlength := mutateAll_length ht
      rw [List.length_map] at hlength
      exact hlength.trans (Nat.add_le_add_left honce _)
  | forgetFinishedSignSession => exact always_done (forgetFinishedSignSession_stagesOne _)
  | startRestoringKey => exact always_done' (Exec.always_bind' fun _ _ => mutate_stagesOne)
  | addRecoveryShareToRestoration =>
      exact always_outcome (always_checked (.refl s) fun _ _ =>
        Exec.always_bind mutate_stagesOne fun _ ht => Exec.always_ret ht)
  | finishRestoring => exact always_outcome fun _ hr => finishRestoring_length honce hr
  | cancelRestoration => exact always_done' mutate_stagesOne
  | startRestoringKeyFromRecoverShare =>
      exact always_outcome (always_checked (.refl s) fun metadata hmetadata =>
        absurd hmetadata (honce metadata))
  | deleteRestorationShare => exact always_done' (deleteRestorationShare_stagesOne _ _)
  | recoverShare => exact always_outcome fun _ hr => recoverShare_length honce hr
  | tellDeviceToSavePhysicalBackup =>
      exact Exec.always_ret (tellDeviceToSavePhysicalBackup_stagesOne _ _)
  | tellDeviceToConsolidatePhysicalBackup =>
      exact always_outcome (always_checked (.refl s) fun _ _ => Exec.always_bind' fun _ _ =>
        Exec.always_bind' fun _ _ => Exec.always_bind' fun _ _ =>
          Exec.always_ret (.of_same rfl))
  | requestDeviceDisplayBackup =>
      exact always_outcome (always_checked (.refl s) fun _ _ => Exec.always_ret (.refl s))
  | requestDeviceCheckBackup =>
      exact always_outcome (always_checked (.refl s) fun _ _ => Exec.always_ret (.refl s))

/-! Signature shares. -/

/-- The state after the shares of a device were recorded. -/
theorem mutate_gotSignatureShares {sessionId : SignSessionId} {session : ActiveSignSession L}
    {signatureShares : List SignatureShare}
    (hsession : s.activeSigningSessions[sessionId]? = some session)
    (h : s.mutate (.signing (.gotSignatureSharesFromDevice sessionId sender signatureShares)) =
      .ret s') :
    s'.activeSigningSessions[sessionId]? = some (withShares session sender signatureShares) ∧
      (withShares session sender signatureShares = session →
        s'.toPersistent = s.toPersistent) := by
  obtain ⟨reduced, happly, -⟩ := mutate_eq h
  obtain ⟨-, hp⟩ := Prod.mk.inj (Exec.ret.inj happly)
  simp only [Persistent.gotSignatureShares, hsession] at hp
  rw [← hp]
  constructor
  · rw [BTreeMap.getElem?_insert, if_pos rfl]
    rfl
  · intro hknown
    have hinsert : s.activeSigningSessions.insert sessionId
        (withShares session sender signatureShares) = s.activeSigningSessions := by
      rw [hknown, BTreeMap.insert_of_getElem? hsession]
    exact Persistent.ext rfl rfl rfl hinsert rfl rfl rfl rfl

/-- The sessions after nonces were added. -/
theorem activeSigningSessions_of_newNonces {segments : List NonceSegment}
    (h : s.mutateAll (segments.map fun segment => .signing (.newNonces sender segment)) =
      .ret s') : s'.activeSigningSessions = s.activeSigningSessions := by
  induction segments generalizing s with
  | nil => rw [← Exec.ret.inj h]
  | cons segment rest ih =>
      obtain ⟨t, hmutate, hrest⟩ := Exec.bind_eq_ret_iff.1 h
      obtain ⟨changed, hnew, -⟩ := mutate_newNonces hmutate
      rw [ih hrest, (Persistent.change_newNonces hnew).1]

/-- A session that is not finished is not completed. -/
theorem completeSignSession_unfinished {sessionId : SignSessionId} {session : ActiveSignSession L}
    {signatures : Option (List EncodedSignature)}
    (hsession : s.activeSigningSessions[sessionId]? = some session)
    (hunfinished : Persistent.allFinished session = false)
    (h : s.completeSignSession sessionId = .ret (signatures, s')) : s' = s := by
  unfold completeSignSession at h
  simp only [hsession, hunfinished, Bool.false_eq_true, ↓reduceIte] at h
  exact (Prod.mk.inj (Exec.ret.inj h)).2.symm

/-- Then a chain has recorded one at most. -/
theorem mutated_length_le {A : Assumptions L} {ms : List (Mutation L)}
    (h : Mutated A s ms s') (hone : StagesOne s s') : ms.length ≤ 1 := by
  rw [StagesOne, h.staged, List.length_append] at hone
  omega

/-- The receipt of signature shares is a mutation that records them and at most one more, before
which nothing was changed. -/
theorem recvSignatureShare_parts {sessionId : SignSessionId} {shares : List SignatureShare}
    {replenish : Option NonceSegment} {result : List (CoordinatorSend L)}
    (hquiet : (Op.recvDeviceMessage sender
      (.signing (.signatureShare sessionId shares replenish))).Satisfies quiet s)
    (honce : (Op.recvDeviceMessage sender
      (.signing (.signatureShare sessionId shares replenish))).ChangesOnce s)
    (h : s.recvSignatureShare sender sessionId shares replenish = .ret (.ok result, s')) :
    ∃ t ms ms', Mutated quiet s ms t ∧ Mutated quiet t ms' s' ∧ ms.length ≤ 1 ∧
      ((t.toPersistent = s.toPersistent ∧ ms'.length ≤ 1) ∨ ms' = [] ∧ s' = t) := by
  obtain ⟨⟨⟩, hchecked, hact⟩ := checked_ok h
  obtain ⟨t, hgot, hrest⟩ := Exec.bind_eq_ret_iff.1 hact
  obtain ⟨u, hnonces, hrest⟩ := Exec.bind_eq_ret_iff.1 hrest
  obtain ⟨⟨signatures, v⟩, hcomplete, hret⟩ := Exec.bind_eq_ret_iff.1 hrest
  obtain ⟨-, rfl⟩ := Prod.mk.inj (Exec.ret.inj hret)
  obtain ⟨session, hsession⟩ : ∃ session, s.activeSigningSessions[sessionId]? = some session := by
    cases hsession : s.activeSigningSessions[sessionId]? with
    | some session => exact ⟨session, rfl⟩
    | none =>
        simp only [Persistent.checkSignatureShares, hsession] at hchecked
        cases Exec.ret.inj hchecked
  have hcache : t.nonceCache = s.nonceCache := nonceCache_of_gotSignatureShares hgot
  obtain ⟨hactive, hknown⟩ := mutate_gotSignatureShares hsession hgot
  have hactive' : u.activeSigningSessions[sessionId]? =
      some (withShares session sender shares) := by
    rw [activeSigningSessions_of_newNonces hnonces]
    exact hactive
  obtain ⟨ms, hms⟩ : Mutates quiet s t := mutates_of_mutate hgot hchecked
  have hlength := mutated_length_le hms (mutate_length hgot)
  have hcovered : (∀ segment ∈ replenish, Covers s.nonceCache sender segment) → u = t := by
    intro hcovers
    cases replenish with
    | none => exact (Exec.ret.inj hnonces).symm
    | some segment =>
        obtain ⟨w, hmutate, hw⟩ := Exec.bind_eq_ret_iff.1 hnonces
        obtain rfl := Exec.ret.inj hw
        exact mutate_covered (hcache ▸ hcovers segment rfl) hmutate
  have hunfinished : Persistent.allFinished (withShares session sender shares) = false → v = u :=
    fun hnot => completeSignSession_unfinished hactive' hnot hcomplete
  obtain ⟨hsame, hcovers⟩ | ⟨hsame, hnot⟩ | ⟨hcovers, hnot⟩ := honce hchecked session hsession
  · obtain rfl := hcovered hcovers
    obtain ⟨ms', hms'⟩ := completeSignSession_mutates (A := quiet) sessionId _ hcomplete
    exact ⟨u, ms, ms', hms, hms', hlength, .inl ⟨hknown hsame,
      mutated_length_le hms' (completeSignSession_stagesOne sessionId _ hcomplete)⟩⟩
  · obtain rfl := hunfinished hnot
    have hpart : Mutates quiet t v ∧ StagesOne t v := by
      cases replenish with
      | none =>
          obtain rfl := Exec.ret.inj hnonces
          exact ⟨.refl t, .refl t⟩
      | some segment =>
          obtain ⟨w, hmutate, hw⟩ := Exec.bind_eq_ret_iff.1 hnonces
          obtain rfl := Exec.ret.inj hw
          refine ⟨mutates_of_mutate hmutate ?_, mutate_length hmutate⟩
          show quiet.segment t.nonceCache sender segment
          rw [hcache]
          exact hquiet segment rfl
    obtain ⟨⟨ms', hms'⟩, hone⟩ := hpart
    exact ⟨t, ms, ms', hms, hms', hlength, .inl ⟨hknown hsame,
      mutated_length_le hms' hone⟩⟩
  · obtain rfl := hcovered hcovers
    obtain rfl := hunfinished hnot
    exact ⟨v, ms, [], hms, ⟨.nil _, (List.append_nil _).symm, rfl⟩, hlength, .inr ⟨rfl, rfl⟩⟩

end FrostCoordinator

/-! ### Batches -/

variable {codec : MutationCodec L} {rows : List (Row codec.Blob)} {s s' : FrostCoordinator L}

/-- Two parts of a batch of one statement at most, the first of which changes nothing when there
is a second, are written as a whole or not at all. -/
theorem Log.take_of_parts {t : FrostCoordinator L} {ms ms' : List (Mutation L)}
    (h : Log codec rows s.toPersistent)
    (hfingerprint : s.keygenFingerprint = L.defaultFingerprint) (hms : Mutated quiet s ms t)
    (hms' : Mutated quiet t ms' s') (hlength : ms.length ≤ 1)
    (hparts : (t.toPersistent = s.toPersistent ∧ ms'.length ≤ 1) ∨ ms' = [] ∧ s' = t) (k : ℕ) :
    Log codec (s'.persistUpdate codec rows ((ms ++ ms').take k)) s.toPersistent ∨
      Log codec (s'.persistUpdate codec rows ((ms ++ ms').take k)) s'.toPersistent := by
  have hbefore := hms.chain
  have hafter := hms'.chain
  rw [hms.fingerprint] at hafter
  rw [hfingerprint] at hbefore hafter
  obtain hlt | hge := Nat.lt_or_ge k (ms ++ ms').length
  · left
    obtain ⟨hsame, hlength'⟩ | ⟨rfl, -⟩ := hparts
    · cases k with
      | zero => exact h
      | succ k =>
          -- the first statement was run, and it changed nothing
          have htake : (ms ++ ms').take (k + 1) = ms := by
            rw [List.length_append] at hlt
            exact List.take_left' (by omega)
          rw [htake, ← hsame]
          exact h.chain hbefore hafter
    · rw [List.append_nil] at hlt
      obtain rfl : k = 0 := by omega
      exact h
  · right
    rw [List.take_of_length_le hge]
    exact h.chain (hbefore.trans hafter) (.nil _)

/-- **Batches.** In every run that keeps the log, whatever part of the statements of an operation
that changes the state once is run, loading leads to the persistent state before the operation or
to the one after it. -/
theorem batch_atomic (codec : MutationCodec L) (rows : List (Row codec.Blob))
    (s : FrostCoordinator L) (h : Stored codec (Op.KeepsLog codec) rows s) (op : Op L)
    (hkeeps : op.KeepsLog codec rows s) (honce : op.ChangesOnce s) (failed : Bool)
    (s' : FrostCoordinator L) (hop : s.perform op = .ret (failed, s')) (k : ℕ) :
    ∃ t, FrostCoordinator.load codec (s'.persistUpdate codec rows (s'.mutations.take k)) =
        .ret (some t) ∧
      (t.toPersistent = s.toPersistent ∨ t.toPersistent = s'.toPersistent) := by
  obtain ⟨hlog, hmutations, hfingerprint⟩ := h.log
  have hall := (hlog.perform hmutations hfingerprint hkeeps hop).1
  have hpart : Log codec (s'.persistUpdate codec rows (s'.mutations.take k)) s.toPersistent ∨
      Log codec (s'.persistUpdate codec rows (s'.mutations.take k)) s'.toPersistent := by
    by_cases hshares : ∃ sender sessionId shares replenish,
        op = .recvDeviceMessage sender (.signing (.signatureShare sessionId shares replenish))
    · obtain ⟨sender, sessionId, shares, replenish, rfl⟩ := hshares
      have hquiet := Op.satisfies_quiet hkeeps.1 (fun _ _ _ _ hm => by cases hm)
        fun _ hm => by cases hm
      obtain ⟨e, hx, -⟩ | ⟨result, hx, -⟩ := FrostCoordinator.outcome_eq hop
      · obtain rfl := FrostCoordinator.checked_error hx
        refine hlog.take_of_length_le_one ?_ hall k
        rw [hmutations]
        exact Nat.zero_le _
      · obtain ⟨t, ms, ms', hms, hms', hlength, hparts⟩ :=
          FrostCoordinator.recvSignatureShare_parts hquiet honce hx
        have hstaged : s'.mutations = ms ++ ms' := by
          rw [hms'.staged, hms.staged, hmutations, List.nil_append]
        rw [hstaged]
        exact hlog.take_of_parts hfingerprint hms hms' hlength hparts k
    · have hone : FrostCoordinator.StagesOne s s' := FrostCoordinator.perform_stagesOne honce
        (fun sender sessionId shares replenish hm => hshares ⟨_, _, _, _, hm⟩) _ hop
      rw [FrostCoordinator.StagesOne, hmutations] at hone
      exact hlog.take_of_length_le_one hone hall k
  obtain hbefore | hafter := hpart
  · obtain ⟨t, hload, hp, -⟩ := hbefore.loads
    exact ⟨t, hload, .inl hp⟩
  · obtain ⟨t, hload, hp, -⟩ := hafter.loads
    exact ⟨t, hload, .inr hp⟩

end

section

attribute [local instance] Build.release

/-- An operation that does not panic leaves `after`. -/
theorem FrostCoordinator.perform_after (s : FrostCoordinator plainLib) (op : Op plainLib)
    (h : (match s.perform op with | .ret _ => true | .panic _ => false) = true) :
    ∃ failed, s.perform op = .ret (failed, s.after op) := by
  cases hop : s.perform op with
  | ret r =>
      rw [FrostCoordinator.after, hop]
      exact ⟨r.1, rfl⟩
  | panic msg =>
      rw [hop] at h
      cases h

/-- Cancelling a session that was asked for is one statement. -/
theorem batch_atomic_of_oneShare :
    ∃ failed, oneShareAsked.2.perform (.cancelSignSession 452) =
        .ret (failed, oneShareAsked.2.after (.cancelSignSession 452)) ∧
      ∀ k, ∃ t, FrostCoordinator.load plainCodec
          ((oneShareAsked.2.after (.cancelSignSession 452)).persistUpdate plainCodec
            oneShareAsked.1
            ((oneShareAsked.2.after (.cancelSignSession 452)).mutations.take k)) = .ret (some t) ∧
        (t.toPersistent = oneShareAsked.2.toPersistent ∨
          t.toPersistent = (oneShareAsked.2.after (.cancelSignSession 452)).toPersistent) := by
  obtain ⟨failed, hop⟩ := FrostCoordinator.perform_after oneShareAsked.2 (.cancelSignSession 452)
    (by decide +kernel)
  have hkeeps : (Op.cancelSignSession 452).KeepsLog plainCodec oneShareAsked.1 oneShareAsked.2 :=
    ⟨trivial, fun _ hdelete => by cases hdelete⟩
  refine ⟨failed, hop, batch_atomic plainCodec _ _ (stored_oneShareAsked ?_) _ hkeeps trivial
    failed _ hop⟩
  exact fun rows s op hdelete hsatisfies =>
    ⟨hsatisfies, fun keyId hop => absurd hop (hdelete keyId)⟩

/-- A coordinator that is restoring a key and has its share. -/
def oneShareRestoring : List (Row (Mutation plainLib)) × FrostCoordinator plainLib :=
  saved nothingSaved (.startRestoringKeyFromRecoverShare oneShare 1)

/-- After the first of the statements that write a restored key, it has no access structure. -/
theorem restored_key_without_access_structure :
    ¬ ∀ (rows : List (Row plainCodec.Blob)) (s : FrostCoordinator plainLib) (op : Op plainLib)
      (failed : Bool) (s' : FrostCoordinator plainLib) (k : ℕ),
      Stored plainCodec (Op.KeepsLog plainCodec) rows s → op.KeepsLog plainCodec rows s →
      s.perform op = .ret (failed, s') →
      ∃ t, FrostCoordinator.load plainCodec (s'.persistUpdate plainCodec rows
          (s'.mutations.take k)) = .ret (some t) ∧
        (t.toPersistent = s.toPersistent ∨ t.toPersistent = s'.toPersistent) := by
  intro hall
  have hnew : Stored plainCodec (Op.KeepsLog plainCodec) nothingSaved.1 nothingSaved.2 := .new
  have hrun : Stored plainCodec (Op.KeepsLog plainCodec) oneShareRestoring.1 oneShareRestoring.2 :=
    hnew.saved _ ⟨trivial, fun _ hop => by cases hop⟩
  obtain ⟨failed, hop⟩ := FrostCoordinator.perform_after oneShareRestoring.2
    (.finishRestoring 1 0 (0 : ℕ)) (by decide +kernel)
  have hkeeps : (Op.finishRestoring 1 0 (0 : ℕ)).KeepsLog plainCodec oneShareRestoring.1
      oneShareRestoring.2 := ⟨trivial, fun _ hdelete => by cases hdelete⟩
  obtain ⟨t, hload, hp⟩ := hall _ _ _ _ _ 1 hrun hkeeps hop
  -- the number of keys, and whether the key has its access structure
  let view (p : Persistent plainLib) : ℕ × Bool :=
    (p.keys.size, (p.getAccessStructure oneShareRef).isSome)
  have hview : Option.map (fun s => view s.toPersistent) <$> FrostCoordinator.load plainCodec
      ((oneShareRestoring.2.after (.finishRestoring 1 0 (0 : ℕ))).persistUpdate plainCodec
        oneShareRestoring.1 ((oneShareRestoring.2.after
          (.finishRestoring 1 0 (0 : ℕ))).mutations.take 1)) =
      .ret (some (view t.toPersistent)) := by
    rw [hload]
    rfl
  obtain hp | hp := hp
  · rw [hp] at hview
    exact absurd hview (by decide +kernel)
  · rw [hp] at hview
    exact absurd hview (by decide +kernel)

end

end Frostsnap.Coordinator
