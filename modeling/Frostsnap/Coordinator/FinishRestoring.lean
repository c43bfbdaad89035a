import Frostsnap.Coordinator.NewKey

/-!
# What finishing a restoration keeps

`finish_restoring` installs the key that was found, gives every device the share that it holds of
it, and queues the shares that a device has as a physical backup only for consolidation. It looks
up what a device holds in a map with one share index for each device, which shares of other
indices on the same device do not survive.

## Main results

* `finish_restoring_keeps_shares`: every compatible share is recorded and queued as it should be
  exactly when no device holds compatible shares of different indices.
-/

namespace Frostsnap

namespace RecoveringAccessStructure

variable (L : FrostLib)

/-- A share that is one of the key that was found. -/
def Holds (a : RecoveringAccessStructure) (recoverShare : RecoverShare) : Prop :=
  recoverShare ∈ a.heldShares ∧
    a.compatibility L recoverShare.heldShare.shareImage = .compatible

/-- No device holds compatible shares of different indices. -/
def OneIndexPerDevice (a : RecoveringAccessStructure) : Prop :=
  ∀ share other, a.Holds L share → a.Holds L other → share.heldBy = other.heldBy →
    share.heldShare.shareImage.index = other.heldShare.shareImage.index

variable {L}

/-- The device of a compatible share is found with its index, if that is its only one. -/
theorem compatibleDeviceToShareIndex_getElem? {a : RecoveringAccessStructure}
    {shares : BTreeMap DeviceId ShareIndex} {recoverShare : RecoverShare}
    (h : a.compatibleDeviceToShareIndex L = some shares) (hone : a.OneIndexPerDevice L)
    (hshare : a.Holds L recoverShare) :
    shares[recoverShare.heldBy]? = some recoverShare.heldShare.shareImage.index := by
  obtain ⟨key, -, rfl⟩ := Option.map_eq_some_iff.1 h
  refine BTreeMap.getElem?_foldl_insert_of_mem RecoverShare.heldBy
    (fun share => share.heldShare.shareImage.index) ⟨recoverShare, ?_, rfl⟩ ?_ ∅
  · rw [List.mem_filter, beq_iff_eq]
    exact hshare
  · intro other hother hdevice
    rw [List.mem_filter, beq_iff_eq] at hother
    exact hone other recoverShare hother hshare hdevice

/-- The devices that need to consolidate are those of the shares that need it. -/
theorem mem_needsToConsolidate {a : RecoveringAccessStructure} {deviceId : DeviceId} :
    deviceId ∈ a.needsToConsolidate L ↔
      ∃ share, a.Holds L share ∧ share.heldShare.needsConsolidation = true ∧
        share.heldBy = deviceId := by
  simp only [needsToConsolidate, List.mem_map, List.mem_filter, Bool.and_eq_true, beq_iff_eq]
  constructor
  · rintro ⟨share, ⟨hmem, hneeds, hcompatible⟩, hdevice⟩
    exact ⟨share, ⟨hmem, hcompatible⟩, hneeds, hdevice⟩
  · rintro ⟨share, ⟨hmem, hcompatible⟩, hneeds, hdevice⟩
    exact ⟨share, ⟨hmem, hneeds, hcompatible⟩, hdevice⟩

end RecoveringAccessStructure

namespace Coordinator

variable {L : FrostLib}

namespace Persistent

/-- What finishing a restoration is for: every compatible share is recorded for its device, and
those that need to be consolidated, and no others, are queued. -/
structure KeepsShares (p : Persistent L) (a : RecoveringAccessStructure) (ref : AccessStructureRef)
    (p' : Persistent L) : Prop where
  recorded : ∀ share, a.Holds L share → ∃ structure', p'.getAccessStructure ref = some structure' ∧
    structure'.deviceToShareIndex[share.heldBy]? = some share.heldShare.shareImage.index
  queued : ∀ share, a.Holds L share → share.heldShare.needsConsolidation = true →
    { deviceId := share.heldBy
      accessStructureRef := ref
      shareIndex := share.heldShare.shareImage.index } ∈ p'.pendingPhysicalConsolidations
  onlyQueued : ∀ pending ∈ p'.pendingPhysicalConsolidations,
    pending ∈ p.pendingPhysicalConsolidations ∨
      ∃ share, a.Holds L share ∧ share.heldShare.needsConsolidation = true ∧
        pending = { deviceId := share.heldBy
                    accessStructureRef := ref
                    shareIndex := share.heldShare.shareImage.index }

end Persistent

namespace FrostCoordinator

variable [Build] {s s' : FrostCoordinator L}

/-- Queueing consolidations. -/
theorem mutateAll_needsConsolidation {ms : List (Mutation L)}
    (hms : ∀ m ∈ ms, ∃ pending, m = .restoration (.deviceNeedsConsolidation pending))
    (h : s.mutateAll ms = .ret s') :
    s'.keys = s.keys ∧ ∀ pending, pending ∈ s'.pendingPhysicalConsolidations ↔
      pending ∈ s.pendingPhysicalConsolidations ∨
        .restoration (.deviceNeedsConsolidation pending) ∈ ms := by
  induction ms generalizing s with
  | nil =>
      obtain rfl : s = s' := by simpa [mutateAll] using h
      exact ⟨rfl, fun pending => by simp only [List.not_mem_nil, or_false]⟩
  | cons m ms ih =>
      obtain ⟨⟨first, rfl⟩, hlater⟩ := List.forall_mem_cons.1 hms
      obtain ⟨t, hmutate, hrest⟩ := Exec.bind_eq_ret_iff.1 h
      obtain ⟨_, hchange⟩ := mutate_change hmutate
      obtain ⟨-, ht⟩ := Prod.mk.inj (Exec.ret.inj hchange)
      obtain ⟨hkeys, hpending⟩ := ih hlater hrest
      refine ⟨hkeys.trans (by rw [← ht]), fun pending => ?_⟩
      rw [hpending, List.mem_cons, ← ht, BTreeSet.mem_insert, Mutation.restoration.injEq,
        RestorationMutation.deviceNeedsConsolidation.injEq, or_comm (a := pending = first),
        or_assoc]

/-- What a restoration that is finished went through. -/
theorem finishRestoring_eq {restorationId : RestorationId} {encryptionKey : SymmetricKey}
    {rng : L.Rng} {ref : AccessStructureRef} {state : RestorationState}
    (hstate : s.restorations[restorationId]? = some state)
    (h : s.finishRestoring restorationId encryptionKey rng = .ret (.ok ref, s')) :
    ∃ (shares : BTreeMap DeviceId ShareIndex) (structure' : CoordAccessStructure),
      state.accessStructure.compatibleDeviceToShareIndex L = some shares ∧
      s'.getAccessStructure ref = some structure' ∧
      (∀ (deviceId : DeviceId) (shareIndex : ShareIndex), shares[deviceId]? = some shareIndex →
        structure'.deviceToShareIndex[deviceId]? = some shareIndex) ∧
      ∀ pending, pending ∈ s'.pendingPhysicalConsolidations ↔
        pending ∈ s.pendingPhysicalConsolidations ∨
          pending.deviceId ∈ state.accessStructure.needsToConsolidate L ∧
            shares[pending.deviceId]? = some pending.shareIndex ∧
            pending.accessStructureRef = ref := by
  obtain ⟨⟨state', root, shares⟩, hrestored, h⟩ := checked_ok h
  -- what was checked
  rw [Persistent.restored, hstate] at hrestored
  simp only at hrestored
  split at hrestored
  · cases hrestored
  obtain ⟨shares', hshares, hret⟩ := Exec.bind_eq_ret_iff.1 hrestored
  obtain ⟨rfl, rfl, rfl⟩ : state = state' ∧ _ = root ∧ shares' = shares := by
    simpa using hret
  have hshares := Exec.expect_eq_ret_iff.1 hshares
  -- the steps
  obtain ⟨⟨ref', t⟩, hnew, h⟩ := Exec.bind_eq_ret_iff.1 h
  obtain ⟨ms, hms, h⟩ := Exec.bind_eq_ret_iff.1 h
  obtain ⟨u, hu, hret⟩ := Exec.bind_eq_ret_iff.1 h
  obtain ⟨rfl, rfl⟩ := Prod.mk.inj (Exec.ret.inj hret)
  rw [mutateAll_append] at hu
  obtain ⟨v, hv, hdelete⟩ := Exec.bind_eq_ret_iff.1 hu
  obtain ⟨w, hw, hw'⟩ := Exec.bind_eq_ret_iff.1 hdelete
  obtain rfl : w = u := by simpa [mutateAll] using hw'
  obtain ⟨_, hchange⟩ := mutate_change hw
  obtain ⟨-, hdeleted⟩ := Prod.mk.inj (Exec.ret.inj hchange)
  obtain ⟨rfl, hget, hpendingNew⟩ := mutateNewKey_eq hnew
  have hmem := fun m => Persistent.mem_consolidationMutations hms (m := m)
  obtain ⟨hkeys, hpending⟩ := mutateAll_needsConsolidation (fun m hm => by
    obtain ⟨deviceId, -, shareIndex, -, rfl⟩ := (hmem m).1 hm
    exact ⟨_, rfl⟩) hv
  have hkeys' : w.keys = t.keys := by
    rw [← hdeleted]
    exact hkeys
  rw [Persistent.getAccessStructure, ← hkeys'] at hget
  refine ⟨shares', _, hshares, hget, ?_, fun pending => ?_⟩
  · intro deviceId shareIndex hindex
    refine BTreeMap.getElem?_foldl_insert_of_mem Prod.fst Prod.snd
      ⟨(deviceId, shareIndex), Std.ExtTreeMap.mem_toList_iff_getElem?_eq_some.2 hindex, rfl⟩
      (fun share hshare hdevice => ?_) _
    have hentry := Std.ExtTreeMap.mem_toList_iff_getElem?_eq_some.1 hshare
    rw [hdevice, hindex] at hentry
    exact (Option.some.inj hentry).symm
  · rw [← hdeleted]
    show pending ∈ v.pendingPhysicalConsolidations ↔ _
    rw [hpending, hpendingNew, hmem]
    constructor
    · rintro (hold | ⟨deviceId, hneeds, shareIndex, hindex, heq⟩)
      · exact .inl hold
      · obtain rfl := RestorationMutation.deviceNeedsConsolidation.inj
          (Mutation.restoration.inj heq)
        exact .inr ⟨hneeds, hindex, rfl⟩
    · rintro (hold | ⟨hneeds, hindex, href⟩)
      · exact .inl hold
      · exact .inr ⟨_, hneeds, _, hindex, by rw [← href]⟩

end FrostCoordinator

open FrostCoordinator

/-- **Finishing a restoration** keeps every compatible share, and queues those that have to be
consolidated, exactly when no device holds compatible shares of different indices. -/
theorem finish_restoring_keeps_shares [Build] {s s' : FrostCoordinator L}
    {restorationId : RestorationId} {encryptionKey : SymmetricKey} {rng : L.Rng}
    {ref : AccessStructureRef} {state : RestorationState}
    (hstate : s.restorations[restorationId]? = some state)
    (h : s.finishRestoring restorationId encryptionKey rng = .ret (.ok ref, s')) :
    s.KeepsShares state.accessStructure ref s'.toPersistent ↔
      state.accessStructure.OneIndexPerDevice L := by
  obtain ⟨shares, structure', hshares, hget, hrecorded, hpending⟩ := finishRestoring_eq hstate h
  constructor
  · -- a device has one entry
    intro hkeeps share other hshare hother hdevice
    obtain ⟨a, ha, hindex⟩ := hkeeps.recorded share hshare
    obtain ⟨b, hb, hindex'⟩ := hkeeps.recorded other hother
    rw [ha, Option.some.injEq] at hb
    rw [← hb, ← hdevice, hindex, Option.some.injEq] at hindex'
    exact hindex'
  · intro hone
    have hfound : ∀ share, state.accessStructure.Holds L share →
        shares[share.heldBy]? = some share.heldShare.shareImage.index := fun _ hshare =>
      RecoveringAccessStructure.compatibleDeviceToShareIndex_getElem? hshares hone hshare
    constructor
    case recorded =>
      intro share hshare
      exact ⟨structure', hget, hrecorded _ _ (hfound share hshare)⟩
    case queued =>
      intro share hshare hneeds
      rw [hpending]
      exact .inr ⟨RecoveringAccessStructure.mem_needsToConsolidate.2 ⟨share, hshare, hneeds, rfl⟩,
        hfound share hshare, rfl⟩
    case onlyQueued =>
      intro pending hmem
      rcases (hpending pending).1 hmem with hold | ⟨hneeds, hindex, href⟩
      · exact .inl hold
      · obtain ⟨share, hshare, hshareNeeds, hdevice⟩ :=
          RecoveringAccessStructure.mem_needsToConsolidate.1 hneeds
        rw [← hdevice, hfound share hshare, Option.some.injEq] at hindex
        refine .inr ⟨share, hshare, hshareNeeds, ?_⟩
        rw [hdevice, hindex, ← href]

section

attribute [local instance] Build.release

/-- The library to compute with, which finds the line through the shares with index one and
two. -/
def lineLib : FrostLib where
  __ := plainLib
  findValidSubset := fun shares _ threshold =>
    match shares, threshold with
    | [first, second], some 2 =>
        if first.index = 1 ∧ second.index = 2 then
          some
            { pointPolynomial :=
                [2 * first.image - second.image, second.image - first.image] }
        else none
    | _, _ => none

/-- A backup that was entered on a device. -/
def enteredShare (heldBy : DeviceId) (index : ShareIndex) (image : Point) : RecoverShare where
  heldBy := heldBy
  heldShare :=
    { accessStructureRef := none
      shareImage := { index := index, image := image }
      threshold := none
      keyName := none
      purpose := none
      needsConsolidation := true }

/-- A coordinator to which two backups of a two of two key were added, the second of them entered
on the device given. -/
def twoEntered (second : DeviceId) : FrostCoordinator lineLib :=
  let entered : Exec (FrostCoordinator lineLib) := do
    let s ← (FrostCoordinator.new lineLib).startRestoringKey "" (some 2) .test 1
    let (_, s) ← s.addRecoveryShareToRestoration 1 (enteredShare 1 1 9) 0
    let (_, s) ← s.addRecoveryShareToRestoration 1 (enteredShare second 2 11) 0
    return s
  match entered with
  | .ret s => s
  | .panic _ => .new lineLib

/-- Its restoration, which has found the key. -/
def twoEnteredState (second : DeviceId) : RestorationState where
  restorationId := 1
  keyName := ""
  accessStructure :=
    { startingThreshold := some 2
      heldShares := [enteredShare 1 1 9, enteredShare second 2 11]
      sharedKey := some { pointPolynomial := [7, 2] } }
  keyPurpose := .test
  fingerprint := 0

/-- The restoration is finished. -/
def twoEnteredFinished (second : DeviceId) : FrostCoordinator lineLib :=
  match (twoEntered second).finishRestoring 1 0 (0 : ℕ) with
  | .ret (_, s) => s
  | .panic _ => .new lineLib

/-- Its access structure. -/
def lineRef : AccessStructureRef :=
  .fromRootSharedKey lineLib { pointPolynomial := [7, 2] }

theorem finish_restoring_keeps_shares_of_two_devices :
    (twoEntered 2).KeepsShares (twoEnteredState 2).accessStructure lineRef
      (twoEnteredFinished 2).toPersistent := by
  have hstate : (twoEntered 2).restorations[(1 : RestorationId)]? = some (twoEnteredState 2) := by
    decide +kernel
  have hfinish : (twoEntered 2).finishRestoring 1 0 (0 : ℕ) =
      .ret (.ok lineRef, twoEnteredFinished 2) := by rfl
  refine (finish_restoring_keeps_shares hstate hfinish).2 ?_
  intro share other hshare hother hdevice
  simp only [RecoveringAccessStructure.Holds, twoEnteredState, List.mem_cons, List.not_mem_nil,
    or_false] at hshare hother
  obtain ⟨rfl | rfl, -⟩ := hshare <;> obtain ⟨rfl | rfl, -⟩ := hother
  · rfl
  · exact absurd hdevice (by decide)
  · exact absurd hdevice (by decide)
  · rfl

/-- Of two backups that were entered on one device, the first is lost. -/
theorem second_backup_replaces_first :
    (twoEntered 1).restorations[(1 : RestorationId)]? = some (twoEnteredState 1) ∧
      (twoEntered 1).finishRestoring 1 0 (0 : ℕ) = .ret (.ok lineRef, twoEnteredFinished 1) ∧
      ¬ (twoEntered 1).KeepsShares (twoEnteredState 1).accessStructure lineRef
        (twoEnteredFinished 1).toPersistent := by
  refine ⟨by decide +kernel, by rfl, fun hkeeps => ?_⟩
  obtain ⟨a, ha, hindex⟩ := hkeeps.recorded (enteredShare 1 1 9)
    ⟨List.mem_cons_self, by decide +kernel⟩
  have hlast : ((twoEnteredFinished 1).getAccessStructure lineRef).bind
      (fun a => a.deviceToShareIndex[(1 : DeviceId)]?) = some 2 := by decide +kernel
  rw [ha, Option.bind_some] at hlast
  have hsame := hindex.symm.trans hlast
  exact absurd hsame (by decide)

end

end Coordinator

end Frostsnap
