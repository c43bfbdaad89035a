import Frostsnap.Coordinator.Transient

/-!
# Backups that devices were told to save

The coordinator tells a device to save a backup for a restoration, and remembers the request until
the device replies. The request is not part of the persistent state: cancelling or finishing the
restoration leaves it, and a restoration can find another key before the reply. The reply then adds
nothing, fails an internal check in a debug build, and is reported to the user as a saved backup in
a release build.

## Main results

* `saved_backups_accounted`: which replies are accounted for, in every reachable state.
-/

namespace Frostsnap.Coordinator

variable {L : FrostLib}

theorem SaveKey.cmp_eq_iff {k k' : SaveKey} : SaveKey.cmp k k' = .eq ↔ k = k' := by
  obtain ⟨deviceId, image⟩ := k
  obtain ⟨deviceId', image'⟩ := k'
  show (compare deviceId deviceId').then (compare image image') = .eq ↔ _
  rw [Ordering.then_eq_eq, Std.compare_eq_iff_eq, Std.compare_eq_iff_eq, Prod.mk.injEq]

/-- What is reported to the user when a backup was saved. -/
def savedReport (deviceId : DeviceId) (restorationId : RestorationId) (shareIndex : ShareIndex) :
    CoordinatorSend L :=
  .toUser (.restoration (.physicalBackupSaved deviceId restorationId shareIndex))

/-! ### Adding the share of a reply -/

namespace Persistent

variable [Build] {p p' : Persistent L} {fingerprint : Fingerprint} {restorationId : RestorationId}
  {deviceId : DeviceId} {heldShare : HeldShare2}

/-- A restoration that has a share, or that a share of it can be added to. -/
def Takes (p : Persistent L) (restorationId : RestorationId) (deviceId : DeviceId)
    (heldShare : HeldShare2) : Prop :=
  ∃ state, p.restorations[restorationId]? = some state ∧
    (state.accessStructure.hasGotShare deviceId heldShare.shareImage = true ∨
      conflict heldShare.accessStructureRef (state.accessStructure.accessStructureRef L) = false)

/-- A restoration contains the share of a device. -/
def Contains (p : Persistent L) (restorationId : RestorationId) (deviceId : DeviceId)
    (image : ShareImage) : Prop :=
  ∃ state, p.restorations[restorationId]? = some state ∧
    state.accessStructure.hasGotShare deviceId image = true

omit [Build] in
/-- A share that was added is there. -/
theorem hasGotShare_addShare (a : RecoveringAccessStructure) :
    (a.addShare L { heldBy := deviceId, heldShare := heldShare } fingerprint).hasGotShare
      deviceId heldShare.shareImage = true := by
  rw [RecoveringAccessStructure.hasGotShare, List.any_eq_true]
  exact ⟨_, List.mem_append_right _ List.mem_cons_self, by
    rw [RecoveringAccessStructure.IsShareOf, beq_self_eq_true, beq_self_eq_true, Bool.and_self]⟩

omit [Build] in
theorem setRestoration_self (p : Persistent L) (state : RestorationState)
    (a : RecoveringAccessStructure) (restorationId : RestorationId) :
    (p.setRestoration state a restorationId).restorations[restorationId]? =
      some { state with accessStructure := a } := by
  rw [setRestoration, BTreeMap.getElem?_insert, if_pos rfl]

/-- A share that can be added is there afterwards, and other restorations stay as they are. -/
theorem restorationProgress2_takes (h : p.Takes restorationId deviceId heldShare)
    (fingerprint : Fingerprint) :
    ∃ changed p', p.restorationProgress2 fingerprint restorationId deviceId heldShare =
        .ret (changed, p') ∧
      p'.Contains restorationId deviceId heldShare.shareImage ∧
      ∀ other, other ≠ restorationId → p'.restorations[other]? = p.restorations[other]? := by
  obtain ⟨state, hstate, hcase⟩ := h
  rw [restorationProgress2, hstate]
  by_cases hgot : state.accessStructure.hasGotShare deviceId heldShare.shareImage = true
  · exact ⟨false, p, by simp only [hgot, if_true], ⟨state, hstate, hgot⟩, fun _ _ => rfl⟩
  · have hconflict : ¬ conflict heldShare.accessStructureRef
        (state.accessStructure.accessStructureRef L) = true := by
      rw [hcase.resolve_left hgot]
      exact Bool.false_ne_true
    refine ⟨true, _, by simp only [if_neg hgot, if_neg hconflict]; rfl, ?_, fun other hother => ?_⟩
    · exact ⟨_, setRestoration_self _ _ _ _, hasGotShare_addShare _⟩
    · rw [setRestoration, BTreeMap.getElem?_insert, if_neg hother.symm]

/-- A share that cannot be added changes nothing. -/
theorem restorationProgress2_not_takes (h : ¬ p.Takes restorationId deviceId heldShare)
    {changed : Bool}
    (hret : p.restorationProgress2 fingerprint restorationId deviceId heldShare =
      .ret (changed, p')) : p' = p := by
  rw [restorationProgress2] at hret
  split at hret
  · exact (fail_eq hret).2
  · rename_i state hstate
    split at hret
    · rename_i hgot
      exact absurd ⟨state, hstate, .inl hgot⟩ h
    · split at hret
      · exact (fail_eq hret).2
      · rename_i hconflict
        exact absurd ⟨state, hstate, .inr (Bool.not_eq_true _ ▸ hconflict)⟩ h

end Persistent

/-! ### Replies -/

namespace FrostCoordinator

/-- The saves that are waited for are of the shares that they are named by. -/
def WaitsForNamed (s : FrostCoordinator L) : Prop :=
  ∀ (deviceId : DeviceId) (image : ShareImage) (restorationId : RestorationId)
    (heldShare : HeldShare2),
    s.tmpWaitingSave[(deviceId, image)]? = some (restorationId, heldShare) →
      heldShare.shareImage = image

/-- The restoration that a reply is for has the share, or can take it. -/
def SaveFits (s : FrostCoordinator L) (sender : DeviceId) (image : ShareImage) : Prop :=
  ∀ (restorationId : RestorationId) (heldShare : HeldShare2),
    s.tmpWaitingSave[(sender, image)]? = some (restorationId, heldShare) →
      s.Takes restorationId sender heldShare

variable [Build] {s s' : FrostCoordinator L} {sender : DeviceId}

/-- What a message of a device about a saved backup must do: it is received without an internal
failure, a backup is reported as saved only when its restoration contains the share, and no
restoration that is gone comes back. -/
structure SavesAccounted (s : FrostCoordinator L) (sender : DeviceId)
    (message : DeviceToCoordinatorMessage L) : Prop where
  returns : ∀ image, message = .restoration (.physicalSaved image) →
    (s.recvDeviceMessage sender message).Returns
  contained : ∀ sends s', s.recvDeviceMessage sender message = .ret (.ok sends, s') →
    ∀ deviceId restorationId shareIndex, savedReport deviceId restorationId shareIndex ∈ sends →
      ∃ image, message = .restoration (.physicalSaved image) ∧ shareIndex = image.index ∧
        s'.Contains restorationId deviceId image
  gone : ∀ image, message = .restoration (.physicalSaved image) →
    ∀ r s', s.recvDeviceMessage sender message = .ret (r, s') →
      ∀ restorationId, restorationId ∉ s.restorations → restorationId ∉ s'.restorations

/-- A reply that fits is reported, and its share is in the restoration. -/
theorem recvPhysicalSaved_fits {image : ShareImage} {restorationId : RestorationId}
    {heldShare : HeldShare2}
    (hwaits : s.tmpWaitingSave[(sender, image)]? = some (restorationId, heldShare))
    (h : s.Takes restorationId sender heldShare) :
    ∃ s', s.recvPhysicalSaved sender image =
        .ret (.ok [savedReport sender restorationId image.index], s') ∧
      s'.Contains restorationId sender heldShare.shareImage ∧
      ∀ other, other ≠ restorationId → s'.restorations[other]? = s.restorations[other]? := by
  obtain ⟨changed, p, hprogress, hcontains, hothers⟩ :=
    Persistent.restorationProgress2_takes h s.keygenFingerprint
  rw [recvPhysicalSaved, hwaits]
  simp only
  set t : FrostCoordinator L :=
    { s with tmpWaitingSave := s.tmpWaitingSave.erase (sender, image) }
  have hchange : t.change t.keygenFingerprint
      (.restoration (.restorationProgress2 restorationId sender heldShare)) =
        .ret (changed, p) := hprogress
  obtain ⟨u, hu, rfl⟩ := mutate_of_change hchange
  exact ⟨u, by rw [hu]; rfl, hcontains, hothers⟩

/-- A reply that does not fit, if it is received at all, is reported all the same, and changes no
restoration. -/
theorem recvPhysicalSaved_not_fits {image : ShareImage} {restorationId : RestorationId}
    {heldShare : HeldShare2} {r : Except Error (List (CoordinatorSend L))}
    (hwaits : s.tmpWaitingSave[(sender, image)]? = some (restorationId, heldShare))
    (h : ¬ s.Takes restorationId sender heldShare)
    (hret : s.recvPhysicalSaved sender image = .ret (r, s')) :
    r = .ok [savedReport sender restorationId image.index] ∧ s'.restorations = s.restorations := by
  rw [recvPhysicalSaved, hwaits] at hret
  obtain ⟨u, hu, hret⟩ := Exec.bind_eq_ret_iff.1 hret
  obtain ⟨rfl, rfl⟩ := Prod.mk.inj (Exec.ret.inj hret)
  obtain ⟨changed, hchange⟩ := mutate_change hu
  have hsame := Persistent.restorationProgress2_not_takes h hchange
  exact ⟨rfl, congrArg Persistent.restorations hsame⟩

/-! ### Only replies report saved backups -/

/-- Nothing that is sent reports a saved backup. -/
def NoReport (r : Except Error (List (CoordinatorSend L)) × FrostCoordinator L) : Prop :=
  ∀ sends, r.1 = .ok sends → ∀ deviceId restorationId shareIndex,
    savedReport deviceId restorationId shareIndex ∉ sends

omit [Build] in
theorem noReport_error (e : Error) (t : FrostCoordinator L) : NoReport (.error e, t) := nofun

omit [Build] in
theorem noReport_nil (t : FrostCoordinator L) : NoReport (.ok [], t) := by
  rintro sends ⟨⟩ deviceId restorationId shareIndex hmem
  cases hmem

omit [Build] in
theorem noReport_cons {send : CoordinatorSend L} {sends : List (CoordinatorSend L)}
    {t : FrostCoordinator L} (hne : ∀ deviceId restorationId shareIndex,
      savedReport deviceId restorationId shareIndex ≠ send)
    (h : NoReport (.ok sends, t)) : NoReport (.ok (send :: sends), t) := by
  rintro all ⟨⟩ deviceId restorationId shareIndex hmem
  rcases List.mem_cons.1 hmem with heq | hmem
  · exact hne _ _ _ heq
  · exact h sends rfl _ _ _ hmem

theorem recvKeygen_noReport (sender : DeviceId) (message : DeviceKeygen L) :
    (s.recvDeviceMessage sender (.keyGen message)).Always NoReport := by
  cases message with
  | response keygenId input =>
      simp only [recvDeviceMessage, recvKeygenResponse]
      split
      · split
        · exact Exec.always_ret (noReport_error _ _)
        · split
          · exact Exec.always_ret (noReport_error _ _)
          · split
            · exact Exec.always_bind' fun _ _ => Exec.always_bind' fun _ _ =>
                Exec.always_bind' fun _ _ =>
                  Exec.always_ret (noReport_cons (fun _ _ _ h => by cases h)
                    (noReport_cons (fun _ _ _ h => by cases h) (noReport_nil _)))
            · exact Exec.always_ret (noReport_cons (fun _ _ _ h => by cases h) (noReport_nil _))
      · exact Exec.always_ret (noReport_error _ _)
  | certify keygenId vrfCert =>
      simp only [recvDeviceMessage, recvKeygenCertify]
      split
      · refine Exec.always_bind' fun _ _ => ?_
        split
        · exact Exec.always_ret (noReport_error _ _)
        · split
          · exact Exec.always_bind' fun _ _ =>
              Exec.always_ret (noReport_cons (fun _ _ _ h => by cases h)
                (noReport_cons (fun _ _ _ h => by cases h) (noReport_nil _)))
          · exact Exec.always_ret (noReport_nil _)
      · exact Exec.always_ret (noReport_error _ _)
  | ack keygenId ackSessionHash =>
      simp only [recvDeviceMessage, recvKeygenAck]
      split
      · split
        · exact Exec.always_ret (noReport_error _ _)
        · split
          · exact Exec.always_ret (noReport_error _ _)
          · split
            · exact Exec.always_ret (noReport_nil _)
            · split
              · exact Exec.always_bind' fun _ _ => Exec.always_bind' fun _ _ =>
                  Exec.always_ret (noReport_cons (fun _ _ _ h => by cases h) (noReport_nil _))
              · exact Exec.always_ret (noReport_cons (fun _ _ _ h => by cases h) (noReport_nil _))
      · exact Exec.always_ret (noReport_error _ _)

theorem recvSignatureShare_noReport (sender : DeviceId) (sessionId : SignSessionId)
    (signatureShares : List SignatureShare) (replenishNonces : Option NonceSegment) :
    (s.recvSignatureShare sender sessionId signatureShares replenishNonces).Always NoReport := by
  refine Exec.always_bind' fun check _ => ?_
  cases check with
  | error e => exact Exec.always_ret (noReport_error _ _)
  | ok u =>
      refine Exec.always_bind (P := fun r => NoReport (.ok r.1, r.2)) ?_ fun _ h =>
        Exec.always_ret h
      refine Exec.always_bind' fun t _ => Exec.always_bind' fun t' _ => ?_
      refine Exec.always_bind' fun completed _ =>
        Exec.always_ret (noReport_cons (fun _ _ _ h => by cases h) ?_)
      rintro sends ⟨⟩ deviceId restorationId shareIndex hmem
      obtain ⟨signatures, -, heq⟩ := List.mem_map.1 hmem
      cases heq

/-- Only a reply to a save reports a saved backup. -/
theorem recvDeviceMessage_noReport {message : DeviceToCoordinatorMessage L}
    (h : ∀ image, message ≠ .restoration (.physicalSaved image)) :
    (s.recvDeviceMessage sender message).Always NoReport := by
  cases message with
  | keyGen message => exact recvKeygen_noReport sender message
  | signing message =>
      cases message with
      | nonceResponse segments =>
          refine Exec.always_bind' fun result _ => Exec.always_ret ?_
          obtain ⟨received, t⟩ := result
          cases received with
          | error e => exact noReport_error _ _
          | ok u => exact noReport_cons (fun _ _ _ h => by cases h) (noReport_nil _)
      | signatureShare sessionId shares replenish =>
          exact recvSignatureShare_noReport sender sessionId shares replenish
  | restoration message =>
      cases message with
      | physicalSaved image => exact absurd rfl (h image)
      | finishedConsolidation ref shareIndex =>
          simp only [recvDeviceMessage, recvRestorationMessage, recvFinishedConsolidation]
          split
          · exact Exec.always_bind' fun _ _ =>
              Exec.always_ret (noReport_cons (fun _ _ _ h => by cases h) (noReport_nil _))
          · split
            · exact Exec.always_bind' fun _ _ =>
                Exec.always_ret (noReport_cons (fun _ _ _ h => by cases h) (noReport_nil _))
            · exact Exec.always_ret (noReport_error _ _)
      | physicalEntered _ | heldShares _ | heldShares2 _ =>
          exact Exec.always_ret (noReport_cons (fun _ _ _ h => by cases h) (noReport_nil _))

/-! ### What is waited for -/

omit [Build] in
theorem WaitsForNamed.of_same {s s' : FrostCoordinator L} (h : s.WaitsForNamed)
    (hsame : s'.tmpWaitingSave = s.tmpWaitingSave) : s'.WaitsForNamed := by
  intro deviceId image restorationId heldShare hget
  rw [hsame] at hget
  exact h deviceId image restorationId heldShare hget

omit [Build] in
/-- A save that is waited for is named by the share it is of. -/
theorem WaitsForNamed.tellDeviceToSavePhysicalBackup (h : s.WaitsForNamed)
    (phase : PhysicalBackupPhase) (restorationId : RestorationId) :
    (s.tellDeviceToSavePhysicalBackup phase restorationId).2.WaitsForNamed := by
  rw [FrostCoordinator.tellDeviceToSavePhysicalBackup]
  split
  · exact h
  · rename_i state hstate
    intro deviceId image restorationId' heldShare hget
    simp only [Std.ExtTreeMap.getElem?_insert, SaveKey.cmp_eq_iff, Prod.mk.injEq] at hget
    split at hget
    · rename_i heq
      obtain ⟨rfl, rfl⟩ := heq
      simp only [Option.some.injEq, Prod.mk.injEq] at hget
      obtain ⟨-, rfl⟩ := hget
      simp only [Persistent.prepareSavePhysicalBackup]
      split <;> rfl
    · exact h deviceId image restorationId' heldShare hget

/-- A reply is not waited for any more. -/
theorem WaitsForNamed.recvPhysicalSaved (h : s.WaitsForNamed) (sender : DeviceId)
    (image : ShareImage) :
    (s.recvPhysicalSaved sender image).Always fun r => r.2.WaitsForNamed := by
  rw [FrostCoordinator.recvPhysicalSaved]
  split
  · exact Exec.always_ret h
  · refine Exec.always_bind (mutate_same _) fun t ht => Exec.always_ret ?_
    intro deviceId image' restorationId heldShare hget
    rw [ht.tmpWaitingSave] at hget
    simp only [Std.ExtTreeMap.getElem?_erase] at hget
    split at hget
    · cases hget
    · exact h deviceId image' restorationId heldShare hget

/-- One operation. -/
theorem WaitsForNamed.perform (h : s.WaitsForNamed) (op : Op L) :
    (s.perform op).Always fun r => r.2.WaitsForNamed := by
  by_cases hquiet : op.IsQuiet
  · exact (perform_quiet hquiet).mono fun r hr => h.of_same hr.tmpWaitingSave
  have hpending : ∀ {s' : FrostCoordinator L}, SameButPending s s' → s'.WaitsForNamed := by
    intro s' hsame
    have hsave := congrArg FrostCoordinator.tmpWaitingSave
      (show { s' with pendingKeygens := s.pendingKeygens } = s from hsame)
    exact h.of_same hsave
  cases op with
  | recvDeviceMessage sender message =>
      refine always_outcome ?_
      match message with
      | .keyGen (.response keygenId input) =>
          exact (recvKeygenResponse_same sender keygenId input).mono fun _ => hpending
      | .keyGen (.certify keygenId vrfCert) =>
          exact (recvKeygenCertify_same sender keygenId vrfCert).mono fun _ => hpending
      | .keyGen (.ack keygenId hash) =>
          exact (recvKeygenAck_same sender keygenId hash).mono fun _ => hpending
      | .restoration (.physicalSaved image) => exact h.recvPhysicalSaved sender image
      | .signing _ | .restoration (.physicalEntered _) | .restoration (.heldShares _)
      | .restoration (.heldShares2 _) | .restoration (.finishedConsolidation _ _) =>
          exact absurd trivial hquiet
  | beginKeygen request rng =>
      exact always_outcome ((beginKeygen_same request rng).mono fun _ => hpending)
  | finalizeKeygen keygenId encryptionKey rng =>
      refine always_outcome ?_
      simp only [finalizeKeygen]
      split
      · exact Exec.always_bind (mutateNewKey_same _ _ _ _ _ _) fun r hr =>
          Exec.always_ret (h.of_same hr.tmpWaitingSave)
      · exact Exec.always_ret h
  | cancelKeygen keygenId => exact Exec.always_ret h
  | clearTmpData =>
      refine Exec.always_ret fun deviceId image restorationId heldShare hget => ?_
      rw [clearTmpData, Std.ExtTreeMap.getElem?_empty] at hget
      cases hget
  | tellDeviceToSavePhysicalBackup phase restorationId =>
      exact Exec.always_ret (h.tellDeviceToSavePhysicalBackup phase restorationId)
  | _ => exact absurd trivial hquiet

end FrostCoordinator

/-- In every reachable state, the saves that are waited for are of the shares they are named by. -/
theorem Reachable.waitsForNamed [Build] {s : FrostCoordinator L} (h : Reachable s) :
    s.WaitsForNamed := by
  induction h with
  | new =>
      intro deviceId image restorationId heldShare hget
      rw [FrostCoordinator.new, Std.ExtTreeMap.getElem?_empty] at hget
      cases hget
  | perform _ hop ih => exact ih.perform _ _ hop
  | takeStagedMutations _ ih => exact ih

open FrostCoordinator

/-- **Saved backups** are accounted for, whatever message a device sends in a reachable state,
exactly when a reply to a save finds its restoration, with the share in it or without another key
than the share is of. -/
theorem saved_backups_accounted [Build] {s : FrostCoordinator L} (h : Reachable s)
    (sender : DeviceId) (message : DeviceToCoordinatorMessage L) :
    s.SavesAccounted sender message ↔
      ∀ image, message = .restoration (.physicalSaved image) → s.SaveFits sender image := by
  constructor
  · rintro haccounted image rfl restorationId heldShare hwaits
    by_contra hnot
    obtain ⟨⟨r, s'⟩, hret⟩ := haccounted.returns image rfl
    obtain ⟨rfl, hsame⟩ := recvPhysicalSaved_not_fits hwaits hnot hret
    obtain ⟨image', heq, -, state, hstate, hgot⟩ :=
      haccounted.contained _ _ hret _ _ _ List.mem_cons_self
    -- a restoration that contains the share takes it
    obtain rfl : image = image' := by simpa using heq
    refine hnot ⟨state, by rwa [hsame] at hstate, .inl ?_⟩
    rwa [h.waitsForNamed _ _ _ _ hwaits]
  · intro hfits
    by_cases hreply : ∃ image, message = .restoration (.physicalSaved image)
    · obtain ⟨image, rfl⟩ := hreply
      have hrecv : s.recvDeviceMessage sender (.restoration (.physicalSaved image)) =
          s.recvPhysicalSaved sender image := rfl
      cases hwaits : s.tmpWaitingSave[(sender, image)]? with
      | none =>
          -- nothing is waited for, and the reply is an error
          have hret : s.recvPhysicalSaved sender image =
              .ret (.error (coordinatorInvalidMessage "PhysicalSaved"
                "coordinator not waiting for that share to be saved"), s) := by
            rw [recvPhysicalSaved, hwaits]
          constructor
          case returns =>
            intro _ _
            exact ⟨_, hrecv.trans hret⟩
          case contained =>
            intro sends s' hok
            rw [hrecv, hret] at hok
            cases hok
          case gone =>
            intro _ _ r s' hok restorationId hnot
            rw [hrecv, hret] at hok
            obtain ⟨-, rfl⟩ := Prod.mk.inj (Exec.ret.inj hok)
            exact hnot
      | some waiting =>
          obtain ⟨restorationId, heldShare⟩ := waiting
          have htakes := hfits image rfl restorationId heldShare hwaits
          obtain ⟨t, hret, hcontains, hothers⟩ := recvPhysicalSaved_fits hwaits htakes
          have hnamed := h.waitsForNamed _ _ _ _ hwaits
          constructor
          case returns =>
            intro _ _
            exact ⟨_, hrecv.trans hret⟩
          case contained =>
            intro sends s' hok deviceId restorationId' shareIndex hmem
            rw [hrecv, hret] at hok
            obtain ⟨hsends, rfl⟩ := Prod.mk.inj (Exec.ret.inj hok)
            obtain rfl := Except.ok.inj hsends
            have hreport := List.mem_singleton.1 hmem
            simp only [savedReport, CoordinatorSend.toUser.injEq,
              CoordinatorToUserMessage.restoration.injEq,
              ToUserRestoration.physicalBackupSaved.injEq] at hreport
            obtain ⟨rfl, rfl, rfl⟩ := hreport
            exact ⟨image, rfl, rfl, hnamed ▸ hcontains⟩
          case gone =>
            intro _ _ r s' hok other hnot
            rw [hrecv, hret] at hok
            obtain ⟨-, rfl⟩ := Prod.mk.inj (Exec.ret.inj hok)
            have hne : other ≠ restorationId := by
              rintro rfl
              obtain ⟨state, hstate, -⟩ := htakes
              exact hnot (BTreeMap.mem_iff_getElem?.2 ⟨state, hstate⟩)
            rw [BTreeMap.not_mem_iff_getElem?] at hnot ⊢
            rw [hothers other hne, hnot]
    · have hother : ∀ image, message ≠ .restoration (.physicalSaved image) :=
        fun image heq => hreply ⟨image, heq⟩
      constructor
      case returns => exact fun image heq => absurd heq (hother image)
      case contained =>
        intro sends s' hok deviceId restorationId shareIndex hmem
        exact absurd hmem (recvDeviceMessage_noReport hother _ hok sends rfl _ _ _)
      case gone => exact fun image heq => absurd heq (hother image)

section

attribute [local instance] Build.release

theorem Reachable.after {s : FrostCoordinator plainLib} (h : Reachable s) (op : Op plainLib) :
    Reachable (s.after op) := by
  rw [FrostCoordinator.after]
  cases hop : s.perform op with
  | ret r => exact .perform h hop
  | panic msg => exact h

/-- A backup that was entered on a device. -/
def enteredPhase : PhysicalBackupPhase where
  backup := { enterPhysicalId := 0, shareImage := { index := 1, image := 9 } }
  sender := 1

/-- A coordinator that has told the device to save it for a restoration. -/
def waitingForSave : FrostCoordinator plainLib :=
  ((FrostCoordinator.new plainLib).after (.startRestoringKey "" (some 1) .test 1)).after
    (.tellDeviceToSavePhysicalBackup enteredPhase 1)

/-- The reply of the device. -/
def savedReply : DeviceToCoordinatorMessage plainLib :=
  .restoration (.physicalSaved { index := 1, image := 9 })

theorem reachable_waitingForSave : Reachable waitingForSave :=
  (Reachable.new.after _).after _

theorem saved_backups_accounted_of_waitingForSave : waitingForSave.SavesAccounted 1 savedReply := by
  refine (saved_backups_accounted reachable_waitingForSave 1 savedReply).2 ?_
  rintro image heq restorationId heldShare hwaits
  obtain rfl : { index := 1, image := 9 } = image := by simpa [savedReply] using heq
  have hid : (waitingForSave.tmpWaitingSave[((1 : DeviceId),
      ({ index := 1, image := 9 } : ShareImage))]?).map Prod.fst = some 1 := by decide +kernel
  rw [hwaits, Option.map_some, Option.some.injEq] at hid
  obtain rfl : restorationId = 1 := hid
  have hstate : waitingForSave.restorations[(1 : RestorationId)]? = some
      { restorationId := 1
        keyName := ""
        accessStructure := { startingThreshold := some 1, heldShares := [], sharedKey := none }
        keyPurpose := .test
        fingerprint := 0 } := by decide +kernel
  refine ⟨_, hstate, .inr ?_⟩
  cases heldShare.accessStructureRef <;> rfl

/-- A coordinator that has cancelled the restoration since. -/
def cancelledSave : FrostCoordinator plainLib := waitingForSave.after (.cancelRestoration 1)

/-- The reply is reported as a saved backup of the restoration that is gone. -/
theorem cancelled_save_is_reported :
    ¬ ∀ (s : FrostCoordinator plainLib) (sender : DeviceId)
      (message : DeviceToCoordinatorMessage plainLib), Reachable s →
      s.SavesAccounted sender message := by
  intro h
  let replied : FrostCoordinator plainLib :=
    match cancelledSave.recvDeviceMessage 1 savedReply with
    | .ret (_, s) => s
    | .panic _ => cancelledSave
  have hreply : cancelledSave.recvDeviceMessage 1 savedReply =
      .ret (.ok [savedReport 1 1 1], replied) := rfl
  obtain ⟨image, -, -, state, hstate, -⟩ :=
    (h cancelledSave 1 savedReply (reachable_waitingForSave.after _)).contained _ _ hreply _ _ _
      List.mem_cons_self
  have hgone : replied.restorations[(1 : RestorationId)]? = none := by decide +kernel
  rw [hgone] at hstate
  cases hstate

end

end Frostsnap.Coordinator
