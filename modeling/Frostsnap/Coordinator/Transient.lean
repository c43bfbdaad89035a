import Frostsnap.Coordinator.NewKey

/-!
# What is not persistent

The coordinator remembers pending key generations, and the saves it waits for, outside its
persistent state. Only a few operations touch them: those of a key generation, telling a device
to save a backup, the reply to that, and clearing temporary data. Everything else goes through
mutations, which leave them alone.

## Main results

* `FrostCoordinator.perform_quiet`: the other operations keep both.
-/

namespace Frostsnap.Coordinator

variable {L : FrostLib}

/-- The same key generations are pending, and the same saves are waited for. -/
structure SameTransient (s s' : FrostCoordinator L) : Prop where
  pendingKeygens : s'.pendingKeygens = s.pendingKeygens
  tmpWaitingSave : s'.tmpWaitingSave = s.tmpWaitingSave

namespace SameTransient

/-- An operation that changes nothing. -/
theorem refl (s : FrostCoordinator L) : SameTransient s s := ⟨rfl, rfl⟩

/-- One change after another. -/
theorem trans {s t u : FrostCoordinator L} (h : SameTransient s t) (h' : SameTransient t u) :
    SameTransient s u where
  pendingKeygens := h'.pendingKeygens.trans h.pendingKeygens
  tmpWaitingSave := h'.tmpWaitingSave.trans h.tmpWaitingSave

end SameTransient

/-- An operation that touches neither the pending key generations nor the saves that are waited
for. -/
def Op.IsQuiet : Op L → Prop
  | .recvDeviceMessage _ (.keyGen _) => False
  | .recvDeviceMessage _ (.restoration (.physicalSaved _)) => False
  | .beginKeygen _ _ => False
  | .finalizeKeygen _ _ _ => False
  | .cancelKeygen _ => False
  | .clearTmpData => False
  | .tellDeviceToSavePhysicalBackup _ _ => False
  | _ => True

namespace FrostCoordinator

variable [Build] {s : FrostCoordinator L}

/-! ### Mutations -/

/-- A mutation is of the persistent state. -/
theorem mutate_same (m : Mutation L) : (s.mutate m).Always (SameTransient s) := by
  intro t ht
  obtain ⟨-, -, -, hpending, hsave, -⟩ := mutate_eq ht
  exact ⟨hpending, hsave⟩

/-- So are several. -/
theorem mutateAll_same (ms : List (Mutation L)) : (s.mutateAll ms).Always (SameTransient s) := by
  induction ms generalizing s with
  | nil => exact Exec.always_ret (.refl s)
  | cons m ms ih => exact Exec.always_bind (mutate_same m) fun t ht => ih.mono fun _ => ht.trans

/-- And those of a new key. -/
theorem mutateNewKey_same (name : String) (rootSharedKey : SharedKey)
    (deviceToShareIndex : BTreeMap DeviceId ShareIndex) (encryptionKey : SymmetricKey)
    (purpose : KeyPurpose) (rng : L.Rng) :
    (s.mutateNewKey name rootSharedKey deviceToShareIndex encryptionKey purpose rng).Always
      fun r => SameTransient s r.2 :=
  Exec.always_bind (mutateAll_same _) fun _ h => Exec.always_ret h

/-- An operation that checks, and then applies one mutation. -/
theorem checked_mutate_same {ε α β : Type} {check : Exec (Except ε α)} (m : α → Mutation L)
    (result : α → β) :
    (checked check s fun a => do
      let s ← s.mutate (m a)
      return (result a, s)).Always fun r => SameTransient s r.2 :=
  always_checked (.refl s) fun _ _ =>
    Exec.always_bind (mutate_same _) fun _ h => Exec.always_ret h

/-! ### Operations -/

/-- Nonces go to the cache, which is persistent. -/
theorem recvNonceSegments_same (sender : DeviceId) (segments : List NonceSegment) :
    (recvNonceSegments sender segments s).Always fun r => SameTransient s r.2 := by
  induction segments generalizing s with
  | nil => exact Exec.always_ret (.refl s)
  | cons segment rest ih =>
      refine Exec.always_bind' fun check _ => ?_
      cases check with
      | error e => exact Exec.always_ret (.refl s)
      | ok u => exact Exec.always_bind (mutate_same _) fun t ht => ih.mono fun _ => ht.trans

/-- Signing sessions are persistent. -/
theorem completeSignSession_same (sessionId : SignSessionId) :
    (s.completeSignSession sessionId).Always fun r => SameTransient s r.2 := by
  rw [completeSignSession]
  split
  · exact Exec.always_ret (.refl s)
  · split
    · exact Exec.always_bind' fun _ _ =>
        Exec.always_bind (mutate_same _) fun _ h => Exec.always_ret h
    · exact Exec.always_ret (.refl s)

/-- So are the shares that come for them. -/
theorem recvSignatureShare_same (sender : DeviceId) (sessionId : SignSessionId)
    (signatureShares : List SignatureShare) (replenishNonces : Option NonceSegment) :
    (s.recvSignatureShare sender sessionId signatureShares replenishNonces).Always
      fun r => SameTransient s r.2 := by
  refine always_checked (.refl s) fun _ _ => ?_
  refine Exec.always_bind (mutate_same _) fun t ht => ?_
  refine Exec.always_bind (mutateAll_same _) fun u hu => ?_
  exact Exec.always_bind (completeSignSession_same sessionId) fun _ h =>
    Exec.always_ret (ht.trans (hu.trans h))

/-- What is waited for here is a consolidation, and not a save. -/
theorem recvFinishedConsolidation_same (sender : DeviceId) (ref : AccessStructureRef)
    (shareIndex : ShareIndex) :
    (s.recvFinishedConsolidation sender ref shareIndex).Always
      fun r => SameTransient s r.2 := by
  rw [recvFinishedConsolidation]
  dsimp only
  split
  · exact Exec.always_bind (mutate_same _) fun t ht => Exec.always_ret ⟨ht.1, ht.2⟩
  · split
    · exact Exec.always_bind (mutate_same _) fun t ht => Exec.always_ret ht
    · exact Exec.always_ret (.refl s)

/-- A restoration is persistent. -/
theorem finishRestoring_same (restorationId : RestorationId) (encryptionKey : SymmetricKey)
    (rng : L.Rng) :
    (s.finishRestoring restorationId encryptionKey rng).Always fun r => SameTransient s r.2 := by
  refine always_checked (.refl s) fun _ _ => ?_
  refine Exec.always_bind (mutateNewKey_same _ _ _ _ _ _) fun t ht => ?_
  refine Exec.always_bind' fun ms _ => ?_
  exact Exec.always_bind (mutateAll_same _) fun u hu => Exec.always_ret (ht.trans hu)

/-- A share that is recovered waits for no save. -/
theorem recoverShare_same (ref : AccessStructureRef) (share : RecoverShare)
    (encryptionKey : SymmetricKey) :
    (s.recoverShare ref share encryptionKey).Always fun r => SameTransient s r.2 := by
  refine always_checked (.refl s) fun _ _ => ?_
  refine Exec.always_bind (mutate_same _) fun t ht => ?_
  split
  · exact Exec.always_bind (mutate_same _) fun _ h => Exec.always_ret (ht.trans h)
  · exact Exec.always_ret ht

/-- A quiet message. -/
theorem recvDeviceMessage_quiet {sender : DeviceId} {message : DeviceToCoordinatorMessage L}
    (h : (Op.recvDeviceMessage sender message).IsQuiet) :
    (s.recvDeviceMessage sender message).Always fun r => SameTransient s r.2 := by
  match message with
  | .signing (.nonceResponse segments) =>
      exact Exec.always_bind (recvNonceSegments_same sender segments) fun _ h => Exec.always_ret h
  | .signing (.signatureShare sessionId shares replenish) =>
      exact recvSignatureShare_same sender sessionId shares replenish
  | .keyGen _ | .restoration (.physicalSaved _) => exact absurd h id
  | .restoration (.finishedConsolidation ref shareIndex) =>
      exact recvFinishedConsolidation_same sender ref shareIndex
  | .restoration (.physicalEntered _) | .restoration (.heldShares _)
  | .restoration (.heldShares2 _) => exact Exec.always_ret (.refl s)

/-- **A quiet operation** keeps the pending key generations and the saves that are waited for. -/
theorem perform_quiet {op : Op L} (h : op.IsQuiet) :
    (s.perform op).Always fun r => SameTransient s r.2 := by
  cases op with
  | recvDeviceMessage sender message => exact always_outcome (recvDeviceMessage_quiet h)
  | beginKeygen | finalizeKeygen | cancelKeygen | clearTmpData
  | tellDeviceToSavePhysicalBackup => exact absurd h id
  | deleteKey keyId =>
      refine always_done' ?_
      rw [deleteKey]
      split
      · exact mutate_same _
      · exact Exec.always_ret (.refl s)
  | deleteShare ref deviceId =>
      refine always_outcome ?_
      rw [deleteShare]
      split
      · exact Exec.always_ret (.refl s)
      · split
        · split
          · exact Exec.always_bind (mutate_same _) fun _ h => Exec.always_ret h
          · exact Exec.always_ret (.refl s)
        · exact Exec.always_ret (.refl s)
  | startSign => exact always_outcome (checked_mutate_same _ _)
  | requestDeviceSign =>
      refine always_done fun r hr => ?_
      obtain ⟨-, -, -, -, -, -, -, -, -, -, hmutate⟩ := requestDeviceSign_eq hr
      exact mutate_same _ _ hmutate
  | completeSignSession => exact always_done (completeSignSession_same _)
  | cancelSignSession => exact always_done' (mutate_same _)
  | cancelAllSigningSessions => exact always_done' (mutateAll_same _)
  | forgetFinishedSignSession sessionId =>
      refine always_done ?_
      rw [forgetFinishedSignSession]
      split
      · exact Exec.always_ret (.refl s)
      · exact Exec.always_bind (mutate_same _) fun _ h => Exec.always_ret h
  | startRestoringKey =>
      exact always_done' (Exec.always_bind' fun _ _ => mutate_same _)
  | addRecoveryShareToRestoration => exact always_outcome (checked_mutate_same _ _)
  | finishRestoring => exact always_outcome (finishRestoring_same _ _ _)
  | cancelRestoration => exact always_done' (mutate_same _)
  | startRestoringKeyFromRecoverShare =>
      exact always_outcome (always_checked (.refl s) fun _ _ =>
        Exec.always_bind (mutateAll_same _) fun _ h => Exec.always_ret h)
  | deleteRestorationShare restorationId deviceId =>
      refine always_done' ?_
      rw [deleteRestorationShare]
      split
      · exact Exec.always_ret (.refl s)
      · split
        · exact Exec.always_ret (.refl s)
        · exact mutate_same _
  | recoverShare => exact always_outcome (recoverShare_same _ _ _)
  | tellDeviceToConsolidatePhysicalBackup =>
      exact always_outcome (always_checked (.refl s) fun _ _ => Exec.always_bind' fun _ _ =>
        Exec.always_bind' fun _ _ => Exec.always_bind' fun _ _ => Exec.always_ret ⟨rfl, rfl⟩)
  | requestDeviceDisplayBackup | requestDeviceCheckBackup =>
      exact always_outcome (always_checked (.refl s) fun _ _ => Exec.always_ret (.refl s))

end FrostCoordinator

end Frostsnap.Coordinator
