import Frostsnap.Coordinator.NewKey

/-!
# Which operation applies which mutation

Some mutations are applied by one or two operations only: a key is installed by `finalize_keygen`
and `finish_restoring`, a signing session is added by `start_sign`, and signature shares are added
to it for the message that has them. `MayApply` tells this of every operation and every mutation;
what is kept by all other mutations is then kept by all other operations.

## Main results

* `FrostCoordinator.perform_applies`: an operation applies the mutations that it may apply.
-/

namespace Frostsnap.Coordinator

variable {L : FrostLib}

/-- A mutation that adds a key or an access structure. -/
def Mutation.Installs : Mutation L → Prop
  | .keygen (.newKey _ _ _) | .keygen (.newAccessStructure _ _) => True
  | _ => False

/-- A mutation that adds a signing session. -/
def Mutation.Starts : Mutation L → Prop
  | .signing (.newSigningSession _) => True
  | _ => False

/-- A mutation that adds signature shares to a session. -/
def Mutation.Delivers : Mutation L → Prop
  | .signing (.gotSignatureSharesFromDevice _ _ _) => True
  | _ => False

/-- The operations that install keys. -/
def Op.Installs : Op L → Prop
  | .finalizeKeygen _ _ _ | .finishRestoring _ _ _ => True
  | _ => False

/-- The operation that adds signing sessions. -/
def Op.Starts : Op L → Prop
  | .startSign _ _ _ _ => True
  | _ => False

/-- The operation that adds signature shares. -/
def Op.Delivers : Op L → Prop
  | .recvDeviceMessage _ (.signing (.signatureShare _ _ _)) => True
  | _ => False

/-- What an operation may apply. -/
structure Op.MayApply (op : Op L) (m : Mutation L) : Prop where
  installs : m.Installs → op.Installs
  starts : m.Starts → op.Starts
  delivers : m.Delivers → op.Delivers

/-- A mutation of none of the three kinds may be applied by any operation. -/
theorem Op.mayApply_of_not {op : Op L} {m : Mutation L} (hinstalls : ¬ m.Installs)
    (hstarts : ¬ m.Starts) (hdelivers : ¬ m.Delivers) : op.MayApply m :=
  ⟨fun h => absurd h hinstalls, fun h => absurd h hstarts, fun h => absurd h hdelivers⟩

variable [Build]

/-- From one persistent state to another by mutations that meet a condition. -/
inductive Applied (Q : Mutation L → Prop) (fingerprint : Fingerprint) :
    Persistent L → Persistent L → Prop where
  | refl (p : Persistent L) : Applied Q fingerprint p p
  | step {p p' q : Persistent L} {m : Mutation L} {changed : Bool} (hm : Q m)
      (hchange : p.change fingerprint m = .ret (changed, p')) (h : Applied Q fingerprint p' q) :
      Applied Q fingerprint p q

variable {Q : Mutation L → Prop}

/-- One chain after another. -/
theorem Applied.trans {fingerprint : Fingerprint} {p q r : Persistent L}
    (h : Applied Q fingerprint p q) (h' : Applied Q fingerprint q r) :
    Applied Q fingerprint p r := by
  induction h with
  | refl => exact h'
  | step hm hchange _ ih => exact .step hm hchange (ih h')

/-- The condition may be weakened. -/
theorem Applied.mono {Q' : Mutation L → Prop} (hQ : ∀ m, Q m → Q' m) {fingerprint : Fingerprint}
    {p q : Persistent L} (h : Applied Q fingerprint p q) : Applied Q' fingerprint p q := by
  induction h with
  | refl => exact .refl _
  | step hm hchange _ ih => exact .step (hQ _ hm) hchange ih

/-- **What every mutation keeps** is kept by a chain of them. -/
theorem Applied.keeps {R : Persistent L → Persistent L → Prop} (hrefl : ∀ p, R p p)
    (htrans : ∀ {p q r}, R p q → R q r → R p r) {fingerprint : Fingerprint}
    (hchange : ∀ {p p' m changed}, Q m → p.change fingerprint m = .ret (changed, p') → R p p')
    {p q : Persistent L} (h : Applied Q fingerprint p q) : R p q := by
  induction h with
  | refl => exact hrefl _
  | step hm hstep _ ih => exact htrans (hchange hm hstep) ih

namespace FrostCoordinator

variable {s : FrostCoordinator L}

/-- The coordinator goes from one state to another by such mutations. -/
structure Applies (Q : Mutation L → Prop) (s t : FrostCoordinator L) : Prop where
  applied : Applied Q s.keygenFingerprint s.toPersistent t.toPersistent
  fingerprint : t.keygenFingerprint = s.keygenFingerprint

/-- One change after another. The fingerprint of new keys stays the same throughout. -/
theorem Applies.trans {t u : FrostCoordinator L} (h : Applies Q s t) (h' : Applies Q t u) :
    Applies Q s u where
  applied := by
    have hrest := h'.applied
    rw [h.fingerprint] at hrest
    exact h.applied.trans hrest
  fingerprint := h'.fingerprint.trans h.fingerprint

/-- A change of what is not persistent takes no mutation. -/
theorem Applies.of_transient {t : FrostCoordinator L} (h : t.toPersistent = s.toPersistent)
    (hfingerprint : t.keygenFingerprint = s.keygenFingerprint) : Applies Q s t :=
  ⟨by rw [h]; exact .refl _, hfingerprint⟩

/-- Nor does no change. -/
theorem Applies.refl (s : FrostCoordinator L) : Applies Q s s := .of_transient rfl rfl

/-- A mutation that meets the condition, with or without an effect. -/
theorem mutate_applies {m : Mutation L} (hm : Q m) : (s.mutate m).Always (Applies Q s) := by
  intro t ht
  obtain ⟨changed, hchange⟩ := mutate_change ht
  obtain ⟨-, -, -, -, -, hfingerprint⟩ := mutate_eq ht
  exact ⟨.step hm hchange (.refl _), hfingerprint⟩

/-- Several of them. -/
theorem mutateAll_applies {ms : List (Mutation L)} (hms : ∀ m ∈ ms, Q m) :
    (s.mutateAll ms).Always (Applies Q s) := by
  induction ms generalizing s with
  | nil => exact Exec.always_ret (.refl _)
  | cons m ms ih =>
      obtain ⟨hm, hms⟩ := List.forall_mem_cons.1 hms
      refine Exec.always_bind (mutate_applies hm) fun t ht => ?_
      exact (ih hms).mono fun u hu => ht.trans hu

/-- The pending key generations are not persistent. -/
theorem SameButPending.applies {t : FrostCoordinator L} (h : SameButPending s t) :
    Applies Q s t := by
  obtain ⟨p, pending, mutations, consolidate, save, fingerprint⟩ := s
  obtain ⟨p', pending', mutations', consolidate', save', fingerprint'⟩ := t
  obtain ⟨rfl, -, -, -, -, rfl⟩ := FrostCoordinator.mk.inj h
  exact .of_transient rfl rfl

/-! ### Messages -/

/-- An answer with nonces applies one kind of mutation. -/
theorem recvNonceSegments_applies (hQ : ∀ sender segment, Q (.signing (.newNonces sender segment)))
    {sender : DeviceId} {segments : List NonceSegment} :
    (recvNonceSegments sender segments s).Always fun r => Applies Q s r.2 := by
  induction segments generalizing s with
  | nil => exact Exec.always_ret (.refl _)
  | cons segment rest ih =>
      refine Exec.always_bind' fun checked _ => ?_
      cases checked with
      | error e => exact Exec.always_ret (.refl _)
      | ok _ =>
          refine Exec.always_bind (mutate_applies (hQ _ _)) fun t ht => ?_
          exact ih.mono fun r hr => ht.trans hr

/-- So does the end of a session. -/
theorem completeSignSession_applies
    (hQ : ∀ sessionId finished, Q (.signing (.closeSignSession sessionId finished)))
    (sessionId : SignSessionId) :
    (s.completeSignSession sessionId).Always fun r => Applies Q s r.2 := by
  unfold completeSignSession
  split
  · exact Exec.always_ret (.refl _)
  · split
    · refine Exec.always_bind' fun signatures _ => ?_
      exact Exec.always_bind (mutate_applies (hQ _ _)) fun _ h => Exec.always_ret h
    · exact Exec.always_ret (.refl _)

/-- The shares, the nonces that replace theirs, and the end of the session if they were the last. -/
theorem recvSignatureShare_applies {op : Op L} (hop : op.Delivers) (sender : DeviceId)
    (sessionId : SignSessionId) (signatureShares : List SignatureShare)
    (replenish : Option NonceSegment) :
    (s.recvSignatureShare sender sessionId signatureShares replenish).Always
      fun r => Applies op.MayApply s r.2 := by
  refine always_checked (.refl _) fun _ _ => ?_
  refine Exec.always_bind (mutate_applies (Q := op.MayApply) ⟨nofun, nofun, fun _ => hop⟩)
    fun t ht => ?_
  refine Exec.always_bind (mutateAll_applies (Q := op.MayApply) fun m hm => ?_) fun u hu => ?_
  · obtain ⟨segment, -, rfl⟩ := List.mem_map.1 hm
    exact Op.mayApply_of_not id id id
  · exact Exec.always_bind
      (completeSignSession_applies (fun _ _ => Op.mayApply_of_not id id id) sessionId) fun _ h =>
        Exec.always_ret (ht.trans (hu.trans h))

/-- A saved backup adds a share to a restoration, and no key. -/
theorem recvPhysicalSaved_applies {op : Op L} (sender : DeviceId) (shareImage : ShareImage) :
    (s.recvPhysicalSaved sender shareImage).Always fun r => Applies op.MayApply s r.2 := by
  unfold recvPhysicalSaved
  split
  · exact Exec.always_ret (.refl _)
  · refine Exec.always_bind (mutate_applies (Op.mayApply_of_not id id id)) fun _ h =>
      Exec.always_ret (Applies.trans ?_ h)
    exact .of_transient rfl rfl

/-- A consolidated backup adds a share to an access structure that is there. -/
theorem recvFinishedConsolidation_applies {op : Op L} (sender : DeviceId)
    (ref : AccessStructureRef) (shareIndex : ShareIndex) :
    (s.recvFinishedConsolidation sender ref shareIndex).Always
      fun r => Applies op.MayApply s r.2 := by
  unfold recvFinishedConsolidation
  dsimp only
  split
  · refine Exec.always_bind (mutate_applies (Op.mayApply_of_not id id id)) fun _ h =>
      Exec.always_ret (Applies.trans ?_ h)
    exact .of_transient rfl rfl
  · split
    · exact Exec.always_bind (mutate_applies (Op.mayApply_of_not id id id)) fun _ h =>
        Exec.always_ret h
    · exact Exec.always_ret (.refl _)

/-- **A message** may add signature shares if it has them, and never a key or a session. -/
theorem recvDeviceMessage_applies (sender : DeviceId) (message : DeviceToCoordinatorMessage L) :
    (s.recvDeviceMessage sender message).Always
      fun r => Applies (Op.recvDeviceMessage sender message).MayApply s r.2 := by
  match message with
  | .signing (.nonceResponse segments) =>
      exact Exec.always_bind (recvNonceSegments_applies fun _ _ => Op.mayApply_of_not id id id)
        fun _ h => Exec.always_ret h
  | .signing (.signatureShare sessionId shares replenish) =>
      have hop : (Op.recvDeviceMessage sender
        (.signing (.signatureShare sessionId shares replenish)) : Op L).Delivers := trivial
      exact recvSignatureShare_applies hop sender sessionId shares replenish
  | .keyGen (.response keygenId input) =>
      exact (recvKeygenResponse_same sender keygenId input).mono fun _ => SameButPending.applies
  | .keyGen (.certify keygenId vrfCert) =>
      exact (recvKeygenCertify_same sender keygenId vrfCert).mono fun _ => SameButPending.applies
  | .keyGen (.ack keygenId hash) =>
      exact (recvKeygenAck_same sender keygenId hash).mono fun _ => SameButPending.applies
  | .restoration (.physicalSaved shareImage) => exact recvPhysicalSaved_applies sender shareImage
  | .restoration (.finishedConsolidation ref shareIndex) =>
      exact recvFinishedConsolidation_applies sender ref shareIndex
  | .restoration (.physicalEntered _) | .restoration (.heldShares _)
  | .restoration (.heldShares2 _) => exact Exec.always_ret (.refl _)

/-! ### Operations -/

/-- A new key. -/
theorem mutateNewKey_applies {op : Op L} (hop : op.Installs) (name : String)
    (rootSharedKey : SharedKey) (deviceToShareIndex : BTreeMap DeviceId ShareIndex)
    (encryptionKey : SymmetricKey) (purpose : KeyPurpose) (rng : L.Rng) :
    (s.mutateNewKey name rootSharedKey deviceToShareIndex encryptionKey purpose rng).Always
      fun r => Applies op.MayApply s r.2 := by
  refine Exec.always_bind (mutateAll_applies fun m hm => ?_) fun _ h => Exec.always_ret h
  rcases List.mem_append.1 hm with hm | hm
  · rcases List.mem_append.1 hm with hm | hm
    · split at hm
      · cases hm
      · rw [List.mem_singleton.1 hm]
        exact ⟨fun _ => hop, nofun, nofun⟩
    · rw [List.mem_singleton.1 hm]
      exact ⟨fun _ => hop, nofun, nofun⟩
  · obtain ⟨share, -, rfl⟩ := List.mem_map.1 hm
    exact ⟨fun _ => hop, nofun, nofun⟩

/-- The key of a restoration, with the restoration forgotten. -/
theorem finishRestoring_applies {op : Op L} (hop : op.Installs) (restorationId : RestorationId)
    (encryptionKey : SymmetricKey) (rng : L.Rng) :
    (s.finishRestoring restorationId encryptionKey rng).Always
      fun r => Applies op.MayApply s r.2 := by
  refine always_checked (.refl _) fun ⟨state, root, shares⟩ _ => ?_
  refine Exec.always_bind (mutateNewKey_applies hop _ _ _ _ _ _) fun t ht => ?_
  refine Exec.always_bind' fun ms hms => ?_
  refine Exec.always_bind (mutateAll_applies (Q := op.MayApply) fun m hm => ?_) fun u hu =>
    Exec.always_ret (ht.trans hu)
  rcases List.mem_append.1 hm with hm | hm
  · obtain ⟨-, -, -, -, rfl⟩ := (Persistent.mem_consolidationMutations hms).1 hm
    exact Op.mayApply_of_not id id id
  · rw [List.mem_singleton.1 hm]
    exact Op.mayApply_of_not id id id

/-- A share that is deleted. -/
theorem deleteShare_applies {op : Op L} (ref : AccessStructureRef) (deviceId : DeviceId) :
    (s.deleteShare ref deviceId).Always fun r => Applies op.MayApply s r.2 := by
  unfold deleteShare
  split
  · exact Exec.always_ret (.refl _)
  · split
    · split
      · exact Exec.always_bind (mutate_applies (Op.mayApply_of_not id id id)) fun _ h =>
          Exec.always_ret h
      · exact Exec.always_ret (.refl _)
    · exact Exec.always_ret (.refl _)

/-- A share for a key that is there already installs none. -/
theorem recoverShare_applies {op : Op L} (ref : AccessStructureRef) (share : RecoverShare)
    (encryptionKey : SymmetricKey) :
    (s.recoverShare ref share encryptionKey).Always fun r => Applies op.MayApply s r.2 := by
  refine always_checked (.refl _) fun _ _ => ?_
  refine Exec.always_bind (mutate_applies (Q := op.MayApply) (Op.mayApply_of_not id id id))
    fun t ht => ?_
  split
  · exact Exec.always_bind (mutate_applies (Op.mayApply_of_not id id id)) fun _ h =>
      Exec.always_ret (ht.trans h)
  · exact Exec.always_ret ht

/-- **An operation** applies the mutations that it may apply. -/
theorem perform_applies (op : Op L) :
    (s.perform op).Always fun r => Applies op.MayApply s r.2 := by
  cases op with
  | recvDeviceMessage sender message =>
      exact always_outcome (recvDeviceMessage_applies sender message)
  | beginKeygen =>
      exact always_outcome ((beginKeygen_same _ _).mono fun _ => SameButPending.applies)
  | finalizeKeygen keygenId encryptionKey rng =>
      have hop : (Op.finalizeKeygen keygenId encryptionKey rng : Op L).Installs := trivial
      refine always_outcome ?_
      unfold finalizeKeygen
      dsimp only
      split
      · exact Exec.always_bind (mutateNewKey_applies hop _ _ _ _ _ _) fun _ h =>
          Exec.always_ret ((SameButPending.takeEntry s keygenId).applies.trans h)
      · exact Exec.always_ret (SameButPending.takeEntry s keygenId).applies
  | cancelKeygen => exact Exec.always_ret (.of_transient rfl rfl)
  | clearTmpData => exact Exec.always_ret (.of_transient rfl rfl)
  | deleteKey keyId =>
      refine always_done' ?_
      unfold deleteKey
      split
      · exact mutate_applies (Op.mayApply_of_not id id id)
      · exact Exec.always_ret (.refl _)
  | deleteShare => exact always_outcome (deleteShare_applies _ _)
  | startSign =>
      refine always_outcome (always_checked (.refl _) fun _ _ => ?_)
      exact Exec.always_bind (mutate_applies ⟨nofun, fun _ => trivial, nofun⟩) fun _ h =>
        Exec.always_ret h
  | requestDeviceSign =>
      refine always_done fun r hr => ?_
      obtain ⟨-, -, -, -, -, -, -, -, -, -, hmutate⟩ := requestDeviceSign_eq hr
      exact mutate_applies (Op.mayApply_of_not id id id) _ hmutate
  | completeSignSession =>
      exact always_done (completeSignSession_applies (fun _ _ => Op.mayApply_of_not id id id) _)
  | cancelSignSession => exact always_done' (mutate_applies (Op.mayApply_of_not id id id))
  | cancelAllSigningSessions =>
      refine always_done' (mutateAll_applies fun m hm => ?_)
      obtain ⟨ssid, -, rfl⟩ := List.mem_map.1 hm
      exact Op.mayApply_of_not id id id
  | forgetFinishedSignSession =>
      refine always_done ?_
      unfold forgetFinishedSignSession
      split
      · exact Exec.always_ret (.refl _)
      · exact Exec.always_bind (mutate_applies (Op.mayApply_of_not id id id)) fun _ h =>
          Exec.always_ret h
  | startRestoringKey =>
      exact always_done' (Exec.always_bind' fun _ _ => mutate_applies (Op.mayApply_of_not id id id))
  | addRecoveryShareToRestoration =>
      refine always_outcome (always_checked (.refl _) fun _ _ => ?_)
      exact Exec.always_bind (mutate_applies (Op.mayApply_of_not id id id)) fun _ h =>
        Exec.always_ret h
  | finishRestoring restorationId encryptionKey rng =>
      have hop : (Op.finishRestoring restorationId encryptionKey rng : Op L).Installs := trivial
      exact always_outcome (finishRestoring_applies hop _ _ _)
  | cancelRestoration => exact always_done' (mutate_applies (Op.mayApply_of_not id id id))
  | startRestoringKeyFromRecoverShare =>
      refine always_outcome (always_checked (.refl _) fun _ _ => ?_)
      refine Exec.always_bind (mutateAll_applies fun m hm => ?_) fun _ h => Exec.always_ret h
      simp only [List.mem_cons, List.not_mem_nil, or_false] at hm
      rcases hm with rfl | rfl
      · exact Op.mayApply_of_not id id id
      · exact Op.mayApply_of_not id id id
  | deleteRestorationShare =>
      refine always_done' ?_
      unfold deleteRestorationShare
      split
      · exact Exec.always_ret (.refl _)
      · split
        · exact Exec.always_ret (.refl _)
        · exact mutate_applies (Op.mayApply_of_not id id id)
  | recoverShare => exact always_outcome (recoverShare_applies _ _ _)
  | tellDeviceToSavePhysicalBackup =>
      refine Exec.always_ret ?_
      unfold tellDeviceToSavePhysicalBackup
      split
      · exact .refl _
      · exact .of_transient rfl rfl
  | tellDeviceToConsolidatePhysicalBackup =>
      exact always_outcome (always_checked (.refl _) fun _ _ => Exec.always_bind' fun _ _ =>
        Exec.always_bind' fun _ _ => Exec.always_bind' fun _ _ =>
          Exec.always_ret (.of_transient rfl rfl))
  | requestDeviceDisplayBackup =>
      exact always_outcome (always_checked (.refl _) fun _ _ => Exec.always_ret (.refl _))
  | requestDeviceCheckBackup =>
      exact always_outcome (always_checked (.refl _) fun _ _ => Exec.always_ret (.refl _))

/-- What all mutations keep but those that an operation has for itself, all other operations
keep. -/
theorem perform_keeps {R : Persistent L → Persistent L → Prop} (hrefl : ∀ p, R p p)
    (htrans : ∀ {p q r}, R p q → R q r → R p r) {op : Op L}
    (hchange : ∀ {fingerprint : Fingerprint} {p p' : Persistent L} {m : Mutation L}
      {changed : Bool}, op.MayApply m → p.change fingerprint m = .ret (changed, p') → R p p') :
    (s.perform op).Always fun r => R s.toPersistent r.2.toPersistent := by
  refine (perform_applies op).mono fun r h => ?_
  exact h.applied.keeps hrefl htrans hchange

end FrostCoordinator

end Frostsnap.Coordinator
