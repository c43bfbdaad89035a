import Frostsnap.Device.KeygenTrace

/-!
# Shares that a device holds

A share is saved together with its key and its access structure, and both are inserted anew: all
other shares of the key are lost then. A device that is given two shares of one access structure,
by consolidating two backups one after the other, has only the second.

## Main results

* `KeyStep.reads`: a step loses no share of a key unless it saves another share of the key.
* `Later.keeps_share`: nor does a run of such steps.
* `Signer.not_reads_of_saves`: a step that does save another share of the key loses it.
-/

namespace Frostsnap

namespace Device

attribute [local instance] Build.release

variable {L : FrostLib} {D : DeviceLib L} {S : Type}

/-! ### Holding a share -/

/-- A share of an access structure is held, and can be read with a contribution of the
coordinator. -/
def Signer.Reads (symmKeygen : DeviceSecretDerivation) (s : Signer D S) (ref : AccessStructureRef)
    (contrib : CoordShareDecryptionContrib) (secretShare : SecretShare) : Prop :=
  ∃ share, s.keys.getEncryptedShare ref secretShare.index = some share ∧
    share.shareImage = secretShare.shareImage D ∧
    decryptShare D share ref contrib symmKeygen = some secretShare

/-- An operation saves no other share of the key than the one that is held. -/
def Op.Spares (symmKeygen : DeviceSecretDerivation) (ref : AccessStructureRef)
    (contrib : CoordShareDecryptionContrib) (secretShare : SecretShare) (s : Signer D S) :
    Op D → Prop
  | .recvCoordinatorMessage (.keyGen (.finalize keygenId)) _ _ =>
      ∀ sessionHash phase4,
        s.keygen.tmpKeygenPendingFinalize[keygenId]? = some (sessionHash, phase4) →
        phase4.accessStructureRef.keyId = ref.keyId →
          phase4.accessStructureRef = ref ∧
          phase4.encryptedSecretShare.shareImage = secretShare.shareImage D ∧
          decryptShare D phase4.encryptedSecretShare ref contrib symmKeygen = some secretShare
  | .finishConsolidation phase _ =>
      phase.completeShare.accessStructureRef.keyId = ref.keyId →
        phase.completeShare.accessStructureRef = ref ∧
        phase.completeShare.secretShare = secretShare ∧ phase.coordContrib = contrib
  | _ => True

/-! ### One step -/

variable {symmKeygen : DeviceSecretDerivation} {s s' : Signer D S} {ref : AccessStructureRef}
  {contrib : CoordShareDecryptionContrib} {secretShare : SecretShare}

/-- What was encrypted is decrypted with the same contribution. -/
theorem decryptShare_encryptShare
    (haead : ∀ key scalar rng, D.decrypt key (D.encrypt key scalar rng) = some scalar)
    (rng : L.Rng) :
    decryptShare D (encryptShare D secretShare ref contrib symmKeygen rng) ref contrib symmKeygen =
      some secretShare := by
  have hindex : (secretShare.shareImage D).index = secretShare.index := rfl
  rw [decryptShare, encryptShare]
  dsimp only
  rw [hindex, haead, Option.map_some]

/-- A share is there after another was saved exactly when it is of another key, or is the one that
was saved. -/
theorem Signer.reads_saveCompleteShare {phase4 : KeyGenPhase4 D} :
    (s.saveCompleteShare phase4).Reads symmKeygen ref contrib secretShare ↔
      (phase4.accessStructureRef.keyId ≠ ref.keyId ∧ s.Reads symmKeygen ref contrib secretShare) ∨
        phase4.accessStructureRef = ref ∧
          phase4.encryptedSecretShare.shareImage = secretShare.shareImage D ∧
          decryptShare D phase4.encryptedSecretShare ref contrib symmKeygen = some secretShare := by
  constructor
  · rintro ⟨share, hheld, himage, hdecrypt⟩
    rcases getEncryptedShare_saveCompleteShare.1 hheld with hsaves | ⟨hkey, hheld⟩
    · rw [← hsaves.share_eq] at himage hdecrypt
      exact .inr ⟨hsaves.ref_eq, himage, hdecrypt⟩
    · exact .inl ⟨hkey, share, hheld, himage, hdecrypt⟩
  · rintro (⟨hkey, share, hheld, himage, hdecrypt⟩ | ⟨href, himage, hdecrypt⟩)
    · exact ⟨share, getEncryptedShare_saveCompleteShare.2 (.inr ⟨hkey, hheld⟩), himage, hdecrypt⟩
    · have hsaves : phase4.Saves ref secretShare.index phase4.encryptedSecretShare :=
        ⟨href, by rw [himage]; rfl, rfl⟩
      exact ⟨_, getEncryptedShare_saveCompleteShare.2 (.inl hsaves), himage, hdecrypt⟩

theorem Signer.Reads.congr (h : s.Reads symmKeygen ref contrib secretShare)
    (hkeys : s'.keys = s.keys) : s'.Reads symmKeygen ref contrib secretShare := by
  obtain ⟨share, hheld, h⟩ := h
  exact ⟨share, hkeys ▸ hheld, h⟩

/-- **A step** loses no share when it saves no other share of the key. -/
theorem KeyStep.reads {e : Entry D}
    (haead : ∀ key scalar rng, D.decrypt key (D.encrypt key scalar rng) = some scalar)
    (h : KeyStep symmKeygen s s' e) (hspares : e.op.Spares symmKeygen ref contrib secretShare s)
    (hreads : s.Reads symmKeygen ref contrib secretShare) :
    s'.Reads symmKeygen ref contrib secretShare := by
  cases h with
  | forgets h => exact hreads.congr h.keys
  | begins keygenId phase1 he hs' => exact hreads.congr (hs' ▸ rfl)
  | certifies keygenId phase1 phase2 hphase1 he hs' => exact hreads.congr (hs' ▸ rfl)
  | checks phase2 phase3 hphase2 he hs' => exact hreads.congr (hs' ▸ rfl)
  | acks phase3 phase4 he hs' => exact hreads.congr (hs' ▸ rfl)
  | finalizes keygenId sessionHash phase4 hpending he hs' =>
      obtain ⟨rng, seeds, keyName, rfl⟩ := he
      subst hs'
      by_cases hkey : phase4.accessStructureRef.keyId = ref.keyId
      · exact Signer.reads_saveCompleteShare.2 (.inr (hspares sessionHash phase4 hpending hkey))
      · exact Signer.reads_saveCompleteShare.2 (.inl ⟨hkey, hreads.congr rfl⟩)
  | consolidates phase phase4 he hs' =>
      obtain ⟨rng, rfl, href, hshare⟩ := he
      subst hs'
      by_cases hkey : phase4.accessStructureRef.keyId = ref.keyId
      · rw [href] at hkey
        obtain ⟨hsame, rfl, rfl⟩ := hspares hkey
        refine Signer.reads_saveCompleteShare.2 (.inr ⟨href.trans hsame, ?_, ?_⟩)
        · rw [hshare]
          rfl
        · rw [hshare, hsame]
          exact decryptShare_encryptShare haead rng
      · exact Signer.reads_saveCompleteShare.2 (.inl ⟨hkey, hreads⟩)

/-- Saving another share of its key loses a share. -/
theorem Signer.not_reads_of_saves {phase4 : KeyGenPhase4 D}
    (hkey : phase4.accessStructureRef.keyId = ref.keyId)
    (hother : phase4.accessStructureRef ≠ ref ∨
      phase4.encryptedSecretShare.shareImage ≠ secretShare.shareImage D) :
    ¬ (s.saveCompleteShare phase4).Reads symmKeygen ref contrib secretShare := by
  intro h
  rcases reads_saveCompleteShare.1 h with ⟨hne, -⟩ | ⟨href, himage, -⟩
  · exact hne hkey
  · rcases hother with hother | hother
    · exact hother href
    · exact hother himage

/-! ### Runs -/

section Runs

variable [NonceStreamSlot S SeedMaterial SignatureShare]

/-- A run goes on from a state and what has happened before it, by steps that meet a condition. -/
inductive Later (symmKeygen : DeviceSecretDerivation) (P : Signer D S → Op D → Prop)
    (s : Signer D S) (trace : List (Entry D)) : Signer D S → List (Entry D) → Prop where
  | here : Later symmKeygen P s trace s trace
  | step {s' s'' : Signer D S} {trace' : List (Entry D)} {op : Op D}
      {sends : Option (List (DeviceSend D))} (h : Later symmKeygen P s trace s' trace')
      (hop : op.Allowed trace') (hP : P s' op) (hstep : s'.step symmKeygen op = .ret (sends, s'')) :
      Later symmKeygen P s trace s'' (trace' ++ [{ op := op, sends := sends }])

/-- **A run** loses no share when no step of it saves another share of the key. -/
theorem Later.keeps_share {trace trace' : List (Entry D)}
    (haead : ∀ key scalar rng, D.decrypt key (D.encrypt key scalar rng) = some scalar)
    (h : Later symmKeygen (Op.Spares symmKeygen ref contrib secretShare) s trace s' trace')
    (hreads : s.Reads symmKeygen ref contrib secretShare) :
    s'.Reads symmKeygen ref contrib secretShare := by
  induction h with
  | here => exact hreads
  | step h hop hspares hstep ih => exact (Signer.step_keyStep hstep).reads haead hspares ih

/-- Each operation of a list meets a condition in the state that it is done in. -/
def Signer.EachStep (symmKeygen : DeviceSecretDerivation) (P : Signer D S → Op D → Prop) :
    Signer D S → List (Op D) → Prop
  | _, [] => True
  | s, op :: ops => P s op ∧ EachStep symmKeygen P (s.after symmKeygen op) ops

theorem Later.runs {P : Signer D S → Op D → Prop} {trace trace' : List (Entry D)}
    (h : Later symmKeygen P s trace s' trace') {ops : List (Op D)}
    (hops : s'.Runs symmKeygen trace' ops) (heach : s'.EachStep symmKeygen P ops) :
    Later symmKeygen P s trace (ops.foldl (Signer.after symmKeygen) s')
      (trace' ++ s'.entriesOf symmKeygen ops) := by
  induction ops generalizing s' trace' with
  | nil => simpa only [Signer.entriesOf, List.append_nil, List.foldl_nil] using h
  | cons op ops ih =>
      obtain ⟨⟨sends, t⟩, hstep⟩ := hops.2.1
      have hafter : s'.after symmKeygen op = t := by rw [Signer.after, hstep]
      have hentry : s'.entryOf symmKeygen op = { op := op, sends := sends } := by
        rw [Signer.entryOf, hstep]
      have hnext : Later symmKeygen P s trace (s'.after symmKeygen op)
          (trace' ++ [s'.entryOf symmKeygen op]) := by
        rw [hafter, hentry]
        exact h.step hops.1 heach.1 hstep
      have h' := ih hnext hops.2.2 heach.2
      rwa [List.append_assoc] at h'

end Runs

/-! ### Concrete runs -/

theorem plainDeviceLib_aead (key : SymmetricKey) (scalar : BitVec 256) (rng : ℕ) :
    plainDeviceLib.decrypt key (plainDeviceLib.encrypt key scalar rng) = some scalar := by
  have hkey : (key ++ scalar).extractLsb' 256 256 = key := by
    ext i hi
    simp only [BitVec.getElem_extractLsb', BitVec.getLsbD_append]
    rw [if_neg (by omega), Nat.add_sub_cancel_left, BitVec.getLsbD_eq_getElem]
  have hscalar : (key ++ scalar).setWidth 256 = scalar := by
    rw [BitVec.setWidth_append, dif_pos (Nat.le_refl _), BitVec.setWidth_eq]
  have hdecrypt : plainDeviceLib.decrypt key (plainDeviceLib.encrypt key scalar rng) =
      if (key ++ scalar).extractLsb' 256 256 = key then some ((key ++ scalar).setWidth 256)
      else none := rfl
  rw [hdecrypt, if_pos hkey, hscalar]

/-- Two shares of a key with a threshold of two. -/
def twoKey : SharedKey := { pointPolynomial := [9, 4] }

/-- The share of it at an index, to be consolidated. -/
def twoPhase (index : ShareIndex) (share : BitVec 256) : ConsolidatePhase where
  completeShare :=
    { accessStructureRef := AccessStructureRef.fromRootSharedKey plainLib twoKey
      keyName := "key"
      purpose := .test
      threshold := 2
      secretShare := { index := index, share := share } }
  coordContrib := CoordShareDecryptionContrib.forMasterShare plainLib 1 index twoKey

/-- A backup of the share is entered and consolidated. -/
def twoOps (index : ShareIndex) (share : BitVec 256) : List (Op plainDeviceLib) :=
  [.recvCoordinatorMessage (.restoration (.enterPhysicalBackup 0)) (0 : ℕ) fun _ => 0,
   .backupEntered { enterPhysicalId := 0 } ({ index := index, share := share } : SecretShare),
   .recvCoordinatorMessage (.restoration (.consolidate
     { shareIndex := index
       rootSharedKey := twoKey
       keyName := "key"
       purpose := .test })) (0 : ℕ) fun _ => 0,
   .finishConsolidation (twoPhase index share) (0 : ℕ)]

/-- The device after the first of two shares has been consolidated. -/
def holdsFirst : Signer plainDeviceLib PlainSlot :=
  (twoOps 1 13).foldl (Signer.after plainDerivation) (plainSigner 0)

/-- What has happened then. -/
def firstTrace : List (Entry plainDeviceLib) :=
  [] ++ (plainSigner 0).entriesOf plainDerivation (twoOps 1 13)

theorem twoOps_runs_first : (plainSigner 0).Runs plainDerivation [] (twoOps 1 13) := by
  refine ⟨trivial, by decide +kernel, ?_, by decide +kernel, trivial, by decide +kernel, ?_,
    by decide +kernel, trivial⟩
  · exact ⟨_, List.mem_cons_self, _, rfl, List.mem_cons_self⟩
  · exact shown_of_asked (.inr (twoPhase 1 13))
      (List.mem_append_right _ List.mem_cons_self) (by decide +kernel)

theorem twoOps_runs_second : holdsFirst.Runs plainDerivation firstTrace (twoOps 2 17) := by
  refine ⟨trivial, by decide +kernel, ?_, by decide +kernel, trivial, by decide +kernel, ?_,
    by decide +kernel, trivial⟩
  · exact ⟨_, List.mem_append_right _ List.mem_cons_self, _, rfl, List.mem_cons_self⟩
  · exact shown_of_asked (.inr (twoPhase 2 17))
      (List.mem_append_right _ List.mem_cons_self) (by decide +kernel)

/-- A device has a share that decrypts to the given one. -/
def Signer.readsAt (s : Signer plainDeviceLib PlainSlot) (ref : AccessStructureRef)
    (contrib : CoordShareDecryptionContrib) (secretShare : SecretShare) : Bool :=
  (s.keys.getEncryptedShare ref secretShare.index).any fun share =>
    decide (share.shareImage = secretShare.shareImage plainDeviceLib) &&
      decide (decryptShare plainDeviceLib share ref contrib plainDerivation = some secretShare)

theorem Signer.readsAt_iff {s : Signer plainDeviceLib PlainSlot} {ref : AccessStructureRef}
    {contrib : CoordShareDecryptionContrib} {secretShare : SecretShare} :
    s.readsAt ref contrib secretShare = true ↔ s.Reads plainDerivation ref contrib secretShare := by
  rw [Signer.readsAt, Option.any_eq_true]
  simp only [Bool.and_eq_true, decide_eq_true_eq]
  rfl

/-- The access structure of the two shares. -/
def twoRef : AccessStructureRef := AccessStructureRef.fromRootSharedKey plainLib twoKey

/-- The first of them. -/
def firstShare : SecretShare := { index := 1, share := 13 }

/-- What it was encrypted with. -/
def firstContrib : CoordShareDecryptionContrib :=
  CoordShareDecryptionContrib.forMasterShare plainLib 1 1 twoKey

theorem holdsFirst_reads : holdsFirst.Reads plainDerivation twoRef firstContrib firstShare :=
  Signer.readsAt_iff.1 (by decide +kernel)

theorem twoOps_runs_again : holdsFirst.Runs plainDerivation firstTrace (twoOps 1 13) := by
  refine ⟨trivial, by decide +kernel, ?_, by decide +kernel, trivial, by decide +kernel, ?_,
    by decide +kernel, trivial⟩
  · exact ⟨_, List.mem_append_right _ List.mem_cons_self, _, rfl, List.mem_cons_self⟩
  · exact shown_of_asked (.inr (twoPhase 1 13))
      (List.mem_append_right _ List.mem_cons_self) (by decide +kernel)

/-- The first share is consolidated once more, and is still there. -/
theorem Later.keeps_share_consolidated_again :
    ((twoOps 1 13).foldl (Signer.after plainDerivation) holdsFirst).Reads plainDerivation
      twoRef firstContrib firstShare := by
  have hlater : Later plainDerivation
      (Op.Spares plainDerivation twoRef firstContrib firstShare) holdsFirst firstTrace
      ((twoOps 1 13).foldl (Signer.after plainDerivation) holdsFirst)
      (firstTrace ++ holdsFirst.entriesOf plainDerivation (twoOps 1 13)) :=
    Later.here.runs twoOps_runs_again
      ⟨trivial, trivial, trivial, fun _ => ⟨rfl, rfl, rfl⟩, trivial⟩
  exact Later.keeps_share plainDeviceLib_aead hlater holdsFirst_reads

/-- The device after the second was consolidated too. -/
def holdsSecond : Signer plainDeviceLib PlainSlot :=
  (twoOps 2 17).foldl (Signer.after plainDerivation) holdsFirst

theorem holdsSecond_not_reads :
    ¬ holdsSecond.Reads plainDerivation twoRef firstContrib firstShare := by
  rw [← Signer.readsAt_iff]
  decide +kernel

/-- The first share is lost when the second is consolidated. -/
theorem second_share_loses_first :
    ¬ ∀ (s₀ s s' : Signer plainDeviceLib PlainSlot) (trace trace' : List (Entry plainDeviceLib)),
      Started s₀ → Reach plainDerivation s₀ s trace →
      Later plainDerivation (fun _ _ => True) s trace s' trace' →
      ∀ (ref : AccessStructureRef) (contrib : CoordShareDecryptionContrib)
        (secretShare : SecretShare), s.Reads plainDerivation ref contrib secretShare →
          s'.Reads plainDerivation ref contrib secretShare := by
  intro h
  have hreach : Reach plainDerivation (plainSigner 0) holdsFirst firstTrace :=
    Reach.start.runs twoOps_runs_first
  have hlater : Later plainDerivation (fun _ _ => True) holdsFirst firstTrace holdsSecond
      (firstTrace ++ holdsFirst.entriesOf plainDerivation (twoOps 2 17)) :=
    Later.here.runs twoOps_runs_second ⟨trivial, trivial, trivial, trivial, trivial⟩
  exact holdsSecond_not_reads (h _ _ _ _ _ (plainSigner_started 0) hreach hlater _ _ _
    holdsFirst_reads)

end Device

end Frostsnap
