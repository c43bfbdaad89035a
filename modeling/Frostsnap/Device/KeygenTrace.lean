import Frostsnap.Device.KeygenSteps
import Frostsnap.Device.PlainDevice

/-!
# Where the shares of a device come from

A key generation on a device goes through five steps, each with what the one before it has left:
the device contributes, certifies, shows what came out, the user agrees, and the share is saved.
The coordinator chooses the ids, and may interleave, repeat and abandon key generations.

## Main results

* `KeyStep.keyChange`: what is kept after a step was kept before it, or comes from it.
* `Reach.history`: what a run has left in a device, and the steps of the run it comes from.
-/

namespace Frostsnap

namespace Device

attribute [local instance] Build.release

variable {L : FrostLib} {D : DeviceLib L} {S : Type}

/-! ### What it means for what is kept -/

/-- `share` is what is held under `ref` and `index` once `phase4` was saved. -/
structure KeyGenPhase4.Saves (phase4 : KeyGenPhase4 D) (ref : AccessStructureRef)
    (index : ShareIndex) (share : EncryptedSecretShare D.Cipher) : Prop where
  ref_eq : phase4.accessStructureRef = ref
  index_eq : phase4.encryptedSecretShare.shareImage.index = index
  share_eq : phase4.encryptedSecretShare = share

/-- The share that is saved is held, and no other of its key. -/
theorem Signer.getEncryptedShare_saveCompleteShare {s : Signer D S} {phase4 : KeyGenPhase4 D}
    {ref : AccessStructureRef} {index : ShareIndex} {share : EncryptedSecretShare D.Cipher} :
    (s.saveCompleteShare phase4).keys.getEncryptedShare ref index = some share ↔
      phase4.Saves ref index share ∨
        phase4.accessStructureRef.keyId ≠ ref.keyId ∧
          s.keys.getEncryptedShare ref index = some share := by
  rw [saveCompleteShare_keys, Keys.getEncryptedShare_saveShare,
    Keys.accessStructure_newAccessStructure, Keys.getEncryptedShare_newAccessStructure,
    Keys.getEncryptedShare_newKey]
  by_cases href : phase4.accessStructureRef = ref
  · subst href
    by_cases hindex : phase4.encryptedSecretShare.shareImage.index = index
    · rw [if_pos ⟨rfl, hindex, by simp [Keys.newKey]⟩, Option.some_inj]
      constructor
      · exact fun h => .inl ⟨rfl, hindex, h⟩
      · rintro (h | h)
        · exact h.share_eq
        · exact absurd rfl h.1
    · rw [if_neg fun h => hindex h.2.1, if_pos rfl]
      constructor
      · intro h
        cases h
      · rintro (h | h)
        · exact absurd h.index_eq hindex
        · exact absurd rfl h.1
  · rw [if_neg fun h => href h.1, if_neg href]
    constructor
    · intro h
      split at h
      · cases h
      · rename_i hkey
        exact .inr ⟨hkey, h⟩
    · rintro (h | h)
      · exact absurd h.ref_eq href
      · rw [if_neg h.1]
        exact h.2

/-- Saving a share stages it, and no other. -/
theorem Signer.stagesShare_saveCompleteShare {s : Signer D S} {phase4 : KeyGenPhase4 D}
    {m : SaveShareMutation D.Cipher} (h : (s.saveCompleteShare phase4).StagesShare m) :
    s.StagesShare m ∨
      phase4.Saves m.accessStructureRef m.encryptedSecretShare.shareImage.index
        m.encryptedSecretShare := by
  have hmutations : (s.saveCompleteShare phase4).mutations = s.mutations ++
      [.keygen (.newKey phase4.accessStructureRef.keyId phase4.keyName phase4.keyPurpose)] ++
      [.keygen (.newAccessStructure phase4.accessStructureRef phase4.threshold
        phase4.accessStructureKind)] ++
      [.keygen (.saveShare
        { accessStructureRef := phase4.accessStructureRef
          encryptedSecretShare := phase4.encryptedSecretShare })] := rfl
  rw [StagesShare, hmutations] at h
  simp only [List.mem_append, List.mem_singleton, reduceCtorEq, or_false, Mutation.keygen.injEq,
    KeyMutation.saveShare.injEq] at h
  rcases h with h | rfl
  · exact .inl h
  · exact .inr ⟨rfl, rfl, rfl⟩

section Change

variable {symmKeygen : DeviceSecretDerivation} {s s' : Signer D S} {e : Entry D}

/-- What is kept after a step was kept before it, or comes from it. -/
structure KeyChange (symmKeygen : DeviceSecretDerivation) (s s' : Signer D S) (e : Entry D) :
    Prop where
  keypair : s'.keypair = s.keypair
  deviceId : s'.deviceId = s.deviceId
  begun : ∀ (keygenId : KeygenId) (phase1 : KeyGenPhase1 D),
    s'.keygen.tmpKeygenPhase1[keygenId]? = some phase1 →
      s.keygen.tmpKeygenPhase1[keygenId]? = some phase1 ∧ ¬ e.Certifies keygenId ∨
        e.Begins keygenId phase1
  certified : ∀ (keygenId : KeygenId) (phase2 : KeyGenPhase2 D),
    s'.keygen.tmpKeygenPhase2[keygenId]? = some phase2 →
      s.keygen.tmpKeygenPhase2[keygenId]? = some phase2 ∨
        ∃ phase1, s.keygen.tmpKeygenPhase1[keygenId]? = some phase1 ∧
          e.CertifiesWith s.keypair keygenId phase1 phase2
  agreed : ∀ (keygenId : KeygenId) (sessionHash : SessionHash) (phase4 : KeyGenPhase4 D),
    s'.keygen.tmpKeygenPendingFinalize[keygenId]? = some (sessionHash, phase4) →
      s.keygen.tmpKeygenPendingFinalize[keygenId]? = some (sessionHash, phase4) ∨
        ∃ phase3 : KeyGenPhase3, phase3.keygenId = keygenId ∧
          e.Acks symmKeygen s.deviceId phase3 phase4
  shares : ∀ (ref : AccessStructureRef) (index : ShareIndex)
    (share : EncryptedSecretShare D.Cipher),
    s'.keys.getEncryptedShare ref index = some share →
      s.keys.getEncryptedShare ref index = some share ∨
        ∃ phase4 : KeyGenPhase4 D, phase4.Saves ref index share ∧
          ((∃ keygenId sessionHash,
              s.keygen.tmpKeygenPendingFinalize[keygenId]? = some (sessionHash, phase4) ∧
                e.Finalizes keygenId) ∨
            ∃ phase, e.Consolidates symmKeygen phase phase4)
  certifies : ∀ keygenId, e.Certifies keygenId →
    ∃ phase1 phase2, s.keygen.tmpKeygenPhase1[keygenId]? = some phase1 ∧
      e.CertifiesWith s.keypair keygenId phase1 phase2
  shows : ∀ phase3, .toUser (.checkKeyGen phase3) ∈ e.sends.getD [] →
    ∃ phase2, s.keygen.tmpKeygenPhase2[phase3.keygenId]? = some phase2 ∧ e.Checks phase2 phase3

/-- Nothing is certified by what sends something else. -/
theorem Entry.not_certifies {send : DeviceSend D} (hsends : e.sends = some [send])
    (hsend : ∀ keygenId vrfCert,
      send ≠ .toCoordinator (.keyGen (.certify keygenId vrfCert))) (keygenId : KeygenId) :
    ¬ e.Certifies keygenId := by
  rintro ⟨vrfCert, hmem⟩
  rw [hsends] at hmem
  exact hsend keygenId vrfCert (List.mem_singleton.1 hmem).symm

/-- Nothing is shown by what sends something else. -/
theorem Entry.not_checks {send : DeviceSend D} (hsends : e.sends = some [send])
    (hsend : ∀ phase3, send ≠ .toUser (.checkKeyGen phase3)) (phase3 : KeyGenPhase3) :
    .toUser (.checkKeyGen phase3) ∉ e.sends.getD [] := by
  intro hmem
  rw [hsends] at hmem
  exact hsend phase3 (List.mem_singleton.1 hmem).symm

theorem Forgets.keyChange (h : Forgets s s' e.sends) : KeyChange symmKeygen s s' e := by
  have hcertifies (keygenId : KeygenId) : ¬ e.Certifies keygenId := by
    rintro ⟨vrfCert, hmem⟩
    exact h.quiet _ hmem trivial
  have hshows (phase3 : KeyGenPhase3) : .toUser (.checkKeyGen phase3) ∉ e.sends.getD [] :=
    fun hmem => h.quiet _ hmem trivial
  exact
    { keypair := h.keypair
      deviceId := h.deviceId
      begun := fun keygenId phase1 hget => .inl ⟨h.phase1 _ _ hget, hcertifies keygenId⟩
      certified := fun keygenId phase2 hget => .inl (h.phase2 _ _ hget)
      agreed := fun keygenId sessionHash phase4 hget => .inl (h.pending _ _ hget)
      shares := fun ref index share hget => .inl (h.keys ▸ hget)
      certifies := fun keygenId hcert => absurd hcert (hcertifies keygenId)
      shows := fun phase3 hmem => absurd hmem (hshows phase3) }

theorem Entry.Begins.sends {keygenId : KeygenId} {phase1 : KeyGenPhase1 D}
    (h : e.Begins keygenId phase1) :
    ∃ input, e.sends = some [.toCoordinator (.keyGen (.response keygenId input))] := by
  obtain ⟨_, _, _, _, _, input, rfl, -⟩ := h
  exact ⟨input, rfl⟩

theorem Entry.CertifiesWith.sends {keypair : L.KeyPair} {keygenId : KeygenId}
    {phase1 : KeyGenPhase1 D} {phase2 : KeyGenPhase2 D}
    (h : e.CertifiesWith keypair keygenId phase1 phase2) :
    ∃ vrfCert, e.sends = some [.toCoordinator (.keyGen (.certify keygenId vrfCert))] := by
  obtain ⟨_, _, _, vrfCert, rfl, -⟩ := h
  exact ⟨vrfCert, rfl⟩

theorem Entry.Checks.sends {phase2 : KeyGenPhase2 D} {phase3 : KeyGenPhase3}
    (h : e.Checks phase2 phase3) : e.sends = some [.toUser (.checkKeyGen phase3)] := by
  obtain ⟨_, _, _, _, rfl, -⟩ := h
  rfl

theorem Entry.Acks.sends {deviceId : DeviceId} {phase3 : KeyGenPhase3} {phase4 : KeyGenPhase4 D}
    (h : e.Acks symmKeygen deviceId phase3 phase4) :
    e.sends = some [.toCoordinator (.keyGen (.ack phase3.keygenId phase3.sessionHash))] := by
  obtain ⟨_, rfl, -⟩ := h
  rfl

theorem Entry.Finalizes.sends {keygenId : KeygenId} (h : e.Finalizes keygenId) :
    ∃ keyName, e.sends = some [.toUser (.finalizeKeyGen keyName)] := by
  obtain ⟨_, _, keyName, rfl⟩ := h
  exact ⟨keyName, rfl⟩

theorem Entry.Consolidates.sends {phase : ConsolidatePhase} {phase4 : KeyGenPhase4 D}
    (h : e.Consolidates symmKeygen phase phase4) :
    ∃ m, e.sends = some [.toCoordinator (.restoration m)] := by
  obtain ⟨_, rfl, -⟩ := h
  exact ⟨_, rfl⟩

theorem KeyStep.keyChange (h : KeyStep symmKeygen s s' e) : KeyChange symmKeygen s s' e := by
  cases h with
  | forgets h => exact h.keyChange
  | begins keygenId phase1 he hs' =>
      obtain ⟨input, hsends⟩ := he.sends
      have hcertifies := Entry.not_certifies hsends fun _ _ h => by cases h
      have hshows := Entry.not_checks hsends fun _ h => by cases h
      subst hs'
      refine
        { keypair := rfl
          deviceId := rfl
          begun := fun keygenId' phase1' hget => ?_
          certified := fun _ _ hget => .inl hget
          agreed := fun _ _ _ hget => .inl hget
          shares := fun _ _ _ hget => .inl hget
          certifies := fun keygenId' hcert => absurd hcert (hcertifies keygenId')
          shows := fun phase3 hmem => absurd hmem (hshows phase3) }
      rcases BTreeMap.getElem?_of_insert hget with ⟨rfl, rfl⟩ | hget
      · exact .inr he
      · exact .inl ⟨hget, hcertifies keygenId'⟩
  | certifies keygenId phase1 phase2 hphase1 he hs' =>
      obtain ⟨vrfCert, hsends⟩ := he.sends
      have hshows := Entry.not_checks hsends fun _ h => by cases h
      have hcertifies (keygenId' : KeygenId) (h : e.Certifies keygenId') :
          keygenId' = keygenId := by
        obtain ⟨vrfCert', hmem⟩ := h
        rw [hsends] at hmem
        cases List.mem_singleton.1 hmem
        rfl
      subst hs'
      refine
        { keypair := rfl
          deviceId := rfl
          begun := fun keygenId' phase1' hget => ?_
          certified := fun keygenId' phase2' hget => ?_
          agreed := fun _ _ _ hget => .inl hget
          shares := fun _ _ _ hget => .inl hget
          certifies := fun keygenId' hcert => ?_
          shows := fun phase3 hmem => absurd hmem (hshows phase3) }
      · obtain ⟨hne, hget⟩ := BTreeMap.getElem?_of_erase hget
        exact .inl ⟨hget, fun hcert => hne (hcertifies _ hcert)⟩
      · rcases BTreeMap.getElem?_of_insert hget with ⟨rfl, rfl⟩ | hget
        · exact .inr ⟨phase1, hphase1, he⟩
        · exact .inl hget
      · obtain rfl := hcertifies _ hcert
        exact ⟨phase1, phase2, hphase1, he⟩
  | checks phase2 phase3 hphase2 he hs' =>
      have hcertifies := Entry.not_certifies he.sends fun _ _ h => by cases h
      subst hs'
      refine
        { keypair := rfl
          deviceId := rfl
          begun := fun keygenId' _ hget => .inl ⟨hget, hcertifies keygenId'⟩
          certified := fun _ _ hget => .inl (BTreeMap.getElem?_of_erase hget).2
          agreed := fun _ _ _ hget => .inl hget
          shares := fun _ _ _ hget => .inl hget
          certifies := fun keygenId' hcert => absurd hcert (hcertifies keygenId')
          shows := fun phase3' hmem => ?_ }
      rw [he.sends] at hmem
      obtain rfl : phase3' = phase3 := by
        cases List.mem_singleton.1 hmem
        rfl
      exact ⟨phase2, hphase2, he⟩
  | acks phase3 phase4 he hs' =>
      have hcertifies := Entry.not_certifies he.sends fun _ _ h => by cases h
      have hshows := Entry.not_checks he.sends fun _ h => by cases h
      subst hs'
      refine
        { keypair := rfl
          deviceId := rfl
          begun := fun keygenId' _ hget => .inl ⟨hget, hcertifies keygenId'⟩
          certified := fun _ _ hget => .inl hget
          agreed := fun keygenId' sessionHash phase4' hget => ?_
          shares := fun _ _ _ hget => .inl hget
          certifies := fun keygenId' hcert => absurd hcert (hcertifies keygenId')
          shows := fun phase3' hmem => absurd hmem (hshows phase3') }
      rcases BTreeMap.getElem?_of_insert hget with ⟨rfl, heq⟩ | hget
      · obtain ⟨-, rfl⟩ := Prod.mk.inj heq
        exact .inr ⟨phase3, rfl, he⟩
      · exact .inl hget
  | finalizes keygenId sessionHash phase4 hpending he hs' =>
      obtain ⟨keyName, hsends⟩ := he.sends
      have hcertifies := Entry.not_certifies hsends fun _ _ h => by cases h
      have hshows := Entry.not_checks hsends fun _ h => by cases h
      subst hs'
      refine
        { keypair := rfl
          deviceId := rfl
          begun := fun keygenId' _ hget => .inl ⟨hget, hcertifies keygenId'⟩
          certified := fun _ _ hget => .inl hget
          agreed := fun _ _ _ hget => .inl (BTreeMap.getElem?_of_erase hget).2
          shares := fun ref index share hget => ?_
          certifies := fun keygenId' hcert => absurd hcert (hcertifies keygenId')
          shows := fun phase3' hmem => absurd hmem (hshows phase3') }
      rcases Signer.getEncryptedShare_saveCompleteShare.1 hget with hsaved | ⟨-, hheld⟩
      · exact .inr ⟨phase4, hsaved, .inl ⟨keygenId, sessionHash, hpending, he⟩⟩
      · exact .inl hheld
  | consolidates phase phase4 he hs' =>
      obtain ⟨m, hsends⟩ := he.sends
      have hcertifies := Entry.not_certifies hsends fun _ _ h => by cases h
      have hshows := Entry.not_checks hsends fun _ h => by cases h
      subst hs'
      refine
        { keypair := rfl
          deviceId := rfl
          begun := fun keygenId' _ hget => .inl ⟨hget, hcertifies keygenId'⟩
          certified := fun _ _ hget => .inl hget
          agreed := fun _ _ _ hget => .inl hget
          shares := fun ref index share hget => ?_
          certifies := fun keygenId' hcert => absurd hcert (hcertifies keygenId')
          shows := fun phase3' hmem => absurd hmem (hshows phase3') }
      rcases Signer.getEncryptedShare_saveCompleteShare.1 hget with hsaved | ⟨-, hheld⟩
      · exact .inr ⟨phase4, hsaved, .inr ⟨phase, he⟩⟩
      · exact .inl hheld

/-- A share that is staged after a step was staged before it, or is held now. -/
theorem KeyStep.stagesShare {m : SaveShareMutation D.Cipher} (h : KeyStep symmKeygen s s' e)
    (hm : s'.StagesShare m) :
    s.StagesShare m ∨
      s'.keys.getEncryptedShare m.accessStructureRef m.encryptedSecretShare.shareImage.index =
        some m.encryptedSecretShare := by
  have hsame (hmutations : s'.mutations = s.mutations) : s.StagesShare m := by
    rwa [Signer.StagesShare, hmutations] at hm
  cases h with
  | forgets h => exact .inl (h.staged m hm)
  | begins keygenId phase1 he hs' => exact .inl (hsame (hs' ▸ rfl))
  | certifies keygenId phase1 phase2 hphase1 he hs' => exact .inl (hsame (hs' ▸ rfl))
  | checks phase2 phase3 hphase2 he hs' => exact .inl (hsame (hs' ▸ rfl))
  | acks phase3 phase4 he hs' => exact .inl (hsame (hs' ▸ rfl))
  | finalizes keygenId sessionHash phase4 hpending he hs' =>
      subst hs'
      rcases Signer.stagesShare_saveCompleteShare hm with hm | hsaves
      · exact .inl hm
      · exact .inr (Signer.getEncryptedShare_saveCompleteShare.2 (.inl hsaves))
  | consolidates phase phase4 he hs' =>
      subst hs'
      rcases Signer.stagesShare_saveCompleteShare hm with hm | hsaves
      · exact .inl hm
      · exact .inr (Signer.getEncryptedShare_saveCompleteShare.2 (.inl hsaves))

end Change

/-! ### Runs -/

section Runs

variable (symmKeygen : DeviceSecretDerivation) (keypair : L.KeyPair) (deviceId : DeviceId)

/-- The last certificate for `keygenId`, if there is one, was sent before the `Begin` that left
`phase1` was accepted. -/
def Begun (trace : List (Entry D)) (keygenId : KeygenId) (phase1 : KeyGenPhase1 D) : Prop :=
  ∃ (before after : List (Entry D)) (begin : Entry D), trace = before ++ begin :: after ∧
    begin.Begins keygenId phase1 ∧ ∀ e ∈ after, ¬ e.Certifies keygenId

/-- A key generation was begun and certified, in this order. -/
def Certified (trace : List (Entry D)) (keygenId : KeygenId) (phase2 : KeyGenPhase2 D) : Prop :=
  ∃ (begin certify : Entry D) (phase1 : KeyGenPhase1 D), [begin, certify].Sublist trace ∧
    begin.Begins keygenId phase1 ∧ certify.CertifiesWith keypair keygenId phase1 phase2

/-- It was shown to the user after that. -/
def Checked (trace : List (Entry D)) (phase3 : KeyGenPhase3) : Prop :=
  ∃ (begin certify check : Entry D) (phase1 : KeyGenPhase1 D) (phase2 : KeyGenPhase2 D),
    [begin, certify, check].Sublist trace ∧ begin.Begins phase3.keygenId phase1 ∧
    certify.CertifiesWith keypair phase3.keygenId phase1 phase2 ∧ check.Checks phase2 phase3

/-- The user agreed after that. -/
def Agreed (trace : List (Entry D)) (phase3 : KeyGenPhase3) (phase4 : KeyGenPhase4 D) : Prop :=
  ∃ (begin certify check ack : Entry D) (phase1 : KeyGenPhase1 D) (phase2 : KeyGenPhase2 D),
    [begin, certify, check, ack].Sublist trace ∧ begin.Begins phase3.keygenId phase1 ∧
    certify.CertifiesWith keypair phase3.keygenId phase1 phase2 ∧ check.Checks phase2 phase3 ∧
    ack.Acks symmKeygen deviceId phase3 phase4

/-- A `Finalize` for the same id came after that. -/
def Finalized (trace : List (Entry D)) (phase3 : KeyGenPhase3) (phase4 : KeyGenPhase4 D) : Prop :=
  ∃ (begin certify check ack finalize : Entry D) (phase1 : KeyGenPhase1 D)
    (phase2 : KeyGenPhase2 D),
    [begin, certify, check, ack, finalize].Sublist trace ∧ begin.Begins phase3.keygenId phase1 ∧
    certify.CertifiesWith keypair phase3.keygenId phase1 phase2 ∧ check.Checks phase2 phase3 ∧
    ack.Acks symmKeygen deviceId phase3 phase4 ∧ finalize.Finalizes phase3.keygenId

/-- The user was asked to consolidate a backup, and has. -/
def Consolidated (trace : List (Entry D)) (phase4 : KeyGenPhase4 D) : Prop :=
  ∃ (before after : List (Entry D)) (e : Entry D) (phase : ConsolidatePhase),
    trace = before ++ e :: after ∧ Shown before (.restoration (.consolidateBackup phase)) ∧
    e.Consolidates symmKeygen phase phase4

variable {symmKeygen keypair deviceId} {trace : List (Entry D)} {e : Entry D}

theorem Begun.mono {keygenId : KeygenId} {phase1 : KeyGenPhase1 D}
    (h : Begun trace keygenId phase1) (he : ¬ e.Certifies keygenId) :
    Begun (trace ++ [e]) keygenId phase1 := by
  obtain ⟨before, after, begin, rfl, hbegins, hafter⟩ := h
  refine ⟨before, after ++ [e], begin, by simp, hbegins, fun other hother => ?_⟩
  rcases List.mem_append.1 hother with hother | hother
  · exact hafter other hother
  · rw [List.mem_singleton.1 hother]
    exact he

theorem Certified.mono {keygenId : KeygenId} {phase2 : KeyGenPhase2 D}
    (h : Certified keypair trace keygenId phase2) :
    Certified keypair (trace ++ [e]) keygenId phase2 := by
  obtain ⟨begin, certify, phase1, hsub, h⟩ := h
  exact ⟨begin, certify, phase1, hsub.trans (List.sublist_append_left _ _), h⟩

theorem Checked.mono {phase3 : KeyGenPhase3} (h : Checked keypair trace phase3) :
    Checked keypair (trace ++ [e]) phase3 := by
  obtain ⟨begin, certify, check, phase1, phase2, hsub, h⟩ := h
  exact ⟨begin, certify, check, phase1, phase2, hsub.trans (List.sublist_append_left _ _), h⟩

theorem Agreed.mono {phase3 : KeyGenPhase3} {phase4 : KeyGenPhase4 D}
    (h : Agreed symmKeygen keypair deviceId trace phase3 phase4) :
    Agreed symmKeygen keypair deviceId (trace ++ [e]) phase3 phase4 := by
  obtain ⟨begin, certify, check, ack, phase1, phase2, hsub, h⟩ := h
  exact ⟨begin, certify, check, ack, phase1, phase2,
    hsub.trans (List.sublist_append_left _ _), h⟩

theorem Finalized.mono {phase3 : KeyGenPhase3} {phase4 : KeyGenPhase4 D}
    (h : Finalized symmKeygen keypair deviceId trace phase3 phase4) :
    Finalized symmKeygen keypair deviceId (trace ++ [e]) phase3 phase4 := by
  obtain ⟨begin, certify, check, ack, finalize, phase1, phase2, hsub, h⟩ := h
  exact ⟨begin, certify, check, ack, finalize, phase1, phase2,
    hsub.trans (List.sublist_append_left _ _), h⟩

theorem Consolidated.mono {phase4 : KeyGenPhase4 D} (h : Consolidated symmKeygen trace phase4) :
    Consolidated symmKeygen (trace ++ [e]) phase4 := by
  obtain ⟨before, after, consolidate, phase, rfl, h⟩ := h
  exact ⟨before, after ++ [e], consolidate, phase, by simp, h⟩

/-- A certificate follows the `Begin` that it is for. -/
theorem Begun.certified {keygenId : KeygenId} {phase1 : KeyGenPhase1 D} {phase2 : KeyGenPhase2 D}
    (h : Begun trace keygenId phase1) (he : e.CertifiesWith keypair keygenId phase1 phase2) :
    Certified keypair (trace ++ [e]) keygenId phase2 := by
  obtain ⟨before, after, begin, rfl, hbegins, -⟩ := h
  refine ⟨begin, e, phase1, ?_, hbegins, he⟩
  have hbegin : [begin].Sublist (before ++ begin :: after) :=
    List.singleton_sublist.2 (List.mem_append_right _ List.mem_cons_self)
  exact hbegin.append (List.Sublist.refl [e])

theorem Certified.checked {phase2 : KeyGenPhase2 D} {phase3 : KeyGenPhase3}
    (h : Certified keypair trace phase3.keygenId phase2) (he : e.Checks phase2 phase3) :
    Checked keypair (trace ++ [e]) phase3 := by
  obtain ⟨begin, certify, phase1, hsub, hbegins, hcertifies⟩ := h
  exact ⟨begin, certify, e, phase1, phase2, hsub.append (List.Sublist.refl [e]), hbegins,
    hcertifies, he⟩

theorem Checked.agreed {phase3 : KeyGenPhase3} {phase4 : KeyGenPhase4 D}
    (h : Checked keypair trace phase3) (he : e.Acks symmKeygen deviceId phase3 phase4) :
    Agreed symmKeygen keypair deviceId (trace ++ [e]) phase3 phase4 := by
  obtain ⟨begin, certify, check, phase1, phase2, hsub, hbegins, hcertifies, hchecks⟩ := h
  exact ⟨begin, certify, check, e, phase1, phase2, hsub.append (List.Sublist.refl [e]), hbegins,
    hcertifies, hchecks, he⟩

theorem Agreed.finalized {phase3 : KeyGenPhase3} {phase4 : KeyGenPhase4 D}
    (h : Agreed symmKeygen keypair deviceId trace phase3 phase4)
    (he : e.Finalizes phase3.keygenId) :
    Finalized symmKeygen keypair deviceId (trace ++ [e]) phase3 phase4 := by
  obtain ⟨begin, certify, check, ack, phase1, phase2, hsub, hbegins, hcertifies, hchecks,
    hacks⟩ := h
  exact ⟨begin, certify, check, ack, e, phase1, phase2, hsub.append (List.Sublist.refl [e]),
    hbegins, hcertifies, hchecks, hacks, he⟩

/-- What a device has come to in a run. -/
structure History (symmKeygen : DeviceSecretDerivation) (s₀ s : Signer D S)
    (trace : List (Entry D)) : Prop where
  keypair : s.keypair = s₀.keypair
  deviceId : s.deviceId = s₀.deviceId
  begun : ∀ (keygenId : KeygenId) (phase1 : KeyGenPhase1 D),
    s.keygen.tmpKeygenPhase1[keygenId]? = some phase1 → Begun trace keygenId phase1
  certified : ∀ (keygenId : KeygenId) (phase2 : KeyGenPhase2 D),
    s.keygen.tmpKeygenPhase2[keygenId]? = some phase2 →
      Certified s₀.keypair trace keygenId phase2
  agreed : ∀ (keygenId : KeygenId) (sessionHash : SessionHash) (phase4 : KeyGenPhase4 D),
    s.keygen.tmpKeygenPendingFinalize[keygenId]? = some (sessionHash, phase4) →
      ∃ phase3 : KeyGenPhase3, phase3.keygenId = keygenId ∧
        Agreed symmKeygen s₀.keypair s₀.deviceId trace phase3 phase4
  shares : ∀ (ref : AccessStructureRef) (index : ShareIndex)
    (share : EncryptedSecretShare D.Cipher),
    s.keys.getEncryptedShare ref index = some share →
      s₀.keys.getEncryptedShare ref index = some share ∨
        ∃ phase4 : KeyGenPhase4 D, phase4.Saves ref index share ∧
          ((∃ phase3, Finalized symmKeygen s₀.keypair s₀.deviceId trace phase3 phase4) ∨
            Consolidated symmKeygen trace phase4)
  certifies : ∀ (before after : List (Entry D)) (e : Entry D) (keygenId : KeygenId),
    trace = before ++ e :: after → e.Certifies keygenId →
      ∃ phase1 phase2, Begun before keygenId phase1 ∧
        e.CertifiesWith s₀.keypair keygenId phase1 phase2
  shown : ∀ phase3, Shown trace (.checkKeyGen phase3) → Checked s₀.keypair trace phase3

theorem shown_append {m : DeviceToUserMessage D} :
    Shown (trace ++ [e]) m ↔ Shown trace m ∨ .toUser m ∈ e.sends.getD [] := by
  constructor
  · rintro ⟨entry, hentry, sends, hsends, hmem⟩
    rcases List.mem_append.1 hentry with hentry | hentry
    · exact .inl ⟨entry, hentry, sends, hsends, hmem⟩
    · rw [List.mem_singleton.1 hentry] at hsends
      rw [hsends]
      exact .inr hmem
  · rintro (⟨entry, hentry, h⟩ | h)
    · exact ⟨entry, List.mem_append_left _ hentry, h⟩
    · cases hsends : e.sends with
      | none =>
          rw [hsends] at h
          exact absurd h List.not_mem_nil
      | some sends =>
          rw [hsends] at h
          exact ⟨e, List.mem_append_right _ List.mem_cons_self, sends, hsends, h⟩

theorem History.start {s₀ : Signer D S} (hkeygen : s₀.keygen = KeygenState.clearTmpData D) :
    History symmKeygen s₀ s₀ ([] : List (Entry D)) := by
  have hempty {V : Type} {keygenId : KeygenId} {v : V} {m : BTreeMap KeygenId V} (hm : m = ∅)
      (h : m[keygenId]? = some v) : False := by
    subst hm
    exact absurd (Std.ExtTreeMap.getElem?_empty.symm.trans h) (Option.some_ne_none _).symm
  exact
    { keypair := rfl
      deviceId := rfl
      begun := fun keygenId phase1 h => (hempty (by rw [hkeygen]; rfl) h).elim
      certified := fun keygenId phase2 h => (hempty (by rw [hkeygen]; rfl) h).elim
      agreed := fun keygenId sessionHash phase4 h => (hempty (by rw [hkeygen]; rfl) h).elim
      shares := fun ref index share h => .inl h
      certifies := fun before after e keygenId h => absurd h.symm (by simp)
      shown := fun phase3 h => by
        obtain ⟨entry, hentry, -⟩ := h
        exact absurd hentry List.not_mem_nil }

/-- One step. -/
theorem History.step {s₀ s s' : Signer D S} (h : History symmKeygen s₀ s trace)
    (hop : e.op.Allowed trace) (hchange : KeyChange symmKeygen s s' e) :
    History symmKeygen s₀ s' (trace ++ [e]) where
  keypair := hchange.keypair.trans h.keypair
  deviceId := hchange.deviceId.trans h.deviceId
  begun keygenId phase1 hget := by
    rcases hchange.begun keygenId phase1 hget with ⟨hget, he⟩ | he
    · exact (h.begun keygenId phase1 hget).mono he
    · exact ⟨trace, [], e, rfl, he, fun _ hmem => absurd hmem List.not_mem_nil⟩
  certified keygenId phase2 hget := by
    rcases hchange.certified keygenId phase2 hget with hget | ⟨phase1, hphase1, he⟩
    · exact (h.certified keygenId phase2 hget).mono
    · exact (h.begun keygenId phase1 hphase1).certified (h.keypair ▸ he)
  agreed keygenId sessionHash phase4 hget := by
    rcases hchange.agreed keygenId sessionHash phase4 hget with hget | ⟨phase3, hid, he⟩
    · obtain ⟨phase3, hid, hagreed⟩ := h.agreed keygenId sessionHash phase4 hget
      exact ⟨phase3, hid, hagreed.mono⟩
    · have hshown : Shown trace (.checkKeyGen phase3) := by
        obtain ⟨rng, rfl, -⟩ := he
        exact hop
      exact ⟨phase3, hid, (h.shown phase3 hshown).agreed (h.deviceId ▸ he)⟩
  shares ref index share hget := by
    rcases hchange.shares ref index share hget with hget | ⟨phase4, hsaves, hfrom⟩
    · rcases h.shares ref index share hget with hheld | ⟨phase4, hsaves, hfrom⟩
      · exact .inl hheld
      · refine .inr ⟨phase4, hsaves, ?_⟩
        rcases hfrom with ⟨phase3, hfinalized⟩ | hconsolidated
        · exact .inl ⟨phase3, hfinalized.mono⟩
        · exact .inr hconsolidated.mono
    · refine .inr ⟨phase4, hsaves, ?_⟩
      rcases hfrom with ⟨keygenId, sessionHash, hpending, he⟩ | ⟨phase, he⟩
      · obtain ⟨phase3, rfl, hagreed⟩ := h.agreed keygenId sessionHash phase4 hpending
        exact .inl ⟨phase3, hagreed.finalized he⟩
      · have hshown : Shown trace (.restoration (.consolidateBackup phase)) := by
          obtain ⟨rng, rfl, -⟩ := he
          exact hop
        exact .inr ⟨trace, [], e, phase, rfl, hshown, he⟩
  certifies before after other keygenId htrace hcert := by
    rcases List.eq_nil_or_concat after with rfl | ⟨after, last, rfl⟩
    · obtain ⟨rfl, hlast⟩ := List.append_inj' htrace rfl
      obtain rfl : e = other := by simpa using hlast
      obtain ⟨phase1, phase2, hphase1, he⟩ := hchange.certifies keygenId hcert
      exact ⟨phase1, phase2, h.begun keygenId phase1 hphase1, h.keypair ▸ he⟩
    · have heq : trace ++ [e] = (before ++ other :: after) ++ [last] := by
        rw [htrace]
        simp
      exact h.certifies before after other keygenId (List.append_inj' heq rfl).1 hcert
  shown phase3 hshown := by
    rcases shown_append.1 hshown with hshown | hmem
    · exact (h.shown phase3 hshown).mono
    · obtain ⟨phase2, hphase2, he⟩ := hchange.shows phase3 hmem
      exact (h.certified phase3.keygenId phase2 hphase2).checked he

variable [NonceStreamSlot S SeedMaterial SignatureShare]

/-- A whole run. -/
theorem Reach.history {s₀ s : Signer D S} (hs₀ : Started s₀) (h : Reach symmKeygen s₀ s trace) :
    History symmKeygen s₀ s trace := by
  induction h with
  | start => exact .start hs₀.keygen
  | step h hop hstep ih => exact ih.step hop (Signer.step_keyStep hstep).keyChange

/-- Whatever the messages are and the user does, a certificate that a device sends is for the
contribution of a `Begin` that it accepted under the id, and no other certificate of the id is
between the two. A share that it comes to hold was saved by a `Finalize` after the user had agreed
to what that key generation came to, or is of a backup that the user has consolidated. -/
theorem Reach.certified_or_consolidated {s₀ s : Signer D S} (hs₀ : Started s₀)
    (h : Reach symmKeygen s₀ s trace) :
    (∀ (before after : List (Entry D)) (e : Entry D) (keygenId : KeygenId),
      trace = before ++ e :: after → e.Certifies keygenId →
        ∃ phase1 phase2, Begun before keygenId phase1 ∧
          e.CertifiesWith s₀.keypair keygenId phase1 phase2) ∧
    ∀ (ref : AccessStructureRef) (index : ShareIndex) (share : EncryptedSecretShare D.Cipher),
      s.keys.getEncryptedShare ref index = some share →
        s₀.keys.getEncryptedShare ref index = some share ∨
          ∃ phase4 : KeyGenPhase4 D, phase4.Saves ref index share ∧
            ((∃ phase3, Finalized symmKeygen s₀.keypair s₀.deviceId trace phase3 phase4) ∨
              Consolidated symmKeygen trace phase4) :=
  ⟨(h.history hs₀).certifies, (h.history hs₀).shares⟩

/-! ### Concrete runs -/

/-- A key generation of one device, with a threshold of one. -/
def soleBegin : Coordinator.Begin where
  devices := [1]
  threshold := 1
  keyName := "key"
  purpose := .test
  keygenId := 5
  coordinatorPublicKeys := [3]

/-- The share that comes out of it. -/
def soleShare : PlainDevice.ShareReceiver where
  certifier := { receiverKeys := [1], polynomial := [9], certificates := [] }
  index := BitVec.ofNat 256 (0 + 1)

/-- What its user is shown. -/
def solePhase : KeyGenPhase3 where
  keygenId := 5
  sessionHash := PlainLib.hashPoints [9]
  keyName := "key"
  keyPurpose := .test
  nReceivers := 1
  sharedKey := { pointPolynomial := [9] }
  secretShare := soleShare.share

/-- What happens on the device, up to the share being saved. -/
def soleOps : List (Op plainDeviceLib) :=
  [.recvCoordinatorMessage (.keyGen (.begin soleBegin)) (4 : ℕ) fun _ => 0,
   .recvCoordinatorMessage (.keyGen (.certifyPlease 5 [(9 : Point)])) (0 : ℕ) fun _ => 0,
   .recvCoordinatorMessage
     (.keyGen (.check 5 ((∅ : BTreeMap Point ℕ).insert 3 0 |>.insert 1 0))) (0 : ℕ) fun _ => 0,
   .keygenAck solePhase (0 : ℕ),
   .recvCoordinatorMessage (.keyGen (.finalize 5)) (0 : ℕ) fun _ => 0]

/-- What the user is asked about. -/
def Entry.asked (e : Entry D) : Option (KeyGenPhase3 ⊕ ConsolidatePhase) :=
  match e.sends with
  | some [.toUser (.checkKeyGen phase)] => some (.inl phase)
  | some [.toUser (.restoration (.consolidateBackup phase))] => some (.inr phase)
  | _ => none

theorem shown_of_asked (asked : KeyGenPhase3 ⊕ ConsolidatePhase) (he : e ∈ trace)
    (h : e.asked = some asked) :
    match asked with
    | .inl phase => Shown trace (.checkKeyGen phase)
    | .inr phase => Shown trace (.restoration (.consolidateBackup phase)) := by
  rw [Entry.asked] at h
  split at h
  · rename_i hsends
    obtain rfl := Option.some.inj h
    exact ⟨e, he, _, hsends, List.mem_cons_self⟩
  · rename_i hsends
    obtain rfl := Option.some.inj h
    exact ⟨e, he, _, hsends, List.mem_cons_self⟩
  · cases h

theorem soleOps_runs : (plainSigner 0).Runs plainDerivation [] soleOps := by
  refine ⟨trivial, by decide +kernel, trivial, by decide +kernel, trivial, by decide +kernel, ?_,
    by decide +kernel, trivial, by decide +kernel, trivial⟩
  exact shown_of_asked (.inl solePhase) (List.mem_append_right _ List.mem_cons_self)
    (by decide +kernel)

/-- The share that is held then, and where it comes from. -/
theorem certified_or_consolidated_sole :
    ∃ (s : Signer plainDeviceLib PlainSlot) (trace : List (Entry plainDeviceLib)),
      Started (plainSigner 0) ∧ Reach plainDerivation (plainSigner 0) s trace ∧
      (∃ keyData ∈ s.keys.values, ∃ data ∈ keyData.accessStructures.values,
        (1 : ShareIndex) ∈ data.shares) ∧
      (∀ (before after : List (Entry plainDeviceLib)) (e : Entry plainDeviceLib)
        (keygenId : KeygenId), trace = before ++ e :: after → e.Certifies keygenId →
          ∃ phase1 phase2, Begun before keygenId phase1 ∧
            e.CertifiesWith (plainSigner 0).keypair keygenId phase1 phase2) ∧
      ∀ (ref : AccessStructureRef) (index : ShareIndex)
        (share : EncryptedSecretShare plainDeviceLib.Cipher),
        s.keys.getEncryptedShare ref index = some share →
          (plainSigner 0).keys.getEncryptedShare ref index = some share ∨
            ∃ phase4 : KeyGenPhase4 plainDeviceLib, phase4.Saves ref index share ∧
              ((∃ phase3, Finalized plainDerivation (plainSigner 0).keypair
                (plainSigner 0).deviceId trace phase3 phase4) ∨
                Consolidated plainDerivation trace phase4) := by
  have hreach := Reach.start.runs soleOps_runs
  exact ⟨_, _, plainSigner_started 0, hreach, by decide +kernel,
    Reach.certified_or_consolidated (plainSigner_started 0) hreach⟩

/-- A share that is to be consolidated. -/
def backupPhase : ConsolidatePhase where
  completeShare :=
    { accessStructureRef :=
        AccessStructureRef.fromRootSharedKey plainLib { pointPolynomial := [9] }
      keyName := "key"
      purpose := .test
      threshold := 1
      secretShare := { index := 1, share := 9 } }
  coordContrib := CoordShareDecryptionContrib.forMasterShare plainLib 1 1
    { pointPolynomial := [9] }

/-- A backup of it is entered and consolidated. -/
def backupOps : List (Op plainDeviceLib) :=
  [.recvCoordinatorMessage (.restoration (.enterPhysicalBackup 0)) (0 : ℕ) fun _ => 0,
   .backupEntered { enterPhysicalId := 0 } ({ index := 1, share := 9 } : SecretShare),
   .recvCoordinatorMessage (.restoration (.consolidate
     { shareIndex := 1
       rootSharedKey := { pointPolynomial := [9] }
       keyName := "key"
       purpose := .test })) (0 : ℕ) fun _ => 0,
   .finishConsolidation backupPhase (0 : ℕ)]

theorem backupOps_runs : (plainSigner 0).Runs plainDerivation [] backupOps := by
  refine ⟨trivial, by decide +kernel, ?_, by decide +kernel, trivial, by decide +kernel, ?_,
    by decide +kernel, trivial⟩
  · exact ⟨_, List.mem_cons_self, _, rfl, List.mem_cons_self⟩
  · exact shown_of_asked (.inr backupPhase)
      (List.mem_append_right _ List.mem_cons_self) (by decide +kernel)

/-- The share of a backup is held then, and the user has agreed to no key generation. -/
theorem consolidated_without_keygen :
    ¬ ∀ (s₀ s : Signer plainDeviceLib PlainSlot) (trace : List (Entry plainDeviceLib)),
      Started s₀ → Reach plainDerivation s₀ s trace →
      ∀ (ref : AccessStructureRef) (index : ShareIndex)
        (share : EncryptedSecretShare plainDeviceLib.Cipher),
        s.keys.getEncryptedShare ref index = some share →
          s₀.keys.getEncryptedShare ref index = some share ∨
            ∃ phase4 : KeyGenPhase4 plainDeviceLib, phase4.Saves ref index share ∧
              ∃ phase3, Finalized plainDerivation s₀.keypair s₀.deviceId trace phase3 phase4 := by
  intro h
  have hreach := Reach.start.runs backupOps_runs
  have hheld : ((backupOps.foldl (Signer.after plainDerivation)
      (plainSigner 0)).keys.getEncryptedShare
        backupPhase.completeShare.accessStructureRef 1).isSome := by decide +kernel
  have hbefore : (plainSigner 0).keys.getEncryptedShare
      backupPhase.completeShare.accessStructureRef 1 = none := rfl
  obtain ⟨share, hshare⟩ := Option.isSome_iff_exists.1 hheld
  rcases h _ _ _ (plainSigner_started 0) hreach _ _ _ hshare with hstart | ⟨phase4, -, phase3,
    begin, certify, check, ack, finalize, phase1, phase2, hsub, -⟩
  · rw [hbefore] at hstart
    cases hstart
  · -- four things have happened, and a key generation takes five
    exact absurd hsub.length_le (show ¬ 5 ≤ 4 by decide)

end Runs

end Device

end Frostsnap
