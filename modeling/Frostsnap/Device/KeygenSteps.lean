import Frostsnap.Device.Steps

/-!
# What a step does to keys

One lemma for each message of a key generation says everything that handling it can do, and one
says of everything else that it leaves keys and key generations alone. `Signer.step_keyStep` puts
them together: `KeyStep` has a case for each of the five steps of a key generation, which are named
by what the device was sent and has answered (`Entry.Begins` and so on). What is proved about runs
uses it and not the handlers.
-/

namespace Frostsnap

namespace Device

attribute [local instance] Build.release

variable {L : FrostLib} {D : DeviceLib L} {S : Type} {s s' : Signer D S} {kind : String}
  {r : Except Error (List (DeviceSend D))}

/-- What is sent about a key generation: an answer to the coordinator, or the check by the user. -/
def DeviceSend.AboutKeygen : DeviceSend D → Prop
  | .toCoordinator (.keyGen _) => True
  | .toUser (.checkKeyGen _) => True
  | _ => False

/-- Nothing that is sent is about a key generation. -/
def Quiet (sends : Option (List (DeviceSend D))) : Prop :=
  ∀ send ∈ sends.getD [], ¬ send.AboutKeygen

theorem quiet_none : Quiet (none : Option (List (DeviceSend D))) :=
  fun _ h => absurd h List.not_mem_nil

theorem quiet_some_nil : Quiet (some [] : Option (List (DeviceSend D))) :=
  fun _ h => absurd h List.not_mem_nil

theorem quiet_some_cons {send : DeviceSend D} {sends : List (DeviceSend D)}
    (hsend : ¬ send.AboutKeygen) (h : Quiet (some sends)) : Quiet (some (send :: sends)) := by
  intro other hother
  rcases List.mem_cons.1 hother with rfl | hother
  · exact hsend
  · exact h other hother

/-- A share of a key is staged to be written. -/
def Signer.StagesShare (s : Signer D S) (m : SaveShareMutation D.Cipher) : Prop :=
  .keygen (.saveShare m) ∈ s.mutations

/-- Nothing has happened to keys, and nothing was said about a key generation. -/
structure SameKeys (s s' : Signer D S) (sends : Option (List (DeviceSend D))) : Prop where
  keypair : s'.keypair = s.keypair
  deviceId : s'.deviceId = s.deviceId
  keygen : s'.keygen = s.keygen
  keys : s'.keys = s.keys
  staged : ∀ m, s'.StagesShare m → s.StagesShare m
  quiet : Quiet sends

/-- Nor has anything happened to nonces. -/
structure Untouched (s s' : Signer D S) (sends : Option (List (DeviceSend D))) : Prop
    extends SameKeys s s' sends where
  nonceSlots : s'.nonceSlots = s.nonceSlots

theorem Untouched.refuse (s : Signer D S) : Untouched s s none :=
  ⟨⟨rfl, rfl, rfl, rfl, fun _ => id, quiet_none⟩, rfl⟩

/-- What is sent about backups. -/
def DeviceSend.AboutBackups : DeviceSend D → Prop
  | .toUser (.restoration _) => True
  | .toCoordinator (.restoration _) => True
  | _ => False

/-- An answer to a message about backups. -/
structure Restores (s s' : Signer D S) (r : Except Error (List (DeviceSend D))) : Prop where
  keypair : s'.keypair = s.keypair
  deviceId : s'.deviceId = s.deviceId
  keygen : s'.keygen = s.keygen
  keys : s'.keys = s.keys
  staged : ∀ m, s'.StagesShare m → s.StagesShare m
  nonceSlots : s'.nonceSlots = s.nonceSlots
  aboutBackups : ∀ send ∈ (sent r).getD [], send.AboutBackups

theorem DeviceSend.AboutBackups.not_aboutKeygen {send : DeviceSend D} (h : send.AboutBackups) :
    ¬ send.AboutKeygen := by
  cases send with
  | toUser m => cases m <;> first | exact id | exact h.elim
  | toCoordinator m => cases m <;> first | exact id | exact h.elim

theorem Restores.untouched (h : Restores s s' r) : Untouched s s' (sent r) where
  keypair := h.keypair
  deviceId := h.deviceId
  keygen := h.keygen
  keys := h.keys
  staged := h.staged
  quiet send hsend := (h.aboutBackups send hsend).not_aboutKeygen
  nonceSlots := h.nonceSlots

namespace Signer

theorem refuse_eq_ret {reason : String} (h : s.refuse kind reason = .ret (r, s')) :
    r = .error (signerInvalidMessage kind reason) ∧ s' = s := by
  cases h
  exact ⟨rfl, rfl⟩

/-! ### Messages of a key generation -/

/-- A contribution is made with a state that is kept, or nothing happens. -/
theorem keygenBegin_cases {begin : Coordinator.Begin} {rng : L.Rng}
    (h : s.keygenBegin begin kind rng = .ret (r, s')) :
    (∃ e, r = .error e ∧ s' = s) ∨
      ∃ (inputState : D.Contributor) (input : L.KeygenInput) (receiverKeys : List Point)
        (mySlot : ℕ),
        D.genKeygenInput begin.threshold begin.coordinatorPublicKeys receiverKeys mySlot rng =
          .ok (inputState, input) ∧
        r = .ok [.toCoordinator (.keyGen (.response begin.keygenId input))] ∧
        s' = { s with
          keygen.tmpKeygenPhase1 := s.keygen.tmpKeygenPhase1.insert begin.keygenId
            { inputState := inputState
              threshold := begin.threshold
              keyName := begin.keyName
              keyPurpose := begin.purpose } } := by
  rw [keygenBegin] at h
  split at h
  · obtain ⟨rfl, rfl⟩ := refuse_eq_ret h
    exact .inl ⟨_, rfl, rfl⟩
  · rename_i mySlot _
    obtain ⟨receiverKeys, -, h⟩ := Exec.bind_eq_ret_iff.1 h
    split at h
    · obtain ⟨rfl, rfl⟩ := refuse_eq_ret h
      exact .inl ⟨_, rfl, rfl⟩
    · rename_i inputState input hgen
      cases h
      exact .inr ⟨inputState, input, receiverKeys, _, hgen, rfl, rfl⟩

/-- The state of a contribution is used up, and a certificate is given for it if it is good. -/
theorem keygenCertifyPlease_cases {keygenId : KeygenId} {aggInput : L.AggKeygenInput}
    (h : s.keygenCertifyPlease keygenId aggInput kind = .ret (r, s')) :
    (∃ e, r = .error e ∧ (s' = s ∨ s' = { s with
      keygen.tmpKeygenPhase1 := s.keygen.tmpKeygenPhase1.erase keygenId })) ∨
      ∃ (phase1 : KeyGenPhase1 D) (shareReceiver : D.SecretShareReceiver)
        (vrfCert : L.CertVrfProof),
        s.keygen.tmpKeygenPhase1[keygenId]? = some phase1 ∧
        D.verifyAggInput phase1.inputState aggInput s.keypair = .ok (shareReceiver, vrfCert) ∧
        r = .ok [.toCoordinator (.keyGen (.certify keygenId vrfCert))] ∧
        s' = { s with
          keygen.tmpKeygenPhase1 := s.keygen.tmpKeygenPhase1.erase keygenId
          keygen.tmpKeygenPhase2 := s.keygen.tmpKeygenPhase2.insert keygenId
            { keygenId := keygenId
              shareReceiver := shareReceiver
              keyName := phase1.keyName
              keyPurpose := phase1.keyPurpose } } := by
  rw [keygenCertifyPlease] at h
  split at h
  · obtain ⟨rfl, rfl⟩ := refuse_eq_ret h
    exact .inl ⟨_, rfl, .inl rfl⟩
  · rename_i phase1 hphase1
    dsimp only at h
    split at h
    · obtain ⟨rfl, rfl⟩ := refuse_eq_ret h
      exact .inl ⟨_, rfl, .inr rfl⟩
    · rename_i shareReceiver vrfCert hverify
      split at h
      · obtain ⟨rfl, rfl⟩ := refuse_eq_ret h
        exact .inl ⟨_, rfl, .inr rfl⟩
      · cases h
        exact .inr ⟨phase1, shareReceiver, vrfCert, hphase1, hverify, rfl, rfl⟩

/-- A certified key generation is shown once. -/
theorem keygenCheck_cases {keygenId : KeygenId} {certificate : BTreeMap Point L.CertVrfProof}
    (h : s.keygenCheck keygenId certificate kind = .ret (r, s')) :
    (∃ e, r = .error e ∧ (s' = s ∨ s' = { s with
      keygen.tmpKeygenPhase2 := s.keygen.tmpKeygenPhase2.erase keygenId })) ∨
      ∃ (phase2 : KeyGenPhase2 D) (certifiedKeygen : L.CertifiedKeygen)
        (secretShare : PairedSecretShare),
        s.keygen.tmpKeygenPhase2[keygenId]? = some phase2 ∧
        D.finalize phase2.shareReceiver certificate = .ok (certifiedKeygen, secretShare) ∧
        r = .ok [.toUser (.checkKeyGen
          { keygenId := keygenId
            sessionHash := L.sessionHash certifiedKeygen
            keyName := phase2.keyName
            keyPurpose := phase2.keyPurpose
            nReceivers := L.nReceivers certifiedKeygen
            sharedKey := L.sharedKeyOfKeygen certifiedKeygen
            secretShare := secretShare })] ∧
        s' = { s with
          keygen.tmpKeygenPhase2 := s.keygen.tmpKeygenPhase2.erase keygenId } := by
  rw [keygenCheck] at h
  split at h
  · obtain ⟨rfl, rfl⟩ := refuse_eq_ret h
    exact .inl ⟨_, rfl, .inl rfl⟩
  · rename_i phase2 hphase2
    dsimp only at h
    split at h
    · obtain ⟨rfl, rfl⟩ := refuse_eq_ret h
      exact .inl ⟨_, rfl, .inr rfl⟩
    · rename_i certifiedKeygen secretShare hfinalize
      obtain ⟨-, -, h⟩ := Exec.bind_eq_ret_iff.1 h
      cases h
      exact .inr ⟨phase2, certifiedKeygen, secretShare, hphase2, hfinalize, rfl, rfl⟩

/-- A share that was agreed to is saved once. -/
theorem keygenFinalize_cases {keygenId : KeygenId}
    (h : s.keygenFinalize keygenId kind = .ret (r, s')) :
    (∃ e, r = .error e ∧ s' = s) ∨
      ∃ (sessionHash : SessionHash) (phase4 : KeyGenPhase4 D),
        s.keygen.tmpKeygenPendingFinalize[keygenId]? = some (sessionHash, phase4) ∧
        r = .ok [.toUser (.finalizeKeyGen phase4.keyName)] ∧
        s' = ({ s with
          keygen.tmpKeygenPendingFinalize :=
            s.keygen.tmpKeygenPendingFinalize.erase keygenId } : Signer D S).saveCompleteShare
              phase4 := by
  rw [keygenFinalize] at h
  split at h
  · obtain ⟨rfl, rfl⟩ := refuse_eq_ret h
    exact .inl ⟨_, rfl, rfl⟩
  · rename_i sessionHash phase4 hpending
    cases h
    exact .inr ⟨sessionHash, phase4, hpending, rfl, rfl⟩

/-- The share of a phase, as it is saved. -/
def pendingFinalize (D : DeviceLib L) (deviceId : DeviceId) (phase : KeyGenPhase3)
    (symmKeygen : DeviceSecretDerivation) (rng : L.Rng) : KeyGenPhase4 D :=
  let rootSharedKey := Xpub.fromRootkey phase.sharedKey
  let appSharedKey := rootSharedKey.rootkeyToMasterAppkey L
  let ref : AccessStructureRef :=
    { keyId := keyIdFromRootkey L phase.secretShare.publicKey
      accessStructureId := L.accessStructureIdOfAppPoly appSharedKey.key.pointPolynomial }
  { keyName := phase.keyName
    keyPurpose := phase.keyPurpose
    accessStructureRef := ref
    accessStructureKind := .master
    encryptedSecretShare :=
      encryptShare D phase.secretShare.secretShare ref
        (CoordShareDecryptionContrib.forMasterShare L deviceId phase.secretShare.secretShare.index
          phase.sharedKey) symmKeygen rng
    threshold := appSharedKey.key.threshold }

/-- A share that the user agrees to waits to be finalized. -/
theorem keygenAck_eq_ret {phase : KeyGenPhase3} {symmKeygen : DeviceSecretDerivation}
    {rng : L.Rng} {r : Except ActionError (Coordinator.DeviceToCoordinatorMessage L)}
    (h : s.keygenAck phase symmKeygen rng = .ret (r, s')) :
    r = .ok (.keyGen (.ack phase.keygenId phase.sessionHash)) ∧
      s' = { s with
        keygen.tmpKeygenPendingFinalize :=
          s.keygen.tmpKeygenPendingFinalize.insert phase.keygenId
            (phase.sessionHash, pendingFinalize D s.deviceId phase symmKeygen rng) } := by
  rw [keygenAck] at h
  obtain ⟨-, -, h⟩ := Exec.bind_eq_ret_iff.1 h
  cases h
  exact ⟨rfl, rfl⟩

/-! ### Everything else -/

/-- The keys after a share is saved. -/
theorem saveCompleteShare_keys (phase : KeyGenPhase4 D) :
    (s.saveCompleteShare phase).keys =
      ((s.keys.newKey phase.accessStructureRef.keyId phase.keyName
        phase.keyPurpose).newAccessStructure phase.accessStructureRef phase.threshold
          phase.accessStructureKind).saveShare
        { accessStructureRef := phase.accessStructureRef
          encryptedSecretShare := phase.encryptedSecretShare } :=
  rfl

/-- Telling the user of something else than a key generation. -/
theorem tellUser_untouched {m : DeviceToUserMessage D} (hm : ¬ (DeviceSend.toUser m).AboutKeygen)
    (h : s.tellUser m = .ret (r, s')) : Untouched s s' (sent r) := by
  cases h
  exact ⟨⟨rfl, rfl, rfl, rfl, fun _ => id, quiet_some_cons hm quiet_some_nil⟩, rfl⟩

theorem refuse_untouched {reason : String} (h : s.refuse kind reason = .ret (r, s')) :
    Untouched s s' (sent r) := by
  cases h
  exact .refuse s

/-! ### Messages about backups -/

theorem restores_refuse (s : Signer D S) (kind reason : String) :
    ∃ r s', s.refuse kind reason = .ret (r, s') ∧ Restores s s' r :=
  ⟨_, _, rfl, rfl, rfl, rfl, rfl, fun _ => id, rfl, fun _ h => absurd h List.not_mem_nil⟩

theorem restores_tellUser (s : Signer D S) (m : ToUserRestoration D) :
    ∃ r s', s.tellUser (.restoration m) = .ret (r, s') ∧ Restores s s' r := by
  refine ⟨_, _, rfl, rfl, rfl, rfl, rfl, fun _ => id, rfl, fun send h => ?_⟩
  rw [List.mem_singleton.1 h]
  trivial

theorem savePhysicalBackup2_restores (s : Signer D S) (heldShare : HeldShare2) (kind : String) :
    ∃ r s', s.savePhysicalBackup2 heldShare kind = .ret (r, s') ∧ Restores s s' r := by
  rw [savePhysicalBackup2]
  split
  · exact restores_refuse s _ _
  · refine ⟨_, _, rfl, rfl, rfl, rfl, rfl, fun m hm => ?_, rfl, fun send h => ?_⟩
    · -- what is staged is the backup
      rcases List.mem_append.1 hm with hm | hm
      · exact hm
      · cases List.mem_singleton.1 hm
    rcases List.mem_cons.1 h with rfl | h
    · trivial
    · rw [List.mem_singleton.1 h]
      trivial

/-- A message about backups is answered with messages about backups, and leaves keys alone. -/
theorem recvRestorationMessage_restores (s : Signer D S) (m : CoordinatorRestoration) :
    ∃ r s', s.recvRestorationMessage m = .ret (r, s') ∧ Restores s s' r := by
  cases m with
  | enterPhysicalBackup enterPhysicalId => exact restores_tellUser s _
  | savePhysicalBackup shareImage keyName purpose threshold =>
      exact savePhysicalBackup2_restores s _ _
  | savePhysicalBackup2 heldShare => exact savePhysicalBackup2_restores s _ _
  | consolidate consolidate =>
      rw [recvRestorationMessage, Signer.consolidate]
      dsimp only
      split
      · split
        · exact restores_refuse s _ _
        · split
          · exact restores_refuse s _ _
          · exact restores_tellUser s _
      · split
        · exact restores_refuse s _ _
        · refine ⟨_, _, rfl, rfl, rfl, rfl, rfl, fun _ => id, rfl, fun send h => ?_⟩
          rw [List.mem_singleton.1 h]
          trivial
  | displayBackup ref contrib shareIndex rootSharedKey =>
      rw [recvRestorationMessage]
      split
      · exact restores_refuse s _ _
      · exact restores_tellUser s _
  | checkBackup contrib shareIndex rootSharedKey =>
      rw [recvRestorationMessage]
      split
      · exact restores_refuse s _ _
      · exact restores_tellUser s _
  | requestHeldShares =>
      refine ⟨_, _, rfl, rfl, rfl, rfl, rfl, fun _ => id, rfl, fun send h => ?_⟩
      rw [List.mem_singleton.1 h]
      trivial

theorem recvRestorationMessage_untouched {m : CoordinatorRestoration}
    (h : s.recvRestorationMessage m = .ret (r, s')) : Untouched s s' (sent r) := by
  obtain ⟨r', t, hrecv, hrestores⟩ := s.recvRestorationMessage_restores m
  obtain ⟨rfl, rfl⟩ := Prod.mk.inj (Exec.ret.inj (hrecv.symm.trans h))
  exact hrestores.untouched

/-! ### Addresses and signing -/

theorem recvVerifyAddress_untouched {masterAppkey : MasterAppkey} {derivationIndex : NormalIndex}
    (h : s.recvVerifyAddress masterAppkey derivationIndex = .ret (r, s')) :
    Untouched s s' (sent r) := by
  rw [recvVerifyAddress] at h
  dsimp only at h
  split at h
  · exact refuse_untouched h
  · obtain ⟨network, -, h⟩ := Exec.bind_eq_ret_iff.1 h
    obtain ⟨address, -, h⟩ := Exec.bind_eq_ret_iff.1 h
    exact tellUser_untouched id h

section Signing

variable [NonceStreamSlot S SeedMaterial SignatureShare]

/-- Messages about signing leave keys alone. -/
theorem recvOpenNonceStreams_sameKeys {streams : List CoordNonceStreamState}
    {seeds : ℕ → SeedMaterial} (h : s.recvOpenNonceStreams streams seeds = .ret (r, s')) :
    SameKeys s s' (sent r) := by
  rw [recvOpenNonceStreams] at h
  obtain ⟨⟨nonceSlots, reply⟩, -, h⟩ := Exec.bind_eq_ret_iff.1 h
  cases reply with
  | nonceResponse segments =>
      cases h
      exact ⟨rfl, rfl, rfl, rfl, fun _ => id, quiet_some_cons id quiet_some_nil⟩
  | nonceJobs batch =>
      cases h
      exact ⟨rfl, rfl, rfl, rfl, fun _ => id, quiet_some_cons id quiet_some_nil⟩

theorem recvRequestSign_untouched {requestSign : RequestSign}
    (h : s.recvRequestSign requestSign = .ret (r, s')) : Untouched s s' (sent r) := by
  rw [recvRequestSign] at h
  obtain ⟨checked, -, h⟩ := Exec.bind_eq_ret_iff.1 h
  cases checked with
  | error e => exact refuse_untouched h
  | ok phase => exact tellUser_untouched id h

/-- Signing leaves keys alone. -/
theorem signAck_sameKeys {phase : SignPhase1 D} {symmKeygen : DeviceSecretDerivation}
    {r : Except ActionError (List (DeviceSend D))}
    (h : s.signAck phase symmKeygen = .ret (r, s')) : SameKeys s s' (sent r) := by
  rw [signAck] at h
  dsimp only at h
  split at h
  · cases h
    exact (Untouched.refuse s).toSameKeys
  · obtain ⟨signed, -, h⟩ := Exec.bind_eq_ret_iff.1 h
    cases signed with
    | error e =>
        cases h
        exact (Untouched.refuse s).toSameKeys
    | ok out =>
        obtain ⟨⟨signatureShares, replenishTask⟩, nonceSlots⟩ := out
        obtain ⟨replenishNonces, -, h⟩ := Exec.bind_eq_ret_iff.1 h
        cases h
        exact ⟨rfl, rfl, rfl, rfl, fun _ => id, quiet_some_cons id quiet_some_nil⟩

end Signing

end Signer

/-! ### The steps of a key generation -/

namespace Entry

/-- A `Begin` for `keygenId` is answered with a contribution, which leaves `phase1`. -/
def Begins (e : Entry D) (keygenId : KeygenId) (phase1 : KeyGenPhase1 D) : Prop :=
  ∃ (begin : Coordinator.Begin) (rng : L.Rng) (seeds : ℕ → SeedMaterial)
    (receiverKeys : List Point) (mySlot : ℕ) (input : L.KeygenInput),
    e = { op := .recvCoordinatorMessage (.keyGen (.begin begin)) rng seeds
          sends := some [.toCoordinator (.keyGen (.response keygenId input))] } ∧
    begin.keygenId = keygenId ∧
    D.genKeygenInput begin.threshold begin.coordinatorPublicKeys receiverKeys mySlot rng =
      .ok (phase1.inputState, input) ∧
    phase1.threshold = begin.threshold ∧ phase1.keyName = begin.keyName ∧
    phase1.keyPurpose = begin.purpose

/-- A certificate for `keygenId` is sent. -/
def Certifies (e : Entry D) (keygenId : KeygenId) : Prop :=
  ∃ vrfCert, .toCoordinator (.keyGen (.certify keygenId vrfCert)) ∈ e.sends.getD []

/-- An aggregate input is certified, as it has the contribution of `phase1` in it. -/
def CertifiesWith (keypair : L.KeyPair) (e : Entry D) (keygenId : KeygenId)
    (phase1 : KeyGenPhase1 D) (phase2 : KeyGenPhase2 D) : Prop :=
  ∃ (aggInput : L.AggKeygenInput) (rng : L.Rng) (seeds : ℕ → SeedMaterial)
    (vrfCert : L.CertVrfProof),
    e = { op := .recvCoordinatorMessage (.keyGen (.certifyPlease keygenId aggInput)) rng seeds
          sends := some [.toCoordinator (.keyGen (.certify keygenId vrfCert))] } ∧
    D.verifyAggInput phase1.inputState aggInput keypair = .ok (phase2.shareReceiver, vrfCert) ∧
    phase2.keyName = phase1.keyName ∧ phase2.keyPurpose = phase1.keyPurpose

/-- The user is shown the session hash of what was certified, and the device has the share that it
came to with it. -/
def Checks (e : Entry D) (phase2 : KeyGenPhase2 D) (phase3 : KeyGenPhase3) : Prop :=
  ∃ (certificate : BTreeMap Point L.CertVrfProof) (rng : L.Rng) (seeds : ℕ → SeedMaterial)
    (certifiedKeygen : L.CertifiedKeygen),
    e = { op := .recvCoordinatorMessage (.keyGen (.check phase3.keygenId certificate)) rng seeds
          sends := some [.toUser (.checkKeyGen phase3)] } ∧
    D.finalize phase2.shareReceiver certificate = .ok (certifiedKeygen, phase3.secretShare) ∧
    phase3.sessionHash = L.sessionHash certifiedKeygen ∧
    phase3.sharedKey = L.sharedKeyOfKeygen certifiedKeygen ∧
    phase3.keyName = phase2.keyName ∧ phase3.keyPurpose = phase2.keyPurpose

/-- The user agrees to what was shown, and the coordinator is told the session hash. `phase4` is
the share, encrypted. -/
def Acks (symmKeygen : DeviceSecretDerivation) (deviceId : DeviceId) (e : Entry D)
    (phase3 : KeyGenPhase3) (phase4 : KeyGenPhase4 D) : Prop :=
  ∃ rng : L.Rng,
    e = { op := .keygenAck phase3 rng
          sends := some
            [.toCoordinator (.keyGen (.ack phase3.keygenId phase3.sessionHash))] } ∧
    phase4 = Signer.pendingFinalize D deviceId phase3 symmKeygen rng

/-- A `Finalize` for `keygenId` is accepted. -/
def Finalizes (e : Entry D) (keygenId : KeygenId) : Prop :=
  ∃ (rng : L.Rng) (seeds : ℕ → SeedMaterial) (keyName : String),
    e = { op := .recvCoordinatorMessage (.keyGen (.finalize keygenId)) rng seeds
          sends := some [.toUser (.finalizeKeyGen keyName)] }

/-- The user has consolidated a backup; `phase4` is its share, encrypted. -/
def Consolidates (symmKeygen : DeviceSecretDerivation) (e : Entry D) (phase : ConsolidatePhase)
    (phase4 : KeyGenPhase4 D) : Prop :=
  ∃ rng : L.Rng,
    e = { op := .finishConsolidation phase rng
          sends := some [.toCoordinator (.restoration (.finishedConsolidation
            phase.completeShare.accessStructureRef phase.completeShare.secretShare.index))] } ∧
    phase4.accessStructureRef = phase.completeShare.accessStructureRef ∧
    phase4.encryptedSecretShare =
      encryptShare D phase.completeShare.secretShare phase.completeShare.accessStructureRef
        phase.coordContrib symmKeygen rng

end Entry

/-! ### What a step does -/

/-- Key generations may be forgotten; nothing else happens to them or to keys. -/
structure Forgets (s s' : Signer D S) (sends : Option (List (DeviceSend D))) : Prop where
  keypair : s'.keypair = s.keypair
  deviceId : s'.deviceId = s.deviceId
  phase1 : ∀ (keygenId : KeygenId) (phase1 : KeyGenPhase1 D),
    s'.keygen.tmpKeygenPhase1[keygenId]? = some phase1 →
      s.keygen.tmpKeygenPhase1[keygenId]? = some phase1
  phase2 : ∀ (keygenId : KeygenId) (phase2 : KeyGenPhase2 D),
    s'.keygen.tmpKeygenPhase2[keygenId]? = some phase2 →
      s.keygen.tmpKeygenPhase2[keygenId]? = some phase2
  pending : ∀ (keygenId : KeygenId) (pending : SessionHash × KeyGenPhase4 D),
    s'.keygen.tmpKeygenPendingFinalize[keygenId]? = some pending →
      s.keygen.tmpKeygenPendingFinalize[keygenId]? = some pending
  keys : s'.keys = s.keys
  staged : ∀ m, s'.StagesShare m → s.StagesShare m
  quiet : Quiet sends

theorem SameKeys.forgets {s s' : Signer D S} {sends : Option (List (DeviceSend D))}
    (h : SameKeys s s' sends) : Forgets s s' sends where
  keypair := h.keypair
  deviceId := h.deviceId
  phase1 _ _ := h.keygen ▸ id
  phase2 _ _ := h.keygen ▸ id
  pending _ _ := h.keygen ▸ id
  keys := h.keys
  staged := h.staged
  quiet := h.quiet

/-- What a step can do to keys and key generations. -/
inductive KeyStep (symmKeygen : DeviceSecretDerivation) (s s' : Signer D S) (e : Entry D) : Prop
  | forgets (h : Forgets s s' e.sends)
  | begins (keygenId : KeygenId) (phase1 : KeyGenPhase1 D) (he : e.Begins keygenId phase1)
      (hs' : s' = { s with
        keygen.tmpKeygenPhase1 := s.keygen.tmpKeygenPhase1.insert keygenId phase1 })
  | certifies (keygenId : KeygenId) (phase1 : KeyGenPhase1 D) (phase2 : KeyGenPhase2 D)
      (hphase1 : s.keygen.tmpKeygenPhase1[keygenId]? = some phase1)
      (he : e.CertifiesWith s.keypair keygenId phase1 phase2)
      (hs' : s' = { s with
        keygen.tmpKeygenPhase1 := s.keygen.tmpKeygenPhase1.erase keygenId
        keygen.tmpKeygenPhase2 := s.keygen.tmpKeygenPhase2.insert keygenId phase2 })
  | checks (phase2 : KeyGenPhase2 D) (phase3 : KeyGenPhase3)
      (hphase2 : s.keygen.tmpKeygenPhase2[phase3.keygenId]? = some phase2)
      (he : e.Checks phase2 phase3)
      (hs' : s' = { s with
        keygen.tmpKeygenPhase2 := s.keygen.tmpKeygenPhase2.erase phase3.keygenId })
  | acks (phase3 : KeyGenPhase3) (phase4 : KeyGenPhase4 D)
      (he : e.Acks symmKeygen s.deviceId phase3 phase4)
      (hs' : s' = { s with
        keygen.tmpKeygenPendingFinalize :=
          s.keygen.tmpKeygenPendingFinalize.insert phase3.keygenId (phase3.sessionHash, phase4) })
  | finalizes (keygenId : KeygenId) (sessionHash : SessionHash) (phase4 : KeyGenPhase4 D)
      (hpending : s.keygen.tmpKeygenPendingFinalize[keygenId]? = some (sessionHash, phase4))
      (he : e.Finalizes keygenId)
      (hs' : s' = ({ s with
        keygen.tmpKeygenPendingFinalize :=
          s.keygen.tmpKeygenPendingFinalize.erase keygenId } : Signer D S).saveCompleteShare
            phase4)
  | consolidates (phase : ConsolidatePhase) (phase4 : KeyGenPhase4 D)
      (he : e.Consolidates symmKeygen phase phase4)
      (hs' : s' = s.saveCompleteShare phase4)

variable {symmKeygen : DeviceSecretDerivation}

/-- Refusing a message forgets nothing. -/
theorem Forgets.refuse (s : Signer D S) : Forgets s s none :=
  (Untouched.refuse s).toSameKeys.forgets

namespace Signer

theorem keygenBegin_keyStep {begin : Coordinator.Begin} {rng : L.Rng} {seeds : ℕ → SeedMaterial}
    {kind : String} {r : Except Error (List (DeviceSend D))}
    (h : s.keygenBegin begin kind rng = .ret (r, s')) :
    KeyStep symmKeygen s s'
      { op := .recvCoordinatorMessage (.keyGen (.begin begin)) rng seeds, sends := sent r } := by
  rcases keygenBegin_cases h with ⟨e, rfl, rfl⟩ | ⟨inputState, input, receiverKeys, mySlot, hgen,
    rfl, rfl⟩
  · exact .forgets (.refuse s')
  · exact .begins begin.keygenId _
      ⟨begin, rng, seeds, receiverKeys, mySlot, input, rfl, rfl, hgen, rfl, rfl, rfl⟩ rfl

theorem keygenCertifyPlease_keyStep {keygenId : KeygenId} {aggInput : L.AggKeygenInput}
    {rng : L.Rng} {seeds : ℕ → SeedMaterial} {kind : String}
    {r : Except Error (List (DeviceSend D))}
    (h : s.keygenCertifyPlease keygenId aggInput kind = .ret (r, s')) :
    KeyStep symmKeygen s s'
      { op := .recvCoordinatorMessage (.keyGen (.certifyPlease keygenId aggInput)) rng seeds
        sends := sent r } := by
  rcases keygenCertifyPlease_cases h with ⟨e, rfl, rfl | rfl⟩ | ⟨phase1, shareReceiver, vrfCert,
    hphase1, hverify, rfl, rfl⟩
  · exact .forgets (.refuse s')
  · refine .forgets ⟨rfl, rfl, fun keygenId' phase1 h => ?_, fun _ _ => id, fun _ _ => id, rfl,
      fun _ => id, quiet_none⟩
    exact (BTreeMap.getElem?_of_erase h).2
  · exact .certifies keygenId phase1 _ hphase1
      ⟨aggInput, rng, seeds, vrfCert, rfl, hverify, rfl, rfl⟩ rfl

theorem keygenCheck_keyStep {keygenId : KeygenId} {certificate : BTreeMap Point L.CertVrfProof}
    {rng : L.Rng} {seeds : ℕ → SeedMaterial} {kind : String}
    {r : Except Error (List (DeviceSend D))}
    (h : s.keygenCheck keygenId certificate kind = .ret (r, s')) :
    KeyStep symmKeygen s s'
      { op := .recvCoordinatorMessage (.keyGen (.check keygenId certificate)) rng seeds
        sends := sent r } := by
  rcases keygenCheck_cases h with ⟨e, rfl, rfl | rfl⟩ | ⟨phase2, certifiedKeygen, secretShare,
    hphase2, hfinalize, rfl, rfl⟩
  · exact .forgets (.refuse s')
  · refine .forgets ⟨rfl, rfl, fun _ _ => id, fun keygenId' phase2 h => ?_, fun _ _ => id, rfl,
      fun _ => id, quiet_none⟩
    exact (BTreeMap.getElem?_of_erase h).2
  · exact .checks phase2
      { keygenId := keygenId
        sessionHash := L.sessionHash certifiedKeygen
        keyName := phase2.keyName
        keyPurpose := phase2.keyPurpose
        nReceivers := L.nReceivers certifiedKeygen
        sharedKey := L.sharedKeyOfKeygen certifiedKeygen
        secretShare := secretShare } hphase2
      ⟨certificate, rng, seeds, certifiedKeygen, rfl, hfinalize, rfl, rfl, rfl, rfl⟩ rfl

theorem keygenFinalize_keyStep {keygenId : KeygenId} {rng : L.Rng} {seeds : ℕ → SeedMaterial}
    {kind : String} {r : Except Error (List (DeviceSend D))}
    (h : s.keygenFinalize keygenId kind = .ret (r, s')) :
    KeyStep symmKeygen s s'
      { op := .recvCoordinatorMessage (.keyGen (.finalize keygenId)) rng seeds
        sends := sent r } := by
  rcases keygenFinalize_cases h with ⟨e, rfl, rfl⟩ | ⟨sessionHash, phase4, hpending, rfl, rfl⟩
  · exact .forgets (.refuse s')
  · exact .finalizes keygenId sessionHash phase4 hpending ⟨rng, seeds, phase4.keyName, rfl⟩ rfl

variable [NonceStreamSlot S SeedMaterial SignatureShare]

/-- A message of the coordinator. -/
theorem recvCoordinatorMessage_keyStep {message : CoordinatorToDeviceMessage L} {rng : L.Rng}
    {seeds : ℕ → SeedMaterial} {r : Except Error (List (DeviceSend D))}
    (h : s.recvCoordinatorMessage message rng seeds = .ret (r, s')) :
    KeyStep symmKeygen s s'
      { op := .recvCoordinatorMessage message rng seeds, sends := sent r } := by
  cases message with
  | keyGen m =>
      cases m with
      | begin begin => exact keygenBegin_keyStep h
      | certifyPlease keygenId aggInput => exact keygenCertifyPlease_keyStep h
      | check keygenId certificate => exact keygenCheck_keyStep h
      | finalize keygenId => exact keygenFinalize_keyStep h
  | signing m =>
      cases m with
      | requestSign requestSign => exact .forgets (recvRequestSign_untouched h).toSameKeys.forgets
      | openNonceStreams streams => exact .forgets (recvOpenNonceStreams_sameKeys h).forgets
  | restoration m => exact .forgets (recvRestorationMessage_untouched h).toSameKeys.forgets
  | screenVerify m =>
      cases m with
      | verifyAddress masterAppkey derivationIndex =>
          exact .forgets (recvVerifyAddress_untouched h).toSameKeys.forgets

/-- Everything that a device does. -/
theorem step_keyStep {op : Op D} {sends : Option (List (DeviceSend D))}
    (h : s.step symmKeygen op = .ret (sends, s')) :
    KeyStep symmKeygen s s' { op := op, sends := sends } := by
  cases op with
  | recvCoordinatorMessage message rng seeds =>
      obtain ⟨⟨r, t⟩, hrecv, h⟩ := Exec.bind_eq_ret_iff.1 h
      cases h
      exact recvCoordinatorMessage_keyStep hrecv
  | keygenAck phase rng =>
      obtain ⟨⟨r, t⟩, hack, h⟩ := Exec.bind_eq_ret_iff.1 h
      cases h
      obtain ⟨rfl, rfl⟩ := keygenAck_eq_ret hack
      exact .acks phase _ ⟨rng, rfl, rfl⟩ rfl
  | signAck phase =>
      obtain ⟨⟨r, t⟩, hack, h⟩ := Exec.bind_eq_ret_iff.1 h
      cases h
      exact .forgets (signAck_sameKeys hack).forgets
  | backupEntered phase shareBackup =>
      cases h
      exact .forgets (SameKeys.forgets
        ⟨rfl, rfl, rfl, rfl, fun _ => id, quiet_some_cons id quiet_some_nil⟩)
  | finishConsolidation phase rng =>
      cases h
      exact .consolidates phase _ ⟨rng, rfl, rfl, rfl⟩ rfl
  | clearTmpData =>
      cases h
      refine .forgets ⟨rfl, rfl, fun keygenId phase1 h => ?_, fun keygenId phase2 h => ?_,
        fun keygenId pending h => ?_, rfl, fun _ => id, quiet_some_nil⟩
      · exact absurd (Std.ExtTreeMap.getElem?_empty.symm.trans h) (Option.some_ne_none _).symm
      · exact absurd (Std.ExtTreeMap.getElem?_empty.symm.trans h) (Option.some_ne_none _).symm
      · exact absurd (Std.ExtTreeMap.getElem?_empty.symm.trans h) (Option.some_ne_none _).symm
  | takeStagedMutations =>
      cases h
      exact .forgets (SameKeys.forgets ⟨rfl, rfl, rfl, rfl,
        fun _ hm => absurd hm List.not_mem_nil, quiet_some_nil⟩)

end Signer

end Device

end Frostsnap
