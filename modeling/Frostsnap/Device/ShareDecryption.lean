import Frostsnap.Coordinator.Roots
import Frostsnap.Device.HeldShares
import Frostsnap.Embedded.LogReplay

/-!
# Decrypting the shares that devices have saved

A device encrypts a share with what a coordinator contributes: a hash of the root shared key, of the
device and of the index of the share. It computes the contribution itself, from the root shared key
of the key generation or of the message that it consolidates a backup for. The coordinator computes
it again for every request, from the polynomial that it has stored and the root key that it
decrypts. Neither has told the other what it used.

`Life` is all that happens to a device over its starts, `Saved` the shares that it has saved in it.
From one start to the next a device keeps what its log holds: of its shares that is the last one
that was written.

## Main results

* `Signer.restart_of_boot`: a device that starts has what `bootSigner` reads from flash.
* `Life.sealed`: a share that is held, is staged or is in the share slot is encrypted with the
  contribution of the root shared key that it was saved for.
* `share_decryption_agrees`: what the coordinator contributes decrypts the share that was saved.
-/

namespace Frostsnap

namespace Device

variable {L : FrostLib} {D : DeviceLib L} {S : Type}

section

attribute [local instance] Build.release

variable {symmKeygen : DeviceSecretDerivation} {s s' s₀ : Signer D S}

/-! ### Being asked to consolidate -/

/-- A device asks its user to consolidate a backup for a root shared key that it was sent. -/
structure Entry.Asks (deviceId : DeviceId) (e : Entry D) (root : SharedKey)
    (phase : ConsolidatePhase) : Prop where
  sent : ∃ (consolidate : Coordinator.ConsolidateBackup) (rng : L.Rng) (seeds : ℕ → SeedMaterial),
    e.op = .recvCoordinatorMessage (.restoration (.consolidate consolidate)) rng seeds ∧
      consolidate.rootSharedKey = root
  ref : phase.completeShare.accessStructureRef = AccessStructureRef.fromRootSharedKey L root
  contrib : phase.coordContrib = CoordShareDecryptionContrib.forMasterShare L deviceId
    phase.completeShare.secretShare.index root
  image : phase.completeShare.secretShare.shareImage D =
    root.shareImage L phase.completeShare.secretShare.index

/-- What is asked for a message to consolidate. -/
theorem Signer.consolidate_asks {consolidate : Coordinator.ConsolidateBackup} {kind : String}
    {r : Except Error (List (DeviceSend D))} {phase : ConsolidatePhase}
    (h : s.consolidate consolidate kind = .ret (r, s'))
    (hmem : .toUser (.restoration (.consolidateBackup phase)) ∈ (sent r).getD []) :
    phase.completeShare.accessStructureRef =
        AccessStructureRef.fromRootSharedKey L consolidate.rootSharedKey ∧
      phase.coordContrib = CoordShareDecryptionContrib.forMasterShare L s.deviceId
        phase.completeShare.secretShare.index consolidate.rootSharedKey ∧
      phase.completeShare.secretShare.shareImage D =
        consolidate.rootSharedKey.shareImage L phase.completeShare.secretShare.index := by
  rw [Signer.consolidate] at h
  dsimp only at h
  split at h
  · split at h
    · cases h
      cases hmem
    · split at h
      · cases h
        cases hmem
      · rename_i hchecked
        cases h
        cases List.mem_singleton.1 hmem
        rw [not_or, not_not, not_not] at hchecked
        exact ⟨rfl, by rw [hchecked.2], hchecked.1.symm⟩
  · split at h
    · cases h
      cases hmem
    · cases h
      cases List.mem_singleton.1 hmem

variable [NonceStreamSlot S SeedMaterial SignatureShare]

/-- A message that makes a device ask. -/
theorem Signer.recvCoordinatorMessage_asks {message : CoordinatorToDeviceMessage L} {rng : L.Rng}
    {seeds : ℕ → SeedMaterial} {r : Except Error (List (DeviceSend D))}
    {phase : ConsolidatePhase} (h : s.recvCoordinatorMessage message rng seeds = .ret (r, s'))
    (hmem : .toUser (.restoration (.consolidateBackup phase)) ∈ (sent r).getD []) :
    ∃ consolidate, message = .restoration (.consolidate consolidate) ∧
      phase.completeShare.accessStructureRef =
        AccessStructureRef.fromRootSharedKey L consolidate.rootSharedKey ∧
      phase.coordContrib = CoordShareDecryptionContrib.forMasterShare L s.deviceId
        phase.completeShare.secretShare.index consolidate.rootSharedKey ∧
      phase.completeShare.secretShare.shareImage D =
        consolidate.rootSharedKey.shareImage L phase.completeShare.secretShare.index := by
  cases message with
  | restoration m =>
      cases m with
      | consolidate consolidate => exact ⟨consolidate, rfl, Signer.consolidate_asks h hmem⟩
      | enterPhysicalBackup enterPhysicalId =>
          cases h
          cases List.mem_singleton.1 hmem
      | savePhysicalBackup shareImage keyName purpose threshold =>
          simp only [recvCoordinatorMessage, recvRestorationMessage, savePhysicalBackup2] at h
          split at h
          · cases h
            cases hmem
          · cases h
            simp [sent] at hmem
      | savePhysicalBackup2 heldShare =>
          simp only [recvCoordinatorMessage, recvRestorationMessage, savePhysicalBackup2] at h
          split at h
          · cases h
            cases hmem
          · cases h
            simp [sent] at hmem
      | displayBackup ref contrib shareIndex root =>
          simp only [recvCoordinatorMessage, recvRestorationMessage] at h
          split at h
          · cases h
            cases hmem
          · cases h
            cases List.mem_singleton.1 hmem
      | checkBackup contrib shareIndex root =>
          simp only [recvCoordinatorMessage, recvRestorationMessage] at h
          split at h
          · cases h
            cases hmem
          · cases h
            cases List.mem_singleton.1 hmem
      | requestHeldShares =>
          cases h
          cases List.mem_singleton.1 hmem
  | keyGen m =>
      cases m with
      | begin begin =>
          rcases keygenBegin_cases h with ⟨e, rfl, -⟩ | ⟨_, _, _, _, -, rfl, -⟩
          · cases hmem
          · cases List.mem_singleton.1 hmem
      | certifyPlease keygenId aggInput =>
          rcases keygenCertifyPlease_cases h with ⟨e, rfl, -⟩ | ⟨_, _, _, -, -, rfl, -⟩
          · cases hmem
          · cases List.mem_singleton.1 hmem
      | check keygenId certificate =>
          rcases keygenCheck_cases h with ⟨e, rfl, -⟩ | ⟨_, _, _, -, -, rfl, -⟩
          · cases hmem
          · cases List.mem_singleton.1 hmem
      | finalize keygenId =>
          rcases keygenFinalize_cases h with ⟨e, rfl, -⟩ | ⟨_, _, -, rfl, -⟩
          · cases hmem
          · cases List.mem_singleton.1 hmem
  | signing m =>
      cases m with
      | requestSign requestSign =>
          obtain ⟨checked, -, h⟩ := Exec.bind_eq_ret_iff.1 h
          cases checked with
          | error e =>
              cases h
              cases hmem
          | ok phase =>
              cases h
              cases List.mem_singleton.1 hmem
      | openNonceStreams streams =>
          obtain ⟨⟨nonceSlots, reply⟩, -, h⟩ := Exec.bind_eq_ret_iff.1 h
          cases reply with
          | nonceResponse segments =>
              cases h
              cases List.mem_singleton.1 hmem
          | nonceJobs batch =>
              cases h
              cases List.mem_singleton.1 hmem
  | screenVerify m =>
      cases m with
      | verifyAddress masterAppkey derivationIndex =>
          simp only [recvCoordinatorMessage, recvVerifyAddress] at h
          split at h
          · cases h
            cases hmem
          · obtain ⟨network, -, h⟩ := Exec.bind_eq_ret_iff.1 h
            obtain ⟨address, -, h⟩ := Exec.bind_eq_ret_iff.1 h
            cases h
            cases List.mem_singleton.1 hmem

/-- A step that makes a device ask. -/
theorem Signer.step_asks {e : Entry D} {phase : ConsolidatePhase}
    (h : s.step symmKeygen e.op = .ret (e.sends, s'))
    (hmem : .toUser (.restoration (.consolidateBackup phase)) ∈ e.sends.getD []) :
    ∃ root, e.Asks s.deviceId root phase := by
  obtain ⟨op, sends⟩ := e
  cases op with
  | recvCoordinatorMessage message rng seeds =>
      obtain ⟨⟨r, t⟩, hrecv, h⟩ := Exec.bind_eq_ret_iff.1 h
      cases h
      obtain ⟨consolidate, rfl, href, hcontrib, himage⟩ :=
        Signer.recvCoordinatorMessage_asks hrecv hmem
      exact ⟨consolidate.rootSharedKey, ⟨consolidate, rng, seeds, rfl, rfl⟩, href, hcontrib, himage⟩
  | keygenAck phase rng =>
      obtain ⟨⟨r, t⟩, hack, h⟩ := Exec.bind_eq_ret_iff.1 h
      cases h
      obtain ⟨rfl, -⟩ := keygenAck_eq_ret hack
      cases List.mem_singleton.1 hmem
  | signAck phase =>
      obtain ⟨⟨r, t⟩, hack, h⟩ := Exec.bind_eq_ret_iff.1 h
      cases h
      simp only [signAck] at hack
      split at hack
      · cases hack
        cases hmem
      · obtain ⟨signed, -, hack⟩ := Exec.bind_eq_ret_iff.1 hack
        cases signed with
        | error e =>
            cases hack
            cases hmem
        | ok out =>
            obtain ⟨⟨signatureShares, replenishTask⟩, nonceSlots⟩ := out
            obtain ⟨replenishNonces, -, hack⟩ := Exec.bind_eq_ret_iff.1 hack
            cases hack
            cases List.mem_singleton.1 hmem
  | backupEntered phase shareBackup =>
      cases h
      cases List.mem_singleton.1 hmem
  | finishConsolidation phase rng =>
      cases h
      cases List.mem_singleton.1 hmem
  | clearTmpData =>
      cases h
      cases hmem
  | takeStagedMutations =>
      cases h
      cases hmem

/-- Whatever a device has asked its user to consolidate was sent to it. -/
theorem Reach.asks {trace : List (Entry D)} (hs₀ : Started s₀) (h : Reach symmKeygen s₀ s trace)
    {e : Entry D} (he : e ∈ trace) {phase : ConsolidatePhase}
    (hmem : .toUser (.restoration (.consolidateBackup phase)) ∈ e.sends.getD []) :
    ∃ root, e.Asks s₀.deviceId root phase := by
  induction h with
  | start => exact absurd he List.not_mem_nil
  | @step s s' trace op sends h hop hstep ih =>
      rcases List.mem_append.1 he with he | he
      · exact ih he
      · obtain rfl := List.mem_singleton.1 he
        rw [← (h.history hs₀).deviceId]
        exact Signer.step_asks (e := { op := op, sends := sends }) hstep hmem

/-! ### What a device has saved -/

/-- A share of a root shared key was saved: the user agreed to the key generation that it comes
from, and a `Finalize` came for it, or the user consolidated a backup as the device was told to. -/
inductive Saved (symmKeygen : DeviceSecretDerivation) (keypair : L.KeyPair)
    (trace : List (Entry D)) : SharedKey → SecretShare → Prop where
  | keygen (phase3 : KeyGenPhase3) (phase4 : KeyGenPhase4 D)
      (h : Finalized symmKeygen keypair (L.publicKeyOfPair keypair) trace phase3 phase4) :
      Saved symmKeygen keypair trace phase3.sharedKey phase3.secretShare.secretShare
  | consolidation (root : SharedKey) (phase : ConsolidatePhase) (phase4 : KeyGenPhase4 D)
      (ask consolidate : Entry D) (h : [ask, consolidate].Sublist trace)
      (hask : ask.Asks (L.publicKeyOfPair keypair) root phase)
      (hconsolidate : consolidate.Consolidates symmKeygen phase phase4) :
      Saved symmKeygen keypair trace root phase.completeShare.secretShare

omit [NonceStreamSlot S SeedMaterial SignatureShare] in
theorem Saved.mono {keypair : L.KeyPair} {trace trace' : List (Entry D)} {root : SharedKey}
    {secretShare : SecretShare} (h : Saved symmKeygen keypair trace root secretShare)
    (htrace : trace.Sublist trace') : Saved symmKeygen keypair trace' root secretShare := by
  cases h with
  | keygen phase3 phase4 h =>
      obtain ⟨begin, certify, check, ack, finalize, phase1, phase2, hsub, h⟩ := h
      exact .keygen phase3 phase4
        ⟨begin, certify, check, ack, finalize, phase1, phase2, hsub.trans htrace, h⟩
  | consolidation _ phase phase4 ask consolidate hsub hask hconsolidate =>
      exact .consolidation root phase phase4 ask consolidate (hsub.trans htrace) hask hconsolidate

omit [NonceStreamSlot S SeedMaterial SignatureShare] in
/-- The device was told to begin a key generation, or to consolidate a share of the key. -/
theorem Saved.told {keypair : L.KeyPair} {trace : List (Entry D)} {root : SharedKey}
    {secretShare : SecretShare} (h : Saved symmKeygen keypair trace root secretShare) :
    (∃ begin rng seeds,
        Op.recvCoordinatorMessage (.keyGen (.begin begin)) rng seeds ∈ trace.map Entry.op) ∨
      ∃ (consolidate : Coordinator.ConsolidateBackup) (rng : L.Rng) (seeds : ℕ → SeedMaterial),
        Op.recvCoordinatorMessage (.restoration (.consolidate consolidate)) rng seeds ∈
            trace.map Entry.op ∧
          consolidate.rootSharedKey = root := by
  cases h with
  | keygen phase3 phase4 h =>
      obtain ⟨begin, certify, check, ack, finalize, phase1, phase2, hsub, hbegin, -⟩ := h
      have hmem := List.mem_map_of_mem (f := Entry.op) (hsub.subset List.mem_cons_self)
      obtain ⟨message, rng, seeds, _, _, _, rfl, -⟩ := hbegin
      exact .inl ⟨message, rng, seeds, hmem⟩
  | consolidation _ phase phase4 ask consolidate hsub hask hconsolidate =>
      have hmem := List.mem_map_of_mem (f := Entry.op) (hsub.subset List.mem_cons_self)
      obtain ⟨message, rng, seeds, hop, hroot⟩ := hask.sent
      rw [hop] at hmem
      exact .inr ⟨message, rng, seeds, hmem, hroot⟩

/-- A share is encrypted with the contribution for its root shared key. -/
structure Seals (symmKeygen : DeviceSecretDerivation) (deviceId : DeviceId) (root : SharedKey)
    (ref : AccessStructureRef) (index : ShareIndex) (share : EncryptedSecretShare D.Cipher)
    (secretShare : SecretShare) : Prop where
  ref_eq : AccessStructureRef.fromRootSharedKey L root = ref
  index_eq : secretShare.index = index
  share_eq : ∃ rng, share = encryptShare D secretShare ref
    (CoordShareDecryptionContrib.forMasterShare L deviceId index root) symmKeygen rng

/-- A device that finishes a key generation has a share of the key that came out of it. -/
def Receives (D : DeviceLib L) : Prop :=
  ∀ receiver certificate certifiedKeygen secretShare,
    D.finalize receiver certificate = .ok (certifiedKeygen, secretShare) →
      secretShare.publicKey = (L.sharedKeyOfKeygen certifiedKeygen).publicKey

/-- A share is encrypted for a root shared key that it was saved for. -/
def Sealed (symmKeygen : DeviceSecretDerivation) (keypair : L.KeyPair) (trace : List (Entry D))
    (ref : AccessStructureRef) (index : ShareIndex) (share : EncryptedSecretShare D.Cipher) :
    Prop :=
  ∃ root secretShare, Saved symmKeygen keypair trace root secretShare ∧
    Seals symmKeygen (L.publicKeyOfPair keypair) root ref index share secretShare

/-- The root shared keys that shares were saved for have polynomials. -/
def HasPolynomials (symmKeygen : DeviceSecretDerivation) (keypair : L.KeyPair)
    (trace : List (Entry D)) : Prop :=
  ∀ root secretShare, Saved symmKeygen keypair trace root secretShare → root.pointPolynomial ≠ []

omit [NonceStreamSlot S SeedMaterial SignatureShare] in
theorem Sealed.mono {keypair : L.KeyPair} {trace trace' : List (Entry D)}
    {ref : AccessStructureRef} {index : ShareIndex} {share : EncryptedSecretShare D.Cipher}
    (h : Sealed symmKeygen keypair trace ref index share) (htrace : trace.Sublist trace') :
    Sealed symmKeygen keypair trace' ref index share := by
  obtain ⟨root, secretShare, hsaved, hseals⟩ := h
  exact ⟨root, secretShare, hsaved.mono htrace, hseals⟩

omit [NonceStreamSlot S SeedMaterial SignatureShare] in
theorem HasPolynomials.anti {keypair : L.KeyPair} {trace trace' : List (Entry D)}
    (h : HasPolynomials symmKeygen keypair trace') (htrace : trace.Sublist trace') :
    HasPolynomials symmKeygen keypair trace :=
  fun root secretShare hsaved => h root secretShare (hsaved.mono htrace)

/-- **Between two starts**, what a device comes to hold is encrypted for what it was saved for. -/
theorem Reach.sealed {trace : List (Entry D)} (hreceives : Receives D) (hs₀ : Started s₀)
    (h : Reach symmKeygen s₀ s trace) (hne : HasPolynomials symmKeygen s₀.keypair trace)
    {ref : AccessStructureRef} {index : ShareIndex} {share : EncryptedSecretShare D.Cipher}
    (hheld : s.keys.getEncryptedShare ref index = some share) :
    s₀.keys.getEncryptedShare ref index = some share ∨
      Sealed symmKeygen s₀.keypair trace ref index share := by
  rcases (h.history hs₀).shares ref index share hheld with hold | ⟨phase4, hsaves, hfrom⟩
  · exact .inl hold
  right
  obtain ⟨rfl, rfl, rfl⟩ := hsaves
  have hid := s₀.deviceIdOfKeypair
  rcases hfrom with ⟨phase3, hfinalized⟩ | ⟨before, after, consolidate, phase, rfl, hshown, hdone⟩
  · have hsaved : Saved symmKeygen s₀.keypair trace phase3.sharedKey
        phase3.secretShare.secretShare :=
      .keygen phase3 phase4 (hid ▸ hfinalized)
    refine ⟨phase3.sharedKey, phase3.secretShare.secretShare, hsaved, ?_⟩
    · obtain ⟨begin, certify, check, ack, finalize, phase1, phase2, -, -, -, hcheck, hack, -⟩ :=
        hfinalized
      obtain ⟨certificate, -, -, certifiedKeygen, -, hfinish, -, hshared, -, -⟩ := hcheck
      have hpublic := hreceives _ _ _ _ hfinish
      obtain ⟨rng, -, rfl⟩ := hack
      rw [← hshared] at hpublic
      have href : AccessStructureRef.fromRootSharedKey L phase3.sharedKey =
          (Signer.pendingFinalize D s₀.deviceId phase3 symmKeygen rng).accessStructureRef := by
        have hkeyId : (AccessStructureRef.fromRootSharedKey L phase3.sharedKey).keyId =
            keyIdFromRootkey L phase3.secretShare.publicKey := by
          rw [hpublic, keyIdFromRootkey, ← SharedKey.masterAppkey_app (hne _ _ hsaved)]
          rfl
        rw [Signer.pendingFinalize, ← hkeyId]
        rfl
      exact ⟨href, rfl, rng, by rw [← hid]; rfl⟩
  · obtain ⟨ask, hask, sends, hsends, hmem⟩ := hshown
    have hasks : ∃ root, ask.Asks s₀.deviceId root phase :=
      h.asks hs₀ (List.mem_append_left _ hask) (by rw [hsends]; exact hmem)
    obtain ⟨root, hasks⟩ := hasks
    refine ⟨root, phase.completeShare.secretShare,
      .consolidation root phase phase4 ask consolidate ?_ (by rw [← hid]; exact hasks) hdone, ?_⟩
    · exact (List.singleton_sublist.2 hask).append
        (List.singleton_sublist.2 List.mem_cons_self)
    · obtain ⟨rng, -, href, hshare⟩ := hdone
      rw [href, hshare]
      exact ⟨hasks.ref.symm, rfl, rng, by rw [hasks.contrib, ← hid]; rfl⟩

/-! ### A device over its starts -/

/-- What an operation writes to the log: what was staged, when that is taken. -/
def Op.writes (s : Signer D S) : Op D → List (LogMutation D.Cipher D.Backup)
  | .takeStagedMutations => s.mutations.map .core
  | _ => []

/-- A device that starts: it has what its log holds and the nonce slots that are found in flash. -/
def Signer.restart (s : Signer D S) (stored : LogContents D.Cipher D.Backup)
    (nonceSlots : AbSlots S) : Signer D S where
  toFrostSigner := (stored.restart s.deviceId nonceSlots).1
  keypair := s.keypair
  deviceIdOfKeypair := (replay_device _ _).1.trans s.deviceIdOfKeypair
  keygen := KeygenState.clearTmpData D
  keygenFingerprint := s.keygenFingerprint

/-- A device over its starts: what has happened before the last one and since, what its log holds,
and what it has in memory. It is new, with nothing in its log. Its operations take place, and a name
may be written between them. It loses power at any moment, having written any beginning of what was
staged, and starts with what its log holds then. -/
inductive Life (symmKeygen : DeviceSecretDerivation) :
    List (Entry D) → List (Entry D) → LogContents D.Cipher D.Backup → Signer D S → Prop where
  | new (s : Signer D S) {nonceSlots : AbSlots S} (hslots : nonceSlots.Ordinary) :
      Life symmKeygen [] [] .empty (s.restart .empty nonceSlots)
  | step {past trace : List (Entry D)} {stored : LogContents D.Cipher D.Backup}
      {s s' : Signer D S} {op : Op D} {sends : Option (List (DeviceSend D))}
      (h : Life symmKeygen past trace stored s) (hop : op.Allowed trace)
      (hstep : s.step symmKeygen op = .ret (sends, s')) :
      Life symmKeygen past (trace ++ [{ op := op, sends := sends }])
        (stored.append (op.writes s)) s'
  | name {past trace : List (Entry D)} {stored : LogContents D.Cipher D.Backup} {s : Signer D S}
      (h : Life symmKeygen past trace stored s) (name : String) :
      Life symmKeygen past trace (stored.push (.name name)) s
  | restart {past trace : List (Entry D)} {stored : LogContents D.Cipher D.Backup}
      {s : Signer D S} {written : List (LogMutation D.Cipher D.Backup)} {nonceSlots : AbSlots S}
      (h : Life symmKeygen past trace stored s)
      (hwritten : written <+: Op.takeStagedMutations.writes s) (hslots : nonceSlots.Ordinary) :
      Life symmKeygen (past ++ trace) [] (stored.append written)
        (s.restart (stored.append written) nonceSlots)

omit [NonceStreamSlot S SeedMaterial SignatureShare] in
/-- **A start over flash.** A device that starts has what `bootSigner` reads. -/
theorem Signer.restart_of_boot {C : Codec (LogMutation D.Cipher D.Backup)}
    {C' : Codec (ShareSlot D.Cipher D.Backup)} {f : Flash} {fresh log : MutationLog}
    {stored : LogContents D.Cipher D.Backup} {ms : List (LogMutation D.Cipher D.Backup)}
    (s : Signer D S) (nonceSlots : AbSlots S) (hholds : MutationLog.Holds C C' f log ms)
    (hstored : LogContents.empty.append ms = stored) (hplace : fresh.SamePlace log)
    (hroom : (log.log.wordPos + 1) * writeSize ≤ log.log.flash.size) :
    ∃ name, bootSigner C C' fresh s.deviceId nonceSlots f =
      some (.ret ((s.restart stored nonceSlots).toFrostSigner, name, log)) := by
  rw [bootSigner_of_holds _ _ hholds hplace hroom, hstored]
  exact ⟨_, rfl⟩

theorem Signer.restart_started (s : Signer D S) (stored : LogContents D.Cipher D.Backup)
    {nonceSlots : AbSlots S} (hslots : nonceSlots.Ordinary) :
    Started (s.restart stored nonceSlots) where
  ordinary := by
    have hsame : (s.restart stored nonceSlots).nonceSlots = nonceSlots := (replay_device _ _).2
    rw [hsame]
    exact hslots
  keygen := rfl
  tmpLoadedBackups := (stored.restart_fresh s.deviceId nonceSlots).2

/-- A share that is saved is encrypted for what it was saved for. -/
def SealsShare (symmKeygen : DeviceSecretDerivation) (keypair : L.KeyPair)
    (trace : List (Entry D)) (m : SaveShareMutation D.Cipher) : Prop :=
  Sealed symmKeygen keypair trace m.accessStructureRef m.encryptedSecretShare.shareImage.index
    m.encryptedSecretShare

/-- The shares that the last start has found are. -/
def FindsSealed (symmKeygen : DeviceSecretDerivation) (past trace : List (Entry D))
    (s : Signer D S) : Prop :=
  ∃ s₀, Started s₀ ∧ Reach symmKeygen s₀ s trace ∧
    ∀ ref index share, s₀.keys.getEncryptedShare ref index = some share →
      Sealed symmKeygen s₀.keypair past ref index share

/-- Wherever a device has a share, the share is: the last start has found it, it is staged, or it is
in the share slot. -/
structure SealsAll (symmKeygen : DeviceSecretDerivation) (past trace : List (Entry D))
    (stored : LogContents D.Cipher D.Backup) (s : Signer D S) : Prop where
  found : FindsSealed symmKeygen past trace s
  staged : ∀ m, s.StagesShare m → SealsShare symmKeygen s.keypair (past ++ trace) m
  stored : ∀ m, stored.shareSlot = some (.secretShare m) →
    SealsShare symmKeygen s.keypair (past ++ trace) m

section Sealing

variable {past trace : List (Entry D)} {stored : LogContents D.Cipher D.Backup}

/-- So are the shares that are held. -/
theorem FindsSealed.held (hreceives : Receives D) (h : FindsSealed symmKeygen past trace s)
    (hne : HasPolynomials symmKeygen s.keypair (past ++ trace)) {ref : AccessStructureRef}
    {index : ShareIndex} {share : EncryptedSecretShare D.Cipher}
    (hheld : s.keys.getEncryptedShare ref index = some share) :
    Sealed symmKeygen s.keypair (past ++ trace) ref index share := by
  obtain ⟨s₀, hs₀, hreach, hfound⟩ := h
  rw [(hreach.history hs₀).keypair] at hne ⊢
  rcases hreach.sealed hreceives hs₀ (hne.anti (List.sublist_append_right _ _)) hheld with
    hold | hsealed
  · exact (hfound _ _ _ hold).mono (List.sublist_append_left _ _)
  · exact hsealed.mono (List.sublist_append_right _ _)

omit [NonceStreamSlot S SeedMaterial SignatureShare] in
/-- So is what is in the slot once some of what was staged is written. -/
theorem sealsShare_of_written {keypair : L.KeyPair} {all : List (Entry D)}
    {written : List (LogMutation D.Cipher D.Backup)}
    (hstaged : ∀ m, s.StagesShare m → SealsShare symmKeygen keypair all m)
    (hstored : ∀ m, stored.shareSlot = some (.secretShare m) →
      SealsShare symmKeygen keypair all m)
    (hwritten : written ⊆ Op.takeStagedMutations.writes s) (m : SaveShareMutation D.Cipher)
    (hslot : (stored.append written).shareSlot = some (.secretShare m)) :
    SealsShare symmKeygen keypair all m := by
  rcases stored.shareSlot_append hslot with hslot | ⟨change, hmem, hsaves⟩
  · exact hstored m hslot
  · obtain rfl := LogMutation.eq_of_secretShare hsaves
    obtain ⟨staged, hstages, hcore⟩ := List.mem_map.1 (hwritten hmem)
    obtain rfl := LogMutation.core.inj hcore
    exact hstaged m hstages

/-- **A step** keeps it so. -/
theorem SealsAll.step (hreceives : Receives D) (h : SealsAll symmKeygen past trace stored s)
    {op : Op D} {sends : Option (List (DeviceSend D))} (hop : op.Allowed trace)
    (hstep : s.step symmKeygen op = .ret (sends, s'))
    (hne : HasPolynomials symmKeygen s'.keypair
      (past ++ (trace ++ [{ op := op, sends := sends }]))) :
    SealsAll symmKeygen past (trace ++ [{ op := op, sends := sends }])
      (stored.append (op.writes s)) s' := by
  obtain ⟨s₀, hs₀, hreach, hfound⟩ := h.found
  have hreach' := hreach.step hop hstep
  have hkeypair : s'.keypair = s.keypair :=
    (hreach'.history hs₀).keypair.trans (hreach.history hs₀).keypair.symm
  have hlonger : (past ++ trace).Sublist (past ++ (trace ++ [{ op := op, sends := sends }])) :=
    (List.Sublist.refl _).append (List.sublist_append_left _ _)
  have hfinds : FindsSealed symmKeygen past (trace ++ [{ op := op, sends := sends }]) s' :=
    ⟨s₀, hs₀, hreach', hfound⟩
  have hstaged (m : SaveShareMutation D.Cipher) (hm : s.StagesShare m) :
      SealsShare symmKeygen s'.keypair (past ++ (trace ++ [{ op := op, sends := sends }])) m := by
    rw [hkeypair]
    exact (h.staged m hm).mono hlonger
  have hstored (m : SaveShareMutation D.Cipher) (hm : stored.shareSlot = some (.secretShare m)) :
      SealsShare symmKeygen s'.keypair (past ++ (trace ++ [{ op := op, sends := sends }])) m := by
    rw [hkeypair]
    exact (h.stored m hm).mono hlonger
  refine ⟨hfinds, fun m hm => ?_, sealsShare_of_written hstaged hstored ?_⟩
  · -- what is newly staged is held
    rcases (Signer.step_keyStep hstep).stagesShare hm with hm | hheld
    · exact hstaged m hm
    · exact hfinds.held hreceives hne hheld
  · cases op with
    | takeStagedMutations => exact List.Subset.refl _
    | _ => exact List.nil_subset _

/-- **A start** finds it so when it is so of the slot. -/
theorem SealsAll.start {nonceSlots : AbSlots S} (hslots : nonceSlots.Ordinary)
    (hslot : ∀ m, stored.shareSlot = some (.secretShare m) →
      SealsShare symmKeygen s.keypair past m) :
    SealsAll symmKeygen past [] stored (s.restart stored nonceSlots) := by
  refine ⟨⟨_, s.restart_started stored hslots, .start, fun ref index share hheld => ?_⟩,
    fun m hm => ?_, fun m hm => ?_⟩
  · obtain ⟨hstored, rfl⟩ := LogContents.shareSlot_of_restart hheld
    exact hslot _ hstored
  · have hnone := (stored.restart_fresh s.deviceId nonceSlots).1
    rw [Signer.StagesShare, Signer.restart, hnone] at hm
    cases hm
  · rw [List.append_nil]
    exact hslot m hm

/-- **Over all starts**, the shares that a device has are encrypted for what they were saved for. -/
theorem Life.sealsAll (hreceives : Receives D) (h : Life symmKeygen past trace stored s)
    (hne : HasPolynomials symmKeygen s.keypair (past ++ trace)) :
    SealsAll symmKeygen past trace stored s := by
  induction h with
  | new s hslots => exact .start hslots nofun
  | @step past trace stored s s' op sends h hop hstep ih =>
      have hkeypair : s'.keypair = s.keypair := (Signer.step_keyStep hstep).keyChange.keypair
      refine (ih ?_).step hreceives hop hstep hne
      rw [hkeypair] at hne
      exact hne.anti ((List.Sublist.refl _).append (List.sublist_append_left _ _))
  | @name past trace stored s h name ih =>
      obtain ⟨hfound, hstaged, hstored⟩ := ih hne
      have hslot : (stored.push (.name name)).shareSlot = stored.shareSlot :=
        (stored.push_of_logged rfl).2
      exact ⟨hfound, hstaged, fun m hm => hstored m (hslot.symm.trans hm)⟩
  | @restart past trace stored s written nonceSlots h hwritten hslots ih =>
      rw [List.append_nil] at hne
      obtain ⟨-, hstaged, hstored⟩ := ih hne
      exact .start hslots (sealsShare_of_written hstaged hstored hwritten.subset)

/-- The shares that are held are. -/
theorem Life.sealed (hreceives : Receives D) (h : Life symmKeygen past trace stored s)
    (hne : HasPolynomials symmKeygen s.keypair (past ++ trace)) {ref : AccessStructureRef}
    {index : ShareIndex} {share : EncryptedSecretShare D.Cipher}
    (hheld : s.keys.getEncryptedShare ref index = some share) :
    Sealed symmKeygen s.keypair (past ++ trace) ref index share :=
  (h.sealsAll hreceives hne).found.held hreceives hne hheld

end Sealing

end

/-! ### Agreement -/

section Agreement

open Coordinator

variable [Build]

/-- What the coordinator sends a device to decrypt a share of `root` with: in signing requests, and
in requests to show or check its backup. -/
structure Contributes (s : FrostCoordinator L) (encryptionKey : SymmetricKey)
    (ref : AccessStructureRef) (deviceId : DeviceId) (index : ShareIndex) (root : SharedKey) :
    Prop where
  sign : ∀ (sessionId : SignSessionId) (session : ActiveSignSession L)
    (request : RequestDeviceSign L) (s' : FrostCoordinator L),
    s.activeSigningSessions[sessionId]? = some session → session.accessStructureRef = ref →
    s.requestDeviceSign sessionId deviceId encryptionKey = .ret (request, s') →
      request.requestSign.deviceSignReq.rootkey = root.publicKey ∧
      request.requestSign.deviceSignReq.coordShareDecryptionContrib =
        CoordShareDecryptionContrib.forMasterShare L deviceId index root
  backup : s.backupRequest deviceId ref encryptionKey =
    .ret (.ok (CoordShareDecryptionContrib.forMasterShare L deviceId index root, index, root))

/-- The coordinator contributes for what it reconstructs and has recorded. -/
theorem contributes_of_rootSharedKey {s : FrostCoordinator L} {encryptionKey : SymmetricKey}
    {ref : AccessStructureRef} {key : CoordFrostKey} {a : CoordAccessStructure}
    {deviceId : DeviceId} {index : ShareIndex} {root : SharedKey}
    (hkey : s.keys[ref.keyId]? = some key)
    (ha : key.completeKey.accessStructures[ref.accessStructureId]? = some a)
    (hroot : key.completeKey.rootSharedKey L ref.accessStructureId encryptionKey =
      .ret (some root)) (hindex : a.deviceToShareIndex[deviceId]? = some index) :
    Contributes s encryptionKey ref deviceId index root where
  sign sessionId session request s' hsession href h := by
    have hcontrib := CompleteKey.coordShareDecryptionContrib_of_recorded hroot ha hindex
    rw [FrostCoordinator.requestDeviceSign, hsession, Exec.expect_some, Exec.ret_bind] at h
    obtain ⟨nonces, -, h⟩ := Exec.bind_eq_ret_iff.1 h
    subst href
    have hkey' : s.keys[session.keyId]? = some key := hkey
    have hcontrib' : key.completeKey.coordShareDecryptionContrib L
        session.init.groupRequest.accessStructureId deviceId encryptionKey = _ := hcontrib
    rw [hkey', Exec.expect_some, Exec.ret_bind, hcontrib', Exec.ret_bind, Exec.expect_some,
      Exec.ret_bind] at h
    obtain ⟨t, -, h⟩ := Exec.bind_eq_ret_iff.1 h
    obtain ⟨rfl, -⟩ := Prod.mk.inj (Exec.ret.inj h)
    exact ⟨rfl, rfl⟩
  backup := by
    have hcontrib := CompleteKey.coordShareDecryptionContrib_of_recorded hroot ha hindex
    simp only [Persistent.backupRequest, hkey, ha, hindex, hroot, hcontrib, Exec.ret_bind,
      Exec.pure_eq]

variable [NonceStreamSlot S SeedMaterial SignatureShare]

/-- **What the coordinator contributes decrypts the share that a device has saved**, whatever has
happened to both. The root shared key that the coordinator reconstructs is the one that was
installed, and it is the one that the device saved its share for. -/
theorem share_decryption_agrees
    (hrootkey : ∀ key point rng, L.decryptRootkey key (L.encryptRootkey key point rng) = some point)
    (haead : ∀ key scalar rng, D.decrypt key (D.encrypt key scalar rng) = some scalar)
    (hreceives : Receives D) {past : Past} {s : FrostCoordinator L} (hs : Installed past s)
    {symmKeygen : DeviceSecretDerivation} {before trace : List (Entry D)}
    {stored : LogContents D.Cipher D.Backup} {d : Signer D S}
    (hd : Life symmKeygen before trace stored d)
    (hproper : Proper L fun root => root ∈ past.roots ∨
      ∃ secretShare, Saved symmKeygen d.keypair (before ++ trace) root secretShare)
    {ref : AccessStructureRef} {a : CoordAccessStructure} (ha : s.getAccessStructure ref = some a) :
    ∃ root ∈ past.roots, ∃ encryptionKey,
      AccessStructureRef.fromRootSharedKey L root = ref ∧
      past.encryptionKeys[ref.keyId]? = some encryptionKey ∧
      s.rootSharedKey ref encryptionKey = .ret (some root) ∧
      (∀ deviceId index, a.deviceToShareIndex[deviceId]? = some index →
        Contributes s encryptionKey ref deviceId index root) ∧
      ∀ index share, d.keys.getEncryptedShare ref index = some share →
        ∃ secretShare, Saved symmKeygen d.keypair (before ++ trace) root secretShare ∧
          secretShare.index = index ∧ share.shareImage = secretShare.shareImage D ∧
          decryptShare D share ref
            (CoordShareDecryptionContrib.forMasterShare L d.deviceId index root) symmKeygen =
              some secretShare := by
  obtain ⟨root, hroot, key, encryptionKey, rfl, hkey, hstructure, hwith, hshared⟩ :=
    hs.rooted.rootSharedKey_eq hrootkey (fun _ => .inl) hproper ha
  refine ⟨root, hroot, encryptionKey, rfl, hwith, ?_, ?_, ?_⟩
  · rw [Persistent.rootSharedKey, Persistent.getFrostKey, hkey]
    exact hshared
  · exact fun deviceId index hindex =>
      contributes_of_rootSharedKey hkey hstructure hshared hindex
  · intro index share hheld
    obtain ⟨own, secretShare, hsaved, href, rfl, rng, rfl⟩ := hd.sealed hreceives
      (fun root secretShare hsaved => hproper.nonempty root (.inr ⟨secretShare, hsaved⟩)) hheld
    obtain rfl : own = root :=
      hproper.polynomial own root (.inr ⟨secretShare, hsaved⟩) (.inl hroot) href
    rw [d.deviceIdOfKeypair]
    exact ⟨secretShare, hsaved, rfl, rfl, decryptShare_encryptShare haead rng⟩

end Agreement

/-! ### Concrete runs -/

section

open Coordinator

attribute [local instance] Build.release

/-- A coordinator with a restoration from the one share of a key. -/
def oneShareRestoring : FrostCoordinator plainLib :=
  (FrostCoordinator.new plainLib).after (.startRestoringKeyFromRecoverShare oneShare 1)

/-- The key is restored. -/
def finishOneShare : Coordinator.Op plainLib := .finishRestoring 1 0 (0 : ℕ)

/-- What was installed then. -/
def oneShareInstalled : Past := Past.empty.after oneShareRestoring finishOneShare

theorem installs_oneShare :
    Installed oneShareInstalled (oneShareRestoring.after finishOneShare) := by
  have hstart : ((FrostCoordinator.new plainLib).perform
      (.startRestoringKeyFromRecoverShare oneShare 1)).Returns := by decide +kernel
  have hfinish : (oneShareRestoring.perform finishOneShare).Returns := by decide +kernel
  obtain ⟨⟨failed, s⟩, hstart⟩ := hstart
  obtain ⟨⟨failed', s'⟩, hfinish⟩ := hfinish
  have hrestoring : oneShareRestoring = s := by
    rw [oneShareRestoring, FrostCoordinator.after, hstart]
  have hrestored : oneShareRestoring.after finishOneShare = s' := by
    rw [FrostCoordinator.after, hfinish]
  rw [hrestored]
  refine .perform ?_ hfinish
  rw [hrestoring]
  exact .perform .new hstart

/-- The key that was restored. -/
def nineKey : SharedKey := { pointPolynomial := [9] }

theorem roots_oneShareInstalled : oneShareInstalled.roots = [nineKey] := by decide +kernel

/-- The device has entered and consolidated the backup of the same share. -/
def backupConsolidated : Signer plainDeviceLib PlainSlot :=
  backupOps.foldl (Signer.after plainDerivation) (plainSigner 0)

/-- What has happened to it. -/
def backupTrace : List (Entry plainDeviceLib) :=
  [] ++ (plainSigner 0).entriesOf plainDerivation backupOps

/-- What its log holds once what was staged is written. -/
def backupStored : LogContents plainDeviceLib.Cipher plainDeviceLib.Backup :=
  LogContents.empty.append (Op.takeStagedMutations.writes backupConsolidated)

/-- It has lost power then, and started again. -/
def backupRestarted : Signer plainDeviceLib PlainSlot :=
  backupConsolidated.restart backupStored (plainSigner 0).nonceSlots

/-- Operations that take no staged mutations write nothing. -/
theorem Life.runs {past trace : List (Entry D)} {stored : LogContents D.Cipher D.Backup}
    [NonceStreamSlot S SeedMaterial SignatureShare] {symmKeygen : DeviceSecretDerivation}
    {s : Signer D S} (h : Life symmKeygen past trace stored s) {ops : List (Op D)}
    (hops : s.Runs symmKeygen trace ops)
    (hwrites : ∀ op ∈ ops, ∀ s : Signer D S, op.writes s = []) :
    Life symmKeygen past (trace ++ s.entriesOf symmKeygen ops) stored
      (ops.foldl (Signer.after symmKeygen) s) := by
  induction ops generalizing s trace with
  | nil => simpa only [Signer.entriesOf, List.append_nil, List.foldl_nil] using h
  | cons op ops ih =>
      obtain ⟨hop, ⟨⟨sends, s'⟩, hstep⟩, hrest⟩ := hops
      have hafter : Life symmKeygen past (trace ++ [s.entryOf symmKeygen op]) stored
          (s.after symmKeygen op) := by
        have h' := h.step hop hstep
        rw [hwrites op List.mem_cons_self] at h'
        rw [Signer.after, Signer.entryOf, hstep]
        exact h'
      have h' := ih hafter hrest fun op' hop' => hwrites op' (List.mem_cons_of_mem _ hop')
      rwa [List.append_assoc] at h'

theorem life_backupRestarted :
    Life plainDerivation ([] ++ backupTrace) [] backupStored backupRestarted :=
  have hnew : Life plainDerivation [] [] .empty (plainSigner 0) :=
    .new (plainSigner 0) (plainSigner_started 0).ordinary
  .restart (hnew.runs backupOps_runs (by simp [backupOps, Op.writes])) List.prefix_rfl
    (plainSigner_started 0).ordinary

/-- The device has saved a share of that key only. -/
theorem eq_of_saved_backupTrace {root : SharedKey} {secretShare : SecretShare}
    (h : Saved plainDerivation backupRestarted.keypair ([] ++ backupTrace ++ []) root
      secretShare) :
    root = nineKey := by
  have hops : ([] ++ backupTrace ++ []).map Entry.op = backupOps := rfl
  rcases h.told with ⟨begin, rng, seeds, hmem⟩ | ⟨consolidate, rng, seeds, hmem, rfl⟩
  · rw [hops, backupOps] at hmem
    simp only [List.mem_cons, List.not_mem_nil, or_false, reduceCtorEq, false_or] at hmem
    rcases hmem with hmem | hmem <;> cases hmem
  · rw [hops, backupOps] at hmem
    simp only [List.mem_cons, List.not_mem_nil, or_false, reduceCtorEq, false_or] at hmem
    rcases hmem with hmem | hmem
    · cases hmem
    · cases hmem
      rfl

theorem plainLib_rootkey (key : SymmetricKey) (point : Point) (rng : ℕ) :
    plainLib.decryptRootkey key (plainLib.encryptRootkey key point rng) = some point := by
  have hkey : (point ++ key.setWidth 224).setWidth 224 = key.setWidth 224 := by
    rw [BitVec.setWidth_append, dif_pos (Nat.le_refl _), BitVec.setWidth_eq]
  have hpoint : (point ++ key.setWidth 224).extractLsb' 224 264 = point := by
    ext i hi
    simp only [BitVec.getElem_extractLsb', BitVec.getLsbD_append]
    rw [if_neg (by omega), Nat.add_sub_cancel_left, BitVec.getLsbD_eq_getElem]
  have hdecrypt : plainLib.decryptRootkey key (plainLib.encryptRootkey key point rng) =
      if (point ++ key.setWidth 224).setWidth 224 = key.setWidth 224 then
        some ((point ++ key.setWidth 224).extractLsb' 224 264)
      else none := rfl
  rw [hdecrypt, if_pos hkey, hpoint]

theorem receives_plainDeviceLib : Receives plainDeviceLib := by
  intro receiver certificate certifiedKeygen secretShare h
  have hfinalize : plainDeviceLib.finalize receiver certificate =
      if certificate.size ≠ receiver.certifier.receiverKeys.length + 1 then
        .error "certificates are missing"
      else .ok ({ receiver.certifier with certificates := certificate.toList },
        receiver.share) := rfl
  rw [hfinalize] at h
  split at h
  · cases h
  · cases h
    rfl

/-- After its restart, the share decrypts with what the coordinator contributes for the key that it
has restored. -/
theorem share_decryption_agrees_of_backup :
    ∃ a root share secretShare,
      (oneShareRestoring.after finishOneShare).getAccessStructure oneShareRef = some a ∧
      backupRestarted.keys.getEncryptedShare oneShareRef 1 = some share ∧
      Contributes (oneShareRestoring.after finishOneShare) 0 oneShareRef 1 1 root ∧
      decryptShare plainDeviceLib share oneShareRef
        (CoordShareDecryptionContrib.forMasterShare plainLib 1 1 root) plainDerivation =
          some secretShare := by
  have hinstalled : ((oneShareRestoring.after finishOneShare).getAccessStructure
      oneShareRef).any fun a => decide (a.deviceToShareIndex[(1 : DeviceId)]? = some 1) := by
    decide +kernel
  have hheld : (backupRestarted.keys.getEncryptedShare oneShareRef 1).isSome := by
    decide +kernel
  have hwith : oneShareInstalled.encryptionKeys[oneShareRef.keyId]? = some 0 := by decide +kernel
  obtain ⟨a, ha, hindex⟩ := (Option.any_eq_true _ _).1 hinstalled
  obtain ⟨share, hshare⟩ := Option.isSome_iff_exists.1 hheld
  have hsole (root : SharedKey) (hroot : root ∈ oneShareInstalled.roots ∨ ∃ secretShare,
      Saved plainDerivation backupRestarted.keypair ([] ++ backupTrace ++ []) root secretShare) :
      root = nineKey := by
    rcases hroot with hroot | ⟨secretShare, hsaved⟩
    · rw [roots_oneShareInstalled] at hroot
      exact List.mem_singleton.1 hroot
    · exact eq_of_saved_backupTrace hsaved
  obtain ⟨root, -, encryptionKey, -, hwith', -, hcontributes, hdecrypts⟩ :=
    share_decryption_agrees plainLib_rootkey plainDeviceLib_aead receives_plainDeviceLib
      installs_oneShare life_backupRestarted
      (.of_eq (List.cons_ne_nil _ _) hsole) ha
  have hkey : encryptionKey = 0 := Option.some.inj (hwith'.symm.trans hwith)
  rw [hkey] at hcontributes
  obtain ⟨secretShare, -, -, -, hdecrypt⟩ := hdecrypts 1 share hshare
  exact ⟨a, root, share, secretShare, ha, hshare,
    hcontributes 1 1 (of_decide_eq_true hindex), hdecrypt⟩

end

end Device

end Frostsnap
