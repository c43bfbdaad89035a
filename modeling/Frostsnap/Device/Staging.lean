import Frostsnap.Device.KeygenTrace

/-!
# What a device stages

The keys and the saved backups of a device only ever change by mutations, and every mutation is
staged. What a device tells the coordinator about them (that a backup is saved, that one is
consolidated, which shares are held) is true of them once the message has been handled.

## Main results

* `Handled`: what handling a message or an action of the user stages and acknowledges.
* `Signer.recvCoordinatorMessage_handled`, `Signer.finishConsolidation_handled`: and so on.
-/

namespace Frostsnap

/-! ### What mutations change -/

/-- What a device has that is kept in its log. -/
structure Kept (Cipher Backup : Type) where
  keys : Keys Cipher
  savedBackups : BTreeMap ShareImage (SavedBackup2 Backup)

section Kept

variable {S Cipher Backup : Type}

def FrostSigner.kept (s : FrostSigner S Cipher Backup) : Kept Cipher Backup where
  keys := s.keys
  savedBackups := s.restoration.savedBackups

variable [ShareBackup Backup]

/-- Save a backup under the image of its share. -/
def Kept.insertBackup (kept : Kept Cipher Backup) (savedBackup : SavedBackup2 Backup) :
    Kept Cipher Backup :=
  { kept with
    savedBackups := kept.savedBackups.insert (shareImage savedBackup.shareBackup) savedBackup }

/-- What a mutation does. -/
def Kept.applyMutation (kept : Kept Cipher Backup) : Mutation Cipher Backup → Kept Cipher Backup
  | .keygen (.saveShare m) =>
      { keys := kept.keys.apply (.saveShare m)
        savedBackups := kept.savedBackups.erase m.encryptedSecretShare.shareImage }
  | .keygen m => { kept with keys := kept.keys.apply m }
  | .restoration (.save legacy) => kept.insertBackup legacy.toSavedBackup2
  | .restoration (.save2 savedBackup) => kept.insertBackup savedBackup
  | .restoration (.unSave _) => kept

theorem FrostSigner.kept_applyMutation (s : FrostSigner S Cipher Backup)
    (m : Mutation Cipher Backup) : (s.applyMutation m).1.kept = s.kept.applyMutation m := by
  cases m with
  | keygen m => cases m <;> rfl
  | restoration m => cases m <;> rfl

theorem FrostSigner.kept_mutate (s : FrostSigner S Cipher Backup) (m : Mutation Cipher Backup) :
    (s.mutate m).kept = s.kept.applyMutation m := by
  cases m with
  | keygen m => cases m <;> rfl
  | restoration m => cases m <;> rfl

/-- What is staged for a mutation does what the mutation does. -/
theorem FrostSigner.mutations_mutate (s : FrostSigner S Cipher Backup)
    (m : Mutation Cipher Backup) :
    ∃ m' : Mutation Cipher Backup, (s.mutate m).mutations = s.mutations ++ [m'] ∧
      ∀ kept : Kept Cipher Backup, kept.applyMutation m' = kept.applyMutation m := by
  cases m with
  | keygen m => cases m <;> exact ⟨_, rfl, fun _ => rfl⟩
  | restoration m => cases m <;> exact ⟨_, rfl, fun _ => rfl⟩

end Kept

namespace Device

attribute [local instance] Build.release

variable {L : FrostLib} {D : DeviceLib L} {S : Type}

/-- The shares that are held. -/
def heldSharesOf (kept : Kept D.Cipher D.Backup) : List HeldShare2 :=
  let ofKeys := kept.keys.toList.flatMap fun (keyId, keyData) =>
    keyData.accessStructures.toList.flatMap fun (accessStructureId, accessStructure) =>
      accessStructure.shares.values.filterMap fun share =>
        if accessStructure.kind = .master then
          some
            { keyName := some keyData.keyName
              shareImage := share.shareImage
              accessStructureRef := some
                { accessStructureId := accessStructureId, keyId := keyId }
              threshold := some accessStructure.threshold
              purpose := some keyData.purpose
              needsConsolidation := false : HeldShare2 }
        else none
  let ofBackups := kept.savedBackups.toList.map fun (shareImage, savedBackup) =>
    { keyName := savedBackup.keyName
      accessStructureRef := none
      shareImage := shareImage
      threshold := savedBackup.threshold
      purpose := savedBackup.purpose
      needsConsolidation := true : HeldShare2 }
  ofKeys ++ ofBackups

theorem Signer.heldShares_eq (s : Signer D S) : s.heldShares = heldSharesOf s.kept := rfl

/-- What a message to the coordinator says of the keys and backups is so. -/
def Acknowledges (kept : Kept D.Cipher D.Backup) : Coordinator.DeviceToCoordinatorMessage L → Prop
  | .restoration (.physicalSaved image) => image ∈ kept.savedBackups
  | .restoration (.finishedConsolidation ref index) =>
      (kept.keys.getEncryptedShare ref index).isSome
  | .restoration (.heldShares2 shares) => shares = heldSharesOf kept
  | _ => True

/-- A backup that was entered is known by the image of its share. -/
def Signer.LoadedByImage (s : Signer D S) : Prop :=
  ∀ (image : ShareImage) (backup : D.Backup),
    s.restoration.tmpLoadedBackups[image]? = some backup → D.backupShareImage backup = image

/-- Mutations were staged, and are what has changed. -/
structure Stages (s s' : Signer D S) (ms : List (Mutation D.Cipher D.Backup)) : Prop where
  mutations : s'.mutations = s.mutations ++ ms
  kept : s'.kept = ms.foldl Kept.applyMutation s.kept

theorem Stages.refl (s : Signer D S) : Stages s s [] := ⟨(List.append_nil _).symm, rfl⟩

theorem Stages.trans {s t u : Signer D S} {ms ms' : List (Mutation D.Cipher D.Backup)}
    (h : Stages s t ms) (h' : Stages t u ms') : Stages s u (ms ++ ms') where
  mutations := by rw [h'.mutations, h.mutations, List.append_assoc]
  kept := by rw [h'.kept, h.kept, List.foldl_append]

/-- Only the keys, the backups and what is staged matter. -/
theorem Stages.of_same {s t u : Signer D S} {ms : List (Mutation D.Cipher D.Backup)}
    (h : Stages t u ms) (hmutations : t.mutations = s.mutations) (hkept : t.kept = s.kept) :
    Stages s u ms :=
  ⟨hmutations ▸ h.mutations, hkept ▸ h.kept⟩

theorem stages_mutate (s : Signer D S) (m : Mutation D.Cipher D.Backup) :
    ∃ ms, Stages s (s.mutate m) ms := by
  obtain ⟨m', hstaged, hm'⟩ := s.toFrostSigner.mutations_mutate m
  refine ⟨[m'], hstaged, ?_⟩
  rw [List.foldl_cons, List.foldl_nil, hm']
  exact s.toFrostSigner.kept_mutate m

theorem stages_saveCompleteShare (s : Signer D S) (phase : KeyGenPhase4 D) :
    ∃ ms, Stages s (s.saveCompleteShare phase) ms := by
  obtain ⟨_, hkey⟩ := stages_mutate s (.keygen
    (.newKey phase.accessStructureRef.keyId phase.keyName phase.keyPurpose))
  obtain ⟨_, haccess⟩ := stages_mutate (s.mutate _) (.keygen
    (.newAccessStructure phase.accessStructureRef phase.threshold phase.accessStructureKind))
  obtain ⟨_, hshare⟩ := stages_mutate (Signer.mutate (s.mutate _) _) (.keygen (.saveShare
    { accessStructureRef := phase.accessStructureRef
      encryptedSecretShare := phase.encryptedSecretShare }))
  exact ⟨_, (hkey.trans haccess).trans hshare⟩

/-! ### Handlers -/

/-- Something was handled: what has changed was staged, and what is acknowledged is so. -/
structure Handled (s s' : Signer D S) (sends : List (DeviceSend D)) : Prop where
  stages : ∃ ms, Stages s s' ms
  loaded : s'.LoadedByImage
  acknowledges : ∀ m, .toCoordinator m ∈ sends → Acknowledges s'.kept m

variable {s s' : Signer D S} {sends : List (DeviceSend D)}

/-- Nothing was changed that is kept, and nothing acknowledged. -/
theorem Handled.of_same (hmutations : s'.mutations = s.mutations) (hkept : s'.kept = s.kept)
    (hloaded : s'.LoadedByImage)
    (hsends : ∀ (kept : Kept D.Cipher D.Backup) m, .toCoordinator m ∈ sends →
      Acknowledges kept m) :
    Handled s s' sends where
  stages := ⟨[], hmutations.trans (List.append_nil _).symm, hkept⟩
  loaded := hloaded
  acknowledges := hsends _

theorem handled_tellUser {m : DeviceToUserMessage D} {r : Except Error (List (DeviceSend D))}
    (hloaded : s.LoadedByImage) (h : s.tellUser m = .ret (r, s')) (hr : r = .ok sends) :
    Handled s s' sends := by
  cases h
  cases hr
  refine .of_same rfl rfl hloaded fun kept m' hm' => ?_
  cases List.mem_singleton.1 hm'

theorem not_refuse {kind reason : String} {r : Except Error (List (DeviceSend D))} {P : Prop}
    (h : s.refuse kind reason = .ret (r, s')) (hr : r = .ok sends) : P := by
  cases h
  cases hr

/-- One message that is sent to the coordinator. -/
theorem forall_toCoordinator_singleton {P : Coordinator.DeviceToCoordinatorMessage L → Prop}
    {message : Coordinator.DeviceToCoordinatorMessage L} (h : P message) :
    ∀ m, DeviceSend.toCoordinator m ∈ [(.toCoordinator message : DeviceSend D)] → P m := by
  intro m hm
  obtain rfl := DeviceSend.toCoordinator.inj (List.mem_singleton.1 hm)
  exact h

namespace Signer

variable {r : Except Error (List (DeviceSend D))}

/-- Saving a backup that was entered. -/
theorem savePhysicalBackup2_handled {heldShare : HeldShare2} {kind : String}
    (hloaded : s.LoadedByImage) (h : s.savePhysicalBackup2 heldShare kind = .ret (r, s'))
    (hr : r = .ok sends) : Handled s s' sends := by
  rw [savePhysicalBackup2] at h
  split at h
  · exact not_refuse h hr
  · rename_i shareBackup hbackup
    cases h
    cases hr
    have himage := hloaded _ _ hbackup
    refine ⟨?_, fun image backup hget => ?_, fun m hm => ?_⟩
    · obtain ⟨ms, hms⟩ := stages_mutate
        ({ s with
          restoration.tmpLoadedBackups :=
            s.restoration.tmpLoadedBackups.erase heldShare.shareImage } : Signer D S) _
      exact ⟨ms, hms.of_same rfl rfl⟩
    · refine hloaded image backup ?_
      change (s.restoration.tmpLoadedBackups.erase heldShare.shareImage)[image]? = _ at hget
      rw [Std.ExtTreeMap.getElem?_erase] at hget
      split at hget
      · cases hget
      · exact hget
    · rcases List.mem_cons.1 hm with hm | hm
      · cases hm
      · obtain rfl := DeviceSend.toCoordinator.inj (List.mem_singleton.1 hm)
        show heldShare.shareImage ∈
          s.restoration.savedBackups.insert (D.backupShareImage shareBackup) _
        rw [himage]
        exact Std.ExtTreeMap.mem_insert_self

/-- Messages about backups. -/
theorem recvRestorationMessage_handled {m : CoordinatorRestoration} (hloaded : s.LoadedByImage)
    (h : s.recvRestorationMessage m = .ret (r, s')) (hr : r = .ok sends) :
    Handled s s' sends := by
  cases m with
  | enterPhysicalBackup enterPhysicalId => exact handled_tellUser hloaded h hr
  | savePhysicalBackup shareImage keyName purpose threshold =>
      exact savePhysicalBackup2_handled hloaded h hr
  | savePhysicalBackup2 heldShare => exact savePhysicalBackup2_handled hloaded h hr
  | consolidate consolidate =>
      rw [recvRestorationMessage, Signer.consolidate] at h
      dsimp only at h
      split at h
      · split at h
        · exact not_refuse h hr
        · split at h
          · exact not_refuse h hr
          · exact handled_tellUser hloaded h hr
      · split at h
        · exact not_refuse h hr
        · rename_i hsome
          cases h
          cases hr
          refine ⟨⟨[], .refl s⟩, hloaded, forall_toCoordinator_singleton ?_⟩
          rw [Option.isNone_iff_eq_none, ← ne_eq, ← Option.isSome_iff_ne_none] at hsome
          exact hsome
  | displayBackup ref contrib shareIndex rootSharedKey =>
      rw [recvRestorationMessage] at h
      split at h
      · exact not_refuse h hr
      · exact handled_tellUser hloaded h hr
  | checkBackup contrib shareIndex rootSharedKey =>
      rw [recvRestorationMessage] at h
      split at h
      · exact not_refuse h hr
      · exact handled_tellUser hloaded h hr
  | requestHeldShares =>
      cases h
      cases hr
      exact ⟨⟨[], .refl s⟩, hloaded, forall_toCoordinator_singleton s.heldShares_eq⟩

/-- Messages of a key generation. -/
theorem recvKeygenMessage_handled {m : Keygen L} {rng : L.Rng} (hloaded : s.LoadedByImage)
    (h : s.recvKeygenMessage m rng = .ret (r, s')) (hr : r = .ok sends) : Handled s s' sends := by
  cases m with
  | begin begin =>
      rcases keygenBegin_cases h with ⟨e, rfl, -⟩ | ⟨_, _, _, _, -, rfl, rfl⟩
      · cases hr
      · cases hr
        exact .of_same rfl rfl hloaded fun _ => forall_toCoordinator_singleton trivial
  | certifyPlease keygenId aggInput =>
      rcases keygenCertifyPlease_cases h with ⟨e, rfl, -⟩ | ⟨_, _, _, -, -, rfl, rfl⟩
      · cases hr
      · cases hr
        exact .of_same rfl rfl hloaded fun _ => forall_toCoordinator_singleton trivial
  | check keygenId certificate =>
      rcases keygenCheck_cases h with ⟨e, rfl, -⟩ | ⟨_, _, _, -, -, rfl, rfl⟩
      · cases hr
      · cases hr
        exact .of_same rfl rfl hloaded fun _ m hm => by cases List.mem_singleton.1 hm
  | finalize keygenId =>
      rcases keygenFinalize_cases h with ⟨e, rfl, -⟩ | ⟨_, phase4, -, rfl, rfl⟩
      · cases hr
      · cases hr
        have hstages := stages_saveCompleteShare
          ({ s with
            keygen.tmpKeygenPendingFinalize :=
              s.keygen.tmpKeygenPendingFinalize.erase keygenId } : Signer D S) phase4
        refine ⟨?_, fun image backup hget => ?_, fun m hm => by cases List.mem_singleton.1 hm⟩
        · obtain ⟨ms, hms⟩ := hstages
          exact ⟨ms, hms.of_same rfl rfl⟩
        · refine hloaded image backup ?_
          change (s.restoration.tmpLoadedBackups.erase
            phase4.encryptedSecretShare.shareImage)[image]? = _ at hget
          rw [Std.ExtTreeMap.getElem?_erase] at hget
          split at hget
          · cases hget
          · exact hget

/-- A backup was entered. -/
theorem tellCoordinatorAboutBackupLoadResult_handled (hloaded : s.LoadedByImage)
    (phase : EnterBackupPhase) (shareBackup : D.Backup) :
    Handled s (s.tellCoordinatorAboutBackupLoadResult phase shareBackup).2
      (s.tellCoordinatorAboutBackupLoadResult phase shareBackup).1 := by
  refine .of_same rfl rfl (fun image backup hget => ?_)
    fun _ => forall_toCoordinator_singleton trivial
  change (s.restoration.tmpLoadedBackups.insert _ shareBackup)[image]? = _ at hget
  rw [BTreeMap.getElem?_insert] at hget
  split at hget
  · rename_i himage
    obtain rfl := Option.some.inj hget
    exact himage
  · exact hloaded image backup hget

/-- A backup is consolidated. -/
theorem finishConsolidation_handled (hloaded : s.LoadedByImage)
    (symmKeygen : DeviceSecretDerivation) (phase : ConsolidatePhase) (rng : L.Rng) :
    Handled s (s.finishConsolidation symmKeygen phase rng).2
      (s.finishConsolidation symmKeygen phase rng).1 := by
  refine ⟨stages_saveCompleteShare s _, fun image backup hget => ?_,
    forall_toCoordinator_singleton ?_⟩
  · refine hloaded image backup ?_
    change (s.restoration.tmpLoadedBackups.erase _)[image]? = _ at hget
    rw [Std.ExtTreeMap.getElem?_erase] at hget
    split at hget
    · cases hget
    · exact hget
  · exact Option.isSome_iff_exists.2
      ⟨_, getEncryptedShare_saveCompleteShare.2 (.inl ⟨rfl, rfl, rfl⟩)⟩

/-- The user agrees to a key generation. -/
theorem keygenAck_handled {phase : KeyGenPhase3} {symmKeygen : DeviceSecretDerivation}
    {rng : L.Rng} {ack : Coordinator.DeviceToCoordinatorMessage L} (hloaded : s.LoadedByImage)
    (h : s.keygenAck phase symmKeygen rng = .ret (.ok ack, s')) :
    Handled s s' [.toCoordinator ack] := by
  obtain ⟨hack, rfl⟩ := keygenAck_eq_ret h
  obtain rfl := Except.ok.inj hack
  exact .of_same rfl rfl hloaded fun _ => forall_toCoordinator_singleton trivial

section Signing

variable [NonceStreamSlot S SeedMaterial SignatureShare]

/-- The user agrees to sign. -/
theorem signAck_handled {phase : SignPhase1 D} {symmKeygen : DeviceSecretDerivation}
    (hloaded : s.LoadedByImage) (h : s.signAck phase symmKeygen = .ret (.ok sends, s')) :
    Handled s s' sends := by
  rw [signAck] at h
  dsimp only at h
  split at h
  · cases h
  · obtain ⟨signed, -, h⟩ := Exec.bind_eq_ret_iff.1 h
    cases signed with
    | error e => cases h
    | ok out =>
        obtain ⟨⟨signatureShares, replenishTask⟩, nonceSlots⟩ := out
        obtain ⟨replenishNonces, -, h⟩ := Exec.bind_eq_ret_iff.1 h
        cases h
        exact .of_same rfl rfl hloaded fun _ => forall_toCoordinator_singleton trivial

theorem recvOpenNonceStreams_handled {streams : List CoordNonceStreamState}
    {seeds : ℕ → SeedMaterial} (hloaded : s.LoadedByImage)
    (h : s.recvOpenNonceStreams streams seeds = .ret (r, s')) (hr : r = .ok sends) :
    Handled s s' sends := by
  rw [recvOpenNonceStreams] at h
  obtain ⟨⟨nonceSlots, reply⟩, -, h⟩ := Exec.bind_eq_ret_iff.1 h
  cases reply with
  | nonceResponse segments =>
      cases h
      cases hr
      exact .of_same rfl rfl hloaded fun _ => forall_toCoordinator_singleton trivial
  | nonceJobs batch =>
      cases h
      cases hr
      exact .of_same rfl rfl hloaded fun _ m hm => by cases List.mem_singleton.1 hm

/-- **Every message of the coordinator.** -/
theorem recvCoordinatorMessage_handled {message : CoordinatorToDeviceMessage L} {rng : L.Rng}
    {seeds : ℕ → SeedMaterial} (hloaded : s.LoadedByImage)
    (h : s.recvCoordinatorMessage message rng seeds = .ret (.ok sends, s')) :
    Handled s s' sends := by
  cases message with
  | keyGen m => exact recvKeygenMessage_handled hloaded h rfl
  | restoration m => exact recvRestorationMessage_handled hloaded h rfl
  | signing m =>
      cases m with
      | openNonceStreams streams => exact recvOpenNonceStreams_handled hloaded h rfl
      | requestSign requestSign =>
          change s.recvRequestSign requestSign = _ at h
          rw [recvRequestSign] at h
          obtain ⟨checked, -, h⟩ := Exec.bind_eq_ret_iff.1 h
          cases checked with
          | error e => exact not_refuse h rfl
          | ok phase => exact handled_tellUser hloaded h rfl
  | screenVerify m =>
      cases m with
      | verifyAddress masterAppkey derivationIndex =>
          change s.recvVerifyAddress masterAppkey derivationIndex = _ at h
          rw [recvVerifyAddress] at h
          dsimp only at h
          split at h
          · exact not_refuse h rfl
          · obtain ⟨network, -, h⟩ := Exec.bind_eq_ret_iff.1 h
            obtain ⟨address, -, h⟩ := Exec.bind_eq_ret_iff.1 h
            exact handled_tellUser hloaded h rfl

end Signing

end Signer

end Device

end Frostsnap
