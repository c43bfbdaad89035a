import Frostsnap.Bitcoin.Disclosure
import Frostsnap.Device.KeygenTrace
import Frostsnap.Device.NonceWork

/-!
# Messages that a device can answer

A device checks a message and refuses it with an error. What it does not check is whether the nonce
indices leave room in a `u32`, whether a request has a nonce for each signature, whether a key is
for bitcoin before showing an address of it, and how many receivers a key generation has. There it
panics, for a signature only after the user has agreed.

## Main results

* `Reach.ordinary`, `Reach.indexed`: what holds of the nonces and keys of a device at any time.
* `Signer.recvRequestSign_cases`: what a signing request that is accepted has to be.
* `Reach.answered_iff`: a message is answered, and what follows from it, exactly when it fits.
-/

namespace Frostsnap

namespace AbSlots

variable {Seed SecretNonce Nonce Share Item S : Type} [NonceStreamSlot S Seed Share]

/-! ### Slots stay ordinary -/

theorem Ordinary.openOrdered {ab ab' : AbSlots S} (hord : ab.Ordinary) {nonceBatchSize : ℕ}
    {streams : List CoordNonceStreamState} {rng : ℕ → Seed} {tasks : List (NonceJob Seed Nonce)}
    (h : AbSlots.openOrdered nonceBatchSize streams rng ab = .ret (ab', tasks)) :
    ab'.Ordinary := by
  induction streams generalizing ab rng tasks with
  | nil =>
      cases h
      exact hord
  | cons state rest ih =>
      obtain ⟨ab₁, task, later, hopen, hrest, -⟩ := openOrdered_cons h
      obtain ⟨⟨ab₂, i⟩, hget, hopen⟩ := Exec.bind_eq_ret_iff.1 hopen
      dsimp only at hopen
      split at hopen
      · cases hopen
      · obtain ⟨task', -, hopen⟩ := Exec.bind_eq_ret_iff.1 hopen
        cases hopen
        exact ih (hord.getOrCreate hget) hrest

theorem Ordinary.recvOpenNonceStreams {ab ab' : AbSlots S} (hord : ab.Ordinary)
    {nonceBatchSize : ℕ} {streams : List CoordNonceStreamState} {rng : ℕ → Seed}
    {reply : OpenReply Seed Nonce}
    (h : ab.recvOpenNonceStreams streams nonceBatchSize rng = .ret (ab', reply)) :
    ab'.Ordinary := by
  rw [recvOpenNonceStreams_eq] at h
  obtain ⟨⟨ab₁, tasks⟩, hloop, h⟩ := Exec.bind_eq_ret_iff.1 h
  cases h
  exact hord.openOrdered hloop

theorem Ordinary.signSessions [DecidableEq Seed] [DecidableEq Share] {ab ab' : AbSlots S}
    (hord : ab.Ordinary) {d : NonceDerivation Seed SecretNonce Nonce}
    {sign : Item → SecretNonce → Share} {sessionId : SignSessionId}
    {state : CoordNonceStreamState} {sessions : List (Exec Item)} {nonceBatchSize : ℕ}
    {out : SignOutput Seed Nonce Share}
    (h : ab.signSessions d sign sessionId state sessions nonceBatchSize = .ret (.ok (out, ab'))) :
    ab'.Ordinary := by
  have hsigned {items : List Item} (h : ab.signGuaranteeingNoncesDestroyed d sign sessionId state
      items nonceBatchSize = .ret (.ok (out, ab'))) : ab'.Ordinary :=
    (hord.slotsLeft d sign sessionId state items ab.lastUsed).congr (sign_slots h)
  rw [AbSlots.signSessions] at h
  split at h
  · exact hsigned h
  · split at h
    · exact hsigned h
    · obtain ⟨items, -, h⟩ := Exec.bind_eq_ret_iff.1 h
      exact hsigned h

end AbSlots

namespace Device

attribute [local instance] Build.release

variable {L : FrostLib} {D : DeviceLib L} {S : Type} [NonceStreamSlot S SeedMaterial SignatureShare]
  {s s' : Signer D S} {symmKeygen : DeviceSecretDerivation}

namespace Signer

omit [NonceStreamSlot S SeedMaterial SignatureShare] in
/-- A key generation leaves nonces alone. -/
theorem recvKeygenMessage_nonceSlots {m : Keygen L} {rng : L.Rng}
    {r : Except Error (List (DeviceSend D))} (h : s.recvKeygenMessage m rng = .ret (r, s')) :
    s'.nonceSlots = s.nonceSlots := by
  cases m with
  | begin begin =>
      rcases keygenBegin_cases h with ⟨_, -, rfl⟩ | ⟨_, _, _, _, -, -, rfl⟩
      · rfl
      · rfl
  | certifyPlease keygenId aggInput =>
      rcases keygenCertifyPlease_cases h with ⟨_, -, rfl | rfl⟩ | ⟨_, _, _, -, -, -, rfl⟩
      · rfl
      · rfl
      · rfl
  | check keygenId certificate =>
      rcases keygenCheck_cases h with ⟨_, -, rfl | rfl⟩ | ⟨_, _, _, -, -, -, rfl⟩
      · rfl
      · rfl
      · rfl
  | finalize keygenId =>
      rcases keygenFinalize_cases h with ⟨_, -, rfl⟩ | ⟨_, _, -, -, rfl⟩
      · rfl
      · rfl

theorem recvCoordinatorMessage_ordinary {message : CoordinatorToDeviceMessage L} {rng : L.Rng}
    {seeds : ℕ → SeedMaterial} {r : Except Error (List (DeviceSend D))}
    (hord : s.nonceSlots.Ordinary)
    (h : s.recvCoordinatorMessage message rng seeds = .ret (r, s')) : s'.nonceSlots.Ordinary := by
  cases message with
  | keyGen m =>
      rw [recvKeygenMessage_nonceSlots h]
      exact hord
  | signing m =>
      cases m with
      | requestSign requestSign =>
          rw [(recvRequestSign_untouched h).nonceSlots]
          exact hord
      | openNonceStreams streams =>
          obtain ⟨⟨nonceSlots, reply⟩, hopen, h⟩ := Exec.bind_eq_ret_iff.1 h
          cases reply with
          | nonceResponse segments =>
              cases h
              exact hord.recvOpenNonceStreams hopen
          | nonceJobs batch =>
              cases h
              exact hord.recvOpenNonceStreams hopen
  | restoration m =>
      rw [(recvRestorationMessage_untouched h).nonceSlots]
      exact hord
  | screenVerify m =>
      cases m with
      | verifyAddress masterAppkey derivationIndex =>
          rw [(recvVerifyAddress_untouched h).nonceSlots]
          exact hord

theorem signAck_ordinary {phase : SignPhase1 D} {r : Except ActionError (List (DeviceSend D))}
    (hord : s.nonceSlots.Ordinary) (h : s.signAck phase symmKeygen = .ret (r, s')) :
    s'.nonceSlots.Ordinary := by
  rw [signAck] at h
  dsimp only at h
  split at h
  · cases h
    exact hord
  · obtain ⟨signed, hsigned, h⟩ := Exec.bind_eq_ret_iff.1 h
    cases signed with
    | error e =>
        cases h
        exact hord
    | ok out =>
        obtain ⟨⟨signatureShares, replenishTask⟩, nonceSlots⟩ := out
        obtain ⟨replenishNonces, -, h⟩ := Exec.bind_eq_ret_iff.1 h
        cases h
        exact hord.signSessions hsigned

theorem step_ordinary {op : Op D} {sends : Option (List (DeviceSend D))}
    (hord : s.nonceSlots.Ordinary) (h : s.step symmKeygen op = .ret (sends, s')) :
    s'.nonceSlots.Ordinary := by
  cases op with
  | recvCoordinatorMessage message rng seeds =>
      obtain ⟨⟨r, t⟩, hrecv, h⟩ := Exec.bind_eq_ret_iff.1 h
      cases h
      exact recvCoordinatorMessage_ordinary hord hrecv
  | keygenAck phase rng =>
      obtain ⟨⟨r, t⟩, hack, h⟩ := Exec.bind_eq_ret_iff.1 h
      cases h
      obtain ⟨-, rfl⟩ := keygenAck_eq_ret hack
      exact hord
  | signAck phase =>
      obtain ⟨⟨r, t⟩, hack, h⟩ := Exec.bind_eq_ret_iff.1 h
      cases h
      exact signAck_ordinary hord hack
  | backupEntered phase shareBackup =>
      cases h
      exact hord
  | finishConsolidation phase rng =>
      cases h
      exact hord
  | clearTmpData =>
      cases h
      exact hord
  | takeStagedMutations =>
      cases h
      exact hord

end Signer

/-- At any time, no stream is in two slots and the slots are filled from the front. -/
theorem Reach.ordinary {s₀ : Signer D S} {trace : List (Entry D)} (hs₀ : Started s₀)
    (h : Reach symmKeygen s₀ s trace) : s.nonceSlots.Ordinary := by
  induction h with
  | start => exact hs₀.ordinary
  | step h hop hstep ih => exact Signer.step_ordinary ih hstep

omit [NonceStreamSlot S SeedMaterial SignatureShare] in
/-- Shares are kept under their indices. -/
def Indexed (keys : Keys D.Cipher) : Prop :=
  ∀ (ref : AccessStructureRef) (index : ShareIndex) (share : EncryptedSecretShare D.Cipher),
    keys.getEncryptedShare ref index = some share → share.shareImage.index = index

/-- Keys that are read from flash are, whatever the mutations there. -/
theorem indexed_apply (mutations : List (KeyMutation D.Cipher)) :
    Indexed (mutations.foldl Keys.apply (∅ : Keys D.Cipher)) := by
  have hstep (keys : Keys D.Cipher) (m : KeyMutation D.Cipher) (h : Indexed keys) :
      Indexed (keys.apply m) := by
    intro ref index share hshare
    cases m with
    | newKey keyId keyName purpose =>
        rw [Keys.apply, Keys.getEncryptedShare_newKey] at hshare
        split at hshare
        · cases hshare
        · exact h ref index share hshare
    | newAccessStructure ref' threshold kind =>
        rw [Keys.apply, Keys.getEncryptedShare_newAccessStructure] at hshare
        split at hshare
        · cases hshare
        · exact h ref index share hshare
    | saveShare m =>
        rw [Keys.apply, Keys.getEncryptedShare_saveShare] at hshare
        split at hshare
        · rename_i hsaved
          obtain rfl := Option.some.inj hshare
          exact hsaved.2.1
        · exact h ref index share hshare
  induction mutations using List.reverseRecOn with
  | nil =>
      intro ref index share hshare
      cases hshare
  | append_singleton mutations m ih =>
      rw [List.foldl_append]
      exact hstep _ m ih

/-- At any time, shares are kept under their indices. -/
theorem Reach.indexed {s₀ : Signer D S} {trace : List (Entry D)} (hs₀ : Started s₀)
    (hkeys : Indexed s₀.keys) (h : Reach symmKeygen s₀ s trace) : Indexed s.keys := by
  intro ref index share hshare
  rcases (h.history hs₀).shares ref index share hshare with hheld | ⟨phase4, hsaves, -⟩
  · exact hkeys ref index share hheld
  · rw [← hsaves.share_eq]
    exact hsaves.index_eq

/-! ### Tasks -/

end Device

namespace Bitcoin

attribute [local instance] Build.release

/-- Sums wrap on a device. -/
theorem sumU64_returns (amounts : List Sats) : (sumU64 amounts).Returns := by
  have hfold : ∀ (l : List Sats) (s₀ : Sats), (l.foldlM (fun sum value =>
      if Build.checks ∧ 2 ^ 64 ≤ sum.toNat + value.toNat then .panic "attempt to add with overflow"
      else .ret (sum + value)) s₀ : Exec Sats).Returns := by
    intro l
    induction l with
    | nil => exact fun s₀ => Exec.returns_ret s₀
    | cons value l ih =>
        intro s₀
        rw [List.foldlM_cons, if_neg fun h => Bool.false_ne_true h.1, Exec.ret_bind]
        exact ih _
  exact hfold amounts 0

/-- A task is checked without a panic. -/
theorem WireSignTask.check_returns (B : BitcoinLib) (task : WireSignTask)
    (masterAppkey : MasterAppkey) (purpose : KeyPurpose) :
    (task.check B masterAppkey purpose).Returns := by
  cases task with
  | test message => exact Exec.returns_ret _
  | nostr event => cases purpose <;> exact Exec.returns_ret _
  | bitcoinTransaction txTemplate =>
      cases purpose with
      | test => exact Exec.returns_ret _
      | nostr => exact Exec.returns_ret _
      | bitcoin network =>
          rw [check]
          dsimp only
          split
          · exact Exec.returns_ret _
          · split
            · exact Exec.returns_ret _
            · rw [TransactionTemplate.fee]
              obtain ⟨inputs, hinputs⟩ :=
                sumU64_returns ((txTemplate.asSeenBy B masterAppkey).inputs.map Input.value)
              obtain ⟨outputs, houtputs⟩ :=
                sumU64_returns ((txTemplate.asSeenBy B masterAppkey).outputs.map Output.value)
              rw [hinputs, Exec.ret_bind, houtputs, Exec.ret_bind, Exec.pure_eq, Exec.ret_bind]
              split
              · exact Exec.returns_ret _
              · exact Exec.returns_ret _

/-- A task that is accepted has something to sign. -/
theorem signItems_pos [Build] {B : BitcoinLib} {task : WireSignTask} {masterAppkey : MasterAppkey}
    {purpose : KeyPurpose} {signTask : CheckedSignTask}
    (h : task.check B masterAppkey purpose = .ret (.ok signTask)) :
    0 < (signTask.signItems B).length := by
  cases task with
  | test message =>
      cases h
      exact Nat.one_pos
  | nostr event =>
      cases purpose with
      | nostr =>
          cases h
          exact Nat.one_pos
      | test => cases h
      | bitcoin network => cases h
  | bitcoinTransaction txTemplate =>
      obtain ⟨network, fee, -, -, hinner, -, hsign, -⟩ := WireSignTask.check_bitcoinTransaction h
      generalize txTemplate.asSeenBy B masterAppkey = t at hinner hsign
      rw [CheckedSignTask.signItems, hinner, List.length_map]
      obtain ⟨input, hinput, hours⟩ := List.any_eq_true.1 hsign
      have hlength : t.inputs.length ≤ (t.iterSighash B).length := by
        rw [TransactionTemplate.iterSighash, List.length_map, List.length_range]
      have hzip : input ∈ (t.inputs.zip (t.iterSighash B)).map Prod.fst := by
        rw [List.map_fst_zip hlength]
        exact hinput
      obtain ⟨⟨input', sighash⟩, hpair, rfl⟩ := List.mem_map.1 hzip
      obtain ⟨owner, howner⟩ := Option.isSome_iff_exists.1 hours
      refine List.length_pos_of_mem (a := (owner, sighash)) ?_
      refine List.mem_filterMap.2 ⟨(input', sighash), hpair, ?_⟩
      dsimp only at howner ⊢
      rw [howner, Option.map_some]

end Bitcoin

namespace Device

attribute [local instance] Build.release

variable {L : FrostLib} {D : DeviceLib L} {S : Type} [NonceStreamSlot S SeedMaterial SignatureShare]
  {s s' : Signer D S} {symmKeygen : DeviceSecretDerivation}

/-! ### Signing requests -/

/-- What is sent that asks for more. -/
def DeviceSend.AboutSigning : DeviceSend D → Prop
  | .toUser (.signatureRequest _) => True
  | .toUser (.nonceJobs _) => True
  | _ => False

omit [NonceStreamSlot S SeedMaterial SignatureShare] in
theorem DeviceSend.AboutBackups.not_aboutSigning {send : DeviceSend D} (h : send.AboutBackups) :
    ¬ send.AboutSigning := by
  cases send with
  | toUser m => cases m <;> first | exact id | exact h.elim
  | toCoordinator m => exact id

/-- The phase of a request that is accepted with a task and a share. -/
def RequestSign.phase (D : DeviceLib L) (req : RequestSign) (signTask : Bitcoin.CheckedSignTask)
    (share : EncryptedSecretShare D.Cipher) : SignPhase1 D where
  groupSignReq :=
    { parties := req.groupSignReq.parties
      aggNonces := req.groupSignReq.aggNonces
      signTask := signTask
      accessStructureId := req.groupSignReq.accessStructureId }
  deviceSignReq := req.deviceSignReq
  encryptedSecretShare := share
  sessionId := D.sessionId req.groupSignReq

namespace Signer

/-- A signing request is accepted with a task and a share: the device has the key, the task is one
for the key, the device has a share of one of the parties, the first of them, and it has the nonce
stream. -/
def Accepts (s : Signer D S) (req : RequestSign) (signTask : Bitcoin.CheckedSignTask)
    (share : EncryptedSecretShare D.Cipher) : Prop :=
  ∃ (keyData : KeyData D.Cipher) (data : AccessStructureData D.Cipher),
    s.keys[keyIdFromRootkey L req.deviceSignReq.rootkey]? = some keyData ∧
    req.groupSignReq.signTask.check D.bitcoin
      (MasterAppkey.deriveFromRootkey L req.deviceSignReq.rootkey) keyData.purpose =
        .ret (.ok signTask) ∧
    keyData.accessStructures[req.groupSignReq.accessStructureId]? = some data ∧
    (req.groupSignReq.parties.toList.findSome? fun party => data.shares[party]?) = some share ∧
    (s.nonceSlots.get req.deviceSignReq.nonces.streamId).isSome

/-- **A signing request** is accepted with the phase that is shown to the user, and is refused
otherwise. -/
theorem recvRequestSign_cases (s : Signer D S) (req : RequestSign) :
    (∃ signTask share, s.Accepts req signTask share ∧
        s.recvRequestSign req = .ret
          (.ok [.toUser (.signatureRequest (req.phase D signTask share))], s)) ∨
      ((∀ signTask share, ¬ s.Accepts req signTask share) ∧
        ∃ e, s.recvRequestSign req = .ret (.error e, s)) := by
  rw [recvRequestSign, checkRequestSign]
  cases hkey : s.keys[keyIdFromRootkey L req.deviceSignReq.rootkey]? with
  | none =>
      refine .inr ⟨fun signTask share h => ?_, _, rfl⟩
      obtain ⟨keyData, -, hkey', -⟩ := h
      rw [hkey] at hkey'
      cases hkey'
  | some keyData =>
      dsimp only
      rw [checkGroupSignReq]
      obtain ⟨checked, hcheck⟩ := Bitcoin.WireSignTask.check_returns D.bitcoin
        req.groupSignReq.signTask (MasterAppkey.deriveFromRootkey L req.deviceSignReq.rootkey)
        keyData.purpose
      rw [hcheck, Exec.ret_bind]
      cases checked with
      | error e =>
          refine .inr ⟨fun signTask share h => ?_, _, rfl⟩
          obtain ⟨keyData', -, hkey', hcheck', -⟩ := h
          obtain rfl := Option.some.inj (hkey.symm.trans hkey')
          rw [hcheck] at hcheck'
          cases hcheck'
      | ok signTask =>
          dsimp only
          rw [Exec.pure_eq, Exec.ret_bind]
          dsimp only
          cases hdata : keyData.accessStructures[req.groupSignReq.accessStructureId]? with
          | none =>
              refine .inr ⟨fun signTask share h => ?_, _, rfl⟩
              obtain ⟨keyData', data, hkey', -, hdata', -⟩ := h
              obtain rfl := Option.some.inj (hkey.symm.trans hkey')
              rw [hdata] at hdata'
              cases hdata'
          | some data =>
              dsimp only
              cases hshare : req.groupSignReq.parties.toList.findSome?
                  fun party => data.shares[party]? with
              | none =>
                  refine .inr ⟨fun signTask share h => ?_, _, rfl⟩
                  obtain ⟨keyData', data', hkey', -, hdata', hshare', -⟩ := h
                  obtain rfl := Option.some.inj (hkey.symm.trans hkey')
                  obtain rfl := Option.some.inj (hdata.symm.trans hdata')
                  rw [hshare] at hshare'
                  cases hshare'
              | some share =>
                  dsimp only
                  cases hstream : s.nonceSlots.get req.deviceSignReq.nonces.streamId with
                  | none =>
                      refine .inr ⟨fun signTask share h => ?_, _, rfl⟩
                      obtain ⟨-, -, -, -, -, -, hstream'⟩ := h
                      rw [hstream] at hstream'
                      cases hstream'
                  | some i =>
                      refine .inl ⟨signTask, share, ⟨keyData, data, hkey, hcheck, hdata, hshare,
                        ?_⟩, rfl⟩
                      rw [hstream]
                      rfl

/-- The share that a request is accepted with is one of a party, which the signing library asks
for. -/
theorem Accepts.party {req : RequestSign} {signTask : Bitcoin.CheckedSignTask}
    {share : EncryptedSecretShare D.Cipher} (hkeys : Indexed s.keys)
    (h : s.Accepts req signTask share) : share.shareImage.index ∈ req.groupSignReq.parties := by
  obtain ⟨keyData, data, hkey, -, hdata, hshare, -⟩ := h
  obtain ⟨party, hparty, hget⟩ := List.exists_of_findSome?_eq_some hshare
  have hheld : s.keys.getEncryptedShare
      { keyId := keyIdFromRootkey L req.deviceSignReq.rootkey
        accessStructureId := req.groupSignReq.accessStructureId } party = some share := by
    simp only [Keys.getEncryptedShare, Keys.accessStructure, hkey, hdata, Option.bind_eq_bind,
      Option.bind_some, hget]
  rw [hkeys _ _ _ hheld]
  exact Std.ExtTreeSet.mem_toList.1 hparty

/-- The device can sign a request that it has accepted with a task and a share: unless the share
cannot be decrypted, or the nonce stream is gone, there is room for the nonces in the slot. -/
def SignFits (s : Signer D S) (symmKeygen : DeviceSecretDerivation) (req : RequestSign)
    (signTask : Bitcoin.CheckedSignTask) (share : EncryptedSecretShare D.Cipher) : Prop :=
  (D.decrypt (symmKeygen.getShareEncryptionKey
      { keyId := keyIdFromRootkey L req.deviceSignReq.rootkey
        accessStructureId := req.groupSignReq.accessStructureId } share.shareImage.index
      req.deviceSignReq.coordShareDecryptionContrib) share.ciphertext).isSome →
    ∀ i v, s.nonceSlots.target req.deviceSignReq.nonces.streamId = some (i, v) →
      SignatureFits v (D.sessionId req.groupSignReq) req.deviceSignReq.nonces
        (signTask.signItems D.bitcoin).length req.groupSignReq.aggNonces.length s.nonceBatchSize

omit [NonceStreamSlot S SeedMaterial SignatureShare] in
/-- There is a session for each item when there is a nonce for each. -/
theorem signSessionsOf_returns_iff {phase : SignPhase1 D} {xpub : Xpub PairedSecretShare} :
    (∀ session ∈ signSessionsOf phase xpub, session.Returns) ↔
      (signSessionsOf phase xpub).length ≤ phase.groupSignReq.aggNonces.length := by
  rw [signSessionsOf]
  dsimp only
  rw [List.length_map, List.length_zipIdx, List.forall_mem_map]
  constructor
  · intro h
    by_contra hlt
    have hi := Nat.lt_of_not_le hlt
    have hmem := List.mk_mem_zipIdx_iff_getElem?.2 (List.getElem?_eq_getElem hi)
    have hreturns := h _ hmem
    rw [List.getElem?_eq_none (Nat.le_refl _), Exec.expect_none, Exec.panic_bind] at hreturns
    exact Exec.not_returns_panic _ hreturns
  · rintro hle ⟨signItem, i⟩ hmem
    obtain ⟨hi, -⟩ := List.getElem?_eq_some_iff.1 (List.mk_mem_zipIdx_iff_getElem?.1 hmem)
    dsimp only
    rw [List.getElem?_eq_getElem (Nat.lt_of_lt_of_le hi hle), Exec.expect_some, Exec.ret_bind]
    exact Exec.returns_ret _

omit [NonceStreamSlot S SeedMaterial SignatureShare] in
/-- The nonces that a signature is replenished with are all made. -/
theorem runReplenishTask_returns (task : Option (NonceJob SeedMaterial Binonce)) :
    (runReplenishTask symmKeygen task).Returns := by
  cases task with
  | none => exact Exec.returns_ret _
  | some task =>
      obtain ⟨segment, hsegment⟩ := NonceJob.intoSegment_returns_iff.2
        (task.runUntilFinished_done symmKeygen.nonces)
      rw [runReplenishTask, hsegment, Exec.ret_bind]
      exact Exec.returns_ret _

/-- **Signing** returns exactly when the request fits. -/
theorem signAck_returns_iff {req : RequestSign} {signTask : Bitcoin.CheckedSignTask}
    {share : EncryptedSecretShare D.Cipher} (hpos : 0 < (signTask.signItems D.bitcoin).length) :
    (s.signAck (req.phase D signTask share) symmKeygen).Returns ↔
      s.SignFits symmKeygen req signTask share := by
  have hlength (xpub : Xpub PairedSecretShare) :
      (signSessionsOf (req.phase D signTask share) xpub).length =
        (signTask.signItems D.bitcoin).length := by
    rw [signSessionsOf, List.length_map, List.length_zipIdx]
    rfl
  rw [signAck, SignFits]
  dsimp only [RequestSign.phase]
  cases hdecrypt : D.decrypt (symmKeygen.getShareEncryptionKey
      { keyId := keyIdFromRootkey L req.deviceSignReq.rootkey
        accessStructureId := req.groupSignReq.accessStructureId } share.shareImage.index
      req.deviceSignReq.coordShareDecryptionContrib) share.ciphertext with
  | none => exact iff_of_true (Exec.returns_ret _) fun h => by cases h
  | some secretShare =>
      have hsessions := @signSessionsOf_returns_iff _ D (req.phase D signTask share)
        (D.shareToMasterAppkey
          { secretShare := { index := share.shareImage.index, share := secretShare }
            publicKey := req.deviceSignReq.rootkey })
      refine Iff.trans ?_ (forall_prop_of_true rfl).symm
      rw [← hlength] at hpos ⊢
      refine Iff.trans ?_ (@AbSlots.signSessions_returns_iff _ _ _ _ _ _ _ _ _ symmKeygen.nonces
        (fun entry => D.sign entry.2 entry.1) s.nonceSlots _ _ _ _ _ hpos hsessions)
      refine Exec.returns_bind.trans ?_
      constructor
      · rintro ⟨signed, hsigned, -⟩
        exact ⟨signed, hsigned⟩
      · rintro ⟨signed, hsigned⟩
        refine ⟨signed, hsigned, ?_⟩
        cases signed with
        | error e => exact Exec.returns_ret _
        | ok out =>
            obtain ⟨⟨signatureShares, replenishTask⟩, nonceSlots⟩ := out
            dsimp only
            obtain ⟨replenishNonces, hreplenish⟩ :=
              @runReplenishTask_returns symmKeygen replenishTask
            rw [hreplenish, Exec.ret_bind]
            exact Exec.returns_ret _

/-! ### All messages -/

/-- A message is answered, and so is what follows from it: the user may agree to a request that was
accepted, in whatever state `later` the device is in then, and jobs for nonces are run. -/
structure Answers (symmKeygen : DeviceSecretDerivation) (s later : Signer D S)
    (message : CoordinatorToDeviceMessage L) (rng : L.Rng) (seeds : ℕ → SeedMaterial) : Prop where
  returns : (s.recvCoordinatorMessage message rng seeds).Returns
  signs : ∀ sends s' phase,
    s.recvCoordinatorMessage message rng seeds = .ret (.ok sends, s') →
      .toUser (.signatureRequest phase) ∈ sends → (later.signAck phase symmKeygen).Returns
  /-- the library that signs asks for a share of one of the parties -/
  party : ∀ sends s' phase,
    s.recvCoordinatorMessage message rng seeds = .ret (.ok sends, s') →
      .toUser (.signatureRequest phase) ∈ sends →
        phase.encryptedSecretShare.shareImage.index ∈ phase.groupSignReq.parties
  jobs : ∀ sends s' batch,
    s.recvCoordinatorMessage message rng seeds = .ret (.ok sends, s') →
      .toUser (.nonceJobs batch) ∈ sends →
        (batch.runUntilFinished symmKeygen.nonces).intoSegments.Returns

/-- What a device does not check. -/
def Fits (symmKeygen : DeviceSecretDerivation) (s later : Signer D S) :
    CoordinatorToDeviceMessage L → Prop
  | .signing (.openNonceStreams streams) => s.nonceSlots.OpenFits streams s.nonceBatchSize
  | .signing (.requestSign req) =>
      ∀ signTask share, s.Accepts req signTask share →
        later.SignFits symmKeygen req signTask share
  | .keyGen (.check keygenId certificate) =>
      ∀ phase2 certifiedKeygen secretShare,
        s.keygen.tmpKeygenPhase2[keygenId]? = some phase2 →
        D.finalize phase2.shareReceiver certificate = .ok (certifiedKeygen, secretShare) →
          L.nReceivers certifiedKeygen < 2 ^ 16
  | .screenVerify (.verifyAddress masterAppkey derivationIndex) =>
      ∀ keyData, s.keys[L.keyIdOfMasterAppkey masterAppkey]? = some keyData →
        ∃ network, keyData.purpose = .bitcoin network ∧
          (D.bitcoin.addressFromScript
            (Bitcoin.LocalSpk.spk D.bitcoin
              { masterAppkey := masterAppkey
                bip32Path := { accountKeychain := .external, index := derivationIndex } })
            network).isSome
  | _ => True

variable {later : Signer D S} {rng : L.Rng} {seeds : ℕ → SeedMaterial}

/-- Nothing follows from an answer that asks for nothing. -/
theorem answers_iff_returns {message : CoordinatorToDeviceMessage L}
    (hsends : ∀ sends s', s.recvCoordinatorMessage message rng seeds = .ret (.ok sends, s') →
      ∀ send ∈ sends, ¬ send.AboutSigning) :
    Answers symmKeygen s later message rng seeds ↔
      (s.recvCoordinatorMessage message rng seeds).Returns := by
  refine ⟨Answers.returns, fun h => ⟨h, ?_, ?_, ?_⟩⟩
  · exact fun sends s' phase hrecv hmem => absurd trivial (hsends sends s' hrecv _ hmem)
  · exact fun sends s' phase hrecv hmem => absurd trivial (hsends sends s' hrecv _ hmem)
  · exact fun sends s' batch hrecv hmem => absurd trivial (hsends sends s' hrecv _ hmem)

omit [NonceStreamSlot S SeedMaterial SignatureShare] in
/-- A key generation asks for nothing more. -/
theorem recvKeygenMessage_sends {m : Keygen L} {sends : List (DeviceSend D)}
    (h : s.recvKeygenMessage m rng = .ret (.ok sends, s')) :
    ∀ send ∈ sends, ¬ send.AboutSigning := by
  have hsole {send other : DeviceSend D} (hsend : ¬ send.AboutSigning)
      (hok : (Except.ok sends : Except Error (List (DeviceSend D))) = .ok [send])
      (hmem : other ∈ sends) : ¬ other.AboutSigning := by
    obtain rfl := Except.ok.inj hok
    rw [List.mem_singleton.1 hmem]
    exact hsend
  intro send hmem
  cases m with
  | begin begin =>
      rcases keygenBegin_cases h with ⟨_, hok, -⟩ | ⟨_, _, _, _, -, hok, -⟩
      · cases hok
      · exact hsole id hok hmem
  | certifyPlease keygenId aggInput =>
      rcases keygenCertifyPlease_cases h with ⟨_, hok, -⟩ | ⟨_, _, _, -, -, hok, -⟩
      · cases hok
      · exact hsole id hok hmem
  | check keygenId certificate =>
      rcases keygenCheck_cases h with ⟨_, hok, -⟩ | ⟨_, _, _, -, -, hok, -⟩
      · cases hok
      · exact hsole id hok hmem
  | finalize keygenId =>
      rcases keygenFinalize_cases h with ⟨_, hok, -⟩ | ⟨_, _, -, hok, -⟩
      · cases hok
      · exact hsole id hok hmem

omit [NonceStreamSlot S SeedMaterial SignatureShare] in
/-- A key generation panics only when it has too many receivers. -/
theorem keygenCheck_returns_iff {keygenId : KeygenId}
    {certificate : BTreeMap Point L.CertVrfProof} {kind : String} :
    (s.keygenCheck keygenId certificate kind).Returns ↔
      ∀ phase2 certifiedKeygen secretShare,
        s.keygen.tmpKeygenPhase2[keygenId]? = some phase2 →
        D.finalize phase2.shareReceiver certificate = .ok (certifiedKeygen, secretShare) →
          L.nReceivers certifiedKeygen < 2 ^ 16 := by
  rw [keygenCheck]
  cases hphase2 : s.keygen.tmpKeygenPhase2[keygenId]? with
  | none => exact iff_of_true (Exec.returns_ret _) fun _ _ _ h => by cases h
  | some phase2 =>
      dsimp only
      cases hfinalize : D.finalize phase2.shareReceiver certificate with
      | error e =>
          refine iff_of_true (Exec.returns_ret _) fun phase2' _ _ hphase2' hok => ?_
          obtain rfl := Option.some.inj hphase2'
          rw [hfinalize] at hok
          cases hok
      | ok out =>
          obtain ⟨certifiedKeygen, secretShare⟩ := out
          dsimp only
          by_cases hfits : L.nReceivers certifiedKeygen < 2 ^ 16
          · rw [Exec.assert_of _ hfits, Exec.ret_bind]
            refine iff_of_true (Exec.returns_ret _) fun phase2' _ _ hphase2' hok => ?_
            obtain rfl := Option.some.inj hphase2'
            rw [hfinalize] at hok
            obtain ⟨rfl, -⟩ := Prod.mk.inj (Except.ok.inj hok)
            exact hfits
          · rw [Exec.assert, if_neg hfits, Exec.panic_bind]
            refine iff_of_false (Exec.not_returns_panic _) fun h => hfits ?_
            exact h phase2 certifiedKeygen secretShare rfl hfinalize

omit [NonceStreamSlot S SeedMaterial SignatureShare] in
theorem keygenBegin_returns (begin : Coordinator.Begin) (kind : String) :
    (s.keygenBegin begin kind rng).Returns := by
  rw [keygenBegin]
  split
  · exact Exec.returns_ret _
  · obtain ⟨receiverKeys, hkeys⟩ : (begin.devices.mapM fun d => DeviceId.pubkey L d).Returns :=
      Exec.returns_mapM_iff.2 fun d _ => Exec.returns_ret _
    rw [hkeys, Exec.ret_bind]
    split
    · exact Exec.returns_ret _
    · exact Exec.returns_ret _

omit [NonceStreamSlot S SeedMaterial SignatureShare] in
theorem keygenCertifyPlease_returns (keygenId : KeygenId) (aggInput : L.AggKeygenInput)
    (kind : String) : (s.keygenCertifyPlease keygenId aggInput kind).Returns := by
  rw [keygenCertifyPlease]
  split
  · exact Exec.returns_ret _
  · dsimp only
    split
    · exact Exec.returns_ret _
    · split
      · exact Exec.returns_ret _
      · exact Exec.returns_ret _

omit [NonceStreamSlot S SeedMaterial SignatureShare] in
theorem keygenFinalize_returns (keygenId : KeygenId) (kind : String) :
    (s.keygenFinalize keygenId kind).Returns := by
  rw [keygenFinalize]
  split
  · exact Exec.returns_ret _
  · exact Exec.returns_ret _

omit [NonceStreamSlot S SeedMaterial SignatureShare] in
/-- An address is shown of a key that is for bitcoin, or of none. -/
theorem recvVerifyAddress_returns_iff {masterAppkey : MasterAppkey}
    {derivationIndex : NormalIndex} :
    (s.recvVerifyAddress masterAppkey derivationIndex).Returns ↔
      ∀ keyData, s.keys[L.keyIdOfMasterAppkey masterAppkey]? = some keyData →
        ∃ network, keyData.purpose = .bitcoin network ∧
          (D.bitcoin.addressFromScript
            (Bitcoin.LocalSpk.spk D.bitcoin
              { masterAppkey := masterAppkey
                bip32Path := { accountKeychain := .external, index := derivationIndex } })
            network).isSome := by
  rw [recvVerifyAddress]
  dsimp only
  cases hkey : s.keys[L.keyIdOfMasterAppkey masterAppkey]? with
  | none => exact iff_of_true (Exec.returns_ret _) fun _ h => by cases h
  | some keyData =>
      dsimp only
      rw [walletNetwork, hkey, Option.map_some]
      cases hpurpose : keyData.purpose with
      | bitcoin network =>
          dsimp only
          rw [Exec.expect_some, Exec.ret_bind]
          cases haddress : D.bitcoin.addressFromScript
            (Bitcoin.LocalSpk.spk D.bitcoin
              { masterAppkey := masterAppkey
                bip32Path := { accountKeychain := .external, index := derivationIndex } })
            network with
          | none =>
              rw [Exec.expect_none, Exec.panic_bind]
              refine iff_of_false (Exec.not_returns_panic _) fun h => ?_
              obtain ⟨network', hnetwork, hsome⟩ := h keyData rfl
              obtain rfl := KeyPurpose.bitcoin.inj (hpurpose.symm.trans hnetwork)
              rw [haddress] at hsome
              cases hsome
          | some address =>
              rw [Exec.expect_some, Exec.ret_bind]
              refine iff_of_true (Exec.returns_ret _) fun keyData' hkey' => ?_
              obtain rfl := Option.some.inj hkey'
              exact ⟨network, hpurpose, by rw [haddress]; rfl⟩
      | test =>
          refine iff_of_false (Exec.not_returns_panic _) fun h => ?_
          obtain ⟨network, hnetwork, -⟩ := h keyData rfl
          rw [hpurpose] at hnetwork
          cases hnetwork
      | nostr =>
          refine iff_of_false (Exec.not_returns_panic _) fun h => ?_
          obtain ⟨network, hnetwork, -⟩ := h keyData rfl
          rw [hpurpose] at hnetwork
          cases hnetwork

omit [NonceStreamSlot S SeedMaterial SignatureShare] in
theorem recvVerifyAddress_sends {masterAppkey : MasterAppkey} {derivationIndex : NormalIndex}
    {sends : List (DeviceSend D)}
    (h : s.recvVerifyAddress masterAppkey derivationIndex = .ret (.ok sends, s')) :
    ∀ send ∈ sends, ¬ send.AboutSigning := by
  rw [recvVerifyAddress] at h
  dsimp only at h
  split at h
  · cases h
  · obtain ⟨network, -, h⟩ := Exec.bind_eq_ret_iff.1 h
    obtain ⟨address, -, h⟩ := Exec.bind_eq_ret_iff.1 h
    cases h
    intro send hmem
    rw [List.mem_singleton.1 hmem]
    exact id

/-- The streams of a request are opened, and every job that comes of it ends. -/
theorem answers_openNonceStreams_iff (hord : s.nonceSlots.Ordinary)
    {streams : List CoordNonceStreamState} :
    Answers symmKeygen s later (.signing (.openNonceStreams streams)) rng seeds ↔
      s.nonceSlots.OpenFits streams s.nonceBatchSize := by
  have hcases {sends : List (DeviceSend D)} {s' : Signer D S}
      (h : s.recvOpenNonceStreams streams seeds = .ret (.ok sends, s')) :
      (∃ segments, sends = [.toCoordinator (.signing (.nonceResponse segments))]) ∨
        ∃ batch nonceSlots, sends = [.toUser (.nonceJobs batch)] ∧
          s.nonceSlots.recvOpenNonceStreams streams s.nonceBatchSize seeds =
            .ret (nonceSlots, .nonceJobs batch) := by
    obtain ⟨⟨nonceSlots, reply⟩, hopen, h⟩ := Exec.bind_eq_ret_iff.1 h
    cases reply with
    | nonceResponse segments =>
        cases h
        exact .inl ⟨segments, rfl⟩
    | nonceJobs batch =>
        cases h
        exact .inr ⟨batch, nonceSlots, rfl, hopen⟩
  have hreturns : (s.recvOpenNonceStreams streams seeds).Returns ↔
      s.nonceSlots.OpenFits streams s.nonceBatchSize := by
    rw [← AbSlots.recvOpenNonceStreams_returns_iff hord, recvOpenNonceStreams, Exec.returns_bind]
    constructor
    · rintro ⟨out, hout, -⟩
      exact ⟨out, hout⟩
    · rintro ⟨⟨nonceSlots, reply⟩, hout⟩
      refine ⟨_, hout, ?_⟩
      cases reply <;> exact Exec.returns_ret _
  rw [← hreturns]
  refine ⟨Answers.returns, fun h => ⟨h, ?_, ?_, ?_⟩⟩
  · intro sends s' phase hrecv hmem
    rcases hcases hrecv with ⟨segments, rfl⟩ | ⟨batch, nonceSlots, rfl, -⟩
    · cases List.mem_singleton.1 hmem
    · cases List.mem_singleton.1 hmem
  · intro sends s' phase hrecv hmem
    rcases hcases hrecv with ⟨segments, rfl⟩ | ⟨batch, nonceSlots, rfl, -⟩
    · cases List.mem_singleton.1 hmem
    · cases List.mem_singleton.1 hmem
  · intro sends s' batch hrecv hmem
    rcases hcases hrecv with ⟨segments, rfl⟩ | ⟨batch', nonceSlots, rfl, hopen⟩
    · cases List.mem_singleton.1 hmem
    · obtain rfl : batch = batch' := by
        cases List.mem_singleton.1 hmem
        rfl
      exact AbSlots.recvOpenNonceStreams_done hopen symmKeygen.nonces

/-- A request is accepted or refused, and one that is accepted can be signed when it fits. -/
theorem answers_requestSign_iff (hkeys : Indexed s.keys) {req : RequestSign} :
    Answers symmKeygen s later (.signing (.requestSign req)) rng seeds ↔
      ∀ signTask share, s.Accepts req signTask share →
        later.SignFits symmKeygen req signTask share := by
  have hrecv : s.recvCoordinatorMessage (.signing (.requestSign req)) rng seeds =
      s.recvRequestSign req := rfl
  rcases s.recvRequestSign_cases req with ⟨signTask, share, haccepts, hok⟩ | ⟨hnot, e, herror⟩
  · rw [← hrecv] at hok
    have hunique (signTask' : Bitcoin.CheckedSignTask)
        (share' : EncryptedSecretShare D.Cipher) (h : s.Accepts req signTask' share') :
        signTask' = signTask ∧ share' = share := by
      obtain ⟨keyData, data, hkey, hcheck, hdata, hshare, -⟩ := haccepts
      obtain ⟨keyData', data', hkey', hcheck', hdata', hshare', -⟩ := h
      obtain rfl := Option.some.inj (hkey.symm.trans hkey')
      obtain rfl := Option.some.inj (hdata.symm.trans hdata')
      exact ⟨Except.ok.inj (Exec.ret.inj (hcheck'.symm.trans hcheck)),
        Option.some.inj (hshare'.symm.trans hshare)⟩
    have hpos : 0 < (signTask.signItems D.bitcoin).length := by
      obtain ⟨_, _, _, hcheck, _⟩ := haccepts
      exact Bitcoin.signItems_pos hcheck
    have hphase {sends : List (DeviceSend D)} {s' : Signer D S} {phase : SignPhase1 D}
        (h : s.recvCoordinatorMessage (.signing (.requestSign req)) rng seeds =
          .ret (.ok sends, s')) (hmem : .toUser (.signatureRequest phase) ∈ sends) :
        phase = req.phase D signTask share := by
      obtain ⟨hsends, -⟩ := Prod.mk.inj (Exec.ret.inj (hok.symm.trans h))
      rw [← Except.ok.inj hsends] at hmem
      exact DeviceToUserMessage.signatureRequest.inj
        (DeviceSend.toUser.inj (List.mem_singleton.1 hmem))
    constructor
    · intro h signTask' share' haccepts'
      obtain ⟨rfl, rfl⟩ := hunique signTask' share' haccepts'
      exact (signAck_returns_iff hpos).1 (h.signs _ _ _ hok List.mem_cons_self)
    · intro h
      refine ⟨⟨_, hok⟩, ?_, ?_, ?_⟩
      · intro sends s' phase hrecv hmem
        rw [hphase hrecv hmem]
        exact (signAck_returns_iff hpos).2 (h signTask share haccepts)
      · intro sends s' phase hrecv hmem
        rw [hphase hrecv hmem]
        exact haccepts.party hkeys
      · intro sends s' batch hrecv hmem
        obtain ⟨hsends, -⟩ := Prod.mk.inj (Exec.ret.inj (hok.symm.trans hrecv))
        rw [← Except.ok.inj hsends] at hmem
        cases List.mem_singleton.1 hmem
  · rw [← hrecv] at herror
    refine iff_of_true ?_ fun signTask share h => absurd h (hnot signTask share)
    refine (answers_iff_returns fun sends s' hok => ?_).2 ⟨_, herror⟩
    rw [herror] at hok
    cases hok

/-- A message is answered exactly when it fits. -/
theorem answers_iff (hord : s.nonceSlots.Ordinary) (hkeys : Indexed s.keys)
    (message : CoordinatorToDeviceMessage L) :
    Answers symmKeygen s later message rng seeds ↔ Fits symmKeygen s later message := by
  cases message with
  | keyGen m =>
      have hsends : ∀ sends s', s.recvCoordinatorMessage (.keyGen m) rng seeds =
          .ret (.ok sends, s') → ∀ send ∈ sends, ¬ send.AboutSigning :=
        fun sends s' h => recvKeygenMessage_sends h
      refine (answers_iff_returns hsends).trans ?_
      cases m with
      | begin begin => exact iff_of_true (keygenBegin_returns begin _) trivial
      | certifyPlease keygenId aggInput =>
          exact iff_of_true (keygenCertifyPlease_returns keygenId aggInput _) trivial
      | check keygenId certificate => exact keygenCheck_returns_iff
      | finalize keygenId => exact iff_of_true (keygenFinalize_returns keygenId _) trivial
  | signing m =>
      cases m with
      | requestSign req => exact answers_requestSign_iff hkeys
      | openNonceStreams streams => exact answers_openNonceStreams_iff hord
  | restoration m =>
      obtain ⟨r, t, hrecv, hrestores⟩ := s.recvRestorationMessage_restores m
      refine iff_of_true ((answers_iff_returns fun sends s' h => ?_).2 ⟨_, hrecv⟩) trivial
      obtain ⟨rfl, rfl⟩ := Prod.mk.inj (Exec.ret.inj (hrecv.symm.trans h))
      exact fun send hmem => (hrestores.aboutBackups send hmem).not_aboutSigning
  | screenVerify m =>
      cases m with
      | verifyAddress masterAppkey derivationIndex =>
          have hsends : ∀ sends s', s.recvCoordinatorMessage
              (.screenVerify (.verifyAddress masterAppkey derivationIndex)) rng seeds =
                .ret (.ok sends, s') → ∀ send ∈ sends, ¬ send.AboutSigning :=
            fun sends s' h => recvVerifyAddress_sends h
          exact (answers_iff_returns hsends).trans recvVerifyAddress_returns_iff

end Signer

/-- **At any time a message is answered**, and what follows from it, exactly when it fits. -/
theorem Reach.answered_iff {s₀ : Signer D S} {trace : List (Entry D)} (hs₀ : Started s₀)
    (hkeys : Indexed s₀.keys) (h : Reach symmKeygen s₀ s trace) (later : Signer D S)
    (message : CoordinatorToDeviceMessage L) (rng : L.Rng) (seeds : ℕ → SeedMaterial) :
    Signer.Answers symmKeygen s later message rng seeds ↔
      Signer.Fits symmKeygen s later message :=
  Signer.answers_iff (h.ordinary hs₀) (h.indexed hs₀ hkeys) message

/-- A request for the nonces of a stream that the device does not have yet. -/
def openNew (index : ℕ) : CoordinatorToDeviceMessage plainLib :=
  .signing (.openNonceStreams [{ streamId := 1, index := index, remaining := 30 }])

theorem plainSigner_indexed (slots : ℕ) : Indexed (plainSigner slots).keys :=
  indexed_apply []

/-- A device with one slot answers it for an ordinary index. -/
theorem answers_iff_openNew :
    Started (plainSigner 1) ∧ Indexed (plainSigner 1).keys ∧
      Reach plainDerivation (plainSigner 1) (plainSigner 1) [] ∧
      Signer.Answers plainDerivation (plainSigner 1) (plainSigner 1) (openNew 8) (0 : ℕ)
        fun _ => 0 := by
  have hfits : ∀ state ∈ (plainSigner 1).nonceSlots.orderedStreams
      [{ streamId := 1, index := 8, remaining := 30 }],
      ReconcileFits ((plainSigner 1).nonceSlots.indexOf state.streamId) state
        (plainSigner 1).nonceBatchSize := by decide +kernel
  exact ⟨plainSigner_started 1, plainSigner_indexed 1, .start,
    (Reach.answered_iff (plainSigner_started 1) (plainSigner_indexed 1) .start _ _ _ _).2 hfits⟩

/-- It panics at the last index. -/
theorem panics_at_last_index :
    ¬ ∀ (s₀ s : Signer plainDeviceLib PlainSlot) (trace : List (Entry plainDeviceLib)),
      Started s₀ → Indexed s₀.keys → Reach plainDerivation s₀ s trace →
      ∀ (later : Signer plainDeviceLib PlainSlot)
        (message : CoordinatorToDeviceMessage plainLib) (rng : ℕ) (seeds : ℕ → SeedMaterial),
        Signer.Answers plainDerivation s later message rng seeds := by
  intro h
  have hreturns := (h _ _ _ (plainSigner_started 1) (plainSigner_indexed 1) .start
    (plainSigner 1) (openNew u32Max) 0 fun _ => 0).returns
  have hpanics : ¬ ((plainSigner 1).recvCoordinatorMessage (openNew u32Max) (0 : ℕ)
      fun _ => 0).Returns := by decide +kernel
  exact hpanics hreturns

end Device

end Frostsnap
