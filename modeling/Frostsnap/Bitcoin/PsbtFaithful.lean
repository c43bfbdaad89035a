import Frostsnap.Bitcoin.Psbt

/-!
# A PSBT is read and signed faithfully

A template that is read from a PSBT is its transaction, and what it holds for ours is derived by
the key that it names (`fromPsbt_faithful`). The signatures for the items of a key go onto the
inputs that the items are for: those are numbered among the inputs of the key only, and the
numbering is undone by listing the same inputs with their indices (`signItems_eq`).
-/

namespace Frostsnap

namespace Bitcoin

variable {B : BitcoinLib}

/-! ### Who may own a script -/

/-- Candidates are keys of ours, and there is one. -/
theorem mem_oursByFingerprint {masterAppkeys : List MasterAppkey} {fingerprint : Fingerprint}
    {candidates : List MasterAppkey}
    (h : (oursByFingerprint B masterAppkeys)[fingerprint]? = some candidates) :
    candidates ≠ [] ∧ ∀ masterAppkey ∈ candidates, masterAppkey ∈ masterAppkeys := by
  have hfold : ∀ (keys : List MasterAppkey) (ours : BTreeMap Fingerprint (List MasterAppkey)),
      (∀ masterAppkey ∈ keys, masterAppkey ∈ masterAppkeys) →
      (∀ (f : Fingerprint) l, ours[f]? = some l → l ≠ [] ∧ ∀ k ∈ l, k ∈ masterAppkeys) →
      ∀ (f : Fingerprint) l, (keys.foldl (fun ours masterAppkey =>
        let fingerprint := B.appkeyFingerprint masterAppkey
        ours.insert fingerprint (ours.getD fingerprint [] ++ [masterAppkey])) ours)[f]? = some l →
        l ≠ [] ∧ ∀ k ∈ l, k ∈ masterAppkeys := by
    intro keys
    induction keys with
    | nil => exact fun ours _ hours => hours
    | cons key keys ih =>
        intro ours hkeys hours
        refine ih _ (fun k hk => hkeys k (List.mem_cons_of_mem key hk)) fun f l hl => ?_
        rw [BTreeMap.getElem?_insert] at hl
        split at hl
        · cases hl
          refine ⟨List.append_ne_nil_of_right_ne_nil _ nofun, fun k hk => ?_⟩
          rcases List.mem_append.1 hk with hk | hk
          · rw [Std.ExtTreeMap.getD_eq_getD_getElem?] at hk
            cases hbefore : ours[B.appkeyFingerprint key]? with
            | none =>
                rw [hbefore] at hk
                cases hk
            | some before =>
                rw [hbefore] at hk
                exact (hours _ before hbefore).2 k hk
          · cases List.mem_singleton.1 hk
            exact hkeys key List.mem_cons_self
        · exact hours f l hl
  refine hfold masterAppkeys ∅ (fun _ hk => hk) (fun f l hl => ?_) fingerprint candidates h
  rw [Std.ExtTreeMap.getElem?_empty] at hl
  cases hl

/-- The candidates for a path have the same fingerprint. -/
theorem claimedPath_eq_ok {tapInternalKey : Option XOnlyPublicKey} {tapKeyOrigins : TapKeyOrigins}
    {ours : BTreeMap Fingerprint (List MasterAppkey)} {bip32Path : BitcoinBip32Path}
    {candidates : List MasterAppkey}
    (h : claimedPath tapInternalKey tapKeyOrigins ours = .ok (bip32Path, candidates)) :
    ∃ fingerprint : Fingerprint, ours[fingerprint]? = some candidates := by
  rw [claimedPath.eq_def] at h
  split at h
  · cases h
  · split at h
    · cases h
    · rename_i fingerprint derivationPath _
      split at h
      · cases h
      · rename_i hcandidates
        split at h
        · cases h
        · split at h
          · cases h
          · cases h
            exact ⟨fingerprint, hcandidates⟩

/-- What is pushed is pushed for a candidate. -/
theorem pushOwned_eq_ok {α : Type} {bip32Path : BitcoinBip32Path}
    {push : LocalSpk → Except SpkDoesntMatchPathError α} {candidates : List MasterAppkey}
    {lastMismatch : Option SpkDoesntMatchPathError} {a : α}
    (h : pushOwned bip32Path push candidates lastMismatch = .ret (.ok a)) :
    ∃ masterAppkey ∈ candidates,
      push { masterAppkey := masterAppkey, bip32Path := bip32Path } = .ok a := by
  induction candidates generalizing lastMismatch with
  | nil =>
      cases lastMismatch with
      | none => cases h
      | some mismatch => cases h
  | cons masterAppkey candidates ih =>
      rw [pushOwned] at h
      split at h
      · rename_i hpush
        cases h
        exact ⟨masterAppkey, List.mem_cons_self, hpush⟩
      · obtain ⟨other, hmem, hpush⟩ := ih h
        exact ⟨other, List.mem_cons_of_mem _ hmem, hpush⟩

/-- A candidate is all that a push needs. -/
theorem pushOwned_returns {α : Type} {bip32Path : BitcoinBip32Path}
    {push : LocalSpk → Except SpkDoesntMatchPathError α} {candidates : List MasterAppkey}
    {lastMismatch : Option SpkDoesntMatchPathError}
    (h : candidates ≠ [] ∨ lastMismatch.isSome = true) :
    (pushOwned bip32Path push candidates lastMismatch).Returns := by
  induction candidates generalizing lastMismatch with
  | nil =>
      rcases h with h | h
      · exact absurd rfl h
      · obtain ⟨mismatch, rfl⟩ := Option.isSome_iff_exists.1 h
        exact Exec.returns_ret _
  | cons masterAppkey candidates ih =>
      rw [pushOwned]
      split
      · exact Exec.returns_ret _
      · exact ih (.inr rfl)

/-- A script that passes is the owner's. -/
theorem LocalSpk.checkSpk_eq_ok {owner : LocalSpk} {spk : Script}
    (h : owner.checkSpk B spk = .ok ()) : owner.spk B = spk := by
  rw [checkSpk] at h
  split at h
  · cases h
  · rename_i heq
    exact (Decidable.not_not.1 heq).symm

/-! ### Reading inputs -/

/-- An input of a template is what a PSBT says of the input at an index, and if it is ours it is
of one of the keys. -/
def InputOf (B : BitcoinLib) (unsignedTx : Transaction) (masterAppkeys : List MasterAppkey)
    (psbtInput : PsbtInput × ℕ) (input : Input) : Prop :=
  ∃ txin txout, unsignedTx.input[psbtInput.2]? = some txin ∧
    psbtInput.1.spentOutput txin = some txout ∧
    input.outpoint = txin.previousOutput ∧ input.sequence = txin.sequence ∧
    input.txout B = txout ∧
    ∀ owner, input.owner = .local owner → owner.masterAppkey ∈ masterAppkeys

variable {masterAppkeys : List MasterAppkey}

/-- Pushing an input that a candidate derives adds it. -/
theorem TransactionTemplate.pushOwnedInput_eq_ok {t t' : TransactionTemplate Unscoped}
    {inputPush : PushInput} {owner : LocalSpk}
    (h : t.pushOwnedInput B inputPush owner = .ok t') :
    owner.spk B = inputPush.txout.scriptPubkey ∧
      t' = { t with inputs := t.inputs ++
        [{ outpoint := inputPush.outpoint
           value := inputPush.txout.value
           owner := .local owner
           sequence := inputPush.sequence }] } := by
  rw [pushOwnedInput] at h
  cases hcheck : owner.checkSpk B inputPush.txout.scriptPubkey with
  | error e =>
      rw [hcheck] at h
      cases h
  | ok u =>
      rw [hcheck] at h
      cases h
      exact ⟨owner.checkSpk_eq_ok hcheck, rfl⟩

/-- Reading an input adds it to the template. -/
theorem readInput_eq_ok {unsignedTx : Transaction} {s s' : ReadPsbt} {i : ℕ} {input : PsbtInput}
    (h : readInput B unsignedTx (oursByFingerprint B masterAppkeys) s i input = .ret (.ok s')) :
    ∃ new, InputOf B unsignedTx masterAppkeys (input, i) new ∧
      s'.template = { s.template with inputs := s.template.inputs ++ [new] } := by
  rw [readInput] at h
  split at h
  · cases h
  · rename_i txin htxin
    split at h
    · cases h
    · rename_i txout htxout
      have hforeign : InputOf B unsignedTx masterAppkeys (input, i)
          { outpoint := txin.previousOutput
            value := txout.value
            owner := .foreign txout.scriptPubkey
            sequence := txin.sequence } :=
        ⟨txin, txout, htxin, htxout, rfl, rfl, rfl,
          fun _ howner => SpkOwner.noConfusion howner⟩
      simp only at h
      split at h
      · cases h
        exact ⟨_, hforeign, rfl⟩
      · split at h
        · cases h
        · cases h
          exact ⟨_, hforeign, rfl⟩
        · rename_i bip32Path candidates hclaim
          obtain ⟨pushed, hpushed, h⟩ := Exec.bind_eq_ret_iff.1 h
          cases pushed with
          | error e => cases h
          | ok template =>
              cases h
              obtain ⟨masterAppkey, hmem, hpush⟩ := pushOwned_eq_ok hpushed
              obtain ⟨hspk, rfl⟩ := TransactionTemplate.pushOwnedInput_eq_ok hpush
              obtain ⟨fingerprint, hcandidates⟩ := claimedPath_eq_ok hclaim
              refine ⟨_, ⟨txin, txout, htxin, htxout, rfl, rfl, ?_, ?_⟩, rfl⟩
              · exact congrArg (TxOut.mk txout.value) hspk
              · rintro owner ⟨⟩
                exact (mem_oursByFingerprint hcandidates).2 masterAppkey hmem

/-- Reading inputs adds them in order. -/
theorem readInputs_eq_ok {unsignedTx : Transaction} {s s' : ReadPsbt} {i : ℕ}
    {inputs : List PsbtInput}
    (h : readInputs B unsignedTx (oursByFingerprint B masterAppkeys) s i inputs = .ret (.ok s')) :
    ∃ new, List.Forall₂ (InputOf B unsignedTx masterAppkeys) (inputs.zipIdx i) new ∧
      s'.template = { s.template with inputs := s.template.inputs ++ new } := by
  induction inputs generalizing s i with
  | nil =>
      cases h
      refine ⟨[], .nil, ?_⟩
      rw [List.append_nil]
  | cons input inputs ih =>
      rw [readInputs] at h
      obtain ⟨r, hread, h⟩ := Exec.bind_eq_ret_iff.1 h
      cases r with
      | error e => cases h
      | ok s₁ =>
          obtain ⟨first, hfirst, hs₁⟩ := readInput_eq_ok hread
          obtain ⟨new, hnew, hs'⟩ := ih h
          refine ⟨first :: new, .cons hfirst hnew, ?_⟩
          rw [hs', hs₁]
          simp only [List.append_assoc, List.singleton_append]

/-! ### Reading outputs -/

/-- An output of a template is one of the transaction, and if it is ours it is of one of the
keys. -/
def OutputOf (B : BitcoinLib) (masterAppkeys : List MasterAppkey) (txout : TxOut)
    (output : Output) : Prop :=
  output.txout B = txout ∧
    ∀ owner, output.owner = .local owner → owner.masterAppkey ∈ masterAppkeys

/-- Pushing an output that a candidate derives adds it. -/
theorem TransactionTemplate.pushOwnedOutputChecked_eq_ok {t t' : TransactionTemplate Unscoped}
    {txout : TxOut} {owner : LocalSpk} (h : t.pushOwnedOutputChecked B txout owner = .ok t') :
    owner.spk B = txout.scriptPubkey ∧
      t' = { t with
        outputs := t.outputs ++ [{ value := txout.value, owner := .local owner }] } := by
  rw [pushOwnedOutputChecked] at h
  cases hcheck : owner.checkSpk B txout.scriptPubkey with
  | error e =>
      rw [hcheck] at h
      cases h
  | ok u =>
      rw [hcheck] at h
      cases h
      exact ⟨owner.checkSpk_eq_ok hcheck, rfl⟩

/-- Reading an output adds it to the template. -/
theorem readOutput_eq_ok {outputs : List PsbtOutput} {t t' : TransactionTemplate Unscoped} {i : ℕ}
    {txout : TxOut}
    (h : readOutput B outputs (oursByFingerprint B masterAppkeys) t i txout = .ret (.ok t')) :
    ∃ new, OutputOf B masterAppkeys txout new ∧
      t' = { t with outputs := t.outputs ++ [new] } := by
  rw [readOutput] at h
  split at h
  · rename_i bip32Path candidates hclaim
    obtain ⟨pushed, hpushed, h⟩ := Exec.bind_eq_ret_iff.1 h
    cases pushed with
    | error e => cases h
    | ok template =>
        cases h
        obtain ⟨masterAppkey, hmem, hpush⟩ := pushOwned_eq_ok hpushed
        obtain ⟨hspk, rfl⟩ := TransactionTemplate.pushOwnedOutputChecked_eq_ok hpush
        refine ⟨{ value := txout.value, owner := .local _ },
          ⟨congrArg (TxOut.mk txout.value) hspk, ?_⟩, rfl⟩
        rintro owner ⟨⟩
        split at hclaim
        · obtain ⟨fingerprint, hcandidates⟩ := claimedPath_eq_ok hclaim
          exact (mem_oursByFingerprint hcandidates).2 masterAppkey hmem
        · cases hclaim
  · cases h
    exact ⟨{ value := txout.value, owner := .foreign txout.scriptPubkey },
      ⟨rfl, fun _ howner => SpkOwner.noConfusion howner⟩, rfl⟩

/-- Reading outputs adds them in order. -/
theorem readOutputs_eq_ok {outputs : List PsbtOutput} {t t' : TransactionTemplate Unscoped} {i : ℕ}
    {txouts : List TxOut}
    (h : readOutputs B outputs (oursByFingerprint B masterAppkeys) t i txouts = .ret (.ok t')) :
    ∃ new, List.Forall₂ (OutputOf B masterAppkeys) txouts new ∧
      t' = { t with outputs := t.outputs ++ new } := by
  induction txouts generalizing t i with
  | nil =>
      cases h
      refine ⟨[], .nil, ?_⟩
      rw [List.append_nil]
  | cons txout txouts ih =>
      rw [readOutputs] at h
      obtain ⟨r, hread, h⟩ := Exec.bind_eq_ret_iff.1 h
      cases r with
      | error e => cases h
      | ok t₁ =>
          obtain ⟨first, hfirst, rfl⟩ := readOutput_eq_ok hread
          obtain ⟨new, hnew, rfl⟩ := ih h
          refine ⟨first :: new, .cons hfirst hnew, ?_⟩
          simp only [List.append_assoc, List.singleton_append]

/-! ### Reading returns -/

/-- Whoever is claimed to own a script, there is a key to try. -/
theorem pushOwned_claimed_returns {α : Type} {tapInternalKey : Option XOnlyPublicKey}
    {tapKeyOrigins : TapKeyOrigins} {bip32Path : BitcoinBip32Path}
    {candidates : List MasterAppkey} (push : LocalSpk → Except SpkDoesntMatchPathError α)
    (h : claimedPath tapInternalKey tapKeyOrigins (oursByFingerprint B masterAppkeys) =
      .ok (bip32Path, candidates)) :
    (pushOwned bip32Path push candidates none).Returns := by
  obtain ⟨fingerprint, hcandidates⟩ := claimedPath_eq_ok h
  exact pushOwned_returns (.inl (mem_oursByFingerprint hcandidates).1)

variable (B masterAppkeys) in
theorem readInput_returns (unsignedTx : Transaction) (s : ReadPsbt) (i : ℕ) (input : PsbtInput) :
    (readInput B unsignedTx (oursByFingerprint B masterAppkeys) s i input).Returns := by
  rw [readInput]
  split
  · exact Exec.returns_ret _
  · split
    · exact Exec.returns_ret _
    · dsimp only
      split
      · exact Exec.returns_ret _
      · split
        · exact Exec.returns_ret _
        · exact Exec.returns_ret _
        · rename_i hclaim
          obtain ⟨pushed, hpushed⟩ := pushOwned_claimed_returns _ hclaim
          refine Exec.returns_bind.2 ⟨pushed, hpushed, ?_⟩
          cases pushed with
          | error e => exact Exec.returns_ret _
          | ok template => exact Exec.returns_ret _

variable (B masterAppkeys) in
theorem readInputs_returns (unsignedTx : Transaction) (s : ReadPsbt) (i : ℕ)
    (inputs : List PsbtInput) :
    (readInputs B unsignedTx (oursByFingerprint B masterAppkeys) s i inputs).Returns := by
  induction inputs generalizing s i with
  | nil => exact Exec.returns_ret _
  | cons input inputs ih =>
      obtain ⟨r, hread⟩ := readInput_returns B masterAppkeys unsignedTx s i input
      refine Exec.returns_bind.2 ⟨r, hread, ?_⟩
      cases r with
      | error e => exact Exec.returns_ret _
      | ok s => exact ih s (i + 1)

variable (B masterAppkeys) in
theorem readOutput_returns (outputs : List PsbtOutput) (t : TransactionTemplate Unscoped) (i : ℕ)
    (txout : TxOut) :
    (readOutput B outputs (oursByFingerprint B masterAppkeys) t i txout).Returns := by
  rw [readOutput]
  split
  · rename_i hclaim
    split at hclaim
    · obtain ⟨pushed, hpushed⟩ := pushOwned_claimed_returns _ hclaim
      refine Exec.returns_bind.2 ⟨pushed, hpushed, ?_⟩
      cases pushed with
      | error e => exact Exec.returns_ret _
      | ok template => exact Exec.returns_ret _
    · cases hclaim
  · exact Exec.returns_ret _

variable (B masterAppkeys) in
theorem readOutputs_returns (outputs : List PsbtOutput) (t : TransactionTemplate Unscoped) (i : ℕ)
    (txouts : List TxOut) :
    (readOutputs B outputs (oursByFingerprint B masterAppkeys) t i txouts).Returns := by
  induction txouts generalizing t i with
  | nil => exact Exec.returns_ret _
  | cons txout txouts ih =>
      obtain ⟨r, hread⟩ := readOutput_returns B masterAppkeys outputs t i txout
      refine Exec.returns_bind.2 ⟨r, hread, ?_⟩
      cases r with
      | error e => exact Exec.returns_ret _
      | ok t => exact ih t (i + 1)

/-- Reading a PSBT does not panic. -/
theorem fromPsbt_returns (psbt : Psbt) (masterAppkeys : List MasterAppkey) :
    (fromPsbt B psbt masterAppkeys).Returns := by
  obtain ⟨r, hinputs⟩ := readInputs_returns B masterAppkeys psbt.unsignedTx _ 0 psbt.inputs
  refine Exec.returns_bind.2 ⟨r, hinputs, ?_⟩
  cases r with
  | error e => exact Exec.returns_ret _
  | ok s =>
      obtain ⟨r, houtputs⟩ := readOutputs_returns B masterAppkeys
        psbt.outputs s.template 0 psbt.unsignedTx.output
      refine Exec.returns_bind.2 ⟨r, houtputs, ?_⟩
      cases r with
      | error e => exact Exec.returns_ret _
      | ok template =>
          dsimp only
          split
          · exact Exec.returns_ret _
          · exact Exec.returns_ret _

/-! ### What is read -/

/-- The inputs and the outputs of a template that is read. -/
theorem fromPsbt_eq_ok {psbt : Psbt} {t : TransactionTemplate Unscoped}
    (h : fromPsbt B psbt masterAppkeys = .ret (.ok t)) :
    t.version = psbt.unsignedTx.version ∧ t.lockTime = psbt.unsignedTx.lockTime ∧
      List.Forall₂ (InputOf B psbt.unsignedTx masterAppkeys) psbt.inputs.zipIdx t.inputs ∧
      List.Forall₂ (OutputOf B masterAppkeys) psbt.unsignedTx.output t.outputs := by
  rw [fromPsbt] at h
  obtain ⟨r, hinputs, h⟩ := Exec.bind_eq_ret_iff.1 h
  cases r with
  | error e => cases h
  | ok s =>
      obtain ⟨r, houtputs, h⟩ := Exec.bind_eq_ret_iff.1 h
      cases r with
      | error e => cases h
      | ok template =>
          obtain ⟨ins, hins, hs⟩ := readInputs_eq_ok hinputs
          obtain ⟨outs, houts, ht⟩ := readOutputs_eq_ok houtputs
          dsimp only at h
          split at h
          · cases h
          · cases h
            rw [ht, hs]
            exact ⟨rfl, rfl, hins, houts⟩

/-- An input that is read, with what it is read from. -/
theorem inputOf_getElem {psbt : Psbt} {inputs : List Input}
    (h : List.Forall₂ (InputOf B psbt.unsignedTx masterAppkeys) psbt.inputs.zipIdx inputs) (i : ℕ)
    (hpsbt : i < psbt.inputs.length) (hinput : i < inputs.length) :
    InputOf B psbt.unsignedTx masterAppkeys (psbt.inputs[i], i) inputs[i] := by
  have hget := (List.forall₂_iff_get.1 h).2 i (by rw [List.length_zipIdx]; exact hpsbt) hinput
  rwa [List.get_eq_getElem, List.get_eq_getElem, List.getElem_zipIdx, Nat.zero_add] at hget

variable {psbt : Psbt} {t : TransactionTemplate Unscoped}

/-- The transaction of the template is that of the PSBT. -/
theorem toRustBitcoinTx_of_fromPsbt (hparsed : psbt.Parsed)
    (h : fromPsbt B psbt masterAppkeys = .ret (.ok t)) :
    t.toRustBitcoinTx B = psbt.unsignedTx := by
  obtain ⟨hversion, hlockTime, hinputs, houtputs⟩ := fromPsbt_eq_ok h
  have hlength : t.inputs.length = psbt.inputs.length := by
    rw [← hinputs.length_eq, List.length_zipIdx]
  have hin : (t.toRustBitcoinTx B).input = psbt.unsignedTx.input := by
    refine List.ext_getElem ?_ fun i hi hi' => ?_
    · rw [TransactionTemplate.toRustBitcoinTx, List.length_map, hlength, hparsed.inputs]
    · rw [TransactionTemplate.toRustBitcoinTx, List.length_map] at hi
      obtain ⟨txin, txout, htxin, -, houtpoint, hsequence, -, -⟩ :=
        inputOf_getElem hinputs i (hlength ▸ hi) hi
      obtain ⟨_, rfl⟩ := List.getElem?_eq_some_iff.1 htxin
      simp only [TransactionTemplate.toRustBitcoinTx, List.getElem_map, houtpoint, hsequence,
        ← hparsed.scriptSig _ (List.getElem_mem hi'), ← hparsed.witness _ (List.getElem_mem hi')]
  have hout : (t.toRustBitcoinTx B).output = psbt.unsignedTx.output := by
    refine List.forall₂_eq_eq_eq ▸ List.forall₂_map_left_iff.2 ?_
    exact houtputs.flip.imp fun output txout hof => hof.1
  exact Transaction.ext hversion hlockTime hin hout

/-- The outputs that are spent are those of the template. -/
theorem spentOutputs_of_fromPsbt (hparsed : psbt.Parsed)
    (h : fromPsbt B psbt masterAppkeys = .ret (.ok t)) :
    psbt.spentOutputs = t.inputs.map fun input => input.txout B := by
  obtain ⟨-, -, hinputs, -⟩ := fromPsbt_eq_ok h
  have hlength : t.inputs.length = psbt.inputs.length := by
    rw [← hinputs.length_eq, List.length_zipIdx]
  have hspent : (psbt.inputs.zip psbt.unsignedTx.input).map (fun entry =>
      entry.1.spentOutput entry.2) = (t.inputs.map fun input => input.txout B).map some := by
    refine List.ext_getElem ?_ fun i hi hi' => ?_
    · simp only [List.length_map, List.length_zip, ← hparsed.inputs, hlength, Nat.min_self]
    · simp only [List.length_map] at hi'
      obtain ⟨txin, txout, htxin, htxout, -, -, rfl, -⟩ :=
        inputOf_getElem hinputs i (hlength ▸ hi') hi'
      obtain ⟨_, rfl⟩ := List.getElem?_eq_some_iff.1 htxin
      simpa only [List.getElem_map, List.getElem_zip] using htxout
  have hid : psbt.spentOutputs = ((psbt.inputs.zip psbt.unsignedTx.input).map
      fun entry => entry.1.spentOutput entry.2).filterMap id := by
    rw [List.filterMap_map]
    rfl
  rw [hid, hspent, List.filterMap_map]
  exact List.filterMap_some

/-- What is read is the transaction, and what is ours in it is derived by our keys. -/
theorem readsAs_of_fromPsbt (hparsed : psbt.Parsed)
    (h : fromPsbt B psbt masterAppkeys = .ret (.ok t)) : ReadsAs B psbt masterAppkeys t := by
  obtain ⟨-, -, hinputs, houtputs⟩ := fromPsbt_eq_ok h
  refine ⟨toRustBitcoinTx_of_fromPsbt hparsed h, fun i input owner hi howner => ?_,
    fun i output owner hi howner => ?_⟩
  · obtain ⟨hlt, rfl⟩ := List.getElem?_eq_some_iff.1 hi
    have hpsbt : i < psbt.inputs.length := by
      rwa [← List.length_zipIdx, hinputs.length_eq]
    obtain ⟨txin, txout, -, -, -, -, -, hkey⟩ := inputOf_getElem hinputs i hpsbt hlt
    refine ⟨hkey owner howner, t.inputs[i].txout B, ?_, ?_⟩
    · rw [spentOutputs_of_fromPsbt hparsed h, List.getElem?_map, hi, Option.map_some]
    · rw [Input.txout, howner]
      rfl
  · obtain ⟨hlt, rfl⟩ := List.getElem?_eq_some_iff.1 hi
    have htx : i < psbt.unsignedTx.output.length := by
      rwa [houtputs.length_eq]
    obtain ⟨htxout, hkey⟩ : OutputOf B masterAppkeys psbt.unsignedTx.output[i] t.outputs[i] :=
      (List.forall₂_iff_get.1 houtputs).2 i htx hlt
    refine ⟨hkey owner howner, psbt.unsignedTx.output[i], List.getElem?_eq_getElem htx, ?_⟩
    rw [← htxout, Output.txout, howner]
    rfl

/-! ### What is signed -/

namespace TransactionTemplate

/-- The hashes to sign are those of our inputs. -/
theorem iterOurInputSighashes_eq (t : TransactionTemplate ScopedTo) :
    t.iterOurInputSighashes B = t.iterOurInputs.map fun x =>
      (x.2.2, B.taprootKeySpendSignatureHash (t.toRustBitcoinTx B) x.1
        (t.inputs.map fun input => input.txout B)) := by
  rw [iterOurInputSighashes, iterOurInputs, iterSighash, List.zip_map_right,
    List.range_eq_range', ← List.zipIdx_eq_zip_range', List.filterMap_map, List.map_filterMap]
  refine List.filterMap_congr fun x _ => ?_
  rw [Option.map_map]
  rfl

/-- Our inputs are at their indices. -/
theorem mem_iterOurInputs {t : TransactionTemplate ScopedTo} {x : ℕ × Input × LocalSpk}
    (h : x ∈ t.iterOurInputs) : t.inputs[x.1]? = some x.2.1 ∧ x.2.1.owner = .local x.2.2 := by
  rw [iterOurInputs, List.mem_filterMap] at h
  obtain ⟨⟨input, i⟩, hmem, hx⟩ := h
  obtain ⟨owner, howner, rfl⟩ := Option.map_eq_some_iff.1 hx
  refine ⟨List.mem_zipIdx_iff_getElem?.1 hmem, ?_⟩
  revert howner
  cases input.owner with
  | foreign spk => exact nofun
  | «local» l =>
      intro howner
      rw [SpkOwner.localOwner, Option.some.injEq] at howner
      rw [howner]

/-- Our inputs are in order. -/
theorem iterOurInputs_pairwise (t : TransactionTemplate ScopedTo) :
    (t.iterOurInputs.map Prod.fst).Pairwise (· < ·) := by
  rw [iterOurInputs, List.map_filterMap, List.pairwise_filterMap]
  have hsnd : (t.inputs.zipIdx.map Prod.snd).Pairwise (· < ·) := by
    rw [List.zipIdx_map_snd]
    exact List.pairwise_lt_range'
  refine (List.pairwise_map.1 hsnd).imp fun hlt i hi j hj => ?_
  rw [Option.map_map, Option.map_eq_some_iff] at hi hj
  obtain ⟨_, _, rfl⟩ := hi
  obtain ⟨_, _, rfl⟩ := hj
  exact hlt

end TransactionTemplate

/-- A signature is written onto an input. -/
theorem attachSignature_eq {psbt : Psbt} {pair : ℕ × EncodedSignature} {input : PsbtInput}
    (h : psbt.inputs[pair.1]? = some input) :
    attachSignature psbt pair = .ok { psbt with
      inputs := psbt.inputs.set pair.1
        { input with tapKeySig := some { signature := pair.2 } } } := by
  rw [attachSignature, h]
  rfl

/-- Signatures are written onto the inputs they are paired with. -/
theorem foldlM_attachSignature {pairs : List (ℕ × EncodedSignature)} {psbt : Psbt}
    (hnodup : (pairs.map Prod.fst).Nodup)
    (hbound : ∀ pair ∈ pairs, pair.1 < psbt.inputs.length) :
    ∃ signed, pairs.foldlM attachSignature psbt = .ok signed ∧
      signed.unsignedTx = psbt.unsignedTx ∧ signed.outputs = psbt.outputs ∧
      (∀ i, i ∉ pairs.map Prod.fst → signed.inputs[i]? = psbt.inputs[i]?) ∧
      ∀ pair ∈ pairs, ∃ input, psbt.inputs[pair.1]? = some input ∧
        signed.inputs[pair.1]? =
          some { input with tapKeySig := some { signature := pair.2 } } := by
  induction pairs generalizing psbt with
  | nil =>
      exact ⟨psbt, rfl, rfl, rfl, fun _ _ => rfl, fun _ hpair => absurd hpair List.not_mem_nil⟩
  | cons pair pairs ih =>
      have hlt := hbound pair List.mem_cons_self
      have hinput : psbt.inputs[pair.1]? = some psbt.inputs[pair.1] := List.getElem?_eq_getElem hlt
      rw [List.map_cons, List.nodup_cons] at hnodup
      rw [List.foldlM_cons, attachSignature_eq hinput]
      have hrest : ∀ other ∈ pairs, other.1 < (psbt.inputs.set pair.1
          { psbt.inputs[pair.1] with tapKeySig := some { signature := pair.2 } }).length := by
        intro other hother
        rw [List.length_set]
        exact hbound other (List.mem_cons_of_mem pair hother)
      obtain ⟨signed, hsigned, htx, houtputs, hothers, hpairs⟩ := @ih
        { psbt with
          inputs := psbt.inputs.set pair.1
            { psbt.inputs[pair.1] with tapKeySig := some { signature := pair.2 } } }
        hnodup.2 hrest
      refine ⟨signed, hsigned, htx, houtputs, fun i hi => ?_, fun other hother => ?_⟩
      · rw [List.map_cons, List.mem_cons, not_or] at hi
        rw [hothers i hi.2, List.getElem?_set_ne fun h => hi.1 h.symm]
      · rcases List.mem_cons.1 hother with rfl | hother
        · refine ⟨_, hinput, ?_⟩
          rw [hothers _ hnodup.1, List.getElem?_set_self hlt]
        · obtain ⟨input, hget, hset⟩ := hpairs other hother
          refine ⟨input, ?_, hset⟩
          rwa [List.getElem?_set_ne] at hget
          rintro heq
          exact hnodup.1 (heq ▸ List.mem_map_of_mem hother)

/-- The items of a key that a PSBT is read for, each with the hash of its input. -/
theorem signItems_eq (hparsed : psbt.Parsed) (h : fromPsbt B psbt masterAppkeys = .ret (.ok t))
    (masterAppkey : MasterAppkey) (network : Network) :
    CheckedSignTask.signItems B
      { masterAppkey := masterAppkey
        inner := .bitcoinTransaction (t.asSeenBy B masterAppkey) network } =
      (t.asSeenBy B masterAppkey).iterOurInputs.map fun x =>
        { message := B.taprootKeySpendSignatureHash psbt.unsignedTx x.1 psbt.spentOutputs
          appTweak := .bitcoin x.2.2.bip32Path } := by
  have hprevouts : ((t.asSeenBy B masterAppkey).inputs.map fun input => input.txout B) =
      psbt.spentOutputs := by
    rw [spentOutputs_of_fromPsbt hparsed h]
    simp only [TransactionTemplate.asSeenBy, List.map_map, Function.comp_def, Input.txout,
      TransactionTemplate.spk_foreignToUs]
  have htx : (t.asSeenBy B masterAppkey).toRustBitcoinTx B = psbt.unsignedTx := by
    rw [TransactionTemplate.toRustBitcoinTx_asSeenBy, toRustBitcoinTx_of_fromPsbt hparsed h]
  rw [← hprevouts, ← htx]
  simp only [CheckedSignTask.signItems, TransactionTemplate.iterOurInputSighashes_eq, List.map_map,
    Function.comp_def]

/-- An input of a key that a PSBT is read for is one of its inputs, and the key derives the script
that it spends. -/
theorem spends_of_mem_iterOurInputs (hparsed : psbt.Parsed)
    (h : fromPsbt B psbt masterAppkeys = .ret (.ok t)) {masterAppkey : MasterAppkey}
    {x : ℕ × Input × LocalSpk} (hx : x ∈ (t.asSeenBy B masterAppkey).iterOurInputs) :
    x.1 < psbt.inputs.length ∧
      ∃ txout, psbt.spentOutputs[x.1]? = some txout ∧ txout.scriptPubkey =
        B.newP2trTweaked (B.deriveXonlyKey (.bitcoin x.2.2.bip32Path) masterAppkey) := by
  obtain ⟨i, input, owner⟩ := x
  obtain ⟨hget, howner⟩ := TransactionTemplate.mem_iterOurInputs hx
  rw [TransactionTemplate.asSeenBy, List.getElem?_map, Option.map_eq_some_iff] at hget
  obtain ⟨read, hread, rfl⟩ := hget
  have hlocal : (TransactionTemplate.foreignToUs B masterAppkey read.owner).localOwner =
      some owner := congrArg SpkOwner.localOwner howner
  obtain ⟨hlocal, hkey⟩ := TransactionTemplate.localOwner_foreignToUs.1 hlocal
  obtain ⟨-, txout, htxout, hspk⟩ :=
    (readsAs_of_fromPsbt hparsed h).ownedInputs i read owner hread hlocal
  refine ⟨?_, txout, htxout, ?_⟩
  · obtain ⟨hlt, -⟩ := List.getElem?_eq_some_iff.1 hread
    obtain ⟨-, -, hinputs, -⟩ := fromPsbt_eq_ok h
    rwa [← hinputs.length_eq, List.length_zipIdx] at hlt
  · rw [hspk, LocalSpk.spk, hkey]

/-- Signatures for the items of a key are attached to the inputs that the items are for. -/
theorem attachSignatures_of_fromPsbt (hparsed : psbt.Parsed)
    (h : fromPsbt B psbt masterAppkeys = .ret (.ok t)) (masterAppkey : MasterAppkey)
    (network : Network) (signatures : List EncodedSignature) :
    let txTemplate := t.asSeenBy B masterAppkey
    let signItems := CheckedSignTask.signItems B
      { masterAppkey := masterAppkey, inner := .bitcoinTransaction txTemplate network }
    signatures.length = signItems.length →
      ∃ signed indices, txTemplate.attachSignaturesToPsbt signatures psbt = .ok signed ∧
        AttachedTo B psbt masterAppkey signItems signatures signed indices := by
  intro txTemplate signItems hcount
  have hitems : signItems = txTemplate.iterOurInputs.map _ := signItems_eq hparsed h _ network
  have hlength : signatures.length = txTemplate.iterOurInputs.length := by
    rw [hcount, hitems, List.length_map]
  let indices := txTemplate.iterOurInputs.map Prod.fst
  have hincreasing : indices.Pairwise (· < ·) :=
    TransactionTemplate.iterOurInputs_pairwise txTemplate
  have hindices : (indices.zip signatures).map Prod.fst = indices :=
    List.map_fst_zip (by rw [List.length_map, hlength])
  have hnodup : ((indices.zip signatures).map Prod.fst).Nodup := by
    rw [hindices]
    exact hincreasing.imp Nat.ne_of_lt
  have hbound : ∀ pair ∈ indices.zip signatures, pair.1 < psbt.inputs.length := by
    intro pair hpair
    obtain ⟨x, hx, hi⟩ := List.mem_map.1 (List.of_mem_zip hpair).1
    rw [← hi]
    exact (spends_of_mem_iterOurInputs hparsed h hx).1
  obtain ⟨signed, hsigned, htx, houtputs, hothers, hpairs⟩ :=
    foldlM_attachSignature hnodup hbound
  refine ⟨signed, indices, ?_, htx, houtputs, hincreasing, ?_, ?_, ?_⟩
  · rw [TransactionTemplate.attachSignaturesToPsbt, TransactionTemplate.signaturesByInputIndex,
      if_neg (not_not.2 hlength)]
    exact hsigned
  · rw [hitems, List.forall₂_map_left_iff, List.forall₂_map_right_iff]
    exact List.forall₂_same.2 fun x hx => ⟨rfl, (spends_of_mem_iterOurInputs hparsed h hx).2⟩
  · refine List.forall₂_iff_zip.2 ⟨by rw [List.length_map, hlength], fun {i signature} hmem => ?_⟩
    exact hpairs (i, signature) hmem
  · rwa [hindices] at hothers

/-- A PSBT that is read is read as it is, and signatures for what is read go where they belong. -/
theorem fromPsbt_faithful (hparsed : psbt.Parsed)
    (h : fromPsbt B psbt masterAppkeys = .ret (.ok t)) :
    ReadsAs B psbt masterAppkeys t ∧
      ∀ (masterAppkey : MasterAppkey) (network : Network) (signatures : List EncodedSignature),
        let txTemplate := t.asSeenBy B masterAppkey
        let signItems := CheckedSignTask.signItems B
          { masterAppkey := masterAppkey, inner := .bitcoinTransaction txTemplate network }
        signatures.length = signItems.length →
          ∃ signed indices, txTemplate.attachSignaturesToPsbt signatures psbt = .ok signed ∧
            AttachedTo B psbt masterAppkey signItems signatures signed indices :=
  ⟨readsAs_of_fromPsbt hparsed h, attachSignatures_of_fromPsbt hparsed h⟩

/-- A PSBT that claims the first key of `[8, 7]` by its fingerprint, which both have, and the
script of the second. Its first input is not ours. -/
def collidingPsbt : Psbt where
  unsignedTx :=
    { version := 2
      lockTime := 0
      input :=
        [{ previousOutput := { txid := 1, vout := 0 }
           scriptSig := []
           sequence := 5
           witness := [] },
         { previousOutput := { txid := 2, vout := 1 }
           scriptSig := []
           sequence := 6
           witness := [] }]
      output := [{ value := 90, scriptPubkey := [0x6a] }] }
  inputs :=
    [{ witnessUtxo := some { value := 60, scriptPubkey := [0x52] }
       nonWitnessUtxo := none
       finalScriptWitness := none
       tapInternalKey := none
       tapKeyOrigins := ∅
       tapKeySig := none },
     { witnessUtxo := some { value := 40, scriptPubkey := [0x51, 0x20, 7] }
       nonWitnessUtxo := none
       finalScriptWitness := none
       tapInternalKey := some 7
       tapKeyOrigins := (∅ : TapKeyOrigins).insert 7
         ([], 0, [.normal 0, .normal 0, .normal 0, .normal 0])
       tapKeySig := none }]
  outputs := [{ tapInternalKey := none, tapKeyOrigins := ∅ }]

/-- What is read of it. -/
def collidingTemplate : TransactionTemplate Unscoped where
  scope := {}
  version := 2
  lockTime := 0
  inputs :=
    [{ outpoint := { txid := 1, vout := 0 }, value := 60, owner := .foreign [0x52], sequence := 5 },
     { outpoint := { txid := 2, vout := 1 }
       value := 40
       owner := .local
         { masterAppkey := 7
           bip32Path := { accountKeychain := .external, index := .zero } }
       sequence := 6 }]
  outputs := [{ value := 90, owner := .foreign [0x6a] }]

theorem fromPsbt_faithful_colliding :
    fromPsbt plainBitcoinLib collidingPsbt [8, 7] = .ret (.ok collidingTemplate) ∧
      ReadsAs plainBitcoinLib collidingPsbt [8, 7] collidingTemplate ∧
      ∃ signed indices,
        (collidingTemplate.asSeenBy plainBitcoinLib 7).attachSignaturesToPsbt [9] collidingPsbt =
            .ok signed ∧
          AttachedTo plainBitcoinLib collidingPsbt 7
            (CheckedSignTask.signItems plainBitcoinLib
              { masterAppkey := 7
                inner := .bitcoinTransaction (collidingTemplate.asSeenBy plainBitcoinLib 7)
                  .bitcoin })
            [9] signed indices := by
  have hparsed : collidingPsbt.Parsed := ⟨rfl, rfl, by decide +kernel, by decide +kernel⟩
  have hread : fromPsbt plainBitcoinLib collidingPsbt [8, 7] = .ret (.ok collidingTemplate) := by
    decide +kernel
  obtain ⟨hreads, hattach⟩ := fromPsbt_faithful hparsed hread
  exact ⟨hread, hreads, hattach 7 .bitcoin [9] (by decide +kernel)⟩

end Bitcoin

end Frostsnap
