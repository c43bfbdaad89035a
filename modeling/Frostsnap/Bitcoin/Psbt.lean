import Frostsnap.Bitcoin.SignTask

/-!
# Partially signed transactions

Reading a PSBT as a template, and writing signatures onto the PSBT it was read from:
`frostsnap_core/src/psbt.rs`. Of a PSBT there are the fields that the two use. What is logged is
not modelled.
-/

namespace Frostsnap

namespace Bitcoin

/-- A step of a derivation path. -/
inductive ChildNumber where
  | normal (index : ℕ)
  | hardened (index : ℕ)
  deriving DecidableEq

/-- The fingerprint of a key. -/
abbrev Fingerprint := BitVec 32

instance Fingerprint.transOrd : Std.TransOrd Fingerprint := inferInstance

/-- The fingerprint of a key and a path from it. -/
abbrev KeySource := Fingerprint × List ChildNumber

/-- Where the keys of a taproot output are from, each with the leaves that it is in. -/
abbrev TapKeyOrigins := BTreeMap XOnlyPublicKey (List (BitVec 256) × KeySource)

/-- A signature for a taproot key spend, with the default sighash type. -/
structure TaprootSignature where
  signature : EncodedSignature
  deriving DecidableEq

/-- What a PSBT says of an input. -/
structure PsbtInput where
  witnessUtxo : Option TxOut
  nonWitnessUtxo : Option Transaction
  finalScriptWitness : Option (List (List UInt8))
  tapInternalKey : Option XOnlyPublicKey
  tapKeyOrigins : TapKeyOrigins
  tapKeySig : Option TaprootSignature

/-- What a PSBT says of an output. -/
structure PsbtOutput where
  tapInternalKey : Option XOnlyPublicKey
  tapKeyOrigins : TapKeyOrigins

/-- A partially signed transaction. -/
structure Psbt where
  unsignedTx : Transaction
  inputs : List PsbtInput
  outputs : List PsbtOutput

/-- A PSBT as its parser yields it: there is a map for each input and each output, and the
transaction, which is read without witnesses, is not signed. -/
structure Psbt.Parsed (psbt : Psbt) : Prop where
  inputs : psbt.inputs.length = psbt.unsignedTx.input.length
  outputs : psbt.outputs.length = psbt.unsignedTx.output.length
  scriptSig : ∀ txin ∈ psbt.unsignedTx.input, txin.scriptSig = []
  witness : ∀ txin ∈ psbt.unsignedTx.input, txin.witness = []

/-- Why a key origin does not name a script of ours. -/
inductive NotOurs where
  | noInternalKey
  | noOrigin
  | foreignFingerprint
  | hardened
  | unusualPath (path : String)
  deriving DecidableEq

/-- Why a PSBT is refused. -/
inductive PsbtValidationError where
  | nothingToSign (totalInputs foreignCount alreadySignedCount : ℕ)
  | other (text : String)
  deriving DecidableEq

variable (B : BitcoinLib)

/-! ### Reading -/

/-- Our keys, by their fingerprints. Keys may have the same. -/
def oursByFingerprint (masterAppkeys : List MasterAppkey) :
    BTreeMap Fingerprint (List MasterAppkey) :=
  masterAppkeys.foldl (fun ours masterAppkey =>
    let fingerprint := B.appkeyFingerprint masterAppkey
    ours.insert fingerprint (ours.getD fingerprint [] ++ [masterAppkey])) ∅

/-- The path of a child, if no step is hardened. -/
def normalPath : List ChildNumber → Except NotOurs (List ℕ)
  | [] => .ok []
  | .normal index :: path => do
      let path ← normalPath path
      return index :: path
  | .hardened _ :: _ => .error .hardened

/-- The path that a PSBT claims for its internal key, and all keys that it may be from. -/
def claimedPath (tapInternalKey : Option XOnlyPublicKey) (tapKeyOrigins : TapKeyOrigins)
    (ours : BTreeMap Fingerprint (List MasterAppkey)) :
    Except NotOurs (BitcoinBip32Path × List MasterAppkey) :=
  match tapInternalKey with
  | none => .error .noInternalKey
  | some tapInternalKey =>
      match tapKeyOrigins[tapInternalKey]? with
      | none => .error .noOrigin
      | some (_, fingerprint, derivationPath) =>
          match ours[fingerprint]? with
          | none => .error .foreignFingerprint
          | some candidates =>
              match normalPath derivationPath with
              | .error e => .error e
              | .ok path =>
                  match BitcoinBip32Path.fromU32Slice path with
                  | none => .error (.unusualPath ("/".intercalate (path.map toString)))
                  | some bip32Path => .ok (bip32Path, candidates)

/-- Push a script for the first candidate that derives it. The last error is returned when none
does. -/
def pushOwned {α : Type} (bip32Path : BitcoinBip32Path)
    (push : LocalSpk → Except SpkDoesntMatchPathError α) :
    List MasterAppkey → Option SpkDoesntMatchPathError → Exec (Except SpkDoesntMatchPathError α)
  | [], lastMismatch => do
      let mismatch ← Exec.expect lastMismatch
        "a fingerprint is only in the map because a key produced it"
      return .error mismatch
  | masterAppkey :: candidates, _ =>
      match push { masterAppkey := masterAppkey, bip32Path := bip32Path } with
      | .ok a => return .ok a
      | .error mismatch => pushOwned bip32Path push candidates (some mismatch)

/-- The output that an input spends, as the PSBT tells it. -/
def PsbtInput.spentOutput (input : PsbtInput) (txin : TxIn) : Option TxOut :=
  input.witnessUtxo <|> do
    let tx ← input.nonWitnessUtxo
    tx.output[txin.previousOutput.vout]?

/-- What has been read. -/
structure ReadPsbt where
  template : TransactionTemplate Unscoped
  alreadySignedCount : ℕ
  foreignCount : ℕ
  ownedCount : ℕ

/-- Read the input at an index. -/
def readInput (unsignedTx : Transaction) (ours : BTreeMap Fingerprint (List MasterAppkey))
    (s : ReadPsbt) (i : ℕ) (input : PsbtInput) : Exec (Except PsbtValidationError ReadPsbt) :=
  match unsignedTx.input[i]? with
  | none => return .error (.other s!"PSBT input {i} is malformed")
  | some txin =>
      match input.spentOutput txin with
      | none =>
          return .error (.other s!"PSBT input {i} missing witness and non-witness utxo")
      | some txout =>
          let inputPush : PushInput :=
            { txout := txout, outpoint := txin.previousOutput, sequence := txin.sequence }
          if input.finalScriptWitness.isSome then
            return .ok
              { s with
                template := s.template.pushForeignInput inputPush
                alreadySignedCount := s.alreadySignedCount + 1 }
          else
            match claimedPath input.tapInternalKey input.tapKeyOrigins ours with
            | .error .hardened => return .error (.other "can't sign with hardened derivation")
            | .error _ =>
                return .ok
                  { s with
                    template := s.template.pushForeignInput inputPush
                    foreignCount := s.foreignCount + 1 }
            | .ok (bip32Path, candidates) => do
                let pushed ←
                  pushOwned bip32Path (s.template.pushOwnedInput B inputPush) candidates none
                match pushed with
                | .error e => return .error (.other (e.text B))
                | .ok template =>
                    return .ok { s with template := template, ownedCount := s.ownedCount + 1 }

/-- Read inputs, of which the first is at an index. -/
def readInputs (unsignedTx : Transaction) (ours : BTreeMap Fingerprint (List MasterAppkey)) :
    ReadPsbt → ℕ → List PsbtInput → Exec (Except PsbtValidationError ReadPsbt)
  | s, _, [] => return .ok s
  | s, i, input :: inputs => do
      match ← readInput B unsignedTx ours s i input with
      | .error e => return .error e
      | .ok s => readInputs unsignedTx ours s (i + 1) inputs

/-- Read the output at an index. -/
def readOutput (outputs : List PsbtOutput) (ours : BTreeMap Fingerprint (List MasterAppkey))
    (template : TransactionTemplate Unscoped) (i : ℕ) (txout : TxOut) :
    Exec (Except PsbtValidationError (TransactionTemplate Unscoped)) :=
  let claim :=
    match outputs[i]? with
    | some output => claimedPath output.tapInternalKey output.tapKeyOrigins ours
    | none => .error .noOrigin
  match claim with
  | .ok (bip32Path, candidates) => do
      match ← pushOwned bip32Path (template.pushOwnedOutputChecked B txout) candidates none with
      | .error e => return .error (.other (e.text B))
      | .ok template => return .ok template
  | .error _ => return .ok (template.pushForeignOutput txout)

/-- Read outputs, of which the first is at an index. -/
def readOutputs (outputs : List PsbtOutput) (ours : BTreeMap Fingerprint (List MasterAppkey)) :
    TransactionTemplate Unscoped → ℕ → List TxOut →
      Exec (Except PsbtValidationError (TransactionTemplate Unscoped))
  | template, _, [] => return .ok template
  | template, i, txout :: txouts => do
      match ← readOutput B outputs ours template i txout with
      | .error e => return .error e
      | .ok template => readOutputs outputs ours template (i + 1) txouts

/-- Read a PSBT as a transaction that our keys are asked to sign. -/
def fromPsbt (psbt : Psbt) (masterAppkeys : List MasterAppkey) :
    Exec (Except PsbtValidationError (TransactionTemplate Unscoped)) := do
  let ours := oursByFingerprint B masterAppkeys
  let template : TransactionTemplate Unscoped :=
    { TransactionTemplate.new with
      version := psbt.unsignedTx.version
      lockTime := psbt.unsignedTx.lockTime }
  let start : ReadPsbt :=
    { template := template, alreadySignedCount := 0, foreignCount := 0, ownedCount := 0 }
  match ← readInputs B psbt.unsignedTx ours start 0 psbt.inputs with
  | .error e => return .error e
  | .ok s =>
      match ← readOutputs B psbt.outputs ours s.template 0 psbt.unsignedTx.output with
      | .error e => return .error e
      | .ok template =>
          if s.ownedCount = 0 then
            return .error
              (.nothingToSign psbt.inputs.length s.foreignCount s.alreadySignedCount)
          else return .ok template

/-! ### Writing signatures -/

/-- The number of signatures is not that of our inputs. -/
structure SignatureCountMismatch where
  expected : ℕ
  got : ℕ
  deriving DecidableEq

/-- Why signatures are not attached. -/
inductive AttachSignaturesError where
  | countMismatch (e : SignatureCountMismatch)
  | noSuchInput (i : ℕ)
  | malformedSignature (i : ℕ)
  deriving DecidableEq

/-- `schnorr::Signature::from_slice`, which asks of the bytes that they are `64`. -/
def schnorrSignatureFromSlice (signature : EncodedSignature) : Option EncodedSignature :=
  some signature

namespace TransactionTemplate

variable (t : TransactionTemplate ScopedTo)

/-- Each signature with the index of the input that it is for. -/
def signaturesByInputIndex (signatures : List EncodedSignature) :
    Except SignatureCountMismatch (List (ℕ × EncodedSignature)) :=
  let expected := t.iterOurInputs.length
  if signatures.length ≠ expected then
    .error { expected := expected, got := signatures.length }
  else .ok ((t.iterOurInputs.map Prod.fst).zip signatures)

end TransactionTemplate

/-- Write a signature onto an input. -/
def attachSignature (psbt : Psbt) (pair : ℕ × EncodedSignature) :
    Except AttachSignaturesError Psbt :=
  match psbt.inputs[pair.1]? with
  | none => .error (.noSuchInput pair.1)
  | some input =>
      match schnorrSignatureFromSlice pair.2 with
      | none => .error (.malformedSignature pair.1)
      | some signature =>
          .ok { psbt with
            inputs :=
              psbt.inputs.set pair.1 { input with tapKeySig := some { signature := signature } } }

/-- Write each signature onto the input it was produced for. -/
def TransactionTemplate.attachSignaturesToPsbt (t : TransactionTemplate ScopedTo)
    (signatures : List EncodedSignature) (psbt : Psbt) : Except AttachSignaturesError Psbt :=
  match t.signaturesByInputIndex signatures with
  | .error e => .error (.countMismatch e)
  | .ok pairs => pairs.foldlM attachSignature psbt

/-! ### Faithful reading and writing -/

/-- The outputs that a PSBT says are spent. -/
def Psbt.spentOutputs (psbt : Psbt) : List TxOut :=
  (psbt.inputs.zip psbt.unsignedTx.input).filterMap fun (input, txin) => input.spentOutput txin

/-- A template is the transaction of a PSBT, and what it says some of our keys own is theirs. -/
structure ReadsAs (psbt : Psbt) (masterAppkeys : List MasterAppkey)
    (t : TransactionTemplate Unscoped) : Prop where
  tx : t.toRustBitcoinTx B = psbt.unsignedTx
  ownedInputs : ∀ (i : ℕ) (input : Input) (owner : LocalSpk), t.inputs[i]? = some input →
    input.owner = .local owner → owner.masterAppkey ∈ masterAppkeys ∧
      ∃ txout : TxOut, psbt.spentOutputs[i]? = some txout ∧ txout.scriptPubkey = owner.spk B
  ownedOutputs : ∀ (i : ℕ) (output : Output) (owner : LocalSpk), t.outputs[i]? = some output →
    output.owner = .local owner → owner.masterAppkey ∈ masterAppkeys ∧
      ∃ txout : TxOut, psbt.unsignedTx.output[i]? = some txout ∧ txout.scriptPubkey = owner.spk B

/-- Signatures for messages are on the inputs that the messages are the hashes of, which are at
`indices`, and nothing else has changed. -/
structure AttachedTo (psbt : Psbt) (masterAppkey : MasterAppkey) (signItems : List SignItem)
    (signatures : List EncodedSignature) (signed : Psbt) (indices : List ℕ) : Prop where
  unsignedTx : signed.unsignedTx = psbt.unsignedTx
  outputs : signed.outputs = psbt.outputs
  increasing : indices.Pairwise (· < ·)
  /-- each item is the hash of the input, to be signed by the key that the input is locked to -/
  items : List.Forall₂ (fun i (item : SignItem) =>
    item.message = B.taprootKeySpendSignatureHash psbt.unsignedTx i psbt.spentOutputs ∧
      ∃ txout : TxOut, psbt.spentOutputs[i]? = some txout ∧
        txout.scriptPubkey = B.newP2trTweaked (B.deriveXonlyKey item.appTweak masterAppkey))
    indices signItems
  /-- and its signature is on the input -/
  attached : List.Forall₂ (fun i signature =>
    ∃ input, psbt.inputs[i]? = some input ∧
      signed.inputs[i]? = some { input with tapKeySig := some { signature := signature } })
    indices signatures
  others : ∀ i, i ∉ indices → signed.inputs[i]? = psbt.inputs[i]?

end Bitcoin

end Frostsnap
