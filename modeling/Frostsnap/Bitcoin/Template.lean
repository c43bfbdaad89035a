import Frostsnap.Core.Tweak

/-!
# Transaction templates

The templates of `frostsnap_core/src/bitcoin_transaction.rs`: a transaction whose inputs and
outputs say who owns their scripts. A template that travels is not narrowed to any key; `asSeenBy`
narrows it to one, and only then is it a question which inputs and outputs are ours.

Hashes, addresses and the script of a derived key are a library's. Amounts are `u64`s, so that
sums of them overflow as they do in the program: with a panic in a build that checks for it, and
silently in a release build.
-/

namespace Frostsnap

namespace Bitcoin

/-! ### Transactions -/

/-- A script. -/
abbrev Script := List UInt8

/-- An amount in satoshis, a `u64`. -/
abbrev Sats := BitVec 64

/-- An output of a transaction that an input spends. -/
structure OutPoint where
  txid : BitVec 256
  vout : ℕ
  deriving DecidableEq

/-- An output. -/
structure TxOut where
  value : Sats
  scriptPubkey : Script
  deriving DecidableEq

/-- An input. -/
structure TxIn where
  previousOutput : OutPoint
  scriptSig : Script
  sequence : BitVec 32
  witness : List (List UInt8)
  deriving DecidableEq

/-- A transaction. -/
@[ext]
structure Transaction where
  version : BitVec 32
  lockTime : BitVec 32
  input : List TxIn
  output : List TxOut
  deriving DecidableEq

/-- An x-only public key. -/
abbrev XOnlyPublicKey := BitVec 256

/-- The functions of the libraries that templates call. -/
structure BitcoinLib where
  Address : Type
  /-- `AppTweak::derive_xonly_key` from the point and chaincode of a master appkey -/
  deriveXonlyKey : AppTweak → MasterAppkey → XOnlyPublicKey
  /-- `ScriptBuf::new_p2tr_tweaked` -/
  newP2trTweaked : XOnlyPublicKey → Script
  /-- `Address::from_script` -/
  addressFromScript : Script → Network → Option Address
  /-- `taproot_key_spend_signature_hash` of an input, given all outputs that are spent, with the
  default sighash type -/
  taprootKeySpendSignatureHash : Transaction → ℕ → List TxOut → List UInt8
  /-- the fingerprint of the appkey for bitcoin -/
  appkeyFingerprint : MasterAppkey → BitVec 32
  /-- a script as `{:?}` writes it -/
  scriptDebug : Script → String
  /-- a master appkey as `{}` writes it -/
  masterAppkeyDisplay : MasterAppkey → String

/-! ### Owners -/

/-- A script that a key derives. -/
structure LocalSpk where
  masterAppkey : MasterAppkey
  bip32Path : BitcoinBip32Path
  deriving DecidableEq

/-- Who owns a script. -/
inductive SpkOwner where
  | foreign (spk : Script)
  | local (owner : LocalSpk)
  deriving DecidableEq

/-- A script is not the one that is derived at the path. -/
structure SpkDoesntMatchPathError where
  got : Script
  expected : Script
  path : List ℕ
  masterAppkey : MasterAppkey
  deriving DecidableEq

variable (B : BitcoinLib)

/-- The text of the error. -/
def SpkDoesntMatchPathError.text (e : SpkDoesntMatchPathError) : String :=
  "the script pubkey " ++ B.scriptDebug e.got ++ " didn't match what we expected " ++
    B.scriptDebug e.expected ++ " at derivation path " ++ toString e.path ++ " from " ++
    B.masterAppkeyDisplay e.masterAppkey

namespace LocalSpk

/-- The script of the key. -/
def spk (owner : LocalSpk) : Script :=
  B.newP2trTweaked (B.deriveXonlyKey (.bitcoin owner.bip32Path) owner.masterAppkey)

/-- Prove that the owner derives a script. -/
def checkSpk (owner : LocalSpk) (spk : Script) : Except SpkDoesntMatchPathError Unit :=
  if spk ≠ owner.spk B then
    .error
      { got := spk
        expected := owner.spk B
        path := owner.bip32Path.pathSegmentsFromBitcoinAppkey
        masterAppkey := owner.masterAppkey }
  else .ok ()

end LocalSpk

namespace SpkOwner

/-- The script. -/
def spk : SpkOwner → Script
  | .foreign spk => spk
  | .local owner => owner.spk B

/-- The key and the path, when it is ours. -/
def localOwner : SpkOwner → Option LocalSpk
  | .foreign _ => none
  | .local owner => some owner

end SpkOwner

/-- An input of a template. -/
structure Input where
  outpoint : OutPoint
  value : Sats
  owner : SpkOwner
  sequence : BitVec 32
  deriving DecidableEq

/-- An output of a template. -/
structure Output where
  value : Sats
  owner : SpkOwner
  deriving DecidableEq

/-- The output that an input spends. -/
def Input.txout (input : Input) : TxOut where
  value := input.value
  scriptPubkey := input.owner.spk B

/-- The output of the transaction. -/
def Output.txout (output : Output) : TxOut where
  value := output.value
  scriptPubkey := output.owner.spk B

/-! ### Templates -/

/-- A template that is not narrowed to any key. -/
structure Unscoped where
  deriving DecidableEq

/-- A template narrowed to a key. -/
structure ScopedTo where
  masterAppkey : MasterAppkey
  deriving DecidableEq

/-- A transaction with the owners of its scripts. -/
structure TransactionTemplate (S : Type) where
  scope : S
  version : BitVec 32
  lockTime : BitVec 32
  inputs : List Input
  outputs : List Output
  deriving DecidableEq

/-- An output to spend, where it is, and the sequence to spend it with. -/
structure PushInput where
  txout : TxOut
  outpoint : OutPoint
  sequence : BitVec 32

/-- A sum of `u64`s. -/
def sumU64 [Build] : List Sats → Exec Sats :=
  List.foldlM (fun sum value =>
    if Build.checks ∧ 2 ^ 64 ≤ sum.toNat + value.toNat then .panic "attempt to add with overflow"
    else .ret (sum + value)) 0

namespace TransactionTemplate

variable {S : Type}

/-- The transaction, without witnesses. -/
def toRustBitcoinTx (t : TransactionTemplate S) : Transaction where
  version := t.version
  lockTime := t.lockTime
  input := t.inputs.map fun input =>
    { previousOutput := input.outpoint, scriptSig := [], sequence := input.sequence, witness := [] }
  output := t.outputs.map fun output => output.txout B

/-- The hash that the signature of each input is for. -/
def iterSighash (t : TransactionTemplate S) : List (List UInt8) :=
  let tx := t.toRustBitcoinTx B
  let prevouts := t.inputs.map fun input => input.txout B
  (List.range t.inputs.length).map fun i => B.taprootKeySpendSignatureHash tx i prevouts

/-- What the inputs have more than the outputs, if they have. -/
def fee [Build] (t : TransactionTemplate S) : Exec (Option Sats) := do
  let inputs ← sumU64 (t.inputs.map Input.value)
  let outputs ← sumU64 (t.outputs.map Output.value)
  return if outputs ≤ inputs then some (inputs - outputs) else none

end TransactionTemplate

namespace TransactionTemplate

/-! The templates that travel. -/

/-- An empty template. -/
def new : TransactionTemplate Unscoped where
  scope := {}
  version := 2
  lockTime := 0
  inputs := []
  outputs := []

/-- Add an input that is not ours. -/
def pushForeignInput (t : TransactionTemplate Unscoped) (input : PushInput) :
    TransactionTemplate Unscoped :=
  { t with
    inputs := t.inputs ++
      [{ outpoint := input.outpoint
         value := input.txout.value
         owner := .foreign input.txout.scriptPubkey
         sequence := input.sequence }] }

/-- Add an input of a key that derives its script. -/
def pushOwnedInput (t : TransactionTemplate Unscoped) (input : PushInput) (owner : LocalSpk) :
    Except SpkDoesntMatchPathError (TransactionTemplate Unscoped) := do
  owner.checkSpk B input.txout.scriptPubkey
  return { t with
    inputs := t.inputs ++
      [{ outpoint := input.outpoint
         value := input.txout.value
         owner := .local owner
         sequence := input.sequence }] }

/-- Add an output that is not ours. -/
def pushForeignOutput (t : TransactionTemplate Unscoped) (txout : TxOut) :
    TransactionTemplate Unscoped :=
  { t with
    outputs := t.outputs ++ [{ value := txout.value, owner := .foreign txout.scriptPubkey }] }

/-- Add an output of a key. -/
def pushOwnedOutput (t : TransactionTemplate Unscoped) (value : Sats) (owner : LocalSpk) :
    TransactionTemplate Unscoped :=
  { t with outputs := t.outputs ++ [{ value := value, owner := .local owner }] }

/-- Add an output of a key that derives its script. -/
def pushOwnedOutputChecked (t : TransactionTemplate Unscoped) (txout : TxOut) (owner : LocalSpk) :
    Except SpkDoesntMatchPathError (TransactionTemplate Unscoped) := do
  owner.checkSpk B txout.scriptPubkey
  return t.pushOwnedOutput txout.value owner

/-- What is not a key's is foreign to it. -/
def foreignToUs (masterAppkey : MasterAppkey) : SpkOwner → SpkOwner
  | .local owner =>
      if owner.masterAppkey ≠ masterAppkey then .foreign (owner.spk B) else .local owner
  | .foreign spk => .foreign spk

/-- The template as a key sees it. -/
def asSeenBy (t : TransactionTemplate Unscoped) (masterAppkey : MasterAppkey) :
    TransactionTemplate ScopedTo where
  scope := { masterAppkey := masterAppkey }
  version := t.version
  lockTime := t.lockTime
  inputs := t.inputs.map fun input => { input with owner := foreignToUs B masterAppkey input.owner }
  outputs := t.outputs.map fun output =>
    { output with owner := foreignToUs B masterAppkey output.owner }

end TransactionTemplate

namespace TransactionTemplate

/-! What is asked of a template that is narrowed to a key. -/

variable (t : TransactionTemplate ScopedTo)

/-- Our inputs, each with its owner and its hash to sign. -/
def iterOurInputSighashes : List (LocalSpk × List UInt8) :=
  (t.inputs.zip (t.iterSighash B)).filterMap fun (input, sighash) =>
    input.owner.localOwner.map fun owner => (owner, sighash)

/-- Our inputs, each with its index. -/
def iterOurInputs : List (ℕ × Input × LocalSpk) :=
  t.inputs.zipIdx.filterMap fun (input, i) =>
    input.owner.localOwner.map fun owner => (i, input, owner)

/-- Our outputs, each with its index. -/
def iterOurOutputs : List (ℕ × Output × LocalSpk) :=
  t.outputs.zipIdx.filterMap fun (output, i) =>
    output.owner.localOwner.map fun owner => (i, output, owner)

/-- Whether there is an input to sign. -/
def hasAnyInputsToSign : Bool := t.inputs.any fun input => input.owner.localOwner.isSome

end TransactionTemplate

/-! ### What narrowing keeps -/

namespace TransactionTemplate

variable {B}

/-- Narrowing keeps scripts. -/
@[simp] theorem spk_foreignToUs (masterAppkey : MasterAppkey) (owner : SpkOwner) :
    (foreignToUs B masterAppkey owner).spk B = owner.spk B := by
  cases owner with
  | foreign spk => rfl
  | «local» owner =>
      rw [foreignToUs]
      split
      · rfl
      · rfl

/-- What is ours after narrowing is the key's. -/
theorem localOwner_foreignToUs {masterAppkey : MasterAppkey} {owner : SpkOwner} {l : LocalSpk} :
    (foreignToUs B masterAppkey owner).localOwner = some l ↔
      owner = .local l ∧ l.masterAppkey = masterAppkey := by
  cases owner with
  | foreign spk =>
      constructor
      · rintro ⟨⟩
      · rintro ⟨⟨⟩, -⟩
  | «local» owner =>
      rw [foreignToUs]
      split
      · rename_i hne
        constructor
        · rintro ⟨⟩
        · rintro ⟨h, rfl⟩
          cases h
          exact absurd rfl hne
      · rename_i heq
        rw [Decidable.not_not] at heq
        constructor
        · rintro ⟨⟩
          exact ⟨rfl, heq⟩
        · rintro ⟨h, -⟩
          cases h
          rfl

/-- Narrowing keeps the transaction. -/
theorem toRustBitcoinTx_asSeenBy (t : TransactionTemplate Unscoped) (masterAppkey : MasterAppkey) :
    (t.asSeenBy B masterAppkey).toRustBitcoinTx B = t.toRustBitcoinTx B := by
  simp only [toRustBitcoinTx, asSeenBy, List.map_map, Function.comp_def, Output.txout,
    spk_foreignToUs]

/-- Narrowing keeps the hashes that are signed. -/
theorem iterSighash_asSeenBy (t : TransactionTemplate Unscoped) (masterAppkey : MasterAppkey) :
    (t.asSeenBy B masterAppkey).iterSighash B = t.iterSighash B := by
  rw [iterSighash, iterSighash, toRustBitcoinTx_asSeenBy]
  simp only [asSeenBy, List.length_map, List.map_map, Function.comp_def, Input.txout,
    spk_foreignToUs]

end TransactionTemplate

end Bitcoin

end Frostsnap
