import Frostsnap.Bitcoin.Template

/-!
# What a device is asked to sign, and what it shows

The sign tasks of `frostsnap_core/src/sign_task.rs`: a device checks a task against a key before
anything else, and what it has checked it turns into a prompt (`user_prompt` of
`bitcoin_transaction.rs`) and into the items that it signs. The fee rate, a `f64`, is not modelled.

What a prompt has to tell is `Discloses`. It speaks of the template as it came from the
coordinator and of sums of naturals, and knows nothing of how a prompt is made.
-/

namespace Frostsnap

namespace Bitcoin

/-- An event that is not signed, of which a device uses the hash. -/
structure UnsignedEvent where
  id : String
  pubkey : XOnlyPublicKey
  createdAt : ℤ
  kind : ℕ
  tags : List (List String)
  content : String
  hashBytes : List UInt8
  deriving DecidableEq

/-- A sign task as it is sent. -/
inductive WireSignTask where
  | test (message : String)
  | nostr (event : UnsignedEvent)
  | bitcoinTransaction (txTemplate : TransactionTemplate Unscoped)
  deriving DecidableEq

/-- A sign task for a key. -/
inductive SignTask where
  | test (message : String)
  | nostr (event : UnsignedEvent)
  | bitcoinTransaction (txTemplate : TransactionTemplate ScopedTo) (network : Network)
  deriving DecidableEq

/-- A sign task and the key that it was checked against. -/
structure CheckedSignTask where
  masterAppkey : MasterAppkey
  inner : SignTask
  deriving DecidableEq

/-- Why a sign task is refused. -/
inductive SignTaskError where
  | unwatchedAccount (account : BitcoinAccount)
  | outputIndexOutOfRange (index : NormalIndex)
  | wrongPurpose
  | invalidBitcoinTransaction
  | nothingToSign
  deriving DecidableEq

/-- A message, and the key of ours that signs it. -/
structure SignItem where
  message : List UInt8
  appTweak : AppTweak
  deriving DecidableEq

/-- The first index that an output of ours may not have. -/
abbrev OUTPUT_INDEX_LIMIT : ℕ := 200000

variable (B : BitcoinLib)

/-! ### Checking a task -/

/-- What an output has to be for a device to believe that it is ours. -/
def checkOutput (owner : LocalSpk) : Except SignTaskError Unit :=
  let path := owner.bip32Path
  if path.accountKeychain.account ≠ .default then
    .error (.unwatchedAccount path.accountKeychain.account)
  else if OUTPUT_INDEX_LIMIT ≤ path.index.toU32 then .error (.outputIndexOutOfRange path.index)
  else .ok ()

namespace WireSignTask

/-- Check a task against a key and what the key is for. -/
def check [Build] (task : WireSignTask) (masterAppkey : MasterAppkey) (purpose : KeyPurpose) :
    Exec (Except SignTaskError CheckedSignTask) :=
  match task with
  | .test message =>
      return .ok { masterAppkey := masterAppkey, inner := .test message }
  | .nostr event =>
      match purpose with
      | .nostr => return .ok { masterAppkey := masterAppkey, inner := .nostr event }
      | _ => return .error .wrongPurpose
  | .bitcoinTransaction txTemplate =>
      match purpose with
      | .bitcoin network =>
          let txTemplate := txTemplate.asSeenBy B masterAppkey
          match txTemplate.iterOurOutputs.forM fun (_, _, owner) => checkOutput owner with
          | .error e => return .error e
          | .ok () =>
              if !txTemplate.hasAnyInputsToSign then return .error .nothingToSign
              else do
                match ← txTemplate.fee with
                | none => return .error .invalidBitcoinTransaction
                | some _ =>
                    return .ok
                      { masterAppkey := masterAppkey
                        inner := .bitcoinTransaction txTemplate network }
      | _ => return .error .wrongPurpose

end WireSignTask

namespace CheckedSignTask

/-- The messages to sign. -/
def signItems (task : CheckedSignTask) : List SignItem :=
  match task.inner with
  | .test message => [{ message := message.toUTF8.toList, appTweak := .testMessage }]
  | .nostr event => [{ message := event.hashBytes, appTweak := .nostr }]
  | .bitcoinTransaction txTemplate _ =>
      (txTemplate.iterOurInputSighashes B).map fun (owner, sighash) =>
        { message := sighash, appTweak := .bitcoin owner.bip32Path }

end CheckedSignTask

/-! ### The prompt -/

/-- Where an output pays to, as far as the user can be shown it. -/
inductive PromptDestination where
  | address (address : B.Address)
  | unrecognizedScript (spk : Script)

/-- Show a script. -/
def PromptDestination.of (spk : Script) (network : Network) : PromptDestination B :=
  match B.addressFromScript spk network with
  | some a => .address a
  | none => .unrecognizedScript spk

/-- An output that is shown, with the path that derives it when it is ours. -/
structure PromptRecipient where
  destination : PromptDestination B
  amount : Sats
  owned : Option BitcoinBip32Path

/-- What the user is shown before signing a transaction. -/
structure PromptSignBitcoinTx where
  recipients : List (PromptRecipient B)
  fee : Sats

namespace TransactionTemplate

variable (t : TransactionTemplate ScopedTo)

/-- A single change output is not shown when there is something else to see. -/
def hideSingleChange : Bool :=
  let anyForeign := t.outputs.any fun output => output.owner.localOwner.isNone
  let internalCount :=
    (t.iterOurOutputs.filter fun (_, _, owner) =>
      owner.bip32Path.accountKeychain.keychain = .internal).length
  anyForeign && internalCount == 1

/-- The outputs that are shown. -/
def promptRecipients (network : Network) : List (PromptRecipient B) :=
  t.outputs.filterMap fun output =>
    let recipient (owned : Option BitcoinBip32Path) : PromptRecipient B :=
      { destination := .of B (output.owner.spk B) network
        amount := output.value
        owned := owned }
    match output.owner with
    | .foreign _ => some (recipient none)
    | .local owner =>
        if t.hideSingleChange ∧ owner.bip32Path.accountKeychain.keychain = .internal then none
        else some (recipient (some owner.bip32Path))

/-- What the user is asked. -/
def userPrompt [Build] (network : Network) : Exec (PromptSignBitcoinTx B) := do
  let fee ← Exec.expect (← t.fee) "transaction validity should have already been checked"
  return { recipients := t.promptRecipients B network, fee := fee }

end TransactionTemplate

/-! ### What a prompt has to tell -/

/-- The sum of amounts, as a natural number. -/
def total (amounts : List Sats) : ℕ := (amounts.map BitVec.toNat).sum

namespace Output

/-- The path of an output that a key owns. -/
def ownedBy (masterAppkey : MasterAppkey) (output : Output) : Option BitcoinBip32Path :=
  match output.owner with
  | .foreign _ => none
  | .local owner => if owner.masterAppkey = masterAppkey then some owner.bip32Path else none

/-- An output as it is to be shown. -/
def asRecipient (masterAppkey : MasterAppkey) (network : Network) (output : Output) :
    PromptRecipient B where
  destination := .of B (output.owner.spk B) network
  amount := output.value
  owned := output.ownedBy masterAppkey

/-- The output is change of the default account of a key. -/
def IsChangeOf (masterAppkey : MasterAppkey) (output : Output) : Prop :=
  ∃ owner, output.owner = .local owner ∧ owner.masterAppkey = masterAppkey ∧
    owner.bip32Path.accountKeychain = .internal

end Output

/-- A prompt tells of a template what the owner of a key has to know. The outputs are those that
it shows and those that it hides. -/
structure Discloses (t : TransactionTemplate Unscoped) (masterAppkey : MasterAppkey)
    (network : Network) (prompt : PromptSignBitcoinTx B) (shown hidden : List Output) : Prop where
  /-- every output is shown or hidden -/
  outputs : (shown ++ hidden).Perm t.outputs
  /-- what is shown is shown as it is and in order -/
  sublist : shown.Sublist t.outputs
  recipients : prompt.recipients = shown.map (Output.asRecipient B masterAppkey network)
  /-- every output that is not the key's is shown -/
  foreign : ∀ output ∈ t.outputs, output.ownedBy masterAppkey = none → output ∈ shown
  /-- one output may be hidden -/
  atMostOne : hidden.length ≤ 1
  /-- and it is change, next to a recipient that is not ours -/
  change : ∀ output ∈ hidden, output.IsChangeOf masterAppkey ∧
    ∃ recipient ∈ prompt.recipients, recipient.owned = none
  /-- nothing is missing -/
  value : total (prompt.recipients.map PromptRecipient.amount) + total (hidden.map Output.value) +
    prompt.fee.toNat = total (t.inputs.map Input.value)

/-- A library whose keys and scripts are numbers, and whose fingerprints are all the same. -/
def plainBitcoinLib : BitcoinLib where
  Address := Script
  deriveXonlyKey tweak masterAppkey :=
    match tweak with
    | .bitcoin path =>
        BitVec.ofNat 256
          (masterAppkey.toNat + path.accountKeychain.keychain.toU32 + 2 * path.index.toU32)
    | _ => 0
  newP2trTweaked key := [0x51, 0x20, UInt8.ofNat key.toNat]
  addressFromScript spk _ := if spk.length = 3 then some spk else none
  taprootKeySpendSignatureHash _ i _ := [UInt8.ofNat i]
  appkeyFingerprint _ := 0
  scriptDebug _ := "script"
  masterAppkeyDisplay _ := "key"

end Bitcoin

end Frostsnap
