import Frostsnap.Bitcoin.SignTask
import Frostsnap.Coordinator.Mutation

/-!
# Committing a send

Turning a plan of a send into a template takes an address for the change. The wallet stores no
reservations: what sessions in flight pay change to is asked of the coordinator each time. This
module embeds `commit_send` of `frostsnap_coordinator/src/bitcoin/send.rs` and the functions that
say which change indices are reserved.

A revealed address is taken only when it is neither used nor reserved. When there is none the next
one is revealed and taken as it is; that it is not reserved is assumed of all reservations being at
or below the frontier, which holds of templates that were committed here, but not of those that were
read from a PSBT.

The index of a keychain, the graph and the chain are a library's.

## Main results

* `pickChange_fresh_iff`: when the index that is picked is neither used nor reserved.
* `commitSend_change_iff`: the same of the change output of a committed template, and what follows
  for the sessions in flight.
-/

namespace Frostsnap

namespace Bitcoin

/-! ### What sessions reserve -/

/-- `reserved_change_indices` of a sign task. -/
def WireSignTask.reservedChangeIndices (B : BitcoinLib) (task : WireSignTask)
    (masterAppkey : MasterAppkey) (account : BitcoinAccount) : List ℕ :=
  match task with
  | .bitcoinTransaction template =>
      (template.asSeenBy B masterAppkey).iterOurOutputs.filterMap fun (_, _, spk) =>
        if spk.bip32Path.accountKeychain = { account := account, keychain := .internal } then
          some spk.bip32Path.index.toU32
        else none
  | _ => []

/-- The sign tasks of the active and the finished sessions. -/
def tasksInFlight {L : FrostLib} (wire : L.SignTask → WireSignTask)
    (p : Coordinator.Persistent L) : List WireSignTask :=
  (p.activeSigningSessions.values.map fun session => wire session.init.groupRequest.signTask) ++
    p.finishedSigningSessions.values.map fun session => wire session.init.groupRequest.signTask

/-- `reserved_change_indices` of the coordinator. -/
def reservedChangeIndices {L : FrostLib} (B : BitcoinLib) (wire : L.SignTask → WireSignTask)
    (p : Coordinator.Persistent L) (masterAppkey : MasterAppkey) (account : BitcoinAccount) :
    List ℕ :=
  (tasksInFlight wire p).flatMap fun task =>
    task.reservedChangeIndices B masterAppkey account

/-! ### The index of a keychain -/

/-- The last index of a keychain. -/
abbrev BIP32_MAX_INDEX : ℕ := 2 ^ 31 - 1

/-- What is known of the addresses of one keychain: which are revealed, and which of all are paid
to. -/
structure KeychainTxOutIndex where
  lastRevealed : Option ℕ
  lastRevealed_le : ∀ i ∈ lastRevealed, i ≤ BIP32_MAX_INDEX
  used : List ℕ

namespace KeychainTxOutIndex

/-- `unused_keychain_spks`: the revealed indices that are not used. -/
def unusedKeychainSpks (k : KeychainTxOutIndex) : List ℕ :=
  (List.range (k.lastRevealed.elim 0 (· + 1))).filter (· ∉ k.used)

/-- `next_index`, which stays at the last index. -/
def nextIndex (k : KeychainTxOutIndex) : ℕ :=
  match k.lastRevealed with
  | none => 0
  | some i => if i = BIP32_MAX_INDEX then i else i + 1

theorem nextIndex_le (k : KeychainTxOutIndex) : k.nextIndex ≤ BIP32_MAX_INDEX := by
  rw [nextIndex]
  split
  · exact Nat.zero_le _
  · rename_i i hi
    have hle := k.lastRevealed_le i (Option.mem_def.2 hi)
    split
    · exact hle
    · omega

/-- `reveal_next_spk`. -/
def revealNextSpk (k : KeychainTxOutIndex) : ℕ × KeychainTxOutIndex :=
  (k.nextIndex,
    { k with
      lastRevealed := some k.nextIndex
      lastRevealed_le := fun i hi => by
        obtain rfl := Option.mem_some.1 hi
        exact k.nextIndex_le })

/-- The change index of `commit_send`. -/
def pickChange (k : KeychainTxOutIndex) (reserved : List ℕ) : ℕ × KeychainTxOutIndex :=
  match k.unusedKeychainSpks.find? (· ∉ reserved) with
  | some index => (index, k)
  | none => k.revealNextSpk

end KeychainTxOutIndex

/-! ### The wallet -/

/-- A finished coin selection. The inputs it pins pay for its outputs and its fee, exactly. -/
structure SendPlan where
  masterAppkey : MasterAppkey
  selected : List (BitcoinBip32Path × OutPoint × Sats)
  recipients : List TxOut
  changeValue : Option Sats
  fee : Sats
  balances : (selected.map fun (_, _, value) => value).sum =
    (recipients.map TxOut.value).sum + changeValue.getD 0 + fee

/-- What `commit_send` reads of the wallet. -/
structure CoordSuperWallet where
  /-- the index of the change keychain of a key -/
  internal : MasterAppkey → KeychainTxOutIndex
  /-- every unspent coin of a key -/
  allUnspent : MasterAppkey → List (BitcoinBip32Path × OutPoint × Sats)
  /-- the transaction that the graph has under a txid -/
  getTx : BitVec 256 → Option Transaction
  /-- the key, the keychain and the index that a script is derived at -/
  indexOfSpk : Script → Option (MasterAppkey × BitcoinBip32Path)

/-- Why a coin that was named is not spendable. -/
inductive OwnedUnspentError where
  | namedTwice (outpoint : OutPoint)
  | notUnspent (outpoint : OutPoint)
  deriving DecidableEq

/-- The owner of the change of a key at an index. -/
def changeOwner (masterAppkey : MasterAppkey) (index : NormalIndex) : LocalSpk where
  masterAppkey := masterAppkey
  bip32Path := { accountKeychain := .internal, index := index }

namespace CoordSuperWallet

/-- `spk_path`. -/
def spkPath (w : CoordSuperWallet) (masterAppkey : MasterAppkey) (spk : Script) :
    Option BitcoinBip32Path :=
  (w.indexOfSpk spk).bind fun (key, path) => if key = masterAppkey then some path else none

/-- The loop of `owned_unspent`. -/
def ownedUnspentLoop (held : List (BitcoinBip32Path × OutPoint × Sats)) :
    List OutPoint → List OutPoint →
      Except OwnedUnspentError (List (BitcoinBip32Path × OutPoint × Sats))
  | _, [] => .ok []
  | named, outpoint :: rest =>
      if outpoint ∈ named then .error (.namedTwice outpoint)
      else
        match held.reverse.find? fun (_, o, _) => o = outpoint with
        | none => .error (.notUnspent outpoint)
        | some coin =>
            match ownedUnspentLoop held (outpoint :: named) rest with
            | .error e => .error e
            | .ok coins => .ok (coin :: coins)

/-- `owned_unspent`. -/
def ownedUnspent (w : CoordSuperWallet) (masterAppkey : MasterAppkey) (outpoints : List OutPoint) :
    Except OwnedUnspentError (List (BitcoinBip32Path × OutPoint × Sats)) :=
  ownedUnspentLoop (w.allUnspent masterAppkey) [] outpoints

/-- The inputs of a committed template. A transaction is in the graph under its txid. -/
def pushSelected (B : BitcoinLib) (w : CoordSuperWallet) (masterAppkey : MasterAppkey)
    (template : TransactionTemplate Unscoped) (coin : BitcoinBip32Path × OutPoint × Sats) :
    Exec (TransactionTemplate Unscoped) := do
  let (bip32Path, outpoint, _) := coin
  let prevTx ← Exec.expect (w.getTx outpoint.txid) "unspent output implies its tx is in the graph"
  let txout ← Exec.expect prevTx.output[outpoint.vout]? "index out of bounds"
  match template.pushOwnedInput B { txout := txout, outpoint := outpoint, sequence := 0xFFFFFFFD }
      { masterAppkey := masterAppkey, bip32Path := bip32Path } with
  | .ok template => return template
  | .error _ => .panic "must be able to add input"

/-- A recipient, which is claimed when it is an address of our own. -/
def pushRecipient (B : BitcoinLib) (w : CoordSuperWallet) (masterAppkey : MasterAppkey)
    (template : TransactionTemplate Unscoped) (txo : TxOut) :
    Exec (TransactionTemplate Unscoped) :=
  match w.spkPath masterAppkey txo.scriptPubkey with
  | some bip32Path =>
      match template.pushOwnedOutputChecked B txo
          { masterAppkey := masterAppkey, bip32Path := bip32Path } with
      | .ok template => .ret template
      | .error _ => .panic "spk_path resolved this path from this very script"
  | none => .ret (template.pushForeignOutput txo)

/-- The change of a committed template. -/
def pushChange (w : CoordSuperWallet) (plan : SendPlan) (reserved : List ℕ)
    (template : TransactionTemplate Unscoped) :
    Exec (TransactionTemplate Unscoped × CoordSuperWallet) := do
  match plan.changeValue with
  | none => return (template, w)
  | some value =>
      let (index, keychain) := (w.internal plan.masterAppkey).pickChange reserved
      let w := { w with
        internal := fun key => if key = plan.masterAppkey then keychain else w.internal key }
      if h : index < 2 ^ 31 then
        return (template.pushOwnedOutput value
          (changeOwner plan.masterAppkey { toU32 := index, isNormal := h }), w)
      else .panic "bdk never reveals a change spk past BIP32_MAX_INDEX"

/-- `commit_send`, given what initialising a key does to the wallet. -/
def commitSend (B : BitcoinLib)
    (lazilyInitializeKey : CoordSuperWallet → MasterAppkey → CoordSuperWallet)
    (w : CoordSuperWallet) (plan : SendPlan) (reservedChange : List ℕ) :
    Exec (Except OwnedUnspentError (TransactionTemplate Unscoped) × CoordSuperWallet) := do
  let w := lazilyInitializeKey w plan.masterAppkey
  match w.ownedUnspent plan.masterAppkey (plan.selected.map fun (_, outpoint, _) => outpoint) with
  | .error e => return (.error e, w)
  | .ok _ => do
      let template ← plan.selected.foldlM (w.pushSelected B plan.masterAppkey) .new
      let (template, w) ← w.pushChange plan reservedChange template
      let template ← plan.recipients.foldlM (w.pushRecipient B plan.masterAppkey) template
      return (.ok template, w)

end CoordSuperWallet

/-! ### Which index is picked -/

namespace KeychainTxOutIndex

variable (k : KeychainTxOutIndex) (reserved : List ℕ)

/-- A revealed index is neither used nor reserved, or the next one is not. -/
def ChangeLeft : Prop :=
  (∃ i last, k.lastRevealed = some last ∧ i ≤ last ∧ i ∉ k.used ∧ i ∉ reserved) ∨
    k.nextIndex ∉ k.used ∧ k.nextIndex ∉ reserved

theorem mem_unusedKeychainSpks {i : ℕ} :
    i ∈ k.unusedKeychainSpks ↔ (∃ last, k.lastRevealed = some last ∧ i ≤ last) ∧ i ∉ k.used := by
  rw [unusedKeychainSpks, List.mem_filter, List.mem_range, decide_eq_true_eq]
  refine and_congr_left fun _ => ?_
  cases k.lastRevealed with
  | none => exact iff_of_false (Nat.not_lt_zero i) fun ⟨_, h, _⟩ => by cases h
  | some last =>
      rw [Option.elim_some, Nat.lt_succ_iff]
      exact ⟨fun h => ⟨last, rfl, h⟩, fun ⟨_, heq, h⟩ => Option.some.inj heq ▸ h⟩

/-- What is picked is a revealed index that is neither used nor reserved, or the next one when there
is no such index. -/
theorem pickChange_cases :
    (k.pickChange reserved).1 ∈ k.unusedKeychainSpks ∧ (k.pickChange reserved).1 ∉ reserved ∨
      (k.pickChange reserved).1 = k.nextIndex ∧ ∀ i ∈ k.unusedKeychainSpks, i ∈ reserved := by
  rw [pickChange]
  cases hfind : k.unusedKeychainSpks.find? (· ∉ reserved) with
  | some index =>
      have hnot := List.find?_some hfind
      exact .inl ⟨List.mem_of_find?_eq_some hfind, by simpa using hnot⟩
  | none =>
      refine .inr ⟨rfl, fun i hi => ?_⟩
      have hreserved := List.find?_eq_none.1 hfind i hi
      simpa using hreserved

theorem pickChange_lt : (k.pickChange reserved).1 < 2 ^ 31 := by
  rcases k.pickChange_cases reserved with ⟨hmem, -⟩ | ⟨heq, -⟩
  · obtain ⟨⟨last, hlast, hle⟩, -⟩ := k.mem_unusedKeychainSpks.1 hmem
    have hmax : last ≤ 2 ^ 31 - 1 := k.lastRevealed_le last (Option.mem_def.2 hlast)
    omega
  · have hmax : k.nextIndex ≤ 2 ^ 31 - 1 := k.nextIndex_le
    omega

/-- **The index that is picked** is neither used nor reserved exactly when there is one left. -/
theorem pickChange_fresh_iff :
    (k.pickChange reserved).1 ∉ k.used ∧ (k.pickChange reserved).1 ∉ reserved ↔
      k.ChangeLeft reserved := by
  rcases k.pickChange_cases reserved with ⟨hmem, hnot⟩ | ⟨heq, hall⟩
  · obtain ⟨⟨last, hlast, hle⟩, hunused⟩ := k.mem_unusedKeychainSpks.1 hmem
    exact iff_of_true ⟨hunused, hnot⟩ (.inl ⟨_, last, hlast, hle, hunused, hnot⟩)
  · rw [heq]
    constructor
    · exact .inr
    · rintro (⟨i, last, hlast, hle, hunused, hnot⟩ | hnext)
      · exact absurd (hall i (k.mem_unusedKeychainSpks.2 ⟨⟨last, hlast, hle⟩, hunused⟩)) hnot
      · exact hnext

end KeychainTxOutIndex

/-! ### What sessions reserve -/

variable {B : BitcoinLib}

/-- Change that a task pays is reserved. -/
theorem mem_reservedChangeIndices {template : TransactionTemplate Unscoped} {output : Output}
    {masterAppkey : MasterAppkey} {index : NormalIndex} (houtput : output ∈ template.outputs)
    (howner : output.owner = .local (changeOwner masterAppkey index)) :
    index.toU32 ∈ (WireSignTask.bitcoinTransaction template).reservedChangeIndices B masterAppkey
      .default := by
  obtain ⟨i, hi, rfl⟩ := List.mem_iff_getElem.1 houtput
  rw [WireSignTask.reservedChangeIndices, List.mem_filterMap]
  refine ⟨(i, { template.outputs[i] with
    owner := TransactionTemplate.foreignToUs B masterAppkey template.outputs[i].owner },
    changeOwner masterAppkey index), ?_, if_pos rfl⟩
  rw [TransactionTemplate.iterOurOutputs, List.mem_filterMap]
  refine ⟨({ template.outputs[i] with
    owner := TransactionTemplate.foreignToUs B masterAppkey template.outputs[i].owner }, i), ?_, ?_⟩
  · rw [List.mem_zipIdx_iff_getElem?, TransactionTemplate.asSeenBy, List.getElem?_map,
      List.getElem?_eq_getElem hi]
    rfl
  · have hours : (TransactionTemplate.foreignToUs B masterAppkey
        template.outputs[i].owner).localOwner = some (changeOwner masterAppkey index) :=
      TransactionTemplate.localOwner_foreignToUs.2 ⟨howner, rfl⟩
    dsimp only
    rw [hours]
    rfl

/-! ### What is committed -/

namespace CoordSuperWallet

variable {w w' : CoordSuperWallet} {plan : SendPlan} {reserved : List ℕ}

/-- What is pushed for a coin: an input worth the output that its transaction has there. -/
theorem pushSelected_eq_ret {key : MasterAppkey} {t t' : TransactionTemplate Unscoped}
    {coin : BitcoinBip32Path × OutPoint × Sats} (h : w.pushSelected B key t coin = .ret t') :
    ∃ tx txout, w.getTx coin.2.1.txid = some tx ∧ tx.output[coin.2.1.vout]? = some txout ∧
      t' = { t with inputs := t.inputs ++
        [{ outpoint := coin.2.1
           value := txout.value
           owner := .local { masterAppkey := key, bip32Path := coin.1 }
           sequence := 0xFFFFFFFD }] } := by
  obtain ⟨tx, htx, h⟩ := Exec.bind_eq_ret_iff.1 h
  obtain ⟨txout, htxout, h⟩ := Exec.bind_eq_ret_iff.1 h
  rw [Exec.expect_eq_ret_iff] at htx htxout
  refine ⟨tx, txout, htx, htxout, ?_⟩
  split at h
  · rename_i pushed hpushed
    obtain rfl := Exec.ret.inj h
    rw [TransactionTemplate.pushOwnedInput] at hpushed
    cases hcheck : LocalSpk.checkSpk B { masterAppkey := key, bip32Path := coin.1 }
        txout.scriptPubkey with
    | error e =>
        rw [hcheck] at hpushed
        cases hpushed
    | ok u =>
        rw [hcheck] at hpushed
        cases hpushed
        rfl
  · cases h

theorem foldlM_pushSelected_outputs {key : MasterAppkey}
    {coins : List (BitcoinBip32Path × OutPoint × Sats)} {t t' : TransactionTemplate Unscoped}
    (h : coins.foldlM (w.pushSelected B key) t = .ret t') : t'.outputs = t.outputs := by
  induction coins generalizing t with
  | nil =>
      obtain rfl := Exec.ret.inj h
      rfl
  | cons coin coins ih =>
      rw [List.foldlM_cons] at h
      obtain ⟨t₁, hcoin, hrest⟩ := Exec.bind_eq_ret_iff.1 h
      obtain ⟨_, _, -, -, rfl⟩ := pushSelected_eq_ret hcoin
      rw [ih hrest]

theorem pushRecipient_outputs {key : MasterAppkey} {t t' : TransactionTemplate Unscoped}
    {txo : TxOut} (h : w.pushRecipient B key t txo = .ret t') :
    ∃ output, t'.outputs = t.outputs ++ [output] := by
  rw [pushRecipient] at h
  split at h
  · rename_i path hpath
    split at h
    · rename_i pushed hpushed
      obtain rfl := Exec.ret.inj h
      rw [TransactionTemplate.pushOwnedOutputChecked] at hpushed
      cases hcheck : LocalSpk.checkSpk B { masterAppkey := key, bip32Path := path }
          txo.scriptPubkey with
      | error e =>
          rw [hcheck] at hpushed
          cases hpushed
      | ok u =>
          rw [hcheck] at hpushed
          cases hpushed
          exact ⟨_, rfl⟩
    · cases h
  · obtain rfl := Exec.ret.inj h
    exact ⟨_, rfl⟩

theorem foldlM_pushRecipient_outputs {key : MasterAppkey} {txos : List TxOut}
    {t t' : TransactionTemplate Unscoped} (h : txos.foldlM (w.pushRecipient B key) t = .ret t') :
    ∃ outputs, t'.outputs = t.outputs ++ outputs := by
  induction txos generalizing t with
  | nil =>
      obtain rfl := Exec.ret.inj h
      exact ⟨[], (List.append_nil _).symm⟩
  | cons txo txos ih =>
      rw [List.foldlM_cons] at h
      obtain ⟨t₁, hrecipient, hrest⟩ := Exec.bind_eq_ret_iff.1 h
      obtain ⟨output, houtput⟩ := pushRecipient_outputs hrecipient
      obtain ⟨outputs, houtputs⟩ := ih hrest
      exact ⟨output :: outputs, by rw [houtputs, houtput, List.append_assoc]; rfl⟩

/-- The change is the first output. -/
theorem commitSend_outputs {init : CoordSuperWallet → MasterAppkey → CoordSuperWallet}
    {template : TransactionTemplate Unscoped} {value : Sats}
    (h : w.commitSend B init plan reserved = .ret (.ok template, w'))
    (hchange : plan.changeValue = some value) :
    ∃ index : NormalIndex, ∃ rest,
      index.toU32 =
        (((init w plan.masterAppkey).internal plan.masterAppkey).pickChange reserved).1 ∧
      template.outputs =
        { value := value, owner := .local (changeOwner plan.masterAppkey index) } :: rest := by
  rw [commitSend] at h
  split at h
  · cases h
  obtain ⟨t₁, hinputs, h⟩ := Exec.bind_eq_ret_iff.1 h
  obtain ⟨⟨t₂, w₂⟩, hpush, h⟩ := Exec.bind_eq_ret_iff.1 h
  obtain ⟨t₃, hrecipients, h⟩ := Exec.bind_eq_ret_iff.1 h
  obtain ⟨ht₃, -⟩ := Prod.mk.inj (Exec.ret.inj h)
  obtain rfl := Except.ok.inj ht₃
  obtain ⟨rest, hrest⟩ := foldlM_pushRecipient_outputs hrecipients
  have hlt := ((init w plan.masterAppkey).internal plan.masterAppkey).pickChange_lt reserved
  rw [pushChange, hchange] at hpush
  simp only [dif_pos hlt] at hpush
  obtain ⟨ht₂, -⟩ := Prod.mk.inj (Exec.ret.inj hpush)
  refine ⟨{ toU32 := _, isNormal := hlt }, rest, rfl, ?_⟩
  have hempty : t₁.outputs = [] := foldlM_pushSelected_outputs hinputs
  rw [hrest, ← ht₂, TransactionTemplate.pushOwnedOutput, hempty]
  rfl

end CoordSuperWallet

/-- **The change of a committed template** is at an index that is neither used nor reserved exactly
when there was one left to pick. Then no session in flight whose indices are reserved pays change to
its script, when scripts of different indices are different. -/
theorem commitSend_change_iff {w w' : CoordSuperWallet} {plan : SendPlan} {reserved : List ℕ}
    (init : CoordSuperWallet → MasterAppkey → CoordSuperWallet)
    {template : TransactionTemplate Unscoped} {value : Sats}
    (hcommit : w.commitSend B init plan reserved = .ret (.ok template, w'))
    (hchange : plan.changeValue = some value) :
    ∃ index : NormalIndex, ∃ rest,
      template.outputs =
        { value := value, owner := .local (changeOwner plan.masterAppkey index) } :: rest ∧
      (index.toU32 ∉ ((init w plan.masterAppkey).internal plan.masterAppkey).used ∧
          index.toU32 ∉ reserved ↔
        ((init w plan.masterAppkey).internal plan.masterAppkey).ChangeLeft reserved) ∧
      (index.toU32 ∉ reserved →
        (∀ i j, (changeOwner plan.masterAppkey i).spk B = (changeOwner plan.masterAppkey j).spk B →
          i = j) →
        ∀ (L : FrostLib) (wire : L.SignTask → WireSignTask) (p : Coordinator.Persistent L),
          (∀ i ∈ reservedChangeIndices B wire p plan.masterAppkey .default, i ∈ reserved) →
          ∀ t, .bitcoinTransaction t ∈ tasksInFlight wire p → ∀ output ∈ t.outputs, ∀ i,
            output.owner = .local (changeOwner plan.masterAppkey i) →
            output.owner.spk B ≠ (changeOwner plan.masterAppkey index).spk B) := by
  obtain ⟨index, rest, hindex, houtputs⟩ := CoordSuperWallet.commitSend_outputs hcommit hchange
  refine ⟨index, rest, houtputs, ?_, ?_⟩
  · rw [hindex]
    exact KeychainTxOutIndex.pickChange_fresh_iff _ reserved
  · intro hnot hinjective L wire p hreserved t ht output houtput i howner hsame
    rw [howner] at hsame
    obtain rfl := hinjective i index hsame
    refine hnot (hreserved _ (List.mem_flatMap.2 ⟨_, ht, ?_⟩))
    exact mem_reservedChangeIndices houtput howner

/-! ### A reservation past the frontier -/

/-- A coin, and the script that it is at. -/
def sampleCoin : BitcoinBip32Path × OutPoint × Sats :=
  ({ accountKeychain := .external, index := .zero }, { txid := 1, vout := 0 }, 1000)

/-- A wallet with one coin that has revealed no change address. -/
def sampleWallet : CoordSuperWallet where
  internal _ := { lastRevealed := none, lastRevealed_le := fun _ h => (by cases h), used := [] }
  allUnspent _ := [sampleCoin]
  getTx _ := some
    { version := 2, lockTime := 0, input := []
      output := [{ value := 1000, scriptPubkey := [0x51, 0x20, 7] }] }
  indexOfSpk _ := none

/-- A plan to spend the coin for the change only. -/
def samplePlan : SendPlan where
  masterAppkey := 7
  selected := [sampleCoin]
  recipients := []
  changeValue := some 900
  fee := 100
  balances := by decide

/-- Whether there is a template. -/
def isCommitted :
    Exec (Except OwnedUnspentError (TransactionTemplate Unscoped) × CoordSuperWallet) →
    Bool
  | .ret (.ok _, _) => true
  | _ => false

theorem of_isCommitted
    {x : Exec (Except OwnedUnspentError (TransactionTemplate Unscoped) × CoordSuperWallet)}
    (h : isCommitted x = true) : ∃ template w', x = .ret (.ok template, w') := by
  cases x with
  | panic msg => cases h
  | ret result =>
      obtain ⟨result, w'⟩ := result
      cases result with
      | error e => cases h
      | ok template => exact ⟨template, w', rfl⟩

/-- The plan committed when some indices are reserved. -/
def sampleCommit (reserved : List ℕ) :
    Exec (Except OwnedUnspentError (TransactionTemplate Unscoped) × CoordSuperWallet) :=
  sampleWallet.commitSend plainBitcoinLib (fun w _ => w) samplePlan reserved

/-- With nothing reserved the first address is taken. -/
theorem commitSend_change_iff_of_sample :
    ∃ template : TransactionTemplate Unscoped, ∃ index : NormalIndex, ∃ rest, template.outputs =
      { value := 900, owner := .local (changeOwner samplePlan.masterAppkey index) } :: rest ∧
        index.toU32 ∉ (sampleWallet.internal samplePlan.masterAppkey).used := by
  obtain ⟨template, w', hcommit⟩ :=
    of_isCommitted (show isCommitted (sampleCommit []) = true by decide +kernel)
  rw [sampleCommit] at hcommit
  obtain ⟨index, rest, houtputs, hfresh, -⟩ :=
    @commitSend_change_iff plainBitcoinLib sampleWallet w' samplePlan [] (fun w _ => w) template 900
      hcommit rfl
  exact ⟨template, index, rest, houtputs,
    (hfresh.2 (.inr ⟨List.not_mem_nil, List.not_mem_nil⟩)).1⟩

/-- A session that was read from a PSBT can pay the change index 0 when the wallet has revealed
none. The next send then takes the same index. -/
theorem change_of_psbt_is_taken_again :
    ¬ ∀ (B : BitcoinLib) (init : CoordSuperWallet → MasterAppkey → CoordSuperWallet)
      (w w' : CoordSuperWallet) (plan : SendPlan) (task : WireSignTask)
      (template : TransactionTemplate Unscoped) (value : Sats),
      w.commitSend B init plan (task.reservedChangeIndices B plan.masterAppkey .default) =
        .ret (.ok template, w') →
      plan.changeValue = some value →
      ∃ index : NormalIndex, ∃ rest,
        template.outputs =
          { value := value, owner := .local (changeOwner plan.masterAppkey index) } :: rest ∧
        index.toU32 ∉ ((init w plan.masterAppkey).internal plan.masterAppkey).used ∧
        index.toU32 ∉ task.reservedChangeIndices B plan.masterAppkey .default := by
  intro h
  -- the session pays its change to the first index
  let task : WireSignTask :=
    .bitcoinTransaction (TransactionTemplate.new.pushOwnedOutput 500 (changeOwner 7 .zero))
  have hreserved : task.reservedChangeIndices plainBitcoinLib 7 .default = [0] := by
    decide +kernel
  obtain ⟨template, w', hcommit⟩ :=
    of_isCommitted (show isCommitted (sampleCommit [0]) = true by decide +kernel)
  rw [sampleCommit, ← hreserved] at hcommit
  obtain ⟨index, rest, houtputs, -, hnot⟩ := h plainBitcoinLib (fun w _ => w) sampleWallet w'
    samplePlan task template 900 hcommit rfl
  obtain ⟨index', rest', hindex, houtputs'⟩ := CoordSuperWallet.commitSend_outputs hcommit rfl
  have hsame : index = index' := by
    rw [houtputs] at houtputs'
    cases houtputs'
    rfl
  have hkey : samplePlan.masterAppkey = 7 := rfl
  rw [hkey, hreserved] at hnot hindex
  have hzero : index'.toU32 = 0 := hindex.trans (by decide +kernel)
  rw [hsame, hzero] at hnot
  exact hnot List.mem_cons_self

end Bitcoin

end Frostsnap
