import Frostsnap.Bitcoin.Amounts
import Frostsnap.Bitcoin.CommitSend

/-!
# A committed send is its plan

A plan is checked when it is made (`SendPlan::new`), and committed later, when the wallet may have
moved. This module embeds the check, and `commit_send` of
`frostsnap_coordinator/src/bitcoin/send.rs` once more with the database that a new change address is
written to. The address is revealed in memory first and then stored; when that fails the call fails,
and the address stays revealed in memory.

Which transaction has a txid does not change, so that what a coin is worth is what it was worth when
it was selected.

## Main results

* `PersistedWallet.commitSend_inMemory`: in memory it is the `commitSend` without a database.
* `commitSend_is_plan`: a committed template spends, pays and costs what the plan says, and what a
  call that fails leaves behind.
-/

namespace Frostsnap

namespace Bitcoin

/-! ### The check of a plan -/

/-- Why there is no plan. -/
inductive SendPlanError where
  | overflow
  | doesNotBalance (inputs outputs fee : Sats)
  deriving DecidableEq

/-- Unchecked `u64` addition. -/
def addU64 [Build] (a b : Sats) : Exec Sats :=
  if Build.checks ∧ 2 ^ 64 ≤ a.toNat + b.toNat then .panic "attempt to add with overflow"
  else .ret (a + b)

/-- The check of `SendPlan::new`, the only way to make a plan. -/
def SendPlan.newCheck [Build] (selected : List (BitcoinBip32Path × OutPoint × Sats))
    (recipients : List TxOut) (changeValue : Option Sats) (fee : Sats) :
    Exec (Except SendPlanError Unit) := do
  let inputs ← sumU64 (selected.map fun (_, _, value) => value)
  let recipientsValue ← sumU64 (recipients.map TxOut.value)
  let outputs ← addU64 recipientsValue (changeValue.getD 0)
  if 2 ^ 64 ≤ outputs.toNat + fee.toNat then
    return .error .overflow
  let spent := outputs + fee
  if inputs ≠ spent then
    return .error (.doesNotBalance inputs outputs fee)
  return .ok ()

/-- The outpoints that a plan spends. -/
def SendPlan.selectedOutpoints (plan : SendPlan) : List OutPoint :=
  plan.selected.map fun (_, outpoint, _) => outpoint

/-! ### The wallet and its database -/

/-- The wallet in memory, and the last revealed change index of each key in the database. -/
structure PersistedWallet where
  inMemory : CoordSuperWallet
  stored : MasterAppkey → Option ℕ

/-- Why a send is not committed. -/
inductive CommitSendError where
  | ownedUnspent (e : OwnedUnspentError)
  | persist (e : String)
  deriving DecidableEq

/-- The last revealed index that picking a change index changes. -/
def KeychainTxOutIndex.pickChangeset (k : KeychainTxOutIndex) (reserved : List ℕ) : Option ℕ :=
  match k.unusedKeychainSpks.find? (· ∉ reserved) with
  | some _ => none
  | none => if k.lastRevealed = some k.nextIndex then none else some k.nextIndex

namespace PersistedWallet

/-- The change index is picked in memory and then stored; `db` is what the database says to that. -/
def mutateChange (db : Except String Unit) (w : PersistedWallet) (masterAppkey : MasterAppkey)
    (reserved : List ℕ) : Except String ℕ × PersistedWallet :=
  let k := w.inMemory.internal masterAppkey
  let (index, keychain) := k.pickChange reserved
  let inMemory := { w.inMemory with
    internal := fun key => if key = masterAppkey then keychain else w.inMemory.internal key }
  match db with
  | .error e => (.error e, { w with inMemory })
  | .ok () =>
      (.ok index,
        { inMemory
          stored := fun key =>
            if key = masterAppkey then (k.pickChangeset reserved).or (w.stored key)
            else w.stored key })

/-- The change of a committed template. -/
def pushChange (db : Except String Unit) (w : PersistedWallet) (plan : SendPlan)
    (reserved : List ℕ) (template : TransactionTemplate Unscoped) :
    Exec (Except String (TransactionTemplate Unscoped) × PersistedWallet) := do
  match plan.changeValue with
  | none => return (.ok template, w)
  | some value =>
      match w.mutateChange db plan.masterAppkey reserved with
      | (.error e, w) => return (.error e, w)
      | (.ok index, w) =>
          if h : index < 2 ^ 31 then
            return (.ok (template.pushOwnedOutput value
              (changeOwner plan.masterAppkey { toU32 := index, isNormal := h })), w)
          else .panic "bdk never reveals a change spk past BIP32_MAX_INDEX"

/-- `commit_send`, given what initialising a key does and what the database says. -/
def commitSend (B : BitcoinLib)
    (lazilyInitializeKey : PersistedWallet → MasterAppkey → PersistedWallet)
    (db : Except String Unit) (w : PersistedWallet) (plan : SendPlan)
    (reservedChange : List ℕ) :
    Exec (Except CommitSendError (TransactionTemplate Unscoped) × PersistedWallet) := do
  let w := lazilyInitializeKey w plan.masterAppkey
  match w.inMemory.ownedUnspent plan.masterAppkey plan.selectedOutpoints with
  | .error e => return (.error (.ownedUnspent e), w)
  | .ok _ => do
      let template ← plan.selected.foldlM (w.inMemory.pushSelected B plan.masterAppkey) .new
      match ← w.pushChange db plan reservedChange template with
      | (.error e, w) => return (.error (.persist e), w)
      | (.ok template, w) => do
          let template ← plan.recipients.foldlM
            (w.inMemory.pushRecipient B plan.masterAppkey) template
          return (.ok template, w)

end PersistedWallet

/-! ### Sums -/

/-- When a sum is returned, and what it is. -/
theorem sumU64_eq_ret_iff [Build] {amounts : List Sats} {sum : Sats} :
    sumU64 amounts = .ret sum ↔ sum = amounts.sum ∧ (Build.checks → total amounts < 2 ^ 64) := by
  suffices hfold : ∀ (l : List Sats) (s : Sats),
      l.foldlM (fun sum value =>
        if Build.checks ∧ 2 ^ 64 ≤ sum.toNat + value.toNat then
          Exec.panic "attempt to add with overflow"
        else .ret (sum + value)) s = .ret sum ↔
      sum = s + l.sum ∧ (Build.checks → s.toNat + total l < 2 ^ 64) by
    have hsum : (0 : Sats) + amounts.sum = amounts.sum := BitVec.zero_add _
    have htotal : (0 : Sats).toNat + total amounts = total amounts := Nat.zero_add _
    have h := hfold amounts 0
    rwa [hsum, htotal] at h
  intro l
  induction l with
  | nil =>
      intro s
      rw [List.sum_nil, total, List.map_nil, List.sum_nil, Nat.add_zero]
      constructor
      · intro h
        obtain rfl := Exec.ret.inj h
        exact ⟨(BitVec.add_zero s).symm, fun _ => s.isLt⟩
      · rintro ⟨rfl, -⟩
        exact congrArg Exec.ret (BitVec.add_zero s).symm
  | cons value l ih =>
      intro s
      have htotal : total (value :: l) = value.toNat + total l := rfl
      rw [List.foldlM_cons, List.sum_cons, htotal]
      by_cases hover : Build.checks ∧ 2 ^ 64 ≤ s.toNat + value.toNat
      · rw [if_pos hover]
        refine iff_of_false ?_ ?_
        · intro h
          cases h
        · intro h
          have hlt := h.2 hover.1
          omega
      · rw [if_neg hover, Exec.ret_bind, ih, BitVec.add_assoc]
        refine and_congr_right fun _ => forall_congr' fun hchecks => ?_
        have hlt : s.toNat + value.toNat < 2 ^ 64 :=
          Nat.lt_of_not_le fun hle => hover ⟨hchecks, hle⟩
        rw [BitVec.toNat_add, Nat.mod_eq_of_lt hlt, Nat.add_assoc]

theorem addU64_eq_ret_iff [Build] {a b sum : Sats} :
    addU64 a b = .ret sum ↔ sum = a + b ∧ (Build.checks → a.toNat + b.toNat < 2 ^ 64) := by
  rw [addU64]
  split
  · rename_i hover
    refine iff_of_false nofun fun h => ?_
    have hlt := h.2 hover.1
    omega
  · rename_i hover
    rw [Exec.ret.injEq, eq_comm]
    exact ⟨fun h => ⟨h, fun hchecks => Nat.lt_of_not_le fun hle => hover ⟨hchecks, hle⟩⟩, And.left⟩

/-- What the check of a plan says: both sums are computed, and they differ by the fee. -/
theorem SendPlan.of_newCheck [Build] {plan : SendPlan}
    (h : SendPlan.newCheck plan.selected plan.recipients plan.changeValue plan.fee =
      .ret (.ok ())) :
    ∃ inputs outputs, sumU64 (plan.selected.map fun (_, _, value) => value) = .ret inputs ∧
      sumU64 (plan.changeValue.toList ++ plan.recipients.map TxOut.value) = .ret outputs ∧
      outputs ≤ inputs ∧ inputs - outputs = plan.fee := by
  rw [SendPlan.newCheck] at h
  obtain ⟨inputs, hinputs, h⟩ := Exec.bind_eq_ret_iff.1 h
  obtain ⟨recipientsValue, hrecipients, h⟩ := Exec.bind_eq_ret_iff.1 h
  obtain ⟨outputs, houtputs, h⟩ := Exec.bind_eq_ret_iff.1 h
  split at h
  · cases h
  rename_i hfits
  dsimp only at h
  split at h
  · cases h
  rename_i hspent
  rw [Decidable.not_not] at hspent
  subst hspent
  obtain ⟨rfl, hfit⟩ := sumU64_eq_ret_iff.1 hrecipients
  obtain ⟨rfl, hadd⟩ := addU64_eq_ret_iff.1 houtputs
  refine ⟨_, (plan.recipients.map TxOut.value).sum + plan.changeValue.getD 0, hinputs,
    sumU64_eq_ret_iff.2 ⟨?_, fun hchecks => ?_⟩, ?_, ?_⟩
  · cases plan.changeValue with
    | none => exact BitVec.add_zero _
    | some value => exact BitVec.add_comm _ _
  · have hle := sumU64_toNat hrecipients
    rw [Nat.mod_eq_of_lt (hfit hchecks)] at hle
    have hlt := hadd hchecks
    rw [hle] at hlt
    cases hchange : plan.changeValue with
    | none =>
        rw [hchange] at hlt
        exact hlt
    | some value =>
        rw [hchange, Option.getD_some] at hlt
        have htotal : total ((some value).toList ++ plan.recipients.map TxOut.value) =
            value.toNat + total (plan.recipients.map TxOut.value) := rfl
        rw [htotal]
        omega
  · generalize (plan.recipients.map TxOut.value).sum + plan.changeValue.getD 0 = outputs at hfits ⊢
    rw [BitVec.le_def, BitVec.toNat_add, Nat.mod_eq_of_lt (Nat.lt_of_not_le hfits)]
    exact Nat.le_add_right _ _
  · rw [BitVec.add_comm, BitVec.add_sub_cancel]

/-! ### What is pushed -/

namespace CoordSuperWallet

variable {B : BitcoinLib} {w : CoordSuperWallet} {key : MasterAppkey}
  {t t' : TransactionTemplate Unscoped}

/-- Which transaction has a txid: what a wallet knows of that, and what its coins are worth. -/
structure Agrees (w : CoordSuperWallet) (txOf : BitVec 256 → Option Transaction) : Prop where
  getTx : ∀ txid tx, w.getTx txid = some tx → txOf txid = some tx
  unspent : ∀ key path outpoint value, (path, outpoint, value) ∈ w.allUnspent key →
    ∃ tx txout, txOf outpoint.txid = some tx ∧ tx.output[outpoint.vout]? = some txout ∧
      txout.value = value

/-- The inputs of a template are the coins of the plan, worth what they were. -/
theorem foldlM_pushSelected_inputs {txOf : BitVec 256 → Option Transaction} (hw : w.Agrees txOf)
    {coins : List (BitcoinBip32Path × OutPoint × Sats)}
    (hcoins : ∀ coin ∈ coins, ∃ tx txout, txOf coin.2.1.txid = some tx ∧
      tx.output[coin.2.1.vout]? = some txout ∧ txout.value = coin.2.2)
    (h : coins.foldlM (w.pushSelected B key) t = .ret t') :
    t'.inputs.map (fun input => (input.outpoint, input.value)) =
      t.inputs.map (fun input => (input.outpoint, input.value)) ++ coins.map Prod.snd := by
  induction coins generalizing t with
  | nil =>
      obtain rfl := Exec.ret.inj h
      rw [List.map_nil, List.append_nil]
  | cons coin coins ih =>
      rw [List.foldlM_cons] at h
      obtain ⟨t₁, hcoin, hrest⟩ := Exec.bind_eq_ret_iff.1 h
      obtain ⟨tx, txout, htx, htxout, rfl⟩ := pushSelected_eq_ret hcoin
      obtain ⟨tx', txout', htx', htxout', hvalue⟩ := hcoins coin List.mem_cons_self
      -- It is the transaction that the coin was selected from.
      obtain rfl := Option.some.inj ((hw.getTx _ _ htx).symm.trans htx')
      obtain rfl := Option.some.inj (htxout.symm.trans htxout')
      rw [ih (fun c hc => hcoins c (List.mem_cons_of_mem coin hc)) hrest, List.map_append,
        List.append_assoc, List.map_cons, hvalue]
      rfl

theorem pushRecipient_inputs {txo : TxOut} (h : w.pushRecipient B key t txo = .ret t') :
    t'.inputs = t.inputs ∧ ∃ output, t'.outputs = t.outputs ++ [output] ∧ output.txout B = txo := by
  rw [pushRecipient] at h
  split at h
  · rename_i path hpath
    split at h
    · rename_i pushed hpushed
      obtain rfl := Exec.ret.inj h
      rw [TransactionTemplate.pushOwnedOutputChecked] at hpushed
      by_cases hspk : txo.scriptPubkey = LocalSpk.spk B { masterAppkey := key, bip32Path := path }
      · rw [LocalSpk.checkSpk, if_neg (not_not_intro hspk)] at hpushed
        cases hpushed
        exact ⟨rfl, _, rfl, by rw [Output.txout, SpkOwner.spk, ← hspk]⟩
      · rw [LocalSpk.checkSpk, if_pos hspk] at hpushed
        cases hpushed
    · cases h
  · obtain rfl := Exec.ret.inj h
    exact ⟨rfl, _, rfl, rfl⟩

/-- The recipients are paid, in order, whoever owns their scripts. -/
theorem foldlM_pushRecipient_txouts {txos : List TxOut}
    (h : txos.foldlM (w.pushRecipient B key) t = .ret t') :
    t'.inputs = t.inputs ∧
      t'.outputs.map (Output.txout B) = t.outputs.map (Output.txout B) ++ txos := by
  induction txos generalizing t with
  | nil =>
      obtain rfl := Exec.ret.inj h
      exact ⟨rfl, (List.append_nil _).symm⟩
  | cons txo txos ih =>
      rw [List.foldlM_cons] at h
      obtain ⟨t₁, hrecipient, hrest⟩ := Exec.bind_eq_ret_iff.1 h
      obtain ⟨hinputs₁, output, houtputs₁, htxout⟩ := pushRecipient_inputs hrecipient
      obtain ⟨hinputs, houtputs⟩ := ih hrest
      refine ⟨hinputs.trans hinputs₁, ?_⟩
      rw [houtputs, houtputs₁, List.map_append, List.append_assoc, List.map_singleton, htxout]
      rfl

/-- The coins that are spendable are named once each. -/
theorem ownedUnspentLoop_nodup {held coins : List (BitcoinBip32Path × OutPoint × Sats)}
    {named outpoints : List OutPoint} (h : ownedUnspentLoop held named outpoints = .ok coins) :
    outpoints.Nodup ∧ ∀ o ∈ outpoints, o ∉ named := by
  induction outpoints generalizing named coins with
  | nil => exact ⟨List.nodup_nil, fun _ ho => absurd ho List.not_mem_nil⟩
  | cons outpoint rest ih =>
      rw [ownedUnspentLoop] at h
      split at h
      · cases h
      rename_i hnamed
      split at h
      · cases h
      split at h
      · cases h
      rename_i hrest
      obtain ⟨hnodup, hnot⟩ := ih hrest
      constructor
      · exact List.nodup_cons.2 ⟨fun hmem => hnot outpoint hmem List.mem_cons_self, hnodup⟩
      · intro o ho
        rcases List.mem_cons.1 ho with rfl | ho
        · exact hnamed
        · exact fun hmem => hnot o ho (List.mem_cons_of_mem outpoint hmem)

end CoordSuperWallet

/-! ### What is committed -/

namespace PersistedWallet

variable {B : BitcoinLib}

/-- **With a database that stores what it is given**, it is `commitSend` in memory. -/
theorem commitSend_inMemory (init : PersistedWallet → MasterAppkey → PersistedWallet)
    (init' : CoordSuperWallet → MasterAppkey → CoordSuperWallet)
    (hinit : ∀ w key, (init w key).inMemory = init' w.inMemory key) (w : PersistedWallet)
    (plan : SendPlan) (reserved : List ℕ) :
    (do
      let (result, w') ← w.commitSend B init (.ok ()) plan reserved
      return (result, w'.inMemory)) =
    (do
      let (result, w') ← w.inMemory.commitSend B init' plan reserved
      return (result.mapError .ownedUnspent, w')) := by
  rw [commitSend, CoordSuperWallet.commitSend, SendPlan.selectedOutpoints, ← hinit]
  cases (init w plan.masterAppkey).inMemory.ownedUnspent plan.masterAppkey
      (plan.selected.map fun (_, outpoint, _) => outpoint) with
  | error e => rfl
  | ok coins =>
      simp only [bind_assoc]
      congr 1
      funext template
      rw [pushChange, CoordSuperWallet.pushChange]
      cases plan.changeValue with
      | none =>
          simp only [Exec.pure_eq, Exec.ret_bind, bind_assoc]
          rfl
      | some value =>
          have hlt := ((init w plan.masterAppkey).inMemory.internal
            plan.masterAppkey).pickChange_lt reserved
          simp only [mutateChange, dif_pos hlt, Exec.pure_eq, Exec.ret_bind, bind_assoc]
          rfl

variable {w w' : PersistedWallet} {plan : SendPlan} {reserved : List ℕ} {db : Except String Unit}

/-- The change that is pushed. -/
theorem pushChange_ok {t t' : TransactionTemplate Unscoped}
    (h : w.pushChange db plan reserved t = .ret (.ok t', w')) :
    t'.inputs = t.inputs ∧ ∃ change : List Output, t'.outputs = t.outputs ++ change ∧
      change.map Output.value = plan.changeValue.toList ∧
      ∀ output ∈ change, ∃ index, output.owner = .local (changeOwner plan.masterAppkey index) := by
  rw [pushChange] at h
  split at h
  · rename_i hchange
    obtain ⟨ht, -⟩ := Prod.mk.inj (Exec.ret.inj h)
    obtain rfl := Except.ok.inj ht
    exact ⟨rfl, [], (List.append_nil _).symm, by rw [hchange]; rfl, fun _ ho => by cases ho⟩
  · rename_i value hchange
    split at h
    · cases h
    · split at h
      · obtain ⟨ht, -⟩ := Prod.mk.inj (Exec.ret.inj h)
        obtain rfl := Except.ok.inj ht
        refine ⟨rfl, _, rfl, by rw [hchange]; rfl, fun output ho => ?_⟩
        obtain rfl := List.mem_singleton.1 ho
        exact ⟨_, rfl⟩
      · cases h

/-- What is left when the database does not store the change index: in memory it is picked. -/
theorem pushChange_error {t : TransactionTemplate Unscoped} {e : String}
    (h : w.pushChange db plan reserved t = .ret (.error e, w')) :
    db = .error e ∧ w' = { w with
      inMemory := { w.inMemory with
        internal := fun key =>
          if key = plan.masterAppkey then
            ((w.inMemory.internal plan.masterAppkey).pickChange reserved).2
          else w.inMemory.internal key } } := by
  rw [pushChange] at h
  split at h
  · cases h
  · rw [mutateChange] at h
    cases db with
    | error e' =>
        obtain ⟨he, rfl⟩ := Prod.mk.inj (Exec.ret.inj h)
        obtain rfl := Except.error.inj he
        exact ⟨rfl, rfl⟩
    | ok u =>
        dsimp only at h
        split at h <;> cases h

end PersistedWallet

namespace KeychainTxOutIndex

variable (k : KeychainTxOutIndex) (reserved : List ℕ)

/-- Picking marks nothing as used. -/
theorem pickChange_used : (k.pickChange reserved).2.used = k.used := by
  rw [pickChange]
  split
  · rfl
  · rfl

/-- When there is an index to take, nothing is revealed. -/
theorem pickChange_of_unused {i : ℕ} (hi : i ∈ k.unusedKeychainSpks) (hnot : i ∉ reserved) :
    (k.pickChange reserved).2 = k := by
  rw [pickChange]
  split
  · rfl
  · rename_i hnone
    have hreserved := List.find?_eq_none.1 hnone i hi
    exact absurd hnot (by simpa using hreserved)

/-- With no revealed index left to take, the next one is revealed. -/
theorem pickChange_of_none_left (hnone : ∀ i ∈ k.unusedKeychainSpks, i ∈ reserved) :
    k.pickChange reserved = k.revealNextSpk := by
  rw [pickChange]
  cases hfind : k.unusedKeychainSpks.find? (· ∉ reserved) with
  | none => rfl
  | some index =>
      have hnot := List.find?_some hfind
      exact absurd (hnone index (List.mem_of_find?_eq_some hfind)) (by simpa using hnot)

end KeychainTxOutIndex

/-- A template is what a plan says: it spends the outpoints of the plan in order, each once, pays
the change that is planned and the recipients, and costs the fee. -/
structure SendPlan.IsDoneBy [Build] (B : BitcoinLib) (plan : SendPlan)
    (template : TransactionTemplate Unscoped) : Prop where
  spends : template.inputs.map Input.outpoint = plan.selectedOutpoints
  once : plan.selectedOutpoints.Nodup
  pays : ∃ change : List TxOut,
    template.outputs.map (Output.txout B) = change ++ plan.recipients ∧
      change.map TxOut.value = plan.changeValue.toList ∧
      ∀ txout ∈ change, ∃ index, txout.scriptPubkey = (changeOwner plan.masterAppkey index).spk B
  costs : template.fee = .ret (some plan.fee)

/-- The wallet with the next change address of a key revealed in memory, nothing else changed. -/
def PersistedWallet.revealNextChange (w : PersistedWallet) (masterAppkey : MasterAppkey) :
    PersistedWallet :=
  { w with
    inMemory := { w.inMemory with
      internal := Function.update w.inMemory.internal masterAppkey
        (w.inMemory.internal masterAppkey).revealNextSpk.2 } }

/-- **A committed send is its plan**, for every plan that was made from coins of the wallet, however
the wallet has moved since. When an input is not spendable any more the wallet is as it was. When
the database does not store the change index, it holds what it did, and nothing is marked as used;
in memory the next change address is revealed if none was left to take, and that is all. -/
theorem commitSend_is_plan [Build] {B : BitcoinLib}
    {init : PersistedWallet → MasterAppkey → PersistedWallet} {db : Except String Unit}
    {w w' : PersistedWallet} {w₀ : CoordSuperWallet} {plan : SendPlan} {reserved : List ℕ}
    {txOf : BitVec 256 → Option Transaction}
    {result : Except CommitSendError (TransactionTemplate Unscoped)}
    (hplan : SendPlan.newCheck plan.selected plan.recipients plan.changeValue plan.fee =
      .ret (.ok ()))
    (hw₀ : w₀.Agrees txOf)
    (hselected : ∀ coin ∈ plan.selected, coin ∈ w₀.allUnspent plan.masterAppkey)
    (hinit : init w plan.masterAppkey = w) (hw : w.inMemory.Agrees txOf)
    (h : w.commitSend B init db plan reserved = .ret (result, w')) :
    (∀ template, result = .ok template → plan.IsDoneBy B template) ∧
      (∀ e, result = .error (.ownedUnspent e) → w' = w) ∧
      ∀ e, result = .error (.persist e) →
        db = .error e ∧ w'.stored = w.stored ∧
          (∀ key, (w'.inMemory.internal key).used = (w.inMemory.internal key).used) ∧
          ((∃ i ∈ (w.inMemory.internal plan.masterAppkey).unusedKeychainSpks, i ∉ reserved) →
            w' = w) ∧
          ((∀ i ∈ (w.inMemory.internal plan.masterAppkey).unusedKeychainSpks, i ∈ reserved) →
            w' = w.revealNextChange plan.masterAppkey) := by
  rw [PersistedWallet.commitSend, hinit] at h
  split at h
  · obtain ⟨rfl, rfl⟩ := Prod.mk.inj (Exec.ret.inj h)
    exact ⟨nofun, fun _ _ => rfl, nofun⟩
  rename_i coins hspendable
  obtain ⟨t₁, hinputs, h⟩ := Exec.bind_eq_ret_iff.1 h
  obtain ⟨⟨pushed, w₁⟩, hpush, h⟩ := Exec.bind_eq_ret_iff.1 h
  cases pushed with
  | error e =>
      obtain ⟨rfl, rfl⟩ := Prod.mk.inj (Exec.ret.inj h)
      obtain ⟨rfl, rfl⟩ := PersistedWallet.pushChange_error hpush
      refine ⟨nofun, nofun, ?_⟩
      rintro _ ⟨⟩
      refine ⟨rfl, rfl, fun key => ?_, ?_, ?_⟩
      · dsimp only
        split
        · rename_i hkey
          rw [hkey, KeychainTxOutIndex.pickChange_used]
        · rfl
      · rintro ⟨i, hi, hnot⟩
        rw [KeychainTxOutIndex.pickChange_of_unused _ reserved hi hnot]
        have hsame : (fun key => if key = plan.masterAppkey then
            w.inMemory.internal plan.masterAppkey else w.inMemory.internal key) =
            w.inMemory.internal := by
          funext key
          split
          · rename_i hkey
            rw [hkey]
          · rfl
        rw [hsame]
      · intro hnone
        rw [KeychainTxOutIndex.pickChange_of_none_left _ reserved hnone]
        have hupdate : (fun key => if key = plan.masterAppkey then
            (w.inMemory.internal plan.masterAppkey).revealNextSpk.2 else w.inMemory.internal key) =
            Function.update w.inMemory.internal plan.masterAppkey
              (w.inMemory.internal plan.masterAppkey).revealNextSpk.2 := by
          funext key
          rw [Function.update_apply]
        rw [hupdate, PersistedWallet.revealNextChange]
  | ok t₂ =>
      obtain ⟨t₃, hrecipients, h⟩ := Exec.bind_eq_ret_iff.1 h
      obtain ⟨rfl, rfl⟩ := Prod.mk.inj (Exec.ret.inj h)
      refine ⟨?_, nofun, nofun⟩
      rintro template htemplate
      obtain rfl := Except.ok.inj htemplate
      have hcoins : ∀ coin ∈ plan.selected, ∃ tx txout, txOf coin.2.1.txid = some tx ∧
          tx.output[coin.2.1.vout]? = some txout ∧ txout.value = coin.2.2 := by
        rintro ⟨path, outpoint, value⟩ hcoin
        exact hw₀.unspent _ path outpoint value (hselected _ hcoin)
      have hpairs := CoordSuperWallet.foldlM_pushSelected_inputs hw hcoins hinputs
      have hempty : t₁.outputs = [] := CoordSuperWallet.foldlM_pushSelected_outputs hinputs
      obtain ⟨hinputs₂, change, houtputs₂, hvalues, howners⟩ := PersistedWallet.pushChange_ok hpush
      obtain ⟨hinputs₃, houtputs₃⟩ := CoordSuperWallet.foldlM_pushRecipient_txouts hrecipients
      have houtputs : t₃.outputs.map (Output.txout B) =
          change.map (Output.txout B) ++ plan.recipients := by
        rw [houtputs₃, houtputs₂, hempty, List.nil_append]
      have hspent : t₃.inputs.map (fun input => (input.outpoint, input.value)) =
          plan.selected.map Prod.snd := by
        rw [hinputs₃, hinputs₂, hpairs]
        rfl
      refine ⟨?_, (CoordSuperWallet.ownedUnspentLoop_nodup hspendable).1, ?_, ?_⟩
      · have hfst := congrArg (List.map Prod.fst) hspent
        rwa [List.map_map, List.map_map] at hfst
      · refine ⟨change.map (Output.txout B), houtputs, ?_, ?_⟩
        · rw [List.map_map]
          exact hvalues
        · intro txout htxout
          obtain ⟨output, houtput, rfl⟩ := List.mem_map.1 htxout
          obtain ⟨index, howner⟩ := howners output houtput
          exact ⟨index, by rw [Output.txout, howner]; rfl⟩
      · obtain ⟨inputs, outputs, hsumInputs, hsumOutputs, hle, hfee⟩ := SendPlan.of_newCheck hplan
        have hinputValues : t₃.inputs.map Input.value =
            plan.selected.map fun (_, _, value) => value := by
          have hsnd := congrArg (List.map Prod.snd) hspent
          rwa [List.map_map, List.map_map] at hsnd
        have houtputValues : t₃.outputs.map Output.value =
            plan.changeValue.toList ++ plan.recipients.map TxOut.value := by
          have hmap := congrArg (List.map TxOut.value) houtputs
          rw [List.map_append, List.map_map, List.map_map] at hmap
          rw [← hvalues]
          exact hmap
        rw [TransactionTemplate.fee, hinputValues, houtputValues, hsumInputs, hsumOutputs]
        simp only [Exec.ret_bind, Exec.pure_eq]
        rw [if_pos hle, hfee]

/-! ### A change address that is not stored -/

/-- The wallet with one coin, which has stored no change index. -/
def samplePersisted : PersistedWallet where
  inMemory := sampleWallet
  stored _ := none

/-- The transaction that the coin is in. -/
def sampleTxOf (_ : BitVec 256) : Option Transaction :=
  some
    { version := 2, lockTime := 0, input := []
      output := [{ value := 1000, scriptPubkey := [0x51, 0x20, 7] }] }

theorem sampleWallet_agrees : sampleWallet.Agrees sampleTxOf where
  getTx _ _ h := h
  unspent key path outpoint value h := by
    obtain ⟨rfl, hrest⟩ := Prod.mk.inj (List.mem_singleton.1 h)
    obtain ⟨rfl, rfl⟩ := Prod.mk.inj hrest
    exact ⟨_, _, rfl, rfl, rfl⟩

/-- How a send ends: whether there is a template, and the last change index that the key has
revealed in memory. -/
def endOf : Exec (Except CommitSendError (TransactionTemplate Unscoped) × PersistedWallet) →
    Option (Bool × Option ℕ)
  | .ret (result, w) => some (result.toBool,
      (w.inMemory.internal samplePlan.masterAppkey).lastRevealed)
  | .panic _ => none

theorem exists_of_endOf
    {x : Exec (Except CommitSendError (TransactionTemplate Unscoped) × PersistedWallet)}
    {done : Bool} {last : Option ℕ} (h : endOf x = some (done, last)) :
    ∃ result w', x = .ret (result, w') ∧ result.toBool = done ∧
      (w'.inMemory.internal samplePlan.masterAppkey).lastRevealed = last := by
  cases x with
  | panic msg => cases h
  | ret end' =>
      obtain ⟨result, w'⟩ := end'
      obtain ⟨hdone, hlast⟩ := Prod.mk.inj (Option.some.inj h)
      exact ⟨result, w', rfl, hdone, hlast⟩

/-- The coin is spent for the change. -/
theorem commitSend_is_plan_of_sample :
    ∃ template w', samplePersisted.commitSend plainBitcoinLib (fun w _ => w) (.ok ())
      samplePlan [] =
        .ret (.ok template, w') ∧
      @SendPlan.IsDoneBy .release plainBitcoinLib samplePlan template := by
  obtain ⟨result, w', h, hdone, -⟩ := exists_of_endOf
    (show endOf (samplePersisted.commitSend plainBitcoinLib (fun w _ => w) (.ok ()) samplePlan []) =
      some (true, some 0) by decide +kernel)
  cases result with
  | error e => cases hdone
  | ok template =>
      have hplan : @SendPlan.newCheck .release samplePlan.selected samplePlan.recipients
          samplePlan.changeValue samplePlan.fee = .ret (.ok ()) := by decide
      have hmatches := (@commitSend_is_plan .release plainBitcoinLib (fun w _ => w) (.ok ())
        samplePersisted w' sampleWallet samplePlan [] sampleTxOf _ hplan sampleWallet_agrees
        (fun coin hcoin => hcoin) rfl sampleWallet_agrees h).1 template rfl
      exact ⟨template, w', h, hmatches⟩

/-- When the database does not store the change index, the call fails, and the address is revealed
in memory. -/
theorem change_stays_revealed_when_not_stored :
    ¬ ∀ (B : BitcoinLib) (init : PersistedWallet → MasterAppkey → PersistedWallet)
      (db : Except String Unit) (w w' : PersistedWallet) (plan : SendPlan) (reserved : List ℕ)
      (e : CommitSendError), init w plan.masterAppkey = w →
      w.commitSend B init db plan reserved = .ret (.error e, w') →
      ∀ key, (w'.inMemory.internal key).lastRevealed = (w.inMemory.internal key).lastRevealed := by
  intro h
  obtain ⟨result, w', hfail, hdone, hrevealed⟩ := exists_of_endOf
    (show endOf (samplePersisted.commitSend plainBitcoinLib (fun w _ => w)
      (.error "database or disk is full") samplePlan []) = some (false, some 0) by decide +kernel)
  cases result with
  | ok template => cases hdone
  | error e =>
      have hsame := h _ _ _ _ _ _ _ _ rfl hfail samplePlan.masterAppkey
      rw [hrevealed] at hsame
      cases hsame

end Bitcoin

end Frostsnap
