import Frostsnap.Bitcoin.Disclosure

/-!
# The fee and the net value of a template

The amounts of a template come from the coordinator, and any `u64` can be one. The fee is the
difference of two sums of them, and the net value of a key the difference of two sums of `i64`s,
those of its outputs and of its inputs. This module embeds `our_net_value` and asks when both are
the numbers that they are meant to be.

## Main results

* `exactAmounts_iff`: the fee and the net value of a template that a device accepts are exact, and
  nothing overflows, exactly when the four sums fit.
-/

namespace Frostsnap

namespace Bitcoin

/-- A build with the checks for arithmetic overflow. -/
@[reducible]
def checkedBuild : Build where
  checks := true

/-- Unchecked `i64` addition. -/
def addI64 [Build] (a b : BitVec 64) : Exec (BitVec 64) :=
  if Build.checks ∧ a.saddOverflow b then .panic "attempt to add with overflow" else .ret (a + b)

/-- Unchecked `i64` subtraction. -/
def subI64 [Build] (a b : BitVec 64) : Exec (BitVec 64) :=
  if Build.checks ∧ a.ssubOverflow b then .panic "attempt to subtract with overflow"
  else .ret (a - b)

namespace TransactionTemplate

/-- What an amount counts for our balance. -/
def ours (owner : SpkOwner) (value : Sats) : Exec (BitVec 64) :=
  match owner with
  | .local _ => if value.toNat < 2 ^ 63 then .ret value else .panic "value ridiculously large"
  | .foreign _ => .ret 0

/-- Add what an amount counts. -/
def addOurs [Build] (sum : BitVec 64) (amount : SpkOwner × Sats) : Exec (BitVec 64) := do
  let value ← ours amount.1 amount.2
  addI64 sum value

/-- The sum of what amounts count. -/
def sumOurs [Build] (amounts : List (SpkOwner × Sats)) : Exec (BitVec 64) :=
  amounts.foldlM addOurs 0

/-- The amounts of the inputs with their owners. -/
def inputAmounts {S : Type} (t : TransactionTemplate S) : List (SpkOwner × Sats) :=
  t.inputs.map fun input => (input.owner, input.value)

/-- The amounts of the outputs with their owners. -/
def outputAmounts {S : Type} (t : TransactionTemplate S) : List (SpkOwner × Sats) :=
  t.outputs.map fun output => (output.owner, output.value)

/-- What the transaction does to the balance of the key that the template is narrowed to. -/
def ourNetValue [Build] (t : TransactionTemplate ScopedTo) : Exec (BitVec 64) := do
  let outputs ← sumOurs t.outputAmounts
  let inputs ← sumOurs t.inputAmounts
  subI64 outputs inputs

end TransactionTemplate

/-! ### Signed arithmetic -/

section Signed

variable {a b : BitVec 64}

/-- An `i64` that is not negative. -/
theorem toInt_of_lt (ha : a.toNat < 2 ^ 63) : a.toInt = a.toNat :=
  BitVec.toInt_eq_toNat_of_lt (by omega)

theorem saddOverflow_iff (ha : a.toNat < 2 ^ 63) (hb : b.toNat < 2 ^ 63) :
    a.saddOverflow b = true ↔ 2 ^ 63 ≤ a.toNat + b.toNat := by
  rw [BitVec.saddOverflow, toInt_of_lt ha, toInt_of_lt hb]
  simp only [Nat.add_one_sub_one, ge_iff_le, Bool.or_eq_true, decide_eq_true_eq]
  omega

theorem addI64_of_lt [Build] (h : a.toNat + b.toNat < 2 ^ 63) :
    addI64 a b = .ret (a + b) ∧ (a + b).toNat = a.toNat + b.toNat := by
  constructor
  · refine if_neg fun hoverflow => ?_
    have hle := (saddOverflow_iff (by omega) (by omega)).1 hoverflow.2
    omega
  · rw [BitVec.toNat_add]
    exact Nat.mod_eq_of_lt (by omega)

/-- The difference of two `i64`s that are not negative is one. -/
theorem subI64_of_lt [Build] (ha : a.toNat < 2 ^ 63) (hb : b.toNat < 2 ^ 63) :
    subI64 a b = .ret (a - b) ∧ (a - b).toInt = a.toNat - b.toNat := by
  have hnot : ¬ a.ssubOverflow b = true := by
    rw [BitVec.ssubOverflow, toInt_of_lt ha, toInt_of_lt hb]
    simp only [Nat.add_one_sub_one, ge_iff_le, Bool.or_eq_true, decide_eq_true_eq]
    omega
  refine ⟨if_neg fun hoverflow => hnot hoverflow.2, ?_⟩
  rw [BitVec.toInt_sub_of_not_ssubOverflow hnot, toInt_of_lt ha, toInt_of_lt hb]

end Signed

/-! ### Sums that fit -/

/-- A sum that fits is computed. -/
theorem sumU64_of_lt [Build] {amounts : List Sats} (h : total amounts < 2 ^ 64) :
    ∃ sum, sumU64 amounts = .ret sum ∧ sum.toNat = total amounts := by
  have hfold : ∀ (l : List Sats) (s : Sats), s.toNat + total l < 2 ^ 64 →
      ∃ s', l.foldlM (fun sum value =>
        if Build.checks ∧ 2 ^ 64 ≤ sum.toNat + value.toNat then
          Exec.panic "attempt to add with overflow"
        else .ret (sum + value)) s = .ret s' := by
    intro l
    induction l with
    | nil => exact fun s _ => ⟨s, rfl⟩
    | cons value l ih =>
        intro s hs
        rw [total, List.map_cons, List.sum_cons, ← total] at hs
        have hadd : (s + value).toNat = s.toNat + value.toNat := by
          rw [BitVec.toNat_add]
          exact Nat.mod_eq_of_lt (by omega)
        rw [List.foldlM_cons, if_neg (by omega), Exec.ret_bind]
        exact ih (s + value) (by omega)
  obtain ⟨sum, hsum⟩ := hfold amounts 0 (by simpa using h)
  exact ⟨sum, hsum, by rw [sumU64_toNat hsum, Nat.mod_eq_of_lt h]⟩

/-- A sum that the checks let pass fits. -/
theorem total_lt_of_returns {amounts : List Sats}
    (h : (@sumU64 checkedBuild amounts).Returns) : total amounts < 2 ^ 64 := by
  have hfold : ∀ (l : List Sats) (s : Sats),
      (l.foldlM (fun sum value =>
        if checkedBuild.checks ∧ 2 ^ 64 ≤ sum.toNat + value.toNat then
          Exec.panic "attempt to add with overflow"
        else .ret (sum + value)) s).Returns → s.toNat + total l < 2 ^ 64 := by
    intro l
    induction l with
    | nil => exact fun s _ => s.isLt
    | cons value l ih =>
        intro s hs
        rw [List.foldlM_cons] at hs
        rcases Nat.lt_or_ge (s.toNat + value.toNat) (2 ^ 64) with hlt | hle
        · rw [if_neg (by omega), Exec.ret_bind] at hs
          have hrest := ih _ hs
          rw [BitVec.toNat_add, Nat.mod_eq_of_lt hlt] at hrest
          rw [total, List.map_cons, List.sum_cons, ← total]
          omega
        · rw [if_pos ⟨rfl, hle⟩] at hs
          exact absurd hs (Exec.not_returns_panic _)
  have hsum := hfold amounts 0 h
  simpa using hsum

/-- The amounts that are ours. -/
def oursOf (amounts : List (SpkOwner × Sats)) : List Sats :=
  amounts.filterMap fun (owner, value) => owner.localOwner.map fun _ => value

/-- What an amount adds to those that are ours. -/
def worth (owner : SpkOwner) (value : Sats) : ℕ :=
  if owner.localOwner.isSome then value.toNat else 0

theorem total_oursOf_cons (owner : SpkOwner) (value : Sats) (l : List (SpkOwner × Sats)) :
    total (oursOf ((owner, value) :: l)) = worth owner value + total (oursOf l) := by
  cases owner with
  | foreign spk => exact (Nat.zero_add _).symm
  | «local» o => rfl

namespace TransactionTemplate

theorem ours_of_lt {owner : SpkOwner} {value : Sats} (h : worth owner value < 2 ^ 63) :
    ∃ v, ours owner value = .ret v ∧ v.toNat = worth owner value := by
  cases owner with
  | foreign spk => exact ⟨0, rfl, rfl⟩
  | «local» o => exact ⟨value, if_pos h, rfl⟩

/-- An amount that counts is not ridiculously large. -/
theorem worth_of_ours {owner : SpkOwner} {value : Sats} {v : BitVec 64}
    (h : ours owner value = .ret v) : worth owner value < 2 ^ 63 ∧ v.toNat = worth owner value := by
  cases owner with
  | foreign spk =>
      obtain rfl : 0 = v := Exec.ret.inj h
      exact ⟨Nat.two_pow_pos 63, rfl⟩
  | «local» o =>
      rw [ours] at h
      split at h
      · rename_i hlt
        obtain rfl : value = v := Exec.ret.inj h
        exact ⟨hlt, rfl⟩
      · cases h

/-- Our sum is computed when it fits. -/
theorem sumOurs_of_lt [Build] {amounts : List (SpkOwner × Sats)}
    (h : total (oursOf amounts) < 2 ^ 63) :
    ∃ sum, sumOurs amounts = .ret sum ∧ sum.toNat = total (oursOf amounts) := by
  have hfold : ∀ (l : List (SpkOwner × Sats)) (s : BitVec 64),
      s.toNat + total (oursOf l) < 2 ^ 63 →
      ∃ s', l.foldlM addOurs s = .ret s' ∧ s'.toNat = s.toNat + total (oursOf l) := by
    intro l
    induction l with
    | nil => exact fun s _ => ⟨s, rfl, rfl⟩
    | cons amount l ih =>
        obtain ⟨owner, value⟩ := amount
        intro s hs
        rw [total_oursOf_cons] at hs ⊢
        obtain ⟨v, hv, hworth⟩ := ours_of_lt (show worth owner value < 2 ^ 63 by omega)
        obtain ⟨hadd, hnat⟩ := addI64_of_lt (show s.toNat + v.toNat < 2 ^ 63 by omega)
        obtain ⟨s', hs', hrest⟩ := ih (s + v) (by omega)
        refine ⟨s', ?_, by omega⟩
        rw [List.foldlM_cons, addOurs, hv, Exec.ret_bind, hadd, Exec.ret_bind, hs']
  obtain ⟨sum, hsum, hnat⟩ := hfold amounts 0 (by simpa using h)
  exact ⟨sum, hsum, by simpa using hnat⟩

/-- Our sum fits when the checks let it pass. -/
theorem total_oursOf_lt_of_returns {amounts : List (SpkOwner × Sats)}
    (h : (@sumOurs checkedBuild amounts).Returns) : total (oursOf amounts) < 2 ^ 63 := by
  have hfold : ∀ (l : List (SpkOwner × Sats)) (s : BitVec 64), s.toNat < 2 ^ 63 →
      (l.foldlM (@addOurs checkedBuild) s).Returns → s.toNat + total (oursOf l) < 2 ^ 63 := by
    intro l
    induction l with
    | nil => exact fun s hs _ => hs
    | cons amount l ih =>
        obtain ⟨owner, value⟩ := amount
        intro s hs hreturns
        rw [List.foldlM_cons, Exec.returns_bind] at hreturns
        obtain ⟨s₁, hs₁, hreturns⟩ := hreturns
        obtain ⟨v, hv, hadd⟩ := Exec.bind_eq_ret_iff.1 hs₁
        obtain ⟨hworth, hnat⟩ : worth owner value < 2 ^ 63 ∧ v.toNat = worth owner value :=
          worth_of_ours hv
        rw [total_oursOf_cons]
        rcases Nat.lt_or_ge (s.toNat + v.toNat) (2 ^ 63) with hlt | hle
        · obtain ⟨hadd', hsum⟩ := @addI64_of_lt _ _ checkedBuild hlt
          obtain rfl := Exec.ret.inj (hadd'.symm.trans hadd)
          have hrest := ih (s + v) (by omega) hreturns
          rw [hsum] at hrest
          omega
        · have hoverflow := (saddOverflow_iff hs (show v.toNat < 2 ^ 63 by omega)).2 hle
          have hpanic : @addI64 checkedBuild s v = .panic "attempt to add with overflow" :=
            if_pos ⟨rfl, hoverflow⟩
          cases hpanic.symm.trans hadd
  have hsum := hfold amounts 0 (Nat.two_pow_pos 63) h
  simpa using hsum

end TransactionTemplate

/-! ### Exact amounts -/

/-- The amounts of a key. -/
def ownedAmounts (masterAppkey : MasterAppkey) (amounts : List (SpkOwner × Sats)) : List Sats :=
  amounts.filterMap fun (owner, value) =>
    match owner with
    | .foreign _ => none
    | .local o => if o.masterAppkey = masterAppkey then some value else none

/-- What is ours in a template as a key sees it is what the key owns. -/
theorem oursOf_foreignToUs (B : BitcoinLib) (masterAppkey : MasterAppkey)
    (amounts : List (SpkOwner × Sats)) :
    oursOf (amounts.map fun (owner, value) =>
        (TransactionTemplate.foreignToUs B masterAppkey owner, value)) =
      ownedAmounts masterAppkey amounts := by
  rw [oursOf, List.filterMap_map]
  refine List.filterMap_congr fun amount _ => ?_
  obtain ⟨owner, value⟩ := amount
  cases owner with
  | foreign spk => rfl
  | «local» o =>
      simp only [Function.comp_apply, TransactionTemplate.foreignToUs]
      by_cases hkey : o.masterAppkey = masterAppkey
      · rw [if_neg (not_not.2 hkey), if_pos hkey]
        rfl
      · rw [if_pos hkey, if_neg hkey]
        rfl

variable {B : BitcoinLib} (t : TransactionTemplate Unscoped) (masterAppkey : MasterAppkey)

/-- The four sums of a template and a key fit their types. -/
structure AmountsFit : Prop where
  inputs : total (t.inputs.map Input.value) < 2 ^ 64
  outputs : total (t.outputs.map Output.value) < 2 ^ 64
  ownedInputs : total (ownedAmounts masterAppkey t.inputAmounts) < 2 ^ 63
  ownedOutputs : total (ownedAmounts masterAppkey t.outputAmounts) < 2 ^ 63

/-- What a device computes of a template with a key is what it means: there is a fee when the inputs
are worth what the outputs are, and it is the difference; the net value is the difference of what
the key owns; and a build that checks for overflow finds none. -/
structure ExactAmounts [Build] (B : BitcoinLib) : Prop where
  feeIsSome : (∃ fee, (t.asSeenBy B masterAppkey).fee = .ret (some fee)) ↔
    total (t.outputs.map Output.value) ≤ total (t.inputs.map Input.value)
  fee : ∀ fee, (t.asSeenBy B masterAppkey).fee = .ret (some fee) →
    total (t.outputs.map Output.value) + fee.toNat = total (t.inputs.map Input.value)
  netValue : ∃ value, (t.asSeenBy B masterAppkey).ourNetValue = .ret value ∧
    value.toInt = (total (ownedAmounts masterAppkey t.outputAmounts) : ℤ) -
      total (ownedAmounts masterAppkey t.inputAmounts)
  noOverflow : (@TransactionTemplate.fee _ checkedBuild (t.asSeenBy B masterAppkey)).Returns ∧
    (@TransactionTemplate.ourNetValue checkedBuild (t.asSeenBy B masterAppkey)).Returns

variable {t masterAppkey}

theorem oursOf_inputAmounts :
    oursOf (t.asSeenBy B masterAppkey).inputAmounts =
      ownedAmounts masterAppkey t.inputAmounts := by
  rw [← oursOf_foreignToUs B]
  simp only [TransactionTemplate.inputAmounts, TransactionTemplate.asSeenBy, List.map_map,
    Function.comp_def]

theorem oursOf_outputAmounts :
    oursOf (t.asSeenBy B masterAppkey).outputAmounts =
      ownedAmounts masterAppkey t.outputAmounts := by
  rw [← oursOf_foreignToUs B]
  simp only [TransactionTemplate.outputAmounts, TransactionTemplate.asSeenBy, List.map_map,
    Function.comp_def]

theorem values_asSeenBy :
    (t.asSeenBy B masterAppkey).inputs.map Input.value = t.inputs.map Input.value ∧
      (t.asSeenBy B masterAppkey).outputs.map Output.value = t.outputs.map Output.value := by
  simp only [TransactionTemplate.asSeenBy, List.map_map, Function.comp_def, and_self]

/-- The fee of sums that fit. -/
theorem fee_of_fit [Build] (h : AmountsFit t masterAppkey) :
    ∃ inputs outputs : Sats, inputs.toNat = total (t.inputs.map Input.value) ∧
      outputs.toNat = total (t.outputs.map Output.value) ∧
      (t.asSeenBy B masterAppkey).fee =
        .ret (if outputs ≤ inputs then some (inputs - outputs) else none) := by
  obtain ⟨hin, hout⟩ := @values_asSeenBy B t masterAppkey
  obtain ⟨inputs, hinputs, hnat⟩ := sumU64_of_lt h.inputs
  obtain ⟨outputs, houtputs, hnat'⟩ := sumU64_of_lt h.outputs
  refine ⟨inputs, outputs, hnat, hnat', ?_⟩
  rw [TransactionTemplate.fee, hin, hout, hinputs, Exec.ret_bind, houtputs, Exec.ret_bind,
    Exec.pure_eq]

/-- The net value of sums that fit. -/
theorem ourNetValue_of_fit [Build] (h : AmountsFit t masterAppkey) :
    ∃ value, (t.asSeenBy B masterAppkey).ourNetValue = .ret value ∧
      value.toInt = (total (ownedAmounts masterAppkey t.outputAmounts) : ℤ) -
        total (ownedAmounts masterAppkey t.inputAmounts) := by
  have hin := @oursOf_inputAmounts B t masterAppkey
  have hout := @oursOf_outputAmounts B t masterAppkey
  obtain ⟨outputs, houtputs, hnat⟩ :=
    TransactionTemplate.sumOurs_of_lt (hout ▸ h.ownedOutputs)
  obtain ⟨inputs, hinputs, hnat'⟩ :=
    TransactionTemplate.sumOurs_of_lt (hin ▸ h.ownedInputs)
  have houtLt := h.ownedOutputs
  have hinLt := h.ownedInputs
  rw [hout] at hnat
  rw [hin] at hnat'
  obtain ⟨hsub, hint⟩ := subI64_of_lt (show outputs.toNat < 2 ^ 63 by omega)
    (show inputs.toNat < 2 ^ 63 by omega)
  refine ⟨outputs - inputs, ?_, by rw [hint, hnat, hnat']⟩
  rw [TransactionTemplate.ourNetValue, houtputs, Exec.ret_bind, hinputs, Exec.ret_bind, hsub]

/-- Sums that a build with checks computes fit. -/
theorem fit_of_noOverflow
    (hfee : (@TransactionTemplate.fee _ checkedBuild (t.asSeenBy B masterAppkey)).Returns)
    (hnet : (@TransactionTemplate.ourNetValue checkedBuild (t.asSeenBy B masterAppkey)).Returns) :
    AmountsFit t masterAppkey := by
  obtain ⟨hin, hout⟩ := @values_asSeenBy B t masterAppkey
  obtain ⟨inputs, hinputs, hfee⟩ := Exec.returns_bind.1 hfee
  obtain ⟨outputs, houtputs, -⟩ := Exec.returns_bind.1 hfee
  obtain ⟨oursOut, hoursOut, hnet⟩ := Exec.returns_bind.1 hnet
  obtain ⟨oursIn, hoursIn, -⟩ := Exec.returns_bind.1 hnet
  constructor
  · exact hin ▸ total_lt_of_returns ⟨inputs, hinputs⟩
  · exact hout ▸ total_lt_of_returns ⟨outputs, houtputs⟩
  · rw [← @oursOf_inputAmounts B]
    exact TransactionTemplate.total_oursOf_lt_of_returns ⟨oursIn, hoursIn⟩
  · rw [← @oursOf_outputAmounts B]
    exact TransactionTemplate.total_oursOf_lt_of_returns ⟨oursOut, hoursOut⟩

/-- **The fee and the net value are exact**, and nothing overflows, exactly when the sums of all
inputs and of all outputs are `u64`s, and those of the inputs and of the outputs of the key are
`i64`s. -/
theorem exactAmounts_iff [Build] (B : BitcoinLib) (t : TransactionTemplate Unscoped)
    (masterAppkey : MasterAppkey) :
    ExactAmounts t masterAppkey B ↔ AmountsFit t masterAppkey := by
  constructor
  · intro hexact
    exact fit_of_noOverflow hexact.noOverflow.1 hexact.noOverflow.2
  · intro hfit
    obtain ⟨inputs, outputs, hin, hout, hfee⟩ := @fee_of_fit B t masterAppkey _ hfit
    constructor
    · rw [hfee, ← hin, ← hout, ← BitVec.le_def]
      split
      · rename_i hle
        exact iff_of_true ⟨_, rfl⟩ hle
      · rename_i hlt
        exact iff_of_false nofun hlt
    · intro fee hret
      rw [hfee, Exec.ret.injEq] at hret
      split at hret
      · rename_i hle
        obtain rfl := Option.some.inj hret
        rw [← hin, ← hout, BitVec.toNat_sub_of_le hle]
        exact Nat.add_sub_cancel' hle
      · cases hret
    · exact ourNetValue_of_fit hfit
    · obtain ⟨inputs', outputs', -, -, hchecked⟩ := @fee_of_fit B t masterAppkey checkedBuild hfit
      obtain ⟨value, hvalue, -⟩ := @ourNetValue_of_fit B t masterAppkey checkedBuild hfit
      exact ⟨⟨_, hchecked⟩, ⟨value, hvalue⟩⟩

section Example

attribute [local instance] Build.release

/-- Two coins of a key that are worth `2 ^ 64 + 1` together, spent in a payment of `1`. -/
def wrappingFee : TransactionTemplate Unscoped where
  scope := {}
  version := 2
  lockTime := 0
  inputs :=
    [{ outpoint := { txid := 1, vout := 0 }
       value := BitVec.ofNat 64 (2 ^ 64 - 1)
       owner := .foreign [0x6a]
       sequence := 0 },
     { outpoint := { txid := 2, vout := 0 }
       value := 2
       owner := .local (firstAddress .external)
       sequence := 0 }]
  outputs := [{ value := 1, owner := .foreign [0x6a] }]

/-- A device accepts the template, and takes the fee for nothing. -/
theorem fee_of_wrappingFee :
    (WireSignTask.bitcoinTransaction wrappingFee).check plainBitcoinLib 7 (.bitcoin .bitcoin) =
        .ret (.ok { masterAppkey := 7
                    inner := .bitcoinTransaction (wrappingFee.asSeenBy plainBitcoinLib 7)
                      .bitcoin }) ∧
      (wrappingFee.asSeenBy plainBitcoinLib 7).fee = .ret (some 0) ∧
      total (wrappingFee.inputs.map Input.value) - total (wrappingFee.outputs.map Output.value) =
        2 ^ 64 :=
  ⟨by decide +kernel, rfl, rfl⟩

end Example

end Bitcoin

end Frostsnap
