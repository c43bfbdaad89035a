import Frostsnap.Bitcoin.SignTask

/-!
# What the prompt discloses

A task that a device accepts is shown with every output that is not the key's, and hides at most
one output, which is change. The fee that is shown is another matter. It is a difference of two
sums of `u64`s, and a release build lets both wrap around, so that the check of `fee` compares
remainders: the fee is what is missing exactly when both sums have wrapped equally often
(`userPrompt_discloses_iff`).
-/

namespace Frostsnap

namespace Bitcoin

variable {B : BitcoinLib}

/-! ### Sums -/

/-- A sum that is returned is right up to a multiple of `2 ^ 64`. -/
theorem sumU64_toNat [Build] {amounts : List Sats} {sum : Sats}
    (h : sumU64 amounts = .ret sum) : sum.toNat = total amounts % 2 ^ 64 := by
  have hfold : ∀ (l : List Sats) (s₀ s : Sats),
      l.foldlM (fun sum value =>
        if Build.checks ∧ 2 ^ 64 ≤ sum.toNat + value.toNat then
          Exec.panic "attempt to add with overflow"
        else .ret (sum + value)) s₀ = .ret s →
      s.toNat = (s₀.toNat + total l) % 2 ^ 64 := by
    intro l
    induction l with
    | nil =>
        rintro s₀ s ⟨⟩
        exact (Nat.mod_eq_of_lt s₀.isLt).symm
    | cons value l ih =>
        intro s₀ s hs
        rw [List.foldlM_cons] at hs
        obtain ⟨s₁, h₁, hs⟩ := Exec.bind_eq_ret_iff.1 hs
        split at h₁
        · cases h₁
        · cases h₁
          rw [ih _ _ hs, BitVec.toNat_add, Nat.mod_add_mod, total, total, List.map_cons,
            List.sum_cons, Nat.add_assoc]
  have hzero : (0 : Sats).toNat = 0 := rfl
  rw [hfold amounts 0 sum h, hzero, Nat.zero_add]

/-- A permutation keeps the sum. -/
theorem total_perm {l₁ l₂ : List Sats} (h : l₁.Perm l₂) : total l₁ = total l₂ :=
  (h.map BitVec.toNat).sum_eq

@[simp] theorem total_append (l₁ l₂ : List Sats) : total (l₁ ++ l₂) = total l₁ + total l₂ := by
  rw [total, List.map_append, List.sum_append, ← total, ← total]

namespace TransactionTemplate

/-- A fee is the difference of two sums, up to multiples of `2 ^ 64`. -/
theorem fee_eq_some [Build] {S : Type} {t : TransactionTemplate S} {fee : Sats}
    (h : t.fee = .ret (some fee)) :
    total (t.outputs.map Output.value) % 2 ^ 64 + fee.toNat =
      total (t.inputs.map Input.value) % 2 ^ 64 := by
  rw [TransactionTemplate.fee] at h
  obtain ⟨inputs, hin, h⟩ := Exec.bind_eq_ret_iff.1 h
  obtain ⟨outputs, hout, h⟩ := Exec.bind_eq_ret_iff.1 h
  rw [Exec.pure_eq, Exec.ret.injEq] at h
  split at h
  · rename_i hle
    cases h
    rw [← sumU64_toNat hin, ← sumU64_toNat hout, BitVec.toNat_sub_of_le hle]
    exact Nat.add_sub_cancel' hle
  · cases h

end TransactionTemplate

/-! ### What a check has seen -/

/-- A traversal that finds no error has found every element good. -/
theorem forM_eq_ok {α ε : Type} {f : α → Except ε Unit} {l : List α} (h : l.forM f = .ok ()) :
    ∀ a ∈ l, f a = .ok () := by
  induction l with
  | nil => exact nofun
  | cons a l ih =>
      change (f a >>= fun _ => l.forM f) = .ok () at h
      cases ha : f a with
      | error e =>
          rw [ha] at h
          cases h
      | ok u =>
          rw [ha] at h
          intro b hb
          rcases List.mem_cons.1 hb with rfl | hb
          · exact ha
          · exact ih h b hb

/-- An output that is believed to be ours is in the default account. -/
theorem checkOutput_eq_ok {owner : LocalSpk} (h : checkOutput owner = .ok ()) :
    owner.bip32Path.accountKeychain.account = .default ∧
      owner.bip32Path.index.toU32 < OUTPUT_INDEX_LIMIT := by
  rw [checkOutput] at h
  split at h
  · cases h
  · rename_i haccount
    split at h
    · cases h
    · rename_i hindex
      exact ⟨Decidable.not_not.1 haccount, Nat.lt_of_not_le hindex⟩

namespace WireSignTask

/-- What a transaction has to be to be accepted. -/
theorem check_bitcoinTransaction [Build] {t : TransactionTemplate Unscoped}
    {masterAppkey : MasterAppkey} {purpose : KeyPurpose} {task : CheckedSignTask}
    (h : (bitcoinTransaction t).check B masterAppkey purpose = .ret (.ok task)) :
    ∃ network fee, purpose = .bitcoin network ∧
      task.masterAppkey = masterAppkey ∧
      task.inner = .bitcoinTransaction (t.asSeenBy B masterAppkey) network ∧
      (∀ x ∈ (t.asSeenBy B masterAppkey).iterOurOutputs, checkOutput x.2.2 = .ok ()) ∧
      (t.asSeenBy B masterAppkey).hasAnyInputsToSign = true ∧
      (t.asSeenBy B masterAppkey).fee = .ret (some fee) := by
  cases purpose with
  | test => cases h
  | nostr => cases h
  | bitcoin network =>
      simp only [check] at h
      split at h
      · cases h
      · rename_i houtputs
        split at h
        · cases h
        · rename_i hsign
          obtain ⟨fee, hfee, h⟩ := Exec.bind_eq_ret_iff.1 h
          cases fee with
          | none => cases h
          | some fee =>
              cases h
              refine ⟨network, fee, rfl, rfl, rfl, fun x hx => forM_eq_ok houtputs x hx, ?_, hfee⟩
              simpa using hsign

end WireSignTask

/-! ### Which outputs are shown -/

/-- The owners of our outputs, without where the outputs are. -/
theorem TransactionTemplate.owners_iterOurOutputs (t : TransactionTemplate ScopedTo) :
    t.iterOurOutputs.map (fun x => x.2.2) =
      t.outputs.filterMap fun output => output.owner.localOwner := by
  have hfst : t.outputs = t.outputs.zipIdx.map Prod.fst := (List.zipIdx_map_fst 0 t.outputs).symm
  conv_rhs => rw [hfst, List.filterMap_map]
  rw [iterOurOutputs, List.map_filterMap]
  refine List.filterMap_congr fun x _ => ?_
  rw [Option.map_map, Function.comp_apply]
  exact Option.map_id'

namespace Output

/-- The output is change that a key owns. -/
def internalTo (masterAppkey : MasterAppkey) (output : Output) : Bool :=
  (output.ownedBy masterAppkey).any fun path => path.accountKeychain.keychain = .internal

theorem ownedBy_eq_some {masterAppkey : MasterAppkey} {output : Output} {path : BitcoinBip32Path} :
    output.ownedBy masterAppkey = some path ↔
      ∃ owner, output.owner = .local owner ∧ owner.masterAppkey = masterAppkey ∧
        owner.bip32Path = path := by
  rw [ownedBy]
  split
  · rename_i spk hspk
    rw [hspk]
    constructor
    · rintro ⟨⟩
    · rintro ⟨owner, ⟨⟩, -⟩
  · rename_i owner howner
    rw [howner]
    split
    · rename_i hkey
      constructor
      · rintro ⟨⟩
        exact ⟨owner, rfl, hkey, rfl⟩
      · rintro ⟨_, ⟨⟩, _, rfl⟩
        rfl
    · rename_i hkey
      constructor
      · rintro ⟨⟩
      · rintro ⟨_, ⟨⟩, hsame, _⟩
        exact absurd hsame hkey

/-- The path of an output of the key is what its owner is narrowed to. -/
theorem ownedBy_eq (B : BitcoinLib) (masterAppkey : MasterAppkey) (output : Output) :
    output.ownedBy masterAppkey =
      (TransactionTemplate.foreignToUs B masterAppkey output.owner).localOwner.map
        LocalSpk.bip32Path := by
  refine Option.ext fun path => ?_
  rw [ownedBy_eq_some, Option.map_eq_some_iff]
  simp only [TransactionTemplate.localOwner_foreignToUs, and_assoc]

/-- An output that is shown when the change of a key is hidden, or is not. -/
def shownTo (masterAppkey : MasterAppkey) (hide : Bool) (output : Output) : Bool :=
  !(hide && output.internalTo masterAppkey)

end Output

namespace TransactionTemplate

variable {t : TransactionTemplate Unscoped} {masterAppkey : MasterAppkey}

/-- What a prompt shows of the outputs. -/
theorem promptRecipients_asSeenBy (network : Network) :
    (t.asSeenBy B masterAppkey).promptRecipients B network =
      (t.outputs.filter (Output.shownTo masterAppkey
        (t.asSeenBy B masterAppkey).hideSingleChange)).map
          (Output.asRecipient B masterAppkey network) := by
  generalize hhide : (t.asSeenBy B masterAppkey).hideSingleChange = hide
  rw [promptRecipients, hhide, asSeenBy, List.filterMap_map, ← List.filterMap_eq_map,
    ← List.filterMap_eq_filter, List.filterMap_filterMap]
  refine List.filterMap_congr fun output _ => ?_
  have hshown : (Option.guard (Output.shownTo masterAppkey hide) output).bind
      (some ∘ Output.asRecipient B masterAppkey network) =
      if output.shownTo masterAppkey hide then
        some (output.asRecipient B masterAppkey network) else none := by
    rw [Option.guard]
    split
    · rfl
    · rfl
  rw [hshown, Function.comp_apply, Output.shownTo, Output.internalTo, Output.asRecipient,
    Output.ownedBy_eq B, ← spk_foreignToUs masterAppkey output.owner]
  -- the owner as the key sees it decides what is shown
  generalize foreignToUs B masterAppkey output.owner = owner
  cases owner with
  | foreign spk => cases hide <;> rfl
  | «local» owner =>
      by_cases hinternal : owner.bip32Path.accountKeychain.keychain = .internal
      · cases hide <;> simp [SpkOwner.localOwner, hinternal]
      · simp [SpkOwner.localOwner, hinternal]

/-- Change is hidden when it is one output, and another one is not ours. -/
theorem hideSingleChange_asSeenBy (h : (t.asSeenBy B masterAppkey).hideSingleChange = true) :
    (∃ output ∈ t.outputs, output.ownedBy masterAppkey = none) ∧
      (t.outputs.filter (Output.internalTo masterAppkey)).length = 1 := by
  rw [hideSingleChange, Bool.and_eq_true, beq_iff_eq, List.any_eq_true] at h
  obtain ⟨⟨output, hmem, hforeign⟩, hcount⟩ := h
  constructor
  · obtain ⟨output₀, hmem₀, rfl⟩ := List.mem_map.1 hmem
    refine ⟨output₀, hmem₀, ?_⟩
    rw [Output.ownedBy_eq B, Option.isNone_iff_eq_none.1 hforeign, Option.map_none]
  · rw [← hcount]
    have howners := congrArg
      (List.countP fun owner : LocalSpk => owner.bip32Path.accountKeychain.keychain = .internal)
      (owners_iterOurOutputs (t.asSeenBy B masterAppkey))
    rw [List.countP_map, List.countP_eq_length_filter] at howners
    refine Eq.trans ?_ howners.symm
    rw [asSeenBy, List.filterMap_map, List.countP_filterMap, ← List.countP_eq_length_filter]
    refine List.countP_congr fun output _ => ?_
    rw [Output.internalTo, Output.ownedBy_eq B, Option.any_map, Function.comp_apply]
    cases (foreignToUs B masterAppkey output.owner).localOwner with
    | none => rfl
    | some owner => rfl

/-- An output that is hidden is change of the default account. -/
theorem isChangeOf_of_internalTo {output : Output}
    (hcheck : ∀ x ∈ (t.asSeenBy B masterAppkey).iterOurOutputs, checkOutput x.2.2 = .ok ())
    (hmem : output ∈ t.outputs) (h : output.internalTo masterAppkey = true) :
    output.IsChangeOf masterAppkey := by
  rw [Output.internalTo, Option.any_eq_true] at h
  obtain ⟨path, hpath, hinternal⟩ := h
  obtain ⟨owner, howner, hkey, rfl⟩ := Output.ownedBy_eq_some.1 hpath
  refine ⟨owner, howner, hkey, ?_⟩
  have hours : owner ∈ (t.asSeenBy B masterAppkey).iterOurOutputs.map fun x => x.2.2 := by
    rw [owners_iterOurOutputs, asSeenBy, List.filterMap_map]
    exact List.mem_filterMap.2 ⟨output, hmem, localOwner_foreignToUs.2 ⟨howner, hkey⟩⟩
  obtain ⟨x, hx, rfl⟩ := List.mem_map.1 hours
  obtain ⟨haccount, -⟩ := checkOutput_eq_ok (hcheck x hx)
  generalize x.2.2.bip32Path.accountKeychain = k at haccount hinternal
  cases k
  cases haccount
  cases of_decide_eq_true hinternal
  rfl

end TransactionTemplate

/-! ### Disclosure -/

/-- The outputs and the fee that a prompt tells of add up to all outputs and the fee. -/
theorem Discloses.total_outputs {t : TransactionTemplate Unscoped} {masterAppkey : MasterAppkey}
    {network : Network} {prompt : PromptSignBitcoinTx B} {shown hidden : List Output}
    (h : Discloses B t masterAppkey network prompt shown hidden) :
    total (t.outputs.map Output.value) + prompt.fee.toNat = total (t.inputs.map Input.value) := by
  have hshown : prompt.recipients.map PromptRecipient.amount = shown.map Output.value := by
    rw [h.recipients, List.map_map]
    rfl
  rw [← h.value, hshown, ← total_append, ← List.map_append,
    total_perm (h.outputs.map Output.value)]

/-- A prompt with a fee that completes the sum discloses. -/
theorem TransactionTemplate.discloses_of_total {t : TransactionTemplate Unscoped}
    {masterAppkey : MasterAppkey} {fee : Sats} (network : Network)
    (hcheck : ∀ x ∈ (t.asSeenBy B masterAppkey).iterOurOutputs, checkOutput x.2.2 = .ok ())
    (htotal : total (t.outputs.map Output.value) + fee.toNat = total (t.inputs.map Input.value)) :
    ∃ shown hidden, Discloses B t masterAppkey network
      { recipients := (t.asSeenBy B masterAppkey).promptRecipients B network, fee := fee }
      shown hidden := by
  rw [promptRecipients_asSeenBy]
  generalize hhide : (t.asSeenBy B masterAppkey).hideSingleChange = hide
  let shown := t.outputs.filter (Output.shownTo masterAppkey hide)
  let hidden := t.outputs.filter fun output => !output.shownTo masterAppkey hide
  have hperm : (shown ++ hidden).Perm t.outputs := List.filter_append_perm _ _
  have hhidden : ∀ output ∈ hidden, hide = true ∧ output.internalTo masterAppkey = true := by
    intro output houtput
    simpa [hidden, Output.shownTo] using (List.mem_filter.1 houtput).2
  have hforeign : ∀ output ∈ t.outputs, output.ownedBy masterAppkey = none → output ∈ shown := by
    intro output houtput hnone
    refine List.mem_filter.2 ⟨houtput, ?_⟩
    rw [Output.shownTo, Output.internalTo, hnone, Option.any_none, Bool.and_false, Bool.not_false]
  have hone : hidden.length ≤ 1 := by
    cases hide with
    | false =>
        have hnil : hidden = [] := List.eq_nil_iff_forall_not_mem.2 fun output houtput =>
          nomatch (hhidden output houtput).1
        rw [hnil]
        exact Nat.zero_le 1
    | true =>
        rw [← (hideSingleChange_asSeenBy hhide).2]
        refine Nat.le_of_eq (congrArg List.length (List.filter_congr fun output _ => ?_))
        rw [Output.shownTo, Bool.true_and, Bool.not_not]
  have hchange : ∀ output ∈ hidden, output.IsChangeOf masterAppkey ∧
      ∃ recipient ∈ shown.map (Output.asRecipient B masterAppkey network),
        recipient.owned = none := by
    intro output houtput
    obtain ⟨rfl, hinternal⟩ := hhidden output houtput
    obtain ⟨⟨other, hother, hnone⟩, -⟩ := hideSingleChange_asSeenBy hhide
    exact ⟨isChangeOf_of_internalTo hcheck (List.mem_of_mem_filter houtput) hinternal,
      other.asRecipient B masterAppkey network,
      List.mem_map.2 ⟨other, hforeign other hother hnone, rfl⟩, hnone⟩
  refine ⟨shown, hidden, hperm, List.filter_sublist, rfl, hforeign, hone, hchange, ?_⟩
  have hshown : (shown.map (Output.asRecipient B masterAppkey network)).map
      PromptRecipient.amount = shown.map Output.value := by
    rw [List.map_map]
    rfl
  rw [hshown, ← total_append, ← List.map_append, total_perm (hperm.map Output.value)]
  exact htotal

/-- The prompt of a task that is accepted shows every output but one of change, and tells of the
whole value of the inputs exactly when the sums of the inputs and of the outputs wrap around
equally often. -/
theorem userPrompt_discloses_iff [Build] {t : TransactionTemplate Unscoped}
    {masterAppkey : MasterAppkey} {purpose : KeyPurpose}
    {tx : TransactionTemplate ScopedTo} {network : Network}
    (h : (WireSignTask.bitcoinTransaction t).check B masterAppkey purpose =
      .ret (.ok { masterAppkey := masterAppkey, inner := .bitcoinTransaction tx network })) :
    ∃ prompt, tx.userPrompt B network = .ret prompt ∧
      ((∃ shown hidden, Discloses B t masterAppkey network prompt shown hidden) ↔
        total (t.inputs.map Input.value) / 2 ^ 64 =
          total (t.outputs.map Output.value) / 2 ^ 64) := by
  obtain ⟨_, fee, -, -, htask, hcheck, -, hfee⟩ := WireSignTask.check_bitcoinTransaction h
  obtain ⟨rfl, rfl⟩ := SignTask.bitcoinTransaction.inj htask
  refine ⟨{ recipients := (t.asSeenBy B masterAppkey).promptRecipients B network, fee := fee },
    ?_, ?_⟩
  · rw [TransactionTemplate.userPrompt, hfee, Exec.ret_bind, Exec.expect_some, Exec.ret_bind,
      Exec.pure_eq]
  -- narrowing changes no amount
  have hinputs : (t.asSeenBy B masterAppkey).inputs.map Input.value = t.inputs.map Input.value := by
    rw [TransactionTemplate.asSeenBy, List.map_map]
    rfl
  have houtputs : (t.asSeenBy B masterAppkey).outputs.map Output.value =
      t.outputs.map Output.value := by
    rw [TransactionTemplate.asSeenBy, List.map_map]
    rfl
  have hremainders := TransactionTemplate.fee_eq_some hfee
  rw [hinputs, houtputs] at hremainders
  constructor
  · rintro ⟨shown, hidden, hdiscloses⟩
    have htotal : _ + fee.toNat = _ := hdiscloses.total_outputs
    omega
  · intro hquotients
    exact TransactionTemplate.discloses_of_total network hcheck (by omega)

section Example

attribute [local instance] Build.release

/-- An owner of the first addresses of a key. -/
def firstAddress (keychain : Keychain) : LocalSpk where
  masterAppkey := 7
  bip32Path :=
    { accountKeychain := { account := .default, keychain := keychain }, index := .zero }

/-- A payment of `60` with change of `30`. -/
def ordinary : TransactionTemplate Unscoped where
  scope := {}
  version := 2
  lockTime := 0
  inputs :=
    [{ outpoint := { txid := 1, vout := 0 }
       value := 100
       owner := .local (firstAddress .external)
       sequence := 0 }]
  outputs :=
    [{ value := 60, owner := .foreign [0x6a] },
     { value := 30, owner := .local (firstAddress .internal) }]

theorem userPrompt_discloses_ordinary :
    ∃ prompt, (ordinary.asSeenBy plainBitcoinLib 7).userPrompt plainBitcoinLib .bitcoin =
        .ret prompt ∧
      ∃ shown hidden, Discloses plainBitcoinLib ordinary 7 .bitcoin prompt shown hidden := by
  have haccepted : (WireSignTask.bitcoinTransaction ordinary).check plainBitcoinLib 7
      (.bitcoin .bitcoin) = .ret (.ok
        { masterAppkey := 7
          inner := .bitcoinTransaction (ordinary.asSeenBy plainBitcoinLib 7) .bitcoin }) := by
    decide +kernel
  obtain ⟨prompt, hprompt, hiff⟩ := userPrompt_discloses_iff haccepted
  exact ⟨prompt, hprompt, hiff.2 (by decide)⟩

/-- Two inputs that are worth `2 ^ 64 + 10` together, and a payment of `5`. -/
def wrapping : TransactionTemplate Unscoped where
  scope := {}
  version := 2
  lockTime := 0
  inputs :=
    [{ outpoint := { txid := 1, vout := 0 }
       value := BitVec.ofNat 64 (2 ^ 63)
       owner := .local (firstAddress .external)
       sequence := 0 },
     { outpoint := { txid := 2, vout := 0 }
       value := BitVec.ofNat 64 (2 ^ 63 + 10)
       owner := .local (firstAddress .external)
       sequence := 0 }]
  outputs := [{ value := 5, owner := .foreign [0x6a] }]

/-- The fee of the two inputs is shown as `5`. -/
theorem wrapping_hides_value :
    (WireSignTask.bitcoinTransaction wrapping).check plainBitcoinLib 7 (.bitcoin .bitcoin) =
        .ret (.ok { masterAppkey := 7
                    inner := .bitcoinTransaction (wrapping.asSeenBy plainBitcoinLib 7) .bitcoin }) ∧
      ∀ prompt, (wrapping.asSeenBy plainBitcoinLib 7).userPrompt plainBitcoinLib .bitcoin =
        .ret prompt → prompt.fee = 5 ∧
          ¬ ∃ shown hidden,
            Discloses plainBitcoinLib wrapping 7 .bitcoin prompt shown hidden := by
  refine ⟨by decide +kernel, ?_⟩
  intro prompt h
  have hfee : prompt.fee = 5 := by
    cases h
    rfl
  refine ⟨hfee, ?_⟩
  rintro ⟨shown, hidden, hdiscloses⟩
  have htotal := hdiscloses.total_outputs
  rw [hfee] at htotal
  exact absurd htotal (by decide)

end Example

end Bitcoin

end Frostsnap
