import Frostsnap.Coordinator.Sessions

/-!
# Installing a key

What `mutate_new_key` leaves: the access structure is there, the one that was there before if it
was known, and the devices have the shares they were given. Both a key generation and a
restoration end with it.

## Main results

* `FrostCoordinator.mutateNewKey_eq`: the access structure of the key after `mutate_new_key`.
-/

namespace Frostsnap.Coordinator

variable {L : FrostLib} [Build]

namespace Persistent

variable {p p' : Persistent L}

/-- Giving a device a share of an access structure that is there. -/
theorem newShare_eq {ref : AccessStructureRef} {a : CoordAccessStructure} {deviceId : DeviceId}
    {shareIndex : ShareIndex} {changed : Bool} (ha : p.getAccessStructure ref = some a)
    (h : p.newShare ref deviceId shareIndex = .ret (changed, p')) :
    p'.getAccessStructure ref =
        some { a with deviceToShareIndex := a.deviceToShareIndex.insert deviceId shareIndex } ∧
      p'.pendingPhysicalConsolidations = p.pendingPhysicalConsolidations := by
  obtain ⟨key, hkey, hstructure⟩ := Option.bind_eq_some_iff.1 ha
  rw [newShare, withAccessStructure, hkey] at h
  simp only [hstructure, Exec.ret.injEq, Prod.mk.injEq] at h
  obtain ⟨-, rfl⟩ := h
  exact ⟨by rw [getAccessStructure_setAccessStructure hkey, if_pos rfl], rfl⟩

/-- The access structure that is installed for a polynomial: the one that is there, or a new one
without shares. -/
def installed (p : Persistent L) (appSharedKey : Xpub SharedKey) (ref : AccessStructureRef) :
    CoordAccessStructure :=
  (p.getAccessStructure ref).getD
    { appSharedKey := appSharedKey, deviceToShareIndex := ∅, kind := .master }

/-- Adding an access structure to a key that is there. -/
theorem newAccessStructure_eq {appSharedKey : Xpub SharedKey} {ref : AccessStructureRef}
    {changed : Bool} (hkeyId : ref.keyId = L.keyIdOfMasterAppkey appSharedKey.masterAppkey)
    (hid : ref.accessStructureId =
      L.accessStructureIdOfAppPoly appSharedKey.key.pointPolynomial)
    (hmem : ref.keyId ∈ p.keys)
    (h : p.newAccessStructure appSharedKey .master = .ret (changed, p')) :
    p'.getAccessStructure ref = some (p.installed appSharedKey ref) ∧
      p'.pendingPhysicalConsolidations = p.pendingPhysicalConsolidations := by
  obtain ⟨key, hkey⟩ := BTreeMap.mem_iff_getElem?.1 hmem
  rw [newAccessStructure, ← hkeyId, ← hid, hkey] at h
  have hget : p.getAccessStructure ref =
      key.completeKey.accessStructures[ref.accessStructureId]? := by
    rw [getAccessStructure, hkey, Option.bind_some]
  simp only at h
  split at h
  · rename_i hknown
    obtain ⟨a, ha⟩ := BTreeMap.mem_iff_getElem?.1 hknown
    obtain ⟨-, rfl⟩ := Prod.mk.inj (Exec.ret.inj h)
    rw [installed, hget, ha, Option.getD_some]
    exact ⟨rfl, rfl⟩
  · rename_i hnew
    obtain ⟨-, rfl⟩ := Prod.mk.inj (Exec.ret.inj h)
    rw [getAccessStructure_setAccessStructure hkey, if_pos rfl, installed, hget,
      BTreeMap.not_mem_iff_getElem?.1 hnew, Option.getD_none]
    exact ⟨rfl, rfl⟩

omit [Build] in
/-- A new key has no access structure yet. -/
theorem getAccessStructure_ensureKey_new {ref : AccessStructureRef} (completeKey : CompleteKey)
    (keyName : String) (purpose : KeyPurpose)
    (hkeyId : ref.keyId = L.keyIdOfMasterAppkey completeKey.masterAppkey)
    (hempty : completeKey.accessStructures = ∅) (hnew : ref.keyId ∉ p.keys) :
    ref.keyId ∈ (p.ensureKey completeKey keyName purpose).keys ∧
      (p.ensureKey completeKey keyName purpose).getAccessStructure ref =
        p.getAccessStructure ref := by
  have hnone : p.getAccessStructure ref = none := by
    rw [getAccessStructure, BTreeMap.not_mem_iff_getElem?.1 hnew, Option.bind_none]
  rw [hkeyId] at hnew
  rw [ensureKey, if_neg hnew, hnone]
  refine ⟨BTreeMap.mem_insert.2 (.inl hkeyId), ?_⟩
  rw [getAccessStructure, BTreeMap.getElem?_insert, if_pos hkeyId.symm, Option.bind_some, hempty,
    Std.ExtTreeMap.getElem?_empty]

end Persistent

namespace FrostCoordinator

variable {s s' : FrostCoordinator L}

/-- What `mutate` does to what is persistent. -/
theorem mutate_change {m : Mutation L} (h : s.mutate m = .ret s') :
    ∃ changed, s.change s.keygenFingerprint m = .ret (changed, s'.toPersistent) := by
  obtain ⟨reduced, happly, -⟩ := mutate_eq h
  obtain ⟨⟨changed, q⟩, hchange, hret⟩ := Exec.bind_eq_ret_iff.1 happly
  obtain ⟨-, rfl⟩ := Prod.mk.inj (Exec.ret.inj hret)
  exact ⟨changed, hchange⟩

/-- `mutate` returns when the change does. -/
theorem mutate_of_change {m : Mutation L} {changed : Bool} {p : Persistent L}
    (h : s.change s.keygenFingerprint m = .ret (changed, p)) :
    ∃ s', s.mutate m = .ret s' ∧ s'.toPersistent = p := by
  have happly : s.toPersistent.applyMutation s.keygenFingerprint m =
      .ret (if changed then some (s.reduced m) else none, p) := by
    rw [Persistent.applyMutation, h, Exec.ret_bind]
    rfl
  obtain ⟨s', hs'⟩ := mutate_returns happly
  obtain ⟨changed', hchange⟩ := mutate_change hs'
  rw [h] at hchange
  exact ⟨s', hs', (Prod.mk.inj (Exec.ret.inj hchange)).2.symm⟩

/-- Giving devices shares, one after the other. -/
theorem mutateAll_newShare {ref : AccessStructureRef} {a : CoordAccessStructure}
    {shares : List (DeviceId × ShareIndex)} (ha : s.getAccessStructure ref = some a)
    (h : s.mutateAll (shares.map fun (deviceId, shareIndex) =>
      .keygen (.newShare ref deviceId shareIndex)) = .ret s') :
    s'.getAccessStructure ref =
        some { a with
          deviceToShareIndex :=
            shares.foldl (fun m share => m.insert share.1 share.2) a.deviceToShareIndex } ∧
      s'.pendingPhysicalConsolidations = s.pendingPhysicalConsolidations := by
  induction shares generalizing s a with
  | nil =>
      obtain rfl : s = s' := by simpa [mutateAll] using h
      exact ⟨ha, rfl⟩
  | cons share shares ih =>
      obtain ⟨t, hmutate, hrest⟩ := Exec.bind_eq_ret_iff.1 h
      obtain ⟨changed, hchange⟩ := mutate_change hmutate
      obtain ⟨hget, hpending⟩ := Persistent.newShare_eq ha hchange
      obtain ⟨hget', hpending'⟩ := ih hget hrest
      exact ⟨hget', hpending'.trans hpending⟩

/-- **Installing a key** leaves its access structure with the shares that were given added to
those that it had, and nothing else to consolidate. -/
theorem mutateNewKey_eq {name : String} {rootSharedKey : SharedKey}
    {deviceToShareIndex : BTreeMap DeviceId ShareIndex} {encryptionKey : SymmetricKey}
    {purpose : KeyPurpose} {rng : L.Rng} {ref : AccessStructureRef}
    (h : s.mutateNewKey name rootSharedKey deviceToShareIndex encryptionKey purpose rng =
      .ret (ref, s')) :
    let a := s.installed ((Xpub.fromRootkey rootSharedKey).rootkeyToMasterAppkey L) ref
    ref = AccessStructureRef.fromRootSharedKey L rootSharedKey ∧
      s'.getAccessStructure ref =
        some { a with
          deviceToShareIndex :=
            deviceToShareIndex.toList.foldl (fun m share => m.insert share.1 share.2)
              a.deviceToShareIndex } ∧
      s'.pendingPhysicalConsolidations = s.pendingPhysicalConsolidations := by
  obtain ⟨t, hall, hret⟩ := Exec.bind_eq_ret_iff.1 h
  obtain ⟨rfl, rfl⟩ := Prod.mk.inj (Exec.ret.inj hret)
  simp only [mutateAll_append] at hall
  obtain ⟨v, hfirst, hshares⟩ := Exec.bind_eq_ret_iff.1 hall
  obtain ⟨u, hkey, hstructure⟩ := Exec.bind_eq_ret_iff.1 hfirst
  obtain ⟨v', hmutate, hv⟩ := Exec.bind_eq_ret_iff.1 hstructure
  obtain rfl : v' = v := by simpa [mutateAll] using hv
  obtain ⟨changed, hchange⟩ := mutate_change hmutate
  refine ⟨rfl, ?_⟩
  set appSharedKey := (Xpub.fromRootkey rootSharedKey).rootkeyToMasterAppkey L
  set ref : AccessStructureRef :=
    { keyId := L.keyIdOfMasterAppkey appSharedKey.masterAppkey
      accessStructureId := L.accessStructureIdOfAppPoly appSharedKey.key.pointPolynomial }
  -- first the key is made sure of, and no access structure changes
  have hensured : ref.keyId ∈ u.keys ∧ u.getAccessStructure ref = s.getAccessStructure ref ∧
      u.pendingPhysicalConsolidations = s.pendingPhysicalConsolidations := by
    split at hkey
    · rename_i hmem
      obtain rfl : s = u := by simpa [mutateAll] using hkey
      exact ⟨hmem, rfl, rfl⟩
    · rename_i hnew
      obtain ⟨u', hu', hu⟩ := Exec.bind_eq_ret_iff.1 hkey
      obtain rfl : u' = u := by simpa [mutateAll] using hu
      obtain ⟨_, hensure⟩ := mutate_change hu'
      obtain ⟨-, hu⟩ := Prod.mk.inj (Exec.ret.inj hensure)
      obtain ⟨hmem, hsame⟩ := Persistent.getAccessStructure_ensureKey_new
        { masterAppkey := appSharedKey.masterAppkey
          encryptedRootkey := L.encryptRootkey encryptionKey rootSharedKey.publicKey rng
          accessStructures := ∅ } name purpose (show ref.keyId = _ from rfl) rfl hnew
      rw [hu] at hmem hsame
      refine ⟨hmem, hsame, ?_⟩
      rw [← hu, Persistent.ensureKey]
      split <;> rfl
  obtain ⟨hmem, hsame, hpending⟩ := hensured
  obtain ⟨hinstalled, hpending'⟩ :=
    Persistent.newAccessStructure_eq (show ref.keyId = _ from rfl)
      (show ref.accessStructureId = _ from rfl) hmem hchange
  rw [Persistent.installed, hsame] at hinstalled
  obtain ⟨hget, hpending''⟩ := mutateAll_newShare hinstalled hshares
  exact ⟨hget, hpending''.trans (hpending'.trans hpending)⟩

end FrostCoordinator

end Frostsnap.Coordinator
