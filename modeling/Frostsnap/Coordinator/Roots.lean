import Frostsnap.Coordinator.Applied

/-!
# Where the keys of a coordinator come from

A root shared key is installed by `finalize_keygen` and by `finish_restoring`, and by nothing else.
The polynomial of the app key is stored, and the root key encrypted with a key that the caller
gives. When the key is there already, with another access structure, its root key stays encrypted
with what it was encrypted with first.

`Installed` is a run of the coordinator with its `Past`: the root shared keys that were installed,
and the key that each root key was encrypted with.

## Main results

* `Installed.rooted`: every key and every access structure comes from what was installed.
* `Rooted.rootSharedKey_eq`: the coordinator reconstructs the root shared key that was installed.
-/

namespace Frostsnap

/-- The shared key of the app. -/
def SharedKey.app (L : FrostLib) (root : SharedKey) : Xpub SharedKey :=
  (Xpub.fromRootkey root).rootkeyToMasterAppkey L

/-- The master appkey of a polynomial is that of its root key. -/
theorem SharedKey.masterAppkey_app {L : FrostLib} {root : SharedKey}
    (h : root.pointPolynomial ≠ []) :
    (root.app L).masterAppkey = MasterAppkey.deriveFromRootkey L root.publicKey := by
  obtain ⟨point, rest, hcons⟩ := List.exists_cons_of_ne_nil h
  obtain ⟨points⟩ := root
  obtain rfl : points = point :: rest := hcons
  rfl

namespace Coordinator

variable {L : FrostLib}

/-! ### What is installed -/

/-- A root shared key, and what its root key is to be encrypted with. -/
structure Installation where
  rootSharedKey : SharedKey
  encryptionKey : SymmetricKey

/-- What an operation installs. -/
def FrostCoordinator.installation (s : FrostCoordinator L) : Op L → Option Installation
  | .finalizeKeygen keygenId encryptionKey _ =>
      match s.pendingKeygens[keygenId]? with
      | some (.needsFinalize finalize) => some ⟨finalize.rootSharedKey, encryptionKey⟩
      | _ => none
  | .finishRestoring restorationId encryptionKey _ =>
      match s.restored restorationId with
      | .ret (.ok (_, rootSharedKey, _)) => some ⟨rootSharedKey, encryptionKey⟩
      | _ => none
  | _ => none

/-- What was installed in a run. -/
structure Past where
  roots : List SharedKey
  encryptionKeys : BTreeMap KeyId SymmetricKey

/-- Nothing. -/
def Past.empty : Past where
  roots := []
  encryptionKeys := ∅

/-- One more installation: the root key is encrypted if the key is new. -/
def Past.install (past : Past) (p : Persistent L) (i : Installation) : Past :=
  let keyId := (AccessStructureRef.fromRootSharedKey L i.rootSharedKey).keyId
  { roots := past.roots ++ [i.rootSharedKey]
    encryptionKeys :=
      if keyId ∈ p.keys then past.encryptionKeys
      else past.encryptionKeys.insert keyId i.encryptionKey }

/-- The past after an operation. -/
def Past.after (past : Past) (s : FrostCoordinator L) (op : Op L) : Past :=
  (s.installation op).elim past (past.install s.toPersistent)

variable [Build]

/-- A run, with what was installed in it. -/
inductive Installed : Past → FrostCoordinator L → Prop where
  | new : Installed .empty (.new L)
  | perform {past : Past} {s s' : FrostCoordinator L} {op : Op L} {failed : Bool}
      (h : Installed past s) (hop : s.perform op = .ret (failed, s')) :
      Installed (past.after s op) s'
  | takeStagedMutations {past : Past} {s : FrostCoordinator L} (h : Installed past s) :
      Installed past { s with mutations := [] }

/-! ### Mutations that install nothing -/

namespace Persistent

omit [Build] in
/-- Keys and access structures may have gone, and shares may have come and gone. -/
structure KeepsRoots (p p' : Persistent L) : Prop where
  key : ∀ (keyId : KeyId) (key' : CoordFrostKey), p'.keys[keyId]? = some key' →
    ∃ key, p.keys[keyId]? = some key ∧
      key'.completeKey.encryptedRootkey = key.completeKey.encryptedRootkey ∧
      key'.completeKey.masterAppkey = key.completeKey.masterAppkey
  accessStructure : ∀ (ref : AccessStructureRef) (a' : CoordAccessStructure),
    p'.getAccessStructure ref = some a' →
      ∃ a, p.getAccessStructure ref = some a ∧ a'.appSharedKey = a.appSharedKey

namespace KeepsRoots

variable {p p' p'' : Persistent L}

omit [Build] in
theorem of_keys (h : p'.keys = p.keys) : KeepsRoots p p' where
  key keyId key' hkey' := ⟨key', h ▸ hkey', rfl, rfl⟩
  accessStructure ref a' ha' := ⟨a', by rw [getAccessStructure, ← h]; exact ha', rfl⟩

omit [Build] in
theorem refl (p : Persistent L) : KeepsRoots p p := of_keys rfl

omit [Build] in
theorem trans (h : KeepsRoots p p') (h' : KeepsRoots p' p'') : KeepsRoots p p'' where
  key keyId key'' hkey'' := by
    obtain ⟨key', hkey', heq', hmaster'⟩ := h'.key keyId key'' hkey''
    obtain ⟨key, hkey, heq, hmaster⟩ := h.key keyId key' hkey'
    exact ⟨key, hkey, heq'.trans heq, hmaster'.trans hmaster⟩
  accessStructure ref a'' ha'' := by
    obtain ⟨a', ha', heq'⟩ := h'.accessStructure ref a'' ha''
    obtain ⟨a, ha, heq⟩ := h.accessStructure ref a' ha'
    exact ⟨a, ha, heq'.trans heq⟩

/-- Changing the shares of an access structure. -/
theorem withAccessStructure {ref : AccessStructureRef} {noAccessStructure noKey : String}
    {f : CoordAccessStructure → Bool × CoordAccessStructure} {changed : Bool}
    (hf : ∀ a, (f a).2.appSharedKey = a.appSharedKey)
    (h : p.withAccessStructure ref noAccessStructure noKey f = .ret (changed, p')) :
    KeepsRoots p p' := by
  rw [Persistent.withAccessStructure] at h
  split at h
  · rw [(fail_eq h).2]
    exact refl _
  · rename_i key hkey
    split at h
    · rw [(fail_eq h).2]
      exact refl _
    · rename_i a ha
      obtain ⟨-, rfl⟩ := Prod.mk.inj (Exec.ret.inj h)
      refine { key := fun keyId key' hkey' => ?_, accessStructure := fun other a' ha' => ?_ }
      · rcases BTreeMap.getElem?_of_insert hkey' with ⟨rfl, rfl⟩ | hkey'
        · exact ⟨key, hkey, rfl, rfl⟩
        · exact ⟨key', hkey', rfl, rfl⟩
      · rw [getAccessStructure_setAccessStructure hkey] at ha'
        split at ha'
        · rename_i heq
          obtain rfl := Option.some.inj ha'
          subst heq
          refine ⟨a, ?_, hf a⟩
          rw [getAccessStructure, hkey, Option.bind_some, ha]
        · exact ⟨a', ha', rfl⟩

/-- Closing sessions does nothing to keys. -/
theorem closeSignSessions {sessions : List SignSessionId}
    (h : closeSignSessions sessions p = .ret p') : p'.keys = p.keys := by
  induction sessions generalizing p with
  | nil => rw [← Exec.ret.inj h]
  | cons sessionId rest ih =>
      obtain ⟨⟨changed, q⟩, hclose, hrest⟩ := Exec.bind_eq_ret_iff.1 h
      rw [ih hrest]
      obtain ⟨-, -, rfl⟩ | ⟨-, -, session, nonceCache, -, -, rfl⟩ := closeSignSession_eq hclose
      · rfl
      · rfl

/-- A key that is deleted is gone with its access structures. -/
theorem deleteKey {keyId : KeyId} {changed : Bool} (h : p.deleteKey keyId = .ret (changed, p')) :
    KeepsRoots p p' := by
  rw [Persistent.deleteKey] at h
  split at h
  · obtain ⟨q, hclose, hret⟩ := Exec.bind_eq_ret_iff.1 h
    obtain ⟨-, rfl⟩ := Prod.mk.inj (Exec.ret.inj hret)
    refine KeepsRoots.trans ?_ (of_keys (closeSignSessions hclose))
    refine { key := fun other key' hkey' => ?_, accessStructure := fun ref a' ha' => ?_ }
    · exact ⟨key', (BTreeMap.getElem?_of_erase hkey').2, rfl, rfl⟩
    · obtain ⟨key', hkey', ha'⟩ := Option.bind_eq_some_iff.1 ha'
      refine ⟨a', ?_, rfl⟩
      rw [getAccessStructure, (BTreeMap.getElem?_of_erase hkey').2, Option.bind_some, ha']
  · rw [← (Prod.mk.inj (Exec.ret.inj h)).2]
    exact refl _

/-- A mutation of the signing sessions. -/
theorem signing {fingerprint : Fingerprint} {m : SigningMutation L} {changed : Bool}
    (h : p.change fingerprint (.signing m) = .ret (changed, p')) : p'.keys = p.keys := by
  cases m with
  | newNonces deviceId segment => rw [(change_newNonces h).1]
  | newSigningSession session =>
      rw [← (Prod.mk.inj (Exec.ret.inj h)).2]
      rfl
  | sentSignReq sessionId deviceId =>
      simp only [change, sentSignReq] at h
      split at h
      · rw [← (Prod.mk.inj (Exec.ret.inj h)).2]
      · rw [← (Prod.mk.inj (Exec.ret.inj h)).2]
  | gotSignatureSharesFromDevice sessionId deviceId shares =>
      rw [← (Prod.mk.inj (Exec.ret.inj h)).2, gotSignatureShares]
      split <;> rfl
  | closeSignSession sessionId finished =>
      obtain ⟨-, -, rfl⟩ | ⟨-, -, session, nonceCache, -, -, rfl⟩ := closeSignSession_eq h
      · rfl
      · rfl
  | forgetFinishedSignSession sessionId =>
      rw [← (Prod.mk.inj (Exec.ret.inj h)).2]

/-- Every mutation that installs nothing. -/
theorem change {fingerprint : Fingerprint} {m : Mutation L} {changed : Bool}
    (hm : ¬ m.Installs) (h : p.change fingerprint m = .ret (changed, p')) : KeepsRoots p p' := by
  cases m with
  | keygen m =>
      cases m with
      | newKey => exact absurd trivial hm
      | newAccessStructure => exact absurd trivial hm
      | newShare => exact withAccessStructure (fun _ => rfl) h
      | deleteShare => exact withAccessStructure (fun _ => rfl) h
      | deleteKey => exact deleteKey h
  | signing m => exact of_keys (signing h)
  | restoration m =>
      refine of_keys ?_
      rw [change_restoration h]

end KeepsRoots

end Persistent

/-! ### Operations that install nothing -/

namespace FrostCoordinator

variable {s : FrostCoordinator L}

/-- Mutations that install nothing. -/
theorem mutateAll_keepsRoots {ms : List (Mutation L)} (hms : ∀ m ∈ ms, ¬ m.Installs) :
    (s.mutateAll ms).Always fun t => s.toPersistent.KeepsRoots t.toPersistent :=
  (mutateAll_applies hms).mono fun _ h =>
    h.applied.keeps (R := Persistent.KeepsRoots) .refl .trans .change

/-- An operation that installs nothing. -/
theorem perform_keepsRoots {op : Op L} (hop : s.installation op = none) :
    (s.perform op).Always fun r => s.toPersistent.KeepsRoots r.2.toPersistent := by
  by_cases hinstalls : op.Installs
  · -- the operations that install keys, when they fail
    cases op with
    | finalizeKeygen keygenId encryptionKey rng =>
        rw [installation] at hop
        refine always_outcome (P := fun t => s.toPersistent.KeepsRoots t.toPersistent) ?_
        unfold finalizeKeygen
        dsimp only
        split
        · rename_i finalize hpending
          have hpending : s.pendingKeygens[keygenId]? = some (.needsFinalize finalize) := hpending
          rw [hpending] at hop
          cases hop
        · refine Exec.always_ret ?_
          exact .refl _
    | finishRestoring restorationId encryptionKey rng =>
        rw [installation] at hop
        refine always_outcome (P := fun t => s.toPersistent.KeepsRoots t.toPersistent) ?_
        refine always_checked (P := fun t => s.toPersistent.KeepsRoots t.toPersistent) (.refl _)
          fun found hrestored => ?_
        rw [hrestored] at hop
        cases hop
    | _ => exact hinstalls.elim
  · refine perform_keeps (R := Persistent.KeepsRoots) .refl .trans ?_
    exact fun hm h => .change (fun hm' => hinstalls (hm.installs hm')) h

end FrostCoordinator

/-! ### What the keys come from -/

omit [Build] in
/-- Every key and every access structure comes from what was installed. -/
structure Rooted (past : Past) (p : Persistent L) : Prop where
  encrypted : ∀ (keyId : KeyId) (key : CoordFrostKey), p.keys[keyId]? = some key →
    ∃ root ∈ past.roots, ∃ (encryptionKey : SymmetricKey) (rng : L.Rng),
      (AccessStructureRef.fromRootSharedKey L root).keyId = keyId ∧
      past.encryptionKeys[keyId]? = some encryptionKey ∧
      key.completeKey.encryptedRootkey = L.encryptRootkey encryptionKey root.publicKey rng ∧
      key.completeKey.masterAppkey = (root.app L).masterAppkey
  installed : ∀ (ref : AccessStructureRef) (a : CoordAccessStructure),
    p.getAccessStructure ref = some a →
      ∃ root ∈ past.roots, AccessStructureRef.fromRootSharedKey L root = ref ∧
        a.appSharedKey = root.app L

namespace Rooted

variable {past : Past} {p p' : Persistent L}

omit [Build] in
theorem empty : Rooted .empty (.empty L) where
  encrypted keyId key h := by
    rw [Persistent.empty, Std.ExtTreeMap.getElem?_empty] at h
    cases h
  installed ref a h := by
    rw [Persistent.getAccessStructure, Persistent.empty, Std.ExtTreeMap.getElem?_empty] at h
    cases h

omit [Build] in
theorem keeps (h : Rooted past p) (hkeeps : p.KeepsRoots p') : Rooted past p' where
  encrypted keyId key' hkey' := by
    obtain ⟨key, hkey, heq, hmaster⟩ := hkeeps.key keyId key' hkey'
    rw [heq, hmaster]
    exact h.encrypted keyId key hkey
  installed ref a' ha' := by
    obtain ⟨a, ha, heq⟩ := hkeeps.accessStructure ref a' ha'
    rw [heq]
    exact h.installed ref a ha

omit [Build] in
/-- What a key that is there is encrypted with does not change. -/
theorem encryptionKeys_install (i : Installation) {keyId : KeyId} (hkey : keyId ∈ p.keys) :
    (past.install p i).encryptionKeys[keyId]? = past.encryptionKeys[keyId]? := by
  rw [Past.install]
  dsimp only
  split
  · rfl
  · rename_i hnot
    have hne : (AccessStructureRef.fromRootSharedKey L i.rootSharedKey).keyId ≠ keyId := by
      rintro rfl
      exact hnot hkey
    rw [BTreeMap.getElem?_insert, if_neg hne]

omit [Build] in
/-- What was installed before is not forgotten. -/
theorem install (h : Rooted past p) (i : Installation) : Rooted (past.install p i) p where
  encrypted keyId key hkey := by
    obtain ⟨root, hroot, encryptionKey, rng, hid, hwith, h⟩ := h.encrypted keyId key hkey
    refine ⟨root, List.mem_append_left _ hroot, encryptionKey, rng, hid, ?_, h⟩
    rw [encryptionKeys_install i (BTreeMap.mem_iff_getElem?.2 ⟨key, hkey⟩), hwith]
  installed ref a ha := by
    obtain ⟨root, hroot, h⟩ := h.installed ref a ha
    exact ⟨root, List.mem_append_left _ hroot, h⟩

omit [Build] in
/-- A key that is not there is added, with its root key encrypted. -/
theorem install_of_not_mem (h : Rooted past p) (i : Installation) {completeKey : CompleteKey}
    {keyName : String} {purpose : KeyPurpose} {rng : L.Rng}
    (hmaster : completeKey.masterAppkey = (i.rootSharedKey.app L).masterAppkey)
    (hencrypted : completeKey.encryptedRootkey =
      L.encryptRootkey i.encryptionKey i.rootSharedKey.publicKey rng)
    (hempty : completeKey.accessStructures = ∅)
    (hkey : (AccessStructureRef.fromRootSharedKey L i.rootSharedKey).keyId ∉ p.keys) :
    Rooted (past.install p i) (p.ensureKey completeKey keyName purpose) := by
  have hinstall := h.install i
  have hkeyId : L.keyIdOfMasterAppkey completeKey.masterAppkey =
      (AccessStructureRef.fromRootSharedKey L i.rootSharedKey).keyId := by
    rw [hmaster]
    rfl
  rw [Persistent.ensureKey, hkeyId, if_neg hkey]
  refine { encrypted := fun keyId key hget => ?_, installed := fun ref a ha => ?_ }
  · rcases BTreeMap.getElem?_of_insert hget with ⟨rfl, rfl⟩ | hget
    · refine ⟨i.rootSharedKey, List.mem_append_right _ List.mem_cons_self, i.encryptionKey, rng,
        rfl, ?_, hencrypted, hmaster⟩
      rw [Past.install, if_neg hkey, BTreeMap.getElem?_insert, if_pos rfl]
    · exact hinstall.encrypted keyId key hget
  · obtain ⟨key, hget, ha⟩ := Option.bind_eq_some_iff.1 ha
    rcases BTreeMap.getElem?_of_insert hget with ⟨-, rfl⟩ | hget
    · rw [hempty, Std.ExtTreeMap.getElem?_empty] at ha
      cases ha
    · refine hinstall.installed ref a ?_
      rw [Persistent.getAccessStructure, hget, Option.bind_some, ha]

/-- An access structure of what was installed is added. -/
theorem newAccessStructure (h : Rooted past p) {root : SharedKey} (hroot : root ∈ past.roots)
    {kind : AccessStructureKind} {changed : Bool}
    (hnew : p.newAccessStructure (root.app L) kind = .ret (changed, p')) : Rooted past p' := by
  rw [Persistent.newAccessStructure] at hnew
  split at hnew
  · rw [(Persistent.fail_eq hnew).2]
    exact h
  · rename_i key hkey
    split at hnew
    · rw [← (Prod.mk.inj (Exec.ret.inj hnew)).2]
      exact h
    · obtain ⟨-, rfl⟩ := Prod.mk.inj (Exec.ret.inj hnew)
      refine { encrypted := fun keyId key' hget => ?_, installed := fun ref a ha => ?_ }
      · rcases BTreeMap.getElem?_of_insert hget with ⟨rfl, rfl⟩ | hget
        · exact h.encrypted _ key hkey
        · exact h.encrypted keyId key' hget
      · rw [Persistent.getAccessStructure_setAccessStructure hkey] at ha
        split at ha
        · rename_i heq
          obtain rfl := Option.some.inj ha
          exact ⟨root, hroot, heq.symm, rfl⟩
        · exact h.installed ref a ha

end Rooted

namespace FrostCoordinator

variable {past : Past} {s : FrostCoordinator L}

/-- `mutate_new_key` installs its root shared key. -/
theorem mutateNewKey_rooted (h : Rooted past s.toPersistent) (name : String)
    (rootSharedKey : SharedKey) (deviceToShareIndex : BTreeMap DeviceId ShareIndex)
    (encryptionKey : SymmetricKey) (purpose : KeyPurpose) (rng : L.Rng) :
    (s.mutateNewKey name rootSharedKey deviceToShareIndex encryptionKey purpose rng).Always
      fun r => Rooted (past.install s.toPersistent ⟨rootSharedKey, encryptionKey⟩)
        r.2.toPersistent := by
  intro r hr
  obtain ⟨t, hall, hret⟩ := Exec.bind_eq_ret_iff.1 hr
  obtain rfl := Exec.ret.inj hret
  simp only [mutateAll_append] at hall
  obtain ⟨v, hfirst, hshares⟩ := Exec.bind_eq_ret_iff.1 hall
  obtain ⟨u, hkey, hstructure⟩ := Exec.bind_eq_ret_iff.1 hfirst
  obtain ⟨v', hmutate, hv⟩ := Exec.bind_eq_ret_iff.1 hstructure
  obtain rfl : v' = v := by simpa [mutateAll] using hv
  -- first the key
  have hu : Rooted (past.install s.toPersistent ⟨rootSharedKey, encryptionKey⟩)
      u.toPersistent := by
    split at hkey
    · obtain rfl : s = u := by simpa [mutateAll] using hkey
      exact h.install ⟨rootSharedKey, encryptionKey⟩
    · rename_i hnew
      obtain ⟨u', hu', hu⟩ := Exec.bind_eq_ret_iff.1 hkey
      obtain rfl : u' = u := by simpa [mutateAll] using hu
      obtain ⟨_, hensure⟩ := mutate_change hu'
      rw [← (Prod.mk.inj (Exec.ret.inj hensure)).2]
      exact h.install_of_not_mem ⟨rootSharedKey, encryptionKey⟩ rfl rfl rfl hnew
  -- then its access structure, and the shares
  obtain ⟨changed, hchange⟩ := mutate_change hmutate
  have hv : Rooted (past.install s.toPersistent ⟨rootSharedKey, encryptionKey⟩)
      v'.toPersistent :=
    hu.newAccessStructure (List.mem_append_right _ List.mem_cons_self) hchange
  refine hv.keeps (mutateAll_keepsRoots (fun m hm => ?_) t hshares)
  obtain ⟨share, -, rfl⟩ := List.mem_map.1 hm
  exact id

/-- An operation that installs a root shared key. -/
theorem perform_rooted (h : Rooted past s.toPersistent) {op : Op L} {i : Installation}
    (hop : s.installation op = some i) :
    (s.perform op).Always fun r => Rooted (past.install s.toPersistent i) r.2.toPersistent := by
  cases op with
  | finalizeKeygen keygenId encryptionKey rng =>
      rw [installation] at hop
      split at hop
      · rename_i finalize hpending
        obtain rfl := Option.some.inj hop
        refine always_outcome (P := fun t => Rooted _ t.toPersistent) ?_
        rw [finalizeKeygen, takeEntry, hpending]
        exact Exec.always_bind (mutateNewKey_rooted (s := (s.takeEntry keygenId).2) h _ _ _ _ _ _)
          fun _ h => Exec.always_ret h
      · cases hop
  | finishRestoring restorationId encryptionKey rng =>
      rw [installation] at hop
      split at hop
      · rename_i state root shares hrestored
        obtain rfl := Option.some.inj hop
        refine always_outcome (P := fun t => Rooted _ t.toPersistent) ?_
        refine always_checked (P := fun t => Rooted _ t.toPersistent) (h.install _)
          fun found hfound => ?_
        obtain rfl : (state, root, shares) = found := by
          rw [hrestored] at hfound
          exact Except.ok.inj (Exec.ret.inj hfound)
        refine Exec.always_bind (mutateNewKey_rooted h _ _ _ _ _ _) fun t ht => ?_
        refine Exec.always_bind' fun ms hms => ?_
        refine Exec.always_bind (mutateAll_keepsRoots fun m hm => ?_) fun u hu =>
          Exec.always_ret (ht.keeps hu)
        rcases List.mem_append.1 hm with hm | hm
        · obtain ⟨-, -, -, -, rfl⟩ := (Persistent.mem_consolidationMutations hms).1 hm
          exact id
        · rw [List.mem_singleton.1 hm]
          exact id
      · cases hop
  | _ => cases hop

end FrostCoordinator

/-- **In every run**, the keys of the coordinator come from what was installed. -/
theorem Installed.rooted {past : Past} {s : FrostCoordinator L} (h : Installed past s) :
    Rooted past s.toPersistent := by
  induction h with
  | new => exact .empty
  | takeStagedMutations _ ih => exact ih
  | @perform past s s' op failed _ hop ih =>
      rw [Past.after]
      cases hinstalls : s.installation op with
      | none => exact ih.keeps (FrostCoordinator.perform_keepsRoots hinstalls _ hop)
      | some i => exact FrostCoordinator.perform_rooted ih hinstalls _ hop

/-! ### Reconstructing a root shared key -/

omit [Build] in
/-- Root shared keys are polynomials, and the hashes do not collide on them: neither the ids of
their keys nor those of their access structures. -/
structure Proper (L : FrostLib) (roots : SharedKey → Prop) : Prop where
  nonempty : ∀ root, roots root → root.pointPolynomial ≠ []
  rootkey : ∀ root root', roots root → roots root' →
    (AccessStructureRef.fromRootSharedKey L root).keyId =
      (AccessStructureRef.fromRootSharedKey L root').keyId → root.publicKey = root'.publicKey
  polynomial : ∀ root root', roots root → roots root' →
    AccessStructureRef.fromRootSharedKey L root = AccessStructureRef.fromRootSharedKey L root' →
      root = root'

omit [Build] in
/-- There is only one root shared key. -/
theorem Proper.of_eq {roots : SharedKey → Prop} {sole : SharedKey} (hne : sole.pointPolynomial ≠ [])
    (h : ∀ root, roots root → root = sole) : Proper L roots where
  nonempty root hroot := by rw [h root hroot]; exact hne
  rootkey root root' hroot hroot' _ := by rw [h root hroot, h root' hroot']
  polynomial root root' hroot hroot' _ := by rw [h root hroot, h root' hroot']

omit [Build] in
/-- The master appkey of a key is that of every root shared key that was installed for it. -/
theorem Rooted.masterAppkey_eq {past : Past} {p : Persistent L} (h : Rooted past p)
    {roots : SharedKey → Prop} (hroots : ∀ root ∈ past.roots, roots root)
    (hproper : Proper L roots) {key : CoordFrostKey} {root : SharedKey} (hroot : root ∈ past.roots)
    (hkey : p.keys[(AccessStructureRef.fromRootSharedKey L root).keyId]? = some key) :
    key.completeKey.masterAppkey = MasterAppkey.deriveFromRootkey L root.publicKey := by
  obtain ⟨first, hfirst, encryptionKey, rng, hid, -, -, hmaster⟩ := h.encrypted _ key hkey
  have hpublic : first.publicKey = root.publicKey :=
    hproper.rootkey first root (hroots _ hfirst) (hroots _ hroot) hid
  rw [hmaster, SharedKey.masterAppkey_app (hproper.nonempty first (hroots _ hfirst)), hpublic]

/-- **The root shared key** that was installed is reconstructed from the root key that is encrypted
and the polynomial that is stored. -/
theorem Rooted.rootSharedKey_eq {past : Past} {p : Persistent L} (h : Rooted past p)
    (hdecrypt : ∀ key point rng, L.decryptRootkey key (L.encryptRootkey key point rng) = some point)
    {roots : SharedKey → Prop} (hroots : ∀ root ∈ past.roots, roots root)
    (hproper : Proper L roots)
    {ref : AccessStructureRef} {a : CoordAccessStructure} (ha : p.getAccessStructure ref = some a) :
    ∃ root ∈ past.roots, ∃ key encryptionKey,
      AccessStructureRef.fromRootSharedKey L root = ref ∧ p.keys[ref.keyId]? = some key ∧
      key.completeKey.accessStructures[ref.accessStructureId]? = some a ∧
      past.encryptionKeys[ref.keyId]? = some encryptionKey ∧
      key.completeKey.rootSharedKey L ref.accessStructureId encryptionKey = .ret (some root) := by
  obtain ⟨root, hroot, rfl, happ⟩ := h.installed ref a ha
  obtain ⟨key, hkey, hstructure⟩ := Option.bind_eq_some_iff.1 ha
  obtain ⟨first, hfirst, encryptionKey, rng, hid, hwith, hencrypted, -⟩ := h.encrypted _ key hkey
  have hpublic : first.publicKey = root.publicKey :=
    hproper.rootkey first root (hroots _ hfirst) (hroots _ hroot) hid
  have hne := hproper.nonempty root (hroots _ hroot)
  refine ⟨root, hroot, key, encryptionKey, rfl, hkey, hstructure, hwith, ?_⟩
  have hchecked : MasterAppkey.deriveFromRootkey L first.publicKey =
      a.appSharedKey.masterAppkey := by
    rw [hpublic, happ, SharedKey.masterAppkey_app hne]
  have hpoints : (a.appSharedKey.key.pointPolynomial.modifyHead fun _ => first.publicKey) =
      root.pointPolynomial := by
    rw [happ, hpublic]
    obtain ⟨point, rest, hcons⟩ := List.exists_cons_of_ne_nil hne
    obtain ⟨points⟩ := root
    obtain rfl : points = point :: rest := hcons
    rfl
  rw [CompleteKey.rootSharedKey, hstructure, hencrypted, hdecrypt]
  dsimp only
  rw [Exec.debugAssert_of _ hchecked, Exec.ret_bind, hpoints]
  rfl

end Coordinator

end Frostsnap
