import Frostsnap.Coordinator.Restoring

/-!
# Steps of the coordinator

An operation changes the persistent state of the coordinator by mutations only, and stages those
that changed something. `Op` lists the operations, the receipt of a message among them, and
`perform` runs one. What every later result about runs needs to know of an operation is said once,
in `perform_mutates`: which mutations it may apply, each in the state it applies it in.

## Main results

* `perform_mutates`: an operation is a chain of permitted mutations.
-/

namespace Frostsnap.Coordinator

variable {L : FrostLib}

/-! ### Operations -/

/-- The operations of the coordinator that can change its state. -/
inductive Op (L : FrostLib) where
  | recvDeviceMessage (sender : DeviceId) (message : DeviceToCoordinatorMessage L)
  | beginKeygen (request : BeginKeygen) (rng : ℕ → L.Rng)
  | finalizeKeygen (keygenId : KeygenId) (encryptionKey : SymmetricKey) (rng : L.Rng)
  | cancelKeygen (keygenId : KeygenId)
  | clearTmpData
  | deleteKey (keyId : KeyId)
  | deleteShare (ref : AccessStructureRef) (deviceId : DeviceId)
  | startSign (ref : AccessStructureRef) (signTask : L.SignTask)
      (signingDevices : BTreeSet DeviceId) (rng : ℕ → L.Rng)
  | requestDeviceSign (sessionId : SignSessionId) (deviceId : DeviceId)
      (encryptionKey : SymmetricKey)
  | completeSignSession (sessionId : SignSessionId)
  | cancelSignSession (sessionId : SignSessionId)
  | cancelAllSigningSessions
  | forgetFinishedSignSession (sessionId : SignSessionId)
  | startRestoringKey (keyName : String) (threshold : Option ℕ) (keyPurpose : KeyPurpose)
      (restorationId : RestorationId)
  | addRecoveryShareToRestoration (restorationId : RestorationId) (recoverShare : RecoverShare)
      (encryptionKey : SymmetricKey)
  | finishRestoring (restorationId : RestorationId) (encryptionKey : SymmetricKey) (rng : L.Rng)
  | cancelRestoration (restorationId : RestorationId)
  | startRestoringKeyFromRecoverShare (recoverShare : RecoverShare)
      (restorationId : RestorationId)
  | deleteRestorationShare (restorationId : RestorationId) (deviceId : DeviceId)
  | recoverShare (ref : AccessStructureRef) (share : RecoverShare) (encryptionKey : SymmetricKey)
  | tellDeviceToSavePhysicalBackup (phase : PhysicalBackupPhase) (restorationId : RestorationId)
  | tellDeviceToConsolidatePhysicalBackup (phase : PhysicalBackupPhase) (ref : AccessStructureRef)
      (encryptionKey : SymmetricKey)
  | requestDeviceDisplayBackup (deviceId : DeviceId) (ref : AccessStructureRef)
      (encryptionKey : SymmetricKey)
  | requestDeviceCheckBackup (deviceId : DeviceId) (ref : AccessStructureRef)
      (encryptionKey : SymmetricKey)

namespace FrostCoordinator

/-- Whether an operation with a `Result` returned `Err`, and the state it leaves. -/
def outcome {ε α : Type} (x : Exec (Except ε α × FrostCoordinator L)) :
    Exec (Bool × FrostCoordinator L) := do
  let (result, s) ← x
  match result with
  | .error _ => return (true, s)
  | .ok _ => return (false, s)

/-- An operation without a `Result`. -/
def done {α : Type} (x : Exec (α × FrostCoordinator L)) : Exec (Bool × FrostCoordinator L) := do
  let (_, s) ← x
  return (false, s)

/-- An operation that only gives a state. -/
def done' (x : Exec (FrostCoordinator L)) : Exec (Bool × FrostCoordinator L) := do
  let s ← x
  return (false, s)

/-- An operation that returns has a result or an error, and either way a state. -/
theorem outcome_eq {ε α : Type} {x : Exec (Except ε α × FrostCoordinator L)} {failed : Bool}
    {s : FrostCoordinator L} (h : outcome x = .ret (failed, s)) :
    (∃ e, x = .ret (.error e, s) ∧ failed = true) ∨ ∃ a, x = .ret (.ok a, s) ∧ failed = false := by
  obtain ⟨⟨result, s'⟩, hx, h⟩ := Exec.bind_eq_ret_iff.1 h
  cases result with
  | error e =>
      obtain ⟨rfl, rfl⟩ : true = failed ∧ s' = s := by simpa using h
      exact .inl ⟨e, hx, rfl⟩
  | ok a =>
      obtain ⟨rfl, rfl⟩ : false = failed ∧ s' = s := by simpa using h
      exact .inr ⟨a, hx, rfl⟩

/-- An operation without a `Result` cannot fail. -/
theorem done_eq {α : Type} {x : Exec (α × FrostCoordinator L)} {failed : Bool}
    {s : FrostCoordinator L} (h : done x = .ret (failed, s)) :
    failed = false ∧ ∃ a, x = .ret (a, s) := by
  obtain ⟨⟨a, s'⟩, hx, h⟩ := Exec.bind_eq_ret_iff.1 h
  obtain ⟨rfl, rfl⟩ : false = failed ∧ s' = s := by simpa using h
  exact ⟨rfl, a, hx⟩

/-- Nor can one that only gives a state. -/
theorem done'_eq {x : Exec (FrostCoordinator L)} {failed : Bool} {s : FrostCoordinator L}
    (h : done' x = .ret (failed, s)) : failed = false ∧ x = .ret s := by
  obtain ⟨s', hx, h⟩ := Exec.bind_eq_ret_iff.1 h
  obtain ⟨rfl, rfl⟩ : false = failed ∧ s' = s := by simpa using h
  exact ⟨rfl, hx⟩

/-- An operation that checks first fails without a trace. -/
theorem checked_error {ε α β : Type} {check : Exec (Except ε α)} {s s' : FrostCoordinator L}
    {act : α → Exec (β × FrostCoordinator L)} {e : ε}
    (h : checked check s act = .ret (.error e, s')) : s' = s := by
  obtain ⟨checkResult, -, h⟩ := Exec.bind_eq_ret_iff.1 h
  cases checkResult with
  | error e' =>
      obtain ⟨-, rfl⟩ : e' = e ∧ s = s' := by simpa using h
      rfl
  | ok a =>
      obtain ⟨⟨b, t⟩, -, h⟩ := Exec.bind_eq_ret_iff.1 h
      simp at h

/-- An operation that checks first does what it does when the check succeeds. -/
theorem checked_ok {ε α β : Type} {check : Exec (Except ε α)} {s s' : FrostCoordinator L}
    {act : α → Exec (β × FrostCoordinator L)} {b : β}
    (h : checked check s act = .ret (.ok b, s')) :
    ∃ a, check = .ret (.ok a) ∧ act a = .ret (b, s') := by
  obtain ⟨checkResult, hcheck, h⟩ := Exec.bind_eq_ret_iff.1 h
  cases checkResult with
  | error e' => simp at h
  | ok a =>
      obtain ⟨⟨b', t⟩, hact, h⟩ := Exec.bind_eq_ret_iff.1 h
      obtain ⟨rfl, rfl⟩ : b' = b ∧ t = s' := by simpa using h
      exact ⟨a, hcheck, hact⟩

variable [Build]

/-- Run an operation: whether it returned `Err`, and the state it leaves. -/
def perform (s : FrostCoordinator L) : Op L → Exec (Bool × FrostCoordinator L)
  | .recvDeviceMessage sender message => outcome (s.recvDeviceMessage sender message)
  | .beginKeygen request rng => outcome (s.beginKeygen request rng)
  | .finalizeKeygen keygenId encryptionKey rng =>
      outcome (s.finalizeKeygen keygenId encryptionKey rng)
  | .cancelKeygen keygenId => .ret (false, s.cancelKeygen keygenId)
  | .clearTmpData => .ret (false, s.clearTmpData)
  | .deleteKey keyId => done' (s.deleteKey keyId)
  | .deleteShare ref deviceId => outcome (s.deleteShare ref deviceId)
  | .startSign ref signTask signingDevices rng =>
      outcome (s.startSign ref signTask signingDevices rng)
  | .requestDeviceSign sessionId deviceId encryptionKey =>
      done (s.requestDeviceSign sessionId deviceId encryptionKey)
  | .completeSignSession sessionId => done (s.completeSignSession sessionId)
  | .cancelSignSession sessionId => done' (s.cancelSignSession sessionId)
  | .cancelAllSigningSessions => done' s.cancelAllSigningSessions
  | .forgetFinishedSignSession sessionId => done (s.forgetFinishedSignSession sessionId)
  | .startRestoringKey keyName threshold keyPurpose restorationId =>
      done' (s.startRestoringKey keyName threshold keyPurpose restorationId)
  | .addRecoveryShareToRestoration restorationId recoverShare encryptionKey =>
      outcome (s.addRecoveryShareToRestoration restorationId recoverShare encryptionKey)
  | .finishRestoring restorationId encryptionKey rng =>
      outcome (s.finishRestoring restorationId encryptionKey rng)
  | .cancelRestoration restorationId => done' (s.cancelRestoration restorationId)
  | .startRestoringKeyFromRecoverShare recoverShare restorationId =>
      outcome (s.startRestoringKeyFromRecoverShare recoverShare restorationId)
  | .deleteRestorationShare restorationId deviceId =>
      done' (s.deleteRestorationShare restorationId deviceId)
  | .recoverShare ref share encryptionKey => outcome (s.recoverShare ref share encryptionKey)
  | .tellDeviceToSavePhysicalBackup phase restorationId =>
      .ret (false, (s.tellDeviceToSavePhysicalBackup phase restorationId).2)
  | .tellDeviceToConsolidatePhysicalBackup phase ref encryptionKey =>
      outcome (s.tellDeviceToConsolidatePhysicalBackup phase ref encryptionKey)
  | .requestDeviceDisplayBackup deviceId ref encryptionKey =>
      outcome (s.requestDeviceDisplayBackup deviceId ref encryptionKey)
  | .requestDeviceCheckBackup deviceId ref encryptionKey =>
      outcome (s.requestDeviceCheckBackup deviceId ref encryptionKey)

end FrostCoordinator

/-! ### Chains of mutations -/

section

/-- What is known of the inputs of a run: of the nonce segments that devices send, of the sessions
that are started, and of the shares and keys that are deleted. -/
structure Assumptions (L : FrostLib) where
  segment : NonceCache → DeviceId → NonceSegment → Prop
  session : Persistent L → ActiveSignSession L → Prop
  share : Persistent L → AccessStructureRef → DeviceId → Prop
  key : Persistent L → KeyId → Prop

/-- Nothing is known. -/
def Assumptions.none : Assumptions L where
  segment _ _ _ := True
  session _ _ := True
  share _ _ _ := True
  key _ _ := True

variable (A : Assumptions L)

/-- What the operations make sure of before they apply a mutation, and what is known of it. -/
def Permitted (p : Persistent L) : Mutation L → Prop
  | .keygen (.newKey _ _ completeKey) =>
      L.keyIdOfMasterAppkey completeKey.masterAppkey ∉ p.keys ∧ completeKey.accessStructures = ∅
  | .keygen (.deleteKey keyId) => keyId ∈ p.keys ∧ A.key p keyId
  | .keygen (.deleteShare ref deviceId) =>
      p.activeSigningSessions.values.any (Persistent.isInvolved ref deviceId) = false ∧
        (∃ a, p.getAccessStructure ref = some a ∧ deviceId ∈ a.deviceToShareIndex) ∧
        A.share p ref deviceId
  | .signing (.newNonces deviceId nonceSegment) => A.segment p.nonceCache deviceId nonceSegment
  | .signing (.newSigningSession session) =>
      (∃ ref signTask signingDevices rng,
        p.signSession ref signTask signingDevices rng = .ret (.ok session)) ∧ A.session p session
  | .signing (.sentSignReq sessionId deviceId) =>
      ∃ session a, p.activeSigningSessions[sessionId]? = some session ∧
        deviceId ∈ session.init.nonces ∧
        p.getAccessStructure session.accessStructureRef = some a ∧ deviceId ∈ a.deviceToShareIndex
  | .signing (.gotSignatureSharesFromDevice sessionId deviceId signatureShares) =>
      p.checkSignatureShares deviceId sessionId signatureShares = .ret (.ok ())
  | .signing (.closeSignSession sessionId (some signatures)) =>
      ∃ session, p.activeSigningSessions[sessionId]? = some session ∧
        Persistent.allFinished session = true ∧
        Persistent.combineShares session.progress = .ret signatures
  | .signing (.forgetFinishedSignSession sessionId) => sessionId ∈ p.finishedSigningSessions
  | .restoration (.newRestoration _ _ _ _) => False
  | .restoration (.restorationProgress _ _ _ _) => False
  | .restoration (.newRestoration2 restorationId _ _ _) => restorationId ∉ p.restorations
  | _ => True

variable [Build]

/-- What is known of segments holds of every segment of a device, at the cache that it is added
to. -/
def SegmentsSatisfy (sender : DeviceId) : List NonceSegment → NonceCache → Prop
  | [], _ => True
  | segment :: rest, cache =>
      A.segment cache sender segment ∧
        ∀ r cache', cache.extendSegment sender segment = .ret (r, cache') →
          SegmentsSatisfy sender rest cache'

/-- What is known holds of the input of an operation. -/
def Op.Satisfies (s : FrostCoordinator L) : Op L → Prop
  | .recvDeviceMessage sender (.signing (.nonceResponse segments)) =>
      SegmentsSatisfy A sender segments s.nonceCache
  | .recvDeviceMessage sender (.signing (.signatureShare _ _ replenishAonces)) =>
      ∀ segment ∈ replenishAonces, A.segment s.nonceCache sender segment
  | .startSign ref signTask signingDevices rng =>
      ∀ session, s.signSession ref signTask signingDevices rng = .ret (.ok session) →
        A.session s.toPersistent session
  | .deleteShare ref deviceId => A.share s.toPersistent ref deviceId
  | .deleteKey keyId => A.key s.toPersistent keyId
  | _ => True

/-- What is asked of the segments may be weakened. -/
theorem SegmentsSatisfy.mono {A A' : Assumptions L} (hA : ∀ cache deviceId segment,
    A.segment cache deviceId segment → A'.segment cache deviceId segment) {sender : DeviceId}
    {segments : List NonceSegment} {cache : NonceCache}
    (h : SegmentsSatisfy A sender segments cache) : SegmentsSatisfy A' sender segments cache := by
  induction segments generalizing cache with
  | nil => trivial
  | cons segment rest ih => exact ⟨hA _ _ _ h.1, fun r cache' hextend => ih (h.2 r cache' hextend)⟩

/-- Without an assumption nothing is asked of the segments. -/
theorem segmentsSatisfy_none (sender : DeviceId) (segments : List NonceSegment)
    (cache : NonceCache) : SegmentsSatisfy (.none : Assumptions L) sender segments cache := by
  induction segments generalizing cache with
  | nil => trivial
  | cons segment rest ih => exact ⟨trivial, fun _ cache' _ => ih cache'⟩

/-- Nor of any operation. -/
theorem Op.satisfies_none (op : Op L) (s : FrostCoordinator L) : op.Satisfies .none s := by
  unfold Op.Satisfies
  split
  · exact segmentsSatisfy_none _ _ _
  · exact fun _ _ => trivial
  · exact fun _ _ => trivial
  · trivial
  · trivial
  · trivial

/-- From one persistent state to another by permitted mutations, with the list of those that
were recorded. -/
inductive Chain (fingerprint : Fingerprint) :
    Persistent L → List (Mutation L) → Persistent L → Prop where
  | nil (p : Persistent L) : Chain fingerprint p [] p
  | recorded {p p' q : Persistent L} {m m' : Mutation L} {ms : List (Mutation L)}
      (permitted : Permitted A p m) (applied : p.applyMutation fingerprint m = .ret (some m', p'))
      (rest : Chain fingerprint p' ms q) : Chain fingerprint p (m' :: ms) q
  | ignored {p p' q : Persistent L} {m : Mutation L} {ms : List (Mutation L)}
      (permitted : Permitted A p m) (applied : p.applyMutation fingerprint m = .ret (none, p'))
      (rest : Chain fingerprint p' ms q) : Chain fingerprint p ms q

/-- The coordinator goes from one state to another by permitted mutations, and stages those that
are recorded. -/
structure Mutated (s : FrostCoordinator L) (ms : List (Mutation L)) (s' : FrostCoordinator L) :
    Prop where
  chain : Chain A s.keygenFingerprint s.toPersistent ms s'.toPersistent
  staged : s'.mutations = s.mutations ++ ms
  fingerprint : s'.keygenFingerprint = s.keygenFingerprint

/-- `Mutated`, whatever is staged. -/
def Mutates (s s' : FrostCoordinator L) : Prop := ∃ ms, Mutated A s ms s'

variable {A}

/-- One chain after another. What they recorded stands in the order of the mutations. -/
theorem Chain.trans {fingerprint : Fingerprint} {p q r : Persistent L} {ms ms' : List (Mutation L)}
    (h : Chain A fingerprint p ms q) (h' : Chain A fingerprint q ms' r) :
    Chain A fingerprint p (ms ++ ms') r := by
  induction h with
  | nil p => exact h'
  | recorded permitted applied rest ih => exact .recorded permitted applied (ih h')
  | ignored permitted applied rest ih => exact .ignored permitted applied (ih h')

/-- A chain goes through a state after each of the mutations that are recorded. -/
theorem Chain.split {fingerprint : Fingerprint} {p r : Persistent L} {ms ms' : List (Mutation L)}
    (h : Chain A fingerprint p (ms ++ ms') r) :
    ∃ q, Chain A fingerprint p ms q ∧ Chain A fingerprint q ms' r := by
  generalize hall : ms ++ ms' = all at h
  induction h generalizing ms with
  | nil p =>
      obtain ⟨rfl, rfl⟩ := List.append_eq_nil_iff.1 hall
      exact ⟨p, .nil p, .nil p⟩
  | @recorded p p' r m m' rest permitted applied chain ih =>
      cases ms with
      | nil =>
          obtain rfl : ms' = m' :: rest := hall
          exact ⟨p, .nil p, .recorded permitted applied chain⟩
      | cons first ms =>
          obtain ⟨rfl, hrest⟩ := List.cons.inj hall
          obtain ⟨q, hbefore, hafter⟩ := ih hrest
          exact ⟨q, .recorded permitted applied hbefore, hafter⟩
  | ignored permitted applied chain ih =>
      obtain ⟨q, hbefore, hafter⟩ := ih hall
      exact ⟨q, .ignored permitted applied hbefore, hafter⟩

/-- What two changes in a row stage stands in the same order. -/
theorem Mutated.trans {s t u : FrostCoordinator L} {ms ms' : List (Mutation L)}
    (h : Mutated A s ms t) (h' : Mutated A t ms' u) : Mutated A s (ms ++ ms') u where
  chain := by
    have hrest := h'.chain
    rw [h.fingerprint] at hrest
    exact h.chain.trans hrest
  staged := by rw [h'.staged, h.staged, List.append_assoc]
  fingerprint := h'.fingerprint.trans h.fingerprint

namespace Mutates

/-- One change after another. -/
theorem trans {s t u : FrostCoordinator L} (h : Mutates A s t) (h' : Mutates A t u) :
    Mutates A s u := by
  obtain ⟨ms, h⟩ := h
  obtain ⟨ms', h'⟩ := h'
  exact ⟨ms ++ ms', h.trans h'⟩

/-- A change of what is not persistent. -/
theorem of_transient {s s' : FrostCoordinator L} (hp : s'.toPersistent = s.toPersistent)
    (hm : s'.mutations = s.mutations) (hf : s'.keygenFingerprint = s.keygenFingerprint) :
    Mutates A s s' :=
  ⟨[], { chain := hp ▸ .nil _, staged := by rw [hm, List.append_nil], fingerprint := hf }⟩

/-- An operation that changes nothing. -/
theorem refl (s : FrostCoordinator L) : Mutates A s s := of_transient rfl rfl rfl

end Mutates

namespace FrostCoordinator

/-- What `mutate` does. -/
theorem mutate_eq {s s' : FrostCoordinator L} {m : Mutation L} (h : s.mutate m = .ret s') :
    ∃ reduced, s.toPersistent.applyMutation s.keygenFingerprint m =
      .ret (reduced, s'.toPersistent) ∧
      s'.mutations = s.mutations ++ reduced.toList ∧ s'.pendingKeygens = s.pendingKeygens ∧
      s'.tmpWaitingSave = s.tmpWaitingSave ∧ s'.keygenFingerprint = s.keygenFingerprint := by
  obtain ⟨⟨reduced, t⟩, happly, h⟩ := Exec.bind_eq_ret_iff.1 h
  obtain ⟨⟨reduced', p⟩, hp, hret⟩ := Exec.bind_eq_ret_iff.1 happly
  have ht : reduced' = reduced ∧ t.toPersistent = p ∧ t.mutations = s.mutations ∧
      t.pendingKeygens = s.pendingKeygens ∧ t.tmpWaitingSave = s.tmpWaitingSave ∧
      t.keygenFingerprint = s.keygenFingerprint := by
    simp only at hret
    split at hret
    all_goals
      simp only [Exec.pure_eq, Exec.ret.injEq, Prod.mk.injEq] at hret
      obtain ⟨rfl, rfl⟩ := hret
      exact ⟨rfl, rfl, rfl, rfl, rfl, rfl⟩
  obtain ⟨rfl, rfl, hms, hpending, hsave, hf⟩ := ht
  cases reduced' with
  | none =>
      obtain rfl : t = s' := by simpa using h
      exact ⟨none, hp, by simpa using hms, hpending, hsave, hf⟩
  | some m' =>
      obtain rfl : { t with mutations := t.mutations ++ [m'] } = s' := by simpa using h
      exact ⟨some m', hp, by simp [hms], hpending, hsave, hf⟩

/-- `mutate` returns when the mutation can be applied. -/
theorem mutate_returns {s : FrostCoordinator L} {m : Mutation L} {reduced : Option (Mutation L)}
    {p : Persistent L}
    (h : s.toPersistent.applyMutation s.keygenFingerprint m = .ret (reduced, p)) :
    ∃ s', s.mutate m = .ret s' := by
  have happly : ∃ t, s.applyMutation m = .ret (reduced, t) := by
    rw [applyMutation, h, Exec.ret_bind]
    dsimp only
    split <;> exact ⟨_, rfl⟩
  obtain ⟨t, ht⟩ := happly
  rw [mutate, ht, Exec.ret_bind]
  cases reduced <;> exact ⟨_, rfl⟩

/-- A permitted mutation is a chain of one, recorded or not. -/
theorem mutates_of_mutate {s s' : FrostCoordinator L} {m : Mutation L}
    (h : s.mutate m = .ret s') (hpermitted : Permitted A s.toPersistent m) : Mutates A s s' := by
  obtain ⟨reduced, happly, hstaged, -, -, hf⟩ := mutate_eq h
  refine ⟨reduced.toList, ?_, hstaged, hf⟩
  cases reduced with
  | none => exact .ignored hpermitted happly (.nil _)
  | some m' => exact .recorded hpermitted happly (.nil _)

/-- Mutations that need nothing. -/
theorem mutates_of_mutateAll {s s' : FrostCoordinator L} {ms : List (Mutation L)}
    (h : s.mutateAll ms = .ret s') (hpermitted : ∀ m ∈ ms, ∀ p, Permitted A p m) :
    Mutates A s s' := by
  induction ms generalizing s with
  | nil =>
      obtain rfl : s = s' := by simpa [mutateAll] using h
      exact .refl s
  | cons m ms ih =>
      obtain ⟨t, hm, h⟩ := Exec.bind_eq_ret_iff.1 h
      exact (mutates_of_mutate hm (hpermitted m List.mem_cons_self _)).trans
        (ih h fun m' hm' => hpermitted m' (List.mem_cons_of_mem _ hm'))

/-- Mutations in two goes. -/
theorem mutateAll_append {s : FrostCoordinator L} {ms ms' : List (Mutation L)} :
    s.mutateAll (ms ++ ms') = s.mutateAll ms >>= fun t => t.mutateAll ms' := by
  induction ms generalizing s with
  | nil => rfl
  | cons m ms ih =>
      simp only [List.cons_append, mutateAll]
      cases s.mutate m with
      | ret t => exact ih
      | panic msg => rfl

/-! ### Operations are chains -/

variable {s : FrostCoordinator L}

omit [Build] in
/-- The state of an operation is not touched by what is made of its result. -/
theorem always_outcome {ε α : Type} {P : FrostCoordinator L → Prop}
    {x : Exec (Except ε α × FrostCoordinator L)} (h : x.Always fun r => P r.2) :
    (outcome x).Always fun r => P r.2 := by
  refine Exec.always_bind h fun r hr => ?_
  obtain ⟨e | a, t⟩ := r
  · exact Exec.always_ret hr
  · exact Exec.always_ret hr

omit [Build] in
/-- The same without a `Result`. -/
theorem always_done {α : Type} {P : FrostCoordinator L → Prop}
    {x : Exec (α × FrostCoordinator L)} (h : x.Always fun r => P r.2) :
    (done x).Always fun r => P r.2 :=
  Exec.always_bind h fun _ hr => Exec.always_ret hr

omit [Build] in
/-- The same for an operation that only gives a state. -/
theorem always_done' {P : FrostCoordinator L → Prop} {x : Exec (FrostCoordinator L)}
    (h : x.Always P) : (done' x).Always fun r => P r.2 :=
  Exec.always_bind h fun _ hr => Exec.always_ret hr

omit [Build] in
/-- An operation that checks first keeps what its check and its action keep. -/
theorem always_checked {ε α β : Type} {P : FrostCoordinator L → Prop} {check : Exec (Except ε α)}
    {act : α → Exec (β × FrostCoordinator L)} (hs : P s)
    (hact : ∀ a, check = .ret (.ok a) → (act a).Always fun r => P r.2) :
    (checked check s act).Always fun r => P r.2 := by
  refine Exec.always_bind' fun r hr => ?_
  cases r with
  | error e => exact Exec.always_ret hs
  | ok a => exact Exec.always_bind (hact a hr) fun _ h => Exec.always_ret h

/-- `mutate`, of a permitted mutation. -/
theorem mutate_mutates {m : Mutation L} (h : Permitted A s.toPersistent m) :
    (s.mutate m).Always (Mutates A s) := fun _ hm => mutates_of_mutate hm h

/-- Several mutations, if none of them needs an assumption. -/
theorem mutateAll_mutates {ms : List (Mutation L)} (h : ∀ m ∈ ms, ∀ p, Permitted A p m) :
    (s.mutateAll ms).Always (Mutates A s) := fun _ hm => mutates_of_mutateAll hm h

/-- What the cache becomes by `mutate`, with a segment that can be extended. -/
theorem extendSegment_of_mutate {s s' : FrostCoordinator L} {sender : DeviceId}
    {segment : NonceSegment} (h : s.mutate (.signing (.newNonces sender segment)) = .ret s') :
    ∃ r, s.nonceCache.extendSegment sender segment = .ret (r, s'.nonceCache) := by
  obtain ⟨reduced, happly, -⟩ := mutate_eq h
  obtain ⟨⟨changed, p⟩, hchange, hp⟩ := Exec.bind_eq_ret_iff.1 happly
  obtain ⟨-, rfl⟩ := Prod.mk.inj (Exec.ret.inj hp)
  obtain ⟨⟨r, cache⟩, hextend, h⟩ := Exec.bind_eq_ret_iff.1 hchange
  refine ⟨r, ?_⟩
  rw [hextend]
  cases r with
  | error e => rw [(Persistent.fail_eq h).2]
  | ok changed' => rw [← (Prod.mk.inj (Exec.ret.inj h)).2]

/-- The segments of an answer come one after the other, each to the cache that the ones before left.
-/
theorem recvNonceSegments_mutates {sender : DeviceId} {segments : List NonceSegment}
    (hA : SegmentsSatisfy A sender segments s.nonceCache) :
    (recvNonceSegments sender segments s).Always fun r => Mutates A s r.2 := by
  induction segments generalizing s with
  | nil => exact Exec.always_ret (.refl s)
  | cons segment rest ih =>
      refine Exec.always_bind' fun check _ => ?_
      cases check with
      | error e => exact Exec.always_ret (.refl s)
      | ok u =>
          refine Exec.always_bind' fun t ht => ?_
          obtain ⟨r, hextend⟩ := extendSegment_of_mutate ht
          exact (ih (hA.2 r _ hextend)).mono fun _ => (mutates_of_mutate ht hA.1).trans

/-- An answer with nonces. -/
theorem recvNonceResponse_mutates {sender : DeviceId} {segments : List NonceSegment}
    (hA : SegmentsSatisfy A sender segments s.nonceCache) :
    (s.recvNonceResponse sender segments).Always fun r => Mutates A s r.2 :=
  Exec.always_bind (recvNonceSegments_mutates hA) fun _ h => Exec.always_ret h

/-! A message about a key generation changes nothing but the key generation. -/

/-- The same, but for the pending key generations. -/
def SameButPending (s s' : FrostCoordinator L) : Prop :=
  { s' with pendingKeygens := s.pendingKeygens } = s

omit [Build] in
/-- Taking out a pending key generation. -/
theorem SameButPending.takeEntry (s : FrostCoordinator L) (keygenId : KeygenId) :
    SameButPending s (s.takeEntry keygenId).2 := rfl

omit [Build] in
/-- And putting it back. -/
theorem SameButPending.insertEntry (s : FrostCoordinator L) (keygenId : KeygenId)
    (state : KeyGenState L) :
    SameButPending s ((s.takeEntry keygenId).2.insertEntry keygenId state) := rfl

/-- The pending key generations are not persistent. -/
theorem SameButPending.mutates {s s' : FrostCoordinator L} (h : SameButPending s s') :
    Mutates A s s' := by
  obtain ⟨p, pending, mutations, consolidate, save, fingerprint⟩ := s
  obtain ⟨p', pending', mutations', consolidate', save', fingerprint'⟩ := s'
  obtain ⟨rfl, -, rfl, rfl, rfl, rfl⟩ := FrostCoordinator.mk.inj h
  exact .of_transient rfl rfl rfl

omit [Build] in
/-- The first answers of devices only go to their key generation. -/
theorem recvKeygenResponse_same (sender : DeviceId) (keygenId : KeygenId) (input : L.KeygenInput) :
    (s.recvKeygenResponse sender keygenId input).Always fun r => SameButPending s r.2 := by
  unfold recvKeygenResponse
  dsimp only
  split
  · split
    · exact Exec.always_ret rfl
    · split
      · exact Exec.always_ret rfl
      · split
        · exact Exec.always_bind' fun _ _ => Exec.always_bind' fun _ _ =>
            Exec.always_bind' fun _ _ => Exec.always_ret rfl
        · exact Exec.always_ret rfl
  · exact Exec.always_ret rfl

/-- So do their certificates. -/
theorem recvKeygenCertify_same (sender : DeviceId) (keygenId : KeygenId)
    (vrfCert : L.CertVrfProof) :
    (s.recvKeygenCertify sender keygenId vrfCert).Always fun r => SameButPending s r.2 := by
  unfold recvKeygenCertify
  dsimp only
  split
  · refine Exec.always_bind' fun _ _ => ?_
    split
    · exact Exec.always_ret rfl
    · split
      · exact Exec.always_bind' fun _ _ => Exec.always_ret rfl
      · exact Exec.always_ret rfl
  · exact Exec.always_ret rfl

/-- And so do their acks, even the last one. -/
theorem recvKeygenAck_same (sender : DeviceId) (keygenId : KeygenId)
    (ackSessionHash : SessionHash) :
    (s.recvKeygenAck sender keygenId ackSessionHash).Always fun r => SameButPending s r.2 := by
  unfold recvKeygenAck
  dsimp only
  split
  · split
    · exact Exec.always_ret rfl
    · split
      · exact Exec.always_ret rfl
      · split
        · exact Exec.always_ret rfl
        · split
          · exact Exec.always_bind' fun _ _ => Exec.always_bind' fun _ _ => Exec.always_ret rfl
          · exact Exec.always_ret rfl
  · exact Exec.always_ret rfl

/-- The start of a key generation. -/
theorem beginKeygen_same (request : BeginKeygen) (rng : ℕ → L.Rng) :
    (s.beginKeygen request rng).Always fun r => SameButPending s r.2 := by
  unfold beginKeygen
  split
  · exact Exec.always_ret rfl
  · refine Exec.always_bind' fun _ _ => Exec.always_bind' fun _ _ => ?_
    dsimp only
    split
    · exact Exec.always_ret rfl
    · split
      · exact Exec.always_panic _
      · exact Exec.always_ret rfl

/-! Keys. -/

/-- A new key comes with its access structure and its shares. -/
theorem mutateNewKey_mutates (name : String) (rootSharedKey : SharedKey)
    (deviceToShareIndex : BTreeMap DeviceId ShareIndex) (encryptionKey : SymmetricKey)
    (purpose : KeyPurpose) (rng : L.Rng) :
    (s.mutateNewKey name rootSharedKey deviceToShareIndex encryptionKey purpose rng).Always
      fun r => Mutates A s r.2 := by
  refine Exec.always_bind (P := Mutates A s) ?_ fun _ h => Exec.always_ret h
  dsimp only
  split
  · refine mutateAll_mutates fun m hm q => ?_
    simp only [List.nil_append, List.cons_append, List.mem_cons, List.mem_map] at hm
    obtain rfl | ⟨_, -, rfl⟩ := hm
    · trivial
    · trivial
  · rename_i hkey
    rw [List.append_assoc, List.cons_append, List.nil_append]
    refine Exec.always_bind (mutate_mutates (A := A) ⟨hkey, rfl⟩) fun t ht => ?_
    refine (mutateAll_mutates fun m hm q => ?_).mono fun u => ht.trans
    simp only [List.nil_append, List.cons_append, List.mem_cons, List.mem_map] at hm
    obtain rfl | ⟨_, -, rfl⟩ := hm
    · trivial
    · trivial

/-- The end of a key generation is where its key comes to be. -/
theorem finalizeKeygen_mutates (keygenId : KeygenId) (encryptionKey : SymmetricKey)
    (rng : L.Rng) :
    (s.finalizeKeygen keygenId encryptionKey rng).Always fun r => Mutates A s r.2 := by
  have htake : Mutates A s (s.takeEntry keygenId).2 := (SameButPending.takeEntry s keygenId).mutates
  unfold finalizeKeygen
  dsimp only
  split
  · exact Exec.always_bind (mutateNewKey_mutates _ _ _ _ _ _) fun _ h =>
      Exec.always_ret (htake.trans h)
  · exact Exec.always_ret htake

/-- Deleting a key, if it is there. -/
theorem deleteKey_mutates {keyId : KeyId} (hA : A.key s.toPersistent keyId) :
    (s.deleteKey keyId).Always (Mutates A s) := by
  unfold deleteKey
  split
  · rename_i hkey
    exact mutate_mutates ⟨hkey, hA⟩
  · exact Exec.always_ret (.refl s)

/-- Deleting a share, if it may be deleted here. -/
theorem deleteShare_mutates {ref : AccessStructureRef} {deviceId : DeviceId}
    (hA : A.share s.toPersistent ref deviceId) :
    (s.deleteShare ref deviceId).Always fun r => Mutates A s r.2 := by
  unfold deleteShare
  split
  · exact Exec.always_ret (.refl s)
  · rename_i hinvolved
    split
    · rename_i a ha
      split
      · rename_i hdevice
        exact Exec.always_bind
          (mutate_mutates ⟨by simpa using hinvolved, ⟨a, ha, hdevice⟩, hA⟩)
            fun _ h => Exec.always_ret h
      · exact Exec.always_ret (.refl s)
    · exact Exec.always_ret (.refl s)

/-! Signing sessions. -/

/-- Signature shares alone consume no nonces. -/
theorem nonceCache_of_gotSignatureShares {s s' : FrostCoordinator L} {sessionId : SignSessionId}
    {deviceId : DeviceId} {signatureShares : List SignatureShare}
    (h : s.mutate (.signing (.gotSignatureSharesFromDevice sessionId deviceId signatureShares)) =
      .ret s') : s'.nonceCache = s.nonceCache := by
  obtain ⟨reduced, happly, -⟩ := mutate_eq h
  obtain ⟨-, hp⟩ := Prod.mk.inj (Exec.ret.inj happly)
  rw [← hp, Persistent.gotSignatureShares]
  split <;> rfl

/-- A new signing session, if it may be started here. -/
theorem startSign_mutates {ref : AccessStructureRef} {signTask : L.SignTask}
    {signingDevices : BTreeSet DeviceId} {rng : ℕ → L.Rng}
    (hA : ∀ session, s.signSession ref signTask signingDevices rng = .ret (.ok session) →
      A.session s.toPersistent session) :
    (s.startSign ref signTask signingDevices rng).Always fun r => Mutates A s r.2 :=
  always_checked (.refl s) fun _ hsession =>
    Exec.always_bind (mutate_mutates ⟨⟨_, _, _, _, hsession⟩, hA _ hsession⟩)
      fun _ h => Exec.always_ret h

/-- A signing request is recorded before it is sent. -/
theorem requestDeviceSign_mutates (sessionId : SignSessionId) (deviceId : DeviceId)
    (encryptionKey : SymmetricKey) :
    (s.requestDeviceSign sessionId deviceId encryptionKey).Always fun r => Mutates A s r.2 := by
  intro r hr
  obtain ⟨session, nonces, a, hsession, hnonces, ha, hdevice, -, -, -, hmutate⟩ :=
    requestDeviceSign_eq hr
  exact mutates_of_mutate hmutate
    ⟨session, a, hsession, BTreeMap.mem_iff_getElem?.2 ⟨nonces, hnonces⟩, ha, hdevice⟩

/-- A session is closed once its last signature can be put together. -/
theorem completeSignSession_mutates (sessionId : SignSessionId) :
    (s.completeSignSession sessionId).Always fun r => Mutates A s r.2 := by
  unfold completeSignSession
  split
  · exact Exec.always_ret (.refl s)
  · rename_i session hsession
    split
    · rename_i hfinished
      refine Exec.always_bind' fun signatures hsignatures => ?_
      exact Exec.always_bind (mutate_mutates ⟨session, hsession, hfinished, hsignatures⟩)
        fun _ h => Exec.always_ret h
    · exact Exec.always_ret (.refl s)

/-- All sessions are cancelled, one after the other. -/
theorem cancelAllSigningSessions_mutates : s.cancelAllSigningSessions.Always (Mutates A s) := by
  refine mutateAll_mutates fun m hm p => ?_
  obtain ⟨ssid, -, rfl⟩ := List.mem_map.1 hm
  trivial

/-- Forgetting a finished session. -/
theorem forgetFinishedSignSession_mutates (sessionId : SignSessionId) :
    (s.forgetFinishedSignSession sessionId).Always fun r => Mutates A s r.2 := by
  unfold forgetFinishedSignSession
  split
  · exact Exec.always_ret (.refl s)
  · rename_i session hsession
    have hmem : sessionId ∈ s.finishedSigningSessions :=
      Std.ExtTreeMap.mem_iff_isSome_getElem?.2 (by
        rw [hsession]
        rfl)
    exact Exec.always_bind (mutate_mutates hmem) fun _ h => Exec.always_ret h

/-- The shares first, then the nonces that replace theirs. -/
theorem recvSignatureShare_mutates (sender : DeviceId) (sessionId : SignSessionId)
    (signatureShares : List SignatureShare) {replenishAonces : Option NonceSegment}
    (hA : ∀ segment ∈ replenishAonces, A.segment s.nonceCache sender segment) :
    (s.recvSignatureShare sender sessionId signatureShares replenishAonces).Always
      fun r => Mutates A s r.2 := by
  refine always_checked (.refl s) fun u hchecked => ?_
  refine Exec.always_bind' fun t ht => ?_
  have hcache : t.nonceCache = s.nonceCache := nonceCache_of_gotSignatureShares ht
  refine Exec.always_bind (P := Mutates A t) ?_ fun t' ht' => ?_
  · cases replenishAonces with
    | none => exact mutateAll_mutates fun m hm => absurd hm List.not_mem_nil
    | some segment =>
        refine Exec.always_bind (mutate_mutates ?_) fun u hu => Exec.always_ret hu
        show A.segment t.nonceCache sender segment
        rw [hcache]
        exact hA segment rfl
  · exact Exec.always_bind (completeSignSession_mutates sessionId) fun _ h =>
      Exec.always_ret ((mutates_of_mutate ht hchecked).trans (ht'.trans h))

/-! Restorations. -/

/-- A new restoration. -/
theorem startRestoringKey_mutates (keyName : String) (threshold : Option ℕ)
    (keyPurpose : KeyPurpose) (restorationId : RestorationId) :
    (s.startRestoringKey keyName threshold keyPurpose restorationId).Always (Mutates A s) :=
  Exec.always_bind' fun _ hassert => by
    have hnew : restorationId ∉ s.restorations := Exec.assert_eq_ret_iff.1 hassert
    exact mutate_mutates hnew

/-- A share for a restoration. -/
theorem addRecoveryShareToRestoration_mutates (restorationId : RestorationId)
    (recoverShare : RecoverShare) (encryptionKey : SymmetricKey) :
    (s.addRecoveryShareToRestoration restorationId recoverShare encryptionKey).Always
      fun r => Mutates A s r.2 :=
  always_checked (.refl s) fun _ _ =>
    Exec.always_bind (mutate_mutates trivial) fun _ h => Exec.always_ret h

omit [Build] in
/-- The consolidations that are queued are of the devices that need one, with the index that is
found for the device. -/
theorem Persistent.mem_consolidationMutations {ref : AccessStructureRef}
    {deviceToShareIndex : BTreeMap DeviceId ShareIndex} {devices : List DeviceId}
    {ms : List (Mutation L)}
    (h : Persistent.consolidationMutations ref deviceToShareIndex devices = .ret ms)
    {m : Mutation L} :
    m ∈ ms ↔ ∃ deviceId ∈ devices, ∃ shareIndex, deviceToShareIndex[deviceId]? = some shareIndex ∧
      m = .restoration (.deviceNeedsConsolidation
        { deviceId := deviceId, accessStructureRef := ref, shareIndex := shareIndex }) := by
  induction devices generalizing ms with
  | nil =>
      obtain rfl : [] = ms := by simpa [Persistent.consolidationMutations] using h
      simp only [List.not_mem_nil, false_and, exists_false]
  | cons deviceId devices ih =>
      obtain ⟨shareIndex, hindex, h⟩ := Exec.bind_eq_ret_iff.1 h
      obtain ⟨rest, hrest, hret⟩ := Exec.bind_eq_ret_iff.1 h
      obtain rfl := Exec.ret.inj hret
      have hindex := Exec.expect_eq_ret_iff.1 hindex
      rw [List.mem_cons, ih hrest]
      constructor
      · rintro (rfl | ⟨other, hother, hfound⟩)
        · exact ⟨deviceId, List.mem_cons_self, shareIndex, hindex, rfl⟩
        · exact ⟨other, List.mem_cons_of_mem _ hother, hfound⟩
      · rintro ⟨other, hother, otherIndex, hfound, rfl⟩
        rcases List.mem_cons.1 hother with rfl | hother
        · rw [hindex, Option.some.injEq] at hfound
          exact .inl (by rw [hfound])
        · exact .inr ⟨other, hother, otherIndex, hfound, rfl⟩

/-- A restoration ends by its key coming to be. -/
theorem finishRestoring_mutates (restorationId : RestorationId) (encryptionKey : SymmetricKey)
    (rng : L.Rng) :
    (s.finishRestoring restorationId encryptionKey rng).Always fun r => Mutates A s r.2 := by
  refine always_checked (.refl s) fun ⟨state, root, shares⟩ _ => ?_
  refine Exec.always_bind (mutateNewKey_mutates (A := A) _ _ _ _ _ _) fun t ht => ?_
  refine Exec.always_bind' fun ms hms => ?_
  refine Exec.always_bind (mutateAll_mutates fun m hm p => ?_) fun u hu =>
    Exec.always_ret (ht.trans hu)
  obtain hm | hm := List.mem_append.1 hm
  · obtain ⟨-, -, -, -, rfl⟩ := (Persistent.mem_consolidationMutations hms).1 hm
    trivial
  · obtain rfl := List.mem_singleton.1 hm
    trivial

/-- A restoration that starts with its first share. -/
theorem startRestoringKeyFromRecoverShare_mutates (recoverShare : RecoverShare)
    (restorationId : RestorationId) :
    (s.startRestoringKeyFromRecoverShare recoverShare restorationId).Always
      fun r => Mutates A s r.2 := by
  refine always_checked (.refl s) fun ⟨keyName, keyPurpose⟩ hchecked => ?_
  have hnew : restorationId ∉ s.restorations := by
    simp only [Persistent.shareMetadata] at hchecked
    split at hchecked
    · obtain ⟨u, hu, -⟩ := Exec.bind_eq_ret_iff.1 hchecked
      exact Exec.assert_eq_ret_iff.1 hu
    · simp at hchecked
  refine Exec.always_bind (P := Mutates A s) ?_ fun _ h => Exec.always_ret h
  refine Exec.always_bind (mutate_mutates (A := A) hnew) fun t ht => ?_
  exact (mutateAll_mutates fun m hm p => by
    obtain rfl := List.mem_singleton.1 hm
    trivial).mono fun _ => ht.trans

/-- A share is taken out of a restoration. -/
theorem deleteRestorationShare_mutates (restorationId : RestorationId) (deviceId : DeviceId) :
    (s.deleteRestorationShare restorationId deviceId).Always (Mutates A s) := by
  unfold deleteRestorationShare
  split
  · exact Exec.always_ret (.refl s)
  · split
    · exact Exec.always_ret (.refl s)
    · exact mutate_mutates trivial

/-- A share of an access structure that is already there. -/
theorem recoverShare_mutates (ref : AccessStructureRef) (share : RecoverShare)
    (encryptionKey : SymmetricKey) :
    (s.recoverShare ref share encryptionKey).Always fun r => Mutates A s r.2 := by
  refine always_checked (.refl s) fun _ _ => ?_
  refine Exec.always_bind (mutate_mutates (A := A) trivial) fun t ht => ?_
  split
  · exact Exec.always_bind (mutate_mutates trivial) fun _ h => Exec.always_ret (ht.trans h)
  · exact Exec.always_ret ht

/-- What is waiting to be saved is not persistent. -/
theorem tellDeviceToSavePhysicalBackup_mutates (phase : PhysicalBackupPhase)
    (restorationId : RestorationId) :
    Mutates A s (s.tellDeviceToSavePhysicalBackup phase restorationId).2 := by
  unfold tellDeviceToSavePhysicalBackup
  split
  · exact .refl s
  · exact .of_transient rfl rfl rfl

/-- Nor is what is waiting to be consolidated. -/
theorem tellDeviceToConsolidatePhysicalBackup_mutates (phase : PhysicalBackupPhase)
    (ref : AccessStructureRef) (encryptionKey : SymmetricKey) :
    (s.tellDeviceToConsolidatePhysicalBackup phase ref encryptionKey).Always
      fun r => Mutates A s r.2 :=
  always_checked (.refl s) fun _ _ => Exec.always_bind' fun _ _ => Exec.always_bind' fun _ _ =>
    Exec.always_bind' fun _ _ => Exec.always_ret (.of_transient rfl rfl rfl)

/-- A saved backup goes to the restoration it was entered for. -/
theorem recvPhysicalSaved_mutates (sender : DeviceId) (shareImage : ShareImage) :
    (s.recvPhysicalSaved sender shareImage).Always fun r => Mutates A s r.2 := by
  unfold recvPhysicalSaved
  split
  · exact Exec.always_ret (.refl s)
  · refine Exec.always_bind (mutate_mutates (A := A) trivial) fun t ht =>
      Exec.always_ret (Mutates.trans ?_ ht)
    exact .of_transient rfl rfl rfl

/-- The share of a consolidation that has finished. -/
theorem recvFinishedConsolidation_mutates (sender : DeviceId) (ref : AccessStructureRef)
    (shareIndex : ShareIndex) :
    (s.recvFinishedConsolidation sender ref shareIndex).Always fun r => Mutates A s r.2 := by
  unfold recvFinishedConsolidation
  dsimp only
  split
  · refine Exec.always_bind (mutate_mutates (A := A) trivial) fun t ht =>
      Exec.always_ret (Mutates.trans ?_ ht)
    exact .of_transient rfl rfl rfl
  · split
    · exact Exec.always_bind (mutate_mutates trivial) fun t ht => Exec.always_ret ht
    · exact Exec.always_ret (.refl s)

/-- **A message of a device** changes the coordinator by permitted mutations. -/
theorem recvDeviceMessage_mutates {sender : DeviceId} {message : DeviceToCoordinatorMessage L}
    (hA : (Op.recvDeviceMessage sender message).Satisfies A s) :
    (s.recvDeviceMessage sender message).Always fun r => Mutates A s r.2 := by
  match message with
  | .signing (.nonceResponse segments) => exact recvNonceResponse_mutates hA
  | .signing (.signatureShare sessionId shares replenish) =>
      exact recvSignatureShare_mutates sender sessionId shares hA
  | .keyGen (.response keygenId input) =>
      exact (recvKeygenResponse_same sender keygenId input).mono fun _ => SameButPending.mutates
  | .keyGen (.certify keygenId vrfCert) =>
      exact (recvKeygenCertify_same sender keygenId vrfCert).mono fun _ => SameButPending.mutates
  | .keyGen (.ack keygenId hash) =>
      exact (recvKeygenAck_same sender keygenId hash).mono fun _ => SameButPending.mutates
  | .restoration (.physicalSaved shareImage) => exact recvPhysicalSaved_mutates sender shareImage
  | .restoration (.finishedConsolidation ref shareIndex) =>
      exact recvFinishedConsolidation_mutates sender ref shareIndex
  | .restoration (.physicalEntered _) | .restoration (.heldShares _)
  | .restoration (.heldShares2 _) => exact Exec.always_ret (.refl s)

/-- An operation changes what is persistent by a chain of permitted mutations, and stages those
that changed anything. -/
theorem perform_mutates {op : Op L} (hA : op.Satisfies A s) :
    (s.perform op).Always fun r => Mutates A s r.2 := by
  cases op with
  | recvDeviceMessage sender message => exact always_outcome (recvDeviceMessage_mutates hA)
  | beginKeygen request rng =>
      exact always_outcome ((beginKeygen_same _ _).mono fun _ => SameButPending.mutates)
  | finalizeKeygen => exact always_outcome (finalizeKeygen_mutates _ _ _)
  | cancelKeygen => exact Exec.always_ret (.of_transient rfl rfl rfl)
  | clearTmpData => exact Exec.always_ret (.of_transient rfl rfl rfl)
  | deleteKey => exact always_done' (deleteKey_mutates hA)
  | deleteShare => exact always_outcome (deleteShare_mutates hA)
  | startSign => exact always_outcome (startSign_mutates hA)
  | requestDeviceSign => exact always_done (requestDeviceSign_mutates _ _ _)
  | completeSignSession => exact always_done (completeSignSession_mutates _)
  | cancelSignSession => exact always_done' (mutate_mutates trivial)
  | cancelAllSigningSessions => exact always_done' cancelAllSigningSessions_mutates
  | forgetFinishedSignSession => exact always_done (forgetFinishedSignSession_mutates _)
  | startRestoringKey => exact always_done' (startRestoringKey_mutates _ _ _ _)
  | addRecoveryShareToRestoration =>
      exact always_outcome (addRecoveryShareToRestoration_mutates _ _ _)
  | finishRestoring => exact always_outcome (finishRestoring_mutates _ _ _)
  | cancelRestoration => exact always_done' (mutate_mutates trivial)
  | startRestoringKeyFromRecoverShare =>
      exact always_outcome (startRestoringKeyFromRecoverShare_mutates _ _)
  | deleteRestorationShare => exact always_done' (deleteRestorationShare_mutates _ _)
  | recoverShare => exact always_outcome (recoverShare_mutates _ _ _)
  | tellDeviceToSavePhysicalBackup =>
      exact Exec.always_ret (tellDeviceToSavePhysicalBackup_mutates _ _)
  | tellDeviceToConsolidatePhysicalBackup =>
      exact always_outcome (tellDeviceToConsolidatePhysicalBackup_mutates _ _ _)
  | requestDeviceDisplayBackup =>
      exact always_outcome (always_checked (.refl s) fun _ _ => Exec.always_ret (.refl s))
  | requestDeviceCheckBackup =>
      exact always_outcome (always_checked (.refl s) fun _ _ => Exec.always_ret (.refl s))

end FrostCoordinator

/-- The states of a coordinator that starts empty, performs operations, and has its staged
mutations taken. -/
inductive Reachable : FrostCoordinator L → Prop where
  | new : Reachable (.new L)
  | perform {s s' : FrostCoordinator L} {op : Op L} {failed : Bool} (h : Reachable s)
      (hop : s.perform op = .ret (failed, s')) : Reachable s'
  | takeStagedMutations {s : FrostCoordinator L} (h : Reachable s) :
      Reachable { s with mutations := [] }

end

end Frostsnap.Coordinator
