import Frostsnap.Comms.GenuineSoundness
import Frostsnap.Lib.Table

/-!
# The store of the genuine check

The factory attestations on file, as `persist_update` writes and `load` reads them. What a call
stages is written row by row, each row by a statement of its own and all of them in no transaction,
so that a process that dies in between leaves a part of an update behind.

A device that proves itself under a new id stages its record and the removal of the old one. When
only the record was written, both are on file afterwards, and are loaded again; otherwise no two
devices on file name one DS key. The rest holds whenever the process dies.

## Main results

* `World.Good.step`: one step.
* `store_is_kept`: any run in which no update was cut.
* `cut_keeps_both`: an update that was.
-/

namespace Frostsnap.Genuine

/-! ### Definitions -/

abbrev Disk := Table DeviceId FactoryAttestation

/-- A row of an update. -/
def persistRow (disk : Disk) : GenuineCheckMutation → Disk
  | .insert attestation _ => disk.insertOrReplace attestation.attested.deviceId attestation
  | .remove deviceId => disk.deleteWhere (· = deviceId)

def persistUpdate (disk : Disk) (update : List GenuineCheckMutation) : Disk :=
  update.foldl persistRow disk

/-- What is selected, in some order. -/
def selectRows (disk : Disk) (order : HashOrder (DeviceId × FactoryAttestation)) :
    List (Option DeviceId × Option FactoryAttestation) :=
  (order.order disk.rows).map fun row => (some row.1, some row.2)

/-- A process and what is on file. -/
structure World where
  launch : Launch
  disk : Disk

variable (C : Crypto) (factoryKey : XOnly)

def GenuineCheck.loadDisk (disk : Disk) (order : HashOrder (DeviceId × FactoryAttestation)) :
    GenuineCheck :=
  .load C factoryKey (selectRows disk order)

inductive Op where
  /-- A call, and all of what it staged is written. -/
  | call (call : Call)
  /-- A call, and the process dies when some rows were written; it is launched again. -/
  | die (call : Call) (written : ℕ) (order : HashOrder (DeviceId × FactoryAttestation))

def World.step (w : World) : Op → World
  | .call call =>
      { launch := w.launch.call C call
        disk := persistUpdate w.disk (w.launch.check.staged C call) }
  | .die call written order =>
      let disk := persistUpdate w.disk ((w.launch.check.staged C call).take written)
      { launch := { check := .loadDisk C factoryKey disk order, events := [] }, disk := disk }

def World.new : World where
  launch := { check := .new factoryKey, events := [] }
  disk := .empty

def World.run (ops : List Op) : World :=
  ops.foldl (World.step C factoryKey) (.new factoryKey)

/-- No update of a run is cut: what is staged is written as a whole or not at all. -/
def Whole (w : World) : List Op → Prop
  | [] => True
  | op :: ops =>
      (match op with
        | .call _ => True
        | .die call written _ =>
            written = 0 ∨ (w.launch.check.staged C call).length ≤ written) ∧
        Whole (w.step C factoryKey op) ops

/-- No two devices on file name one DS key. -/
def OneId (disk : Disk) : Prop :=
  ∀ (id id' : DeviceId) (attestation attestation' : FactoryAttestation),
    disk.get? id = some attestation → disk.get? id' = some attestation' →
    attestation.attested.certificate.body.dsPublicKey =
      attestation'.attested.certificate.body.dsPublicKey → id = id'

/-- Every record on file verifies for the id it is filed under. -/
def DiskVerified (disk : Disk) : Prop :=
  ∀ (id : DeviceId) attestation, disk.get? id = some attestation →
    ∃ body, verifyFactoryAttestation C attestation.attested factoryKey attestation.challenge id
      attestation.signature = .ok body

variable {C factoryKey}

/-! ### Loading what is on file -/

theorem foldl_loadRow_not_mem {rows : List (DeviceId × FactoryAttestation)} {id : DeviceId}
    (hid : id ∉ rows.map Prod.fst) (check : GenuineCheck) :
    ((rows.map fun row => (some row.1, some row.2)).foldl (GenuineCheck.loadRow C)
      check).certs[id]? = check.certs[id]? := by
  induction rows generalizing check with
  | nil => rfl
  | cons row rows ih =>
      obtain ⟨deviceId, attestation⟩ := row
      rw [List.map_cons, List.mem_cons, not_or] at hid
      rw [List.map_cons, List.foldl_cons, ih hid.2, GenuineCheck.loadRow]
      dsimp only
      split
      · rename_i body hbody
        rw [GenuineCheck.applyMutation_insert_certs, BTreeMap.getElem?_insert,
          (verifyFactoryAttestation_eq_ok hbody).1, if_neg (Ne.symm hid.1)]
      · rfl

theorem foldl_loadRow_mem {rows : List (DeviceId × FactoryAttestation)}
    (hnodup : (rows.map Prod.fst).Nodup) {id : DeviceId} {attestation : FactoryAttestation}
    (hmem : (id, attestation) ∈ rows) {body : CertificateBody} {check : GenuineCheck}
    (hverify : verifyFactoryAttestation C attestation.attested check.factoryKey
      attestation.challenge id attestation.signature = .ok body) :
    ((rows.map fun row => (some row.1, some row.2)).foldl (GenuineCheck.loadRow C)
      check).certs[id]? = some (attestation, body) := by
  induction rows generalizing check with
  | nil => exact absurd hmem List.not_mem_nil
  | cons row rows ih =>
      rw [List.map_cons, List.nodup_cons] at hnodup
      rw [List.map_cons, List.foldl_cons]
      rcases List.mem_cons.1 hmem with rfl | hmem
      · rw [foldl_loadRow_not_mem hnodup.1, GenuineCheck.loadRow, hverify]
        dsimp only
        rw [GenuineCheck.applyMutation_insert_certs, BTreeMap.getElem?_insert,
          (verifyFactoryAttestation_eq_ok hverify).1, if_pos rfl]
      · refine ih hnodup.2 hmem ?_
        rw [(loadRow_rest check _).2]
        exact hverify

/-- **What is loaded** when every record on file verifies. -/
theorem loadDisk_certs {disk : Disk} (hverified : DiskVerified C factoryKey disk)
    (order : HashOrder (DeviceId × FactoryAttestation)) (id : DeviceId) :
    (GenuineCheck.loadDisk C factoryKey disk order).certs[id]?.map Prod.fst = disk.get? id := by
  have hkeys : ((order.order disk.rows).map Prod.fst).Perm (disk.rows.map Prod.fst) :=
    (order.perm disk.rows).map Prod.fst
  cases hget : disk.get? id with
  | none =>
      have hnot : id ∉ (order.order disk.rows).map Prod.fst := by
        rw [hkeys.mem_iff, Table.mem_keys_iff, hget]
        rintro ⟨_, hsome⟩
        cases hsome
      rw [GenuineCheck.loadDisk, GenuineCheck.load, selectRows, foldl_loadRow_not_mem hnot]
      simp [GenuineCheck.new]
  | some attestation =>
      obtain ⟨body, hbody⟩ := hverified id attestation hget
      have hmem : (id, attestation) ∈ order.order disk.rows :=
        (order.perm _).mem_iff.2 (Table.mem_rows_iff.2 hget)
      rw [GenuineCheck.loadDisk, GenuineCheck.load, selectRows,
        foldl_loadRow_mem (hkeys.nodup_iff.2 disk.nodup) hmem hbody, Option.map_some]

/-! ### What a call stages -/

/-- A call stages nothing and leaves the records alone, or it is a reply that proves a device. -/
inductive Stages (launch : Launch) (call : Call) : Prop
  | nothing (hstaged : launch.check.staged C call = [])
      (hcerts : (launch.call C call).check.certs = launch.check.certs)
  | proven (from_ : DeviceId) (session : Session) (ids : List DeviceId) (s : Staging)
      (hproven : Staging.Proven { check := launch.check, update := [] } from_ session ids s)
      (hstaged : launch.check.staged C call = s.update)
      (hcheck : (launch.call C call).check = s.check)
      (hrecorded : ∀ attestation body,
        Staging.recorded { check := launch.check, update := [] } from_ session =
          some (attestation, body) →
        verifyFactoryAttestation C attestation.attested factoryKey attestation.challenge from_
          attestation.signature = .ok body)

theorem Sound.stages {launch : Launch} (h : Sound C factoryKey launch) (call : Call) :
    @Stages C factoryKey launch call := by
  cases call with
  | connected id firmwareSupportsCheck draw =>
      exact .nothing rfl (GenuineCheck.pushEvent_certs _ id)
  | disconnected id | answer request => exact .nothing rfl rfl
  | recv from_ message draw =>
      have hreceived := @Staging.recv_received C { check := launch.check, update := [] } from_
        message draw
      generalize hresult : Staging.recv C { check := launch.check, update := [] } from_ message draw
        = result at hreceived
      have hstaged : launch.check.staged C (.recv from_ message draw) = result.2.update := by
        rw [GenuineCheck.staged, hresult]
      have hcheck : (launch.call C (.recv from_ message draw)).check = result.2.check := by
        rw [Launch.call, GenuineCheck.call]
        exact congrArg (fun result => result.2.check) hresult
      cases hreceived with
      | ignored | failed | attested | stale =>
          refine .nothing hstaged ((congrArg GenuineCheck.certs hcheck).trans ?_)
          rfl
      | @proven session challenge attestedDigest signature hsession houtstanding _ hverify =>
          obtain ⟨since, -, hold⟩ := h.sessions from_ session hsession
          obtain ⟨ids, hproven⟩ := @Staging.prove_proven { check := launch.check, update := [] }
            from_ session draw.order fun attestation body hpending =>
              (verifyFactoryAttestation_eq_ok (hold.pending attestation body hpending)).1
          refine .proven from_ session ids _ hproven hstaged hcheck fun attestation body hget => ?_
          rw [← h.key]
          exact hold.recorded h.records hget

/-! ### Writing an update -/

/-- Inserted rows that verify leave a verified store, whatever else is written. -/
theorem persistUpdate_verified {disk : Disk} (hdisk : DiskVerified C factoryKey disk)
    {update : List GenuineCheckMutation}
    (hupdate : ∀ attestation body, .insert attestation body ∈ update →
      ∃ body, verifyFactoryAttestation C attestation.attested factoryKey attestation.challenge
        attestation.attested.deviceId attestation.signature = .ok body) :
    DiskVerified C factoryKey (persistUpdate disk update) := by
  induction update generalizing disk with
  | nil => exact hdisk
  | cons mutation update ih =>
      refine ih (fun id attestation hget => ?_) fun attestation body hmem =>
        hupdate attestation body (List.mem_cons_of_mem _ hmem)
      cases mutation with
      | insert attestation' body' =>
          rw [persistRow, Table.get?_insertOrReplace] at hget
          split at hget
          · rename_i hid
            obtain rfl := Option.some.inj hget
            rw [← hid]
            exact hupdate attestation' body' List.mem_cons_self
          · exact hdisk id attestation hget
      | remove deviceId =>
          rw [persistRow, Table.get?_deleteWhere] at hget
          split at hget
          · cases hget
          · exact hdisk id attestation hget

theorem get?_foldl_remove (disk : Disk) (ids : List DeviceId) (id : DeviceId) :
    ((ids.map GenuineCheckMutation.remove).foldl persistRow disk).get? id =
      if id ∈ ids then none else disk.get? id := by
  induction ids generalizing disk with
  | nil => simp
  | cons id' ids ih =>
      rw [List.map_cons, List.foldl_cons, ih, persistRow, Table.get?_deleteWhere]
      by_cases hid : id = id'
      · simp [hid]
      · simp [hid]

/-- What is on file once the update of a device that has proven itself is written. -/
theorem get?_persistUpdate {check : GenuineCheck} {disk : Disk} {from_ : DeviceId}
    {session : Session} {ids : List DeviceId} {s : Staging}
    (hproven : Staging.Proven { check := check, update := [] } from_ session ids s)
    (hagree : ∀ id : DeviceId, check.certs[id]?.map Prod.fst = disk.get? id)
    (hid : ∀ attestation body, session.pending = some (attestation, body) →
      attestation.attested.deviceId = from_) (id : DeviceId) :
    (persistUpdate disk s.update).get? id =
      if id ∈ ids then none
      else if id = from_ then
        (Staging.recorded { check := check, update := [] } from_ session).map Prod.fst
      else disk.get? id := by
  rw [hproven.update, List.nil_append, persistUpdate, List.foldl_append, get?_foldl_remove]
  refine if_congr Iff.rfl rfl ?_
  unfold Staging.inserted Staging.recorded
  cases hpending : session.pending with
  | none =>
      by_cases h : id = from_
      · rw [if_pos h, h]
        exact (hagree from_).symm
      · rw [if_neg h]
        rfl
  | some entry =>
      obtain ⟨attestation, body⟩ := entry
      have hfrom := hid attestation body hpending
      by_cases hsame : check.certs[from_]? = some (attestation, body)
      · simp only [if_pos hsame, List.foldl_nil]
        by_cases h : id = from_
        · rw [if_pos h, h, ← hagree, hsame]
          rfl
        · rw [if_neg h]
      · simp only [if_neg hsame, List.foldl_cons, List.foldl_nil, persistRow,
          Table.get?_insertOrReplace, hfrom]
        by_cases h : id = from_
        · rw [if_pos h, if_pos h.symm]
          rfl
        · rw [if_neg h, if_neg (Ne.symm h)]

/-! ### Questions -/

/-- How many questions a connection may still be asked. -/
def Session.questionsLeft (session : Session) : ℕ :=
  match session.outstanding with
  | none => 0
  | some (.requestFactoryAttestation _) => 1
  | some (.requestIdentityAttestation _ _) => if session.pending.isSome then 0 else 2

/-- A device that is connected was asked so few questions that three will do. -/
def Questions (launch : Launch) : Prop :=
  ∀ id since, sinceConnected id launch.events = some since →
    ∃ session, launch.check.sessions[id]? = some session ∧
      (asked id since).length + session.questionsLeft ≤ 3

theorem asked_concat (id : DeviceId) (since : List Event) (event : Event) :
    (asked id (since ++ [event])).length =
      (asked id since).length + (event.asks id).toList.length := by
  have hlast : asked id [event] = (event.asks id).toList := by
    rw [asked, List.filterMap_cons, List.filterMap_nil]
    cases event.asks id <;> rfl
  rw [asked_append, List.length_append, hlast]

theorem asks_received_of_ne {id from_ : DeviceId} (h : from_ ≠ id) (message : DeviceMessage)
    (answer : Except GenuineError (Option CoordinatorMessage)) :
    (Event.received from_ message answer).asks id = none := by
  cases answer with
  | error e => rfl
  | ok request => exact if_neg h

theorem Questions.connected {launch : Launch} (h : Questions launch) (id : DeviceId)
    (firmwareSupportsCheck : Bool) (draw : Draw) :
    Questions (launch.call C (.connected id firmwareSupportsCheck draw)) := by
  intro id' since hsince
  set request := (launch.check.connected C id firmwareSupportsCheck draw).1 with hrequest
  have hsessions : (launch.call C (.connected id firmwareSupportsCheck draw)).check.sessions =
      launch.check.sessions.insert id
        { firmwareSupportsCheck := firmwareSupportsCheck, proven := false, outstanding := request,
          pending := none } := GenuineCheck.pushEvent_sessions _ id
  have hsince' : sinceConnected id' (launch.events ++ [.connected id request]) = some since :=
    hsince
  rw [sinceConnected_connected] at hsince'
  rw [hsessions, BTreeMap.getElem?_insert]
  by_cases hid : id = id'
  · subst hid
    rw [if_pos rfl] at hsince' ⊢
    obtain rfl := Option.some.inj hsince'
    refine ⟨_, rfl, ?_⟩
    have hasked : (asked id [.connected id request]).length = request.toList.length := by
      have hasks : (Event.connected id request).asks id = request := if_pos rfl
      rw [asked, List.filterMap_cons, hasks, List.filterMap_nil]
      cases request <;> rfl
    rw [hasked]
    rcases request with _ | _ | _
    · exact Nat.zero_le 3
    · exact Nat.le_succ 2
    · exact Nat.le_refl 3
  · rw [if_neg hid] at hsince' ⊢
    obtain ⟨since₀, hsince₀, rfl⟩ := Option.map_eq_some_iff.1 hsince'
    obtain ⟨session, hsession, hleft⟩ := h id' since₀ hsince₀
    refine ⟨session, hsession, ?_⟩
    have hasks : (Event.connected id request).asks id' = none := if_neg hid
    rw [asked_concat, hasks]
    exact hleft

theorem Questions.disconnected {launch : Launch} (h : Questions launch) (id : DeviceId) :
    Questions (launch.call C (.disconnected id)) := by
  intro id' since hsince
  have hsince' : sinceConnected id' (launch.events ++ [.disconnected id]) = some since := hsince
  rw [sinceConnected_disconnected] at hsince'
  split at hsince'
  · cases hsince'
  rename_i hid
  obtain ⟨since₀, hsince₀, rfl⟩ := Option.map_eq_some_iff.1 hsince'
  obtain ⟨session, hsession, hleft⟩ := h id' since₀ hsince₀
  refine ⟨session, ?_, ?_⟩
  · show (launch.check.sessions.erase id)[id']? = some session
    rw [BTreeMap.getElem?_erase, if_neg hid, hsession]
  · rw [asked_concat]
    exact hleft

theorem Questions.answer {launch : Launch} (h : Questions launch) (request : CoordinatorMessage) :
    Questions (launch.call C (.answer request)) := by
  intro id' since hsince
  have hsince' : sinceConnected id' (launch.events ++ [.answered request]) = some since := hsince
  rw [sinceConnected_answered] at hsince'
  obtain ⟨since₀, hsince₀, rfl⟩ := Option.map_eq_some_iff.1 hsince'
  obtain ⟨session, hsession, hleft⟩ := h id' since₀ hsince₀
  refine ⟨session, hsession, ?_⟩
  rw [asked_concat]
  exact hleft

/-- A reply asks as many questions as are no longer left. -/
theorem Questions.received {launch : Launch} (h : Questions launch)
    (hsound : Sound C factoryKey launch) {from_ : DeviceId}
    {message : DeviceMessage} {draw : Draw}
    {answer : Except GenuineError (Option CoordinatorMessage)} {s : Staging}
    (hreceived :
      Staging.Received C { check := launch.check, update := [] } from_ message draw (answer, s)) :
    Questions
      { check := s.check, events := launch.events ++ [.received from_ message answer] } := by
  intro id since hsince
  rw [sinceConnected_received] at hsince
  obtain ⟨since₀, hsince₀, rfl⟩ := Option.map_eq_some_iff.1 hsince
  obtain ⟨session₀, hsession₀, hleft⟩ := h id since₀ hsince₀
  rw [asked_concat]
  -- the session of another device
  have hother : from_ ≠ id → s.check.sessions[id]? = some session₀ →
      ∃ session, s.check.sessions[id]? = some session ∧
        (asked id since₀).length + ((Event.received from_ message answer).asks id).toList.length +
          session.questionsLeft ≤ 3 := by
    intro hne hsession
    refine ⟨session₀, hsession, ?_⟩
    rw [asks_received_of_ne hne]
    exact hleft
  cases hreceived with
  | ignored =>
      refine ⟨session₀, hsession₀, ?_⟩
      have hasks : (Event.received from_ message (.ok none)).asks id = none := ite_self none
      rw [hasks]
      exact hleft
  | failed e => exact ⟨session₀, hsession₀, hleft⟩
  | @attested session attestation body hsession houtstanding _ _ =>
      by_cases hid : from_ = id
      · subst hid
        obtain rfl := Option.some.inj (hsession₀.symm.trans hsession)
        refine ⟨_, (BTreeMap.getElem?_insert _ _ _ _).trans (if_pos rfl), ?_⟩
        have hhad : session₀.questionsLeft = 1 := by
          rw [Session.questionsLeft, houtstanding]
        have hasks : (Event.received from_ message (.ok (some
            (.requestIdentityAttestation draw.challenge (attestation.attested.digest C))))).asks
            from_ = some _ := if_pos rfl
        rw [hasks]
        rw [hhad] at hleft
        exact hleft
      · refine hother hid ?_
        exact (BTreeMap.getElem?_insert _ _ _ _).trans ((if_neg hid).trans hsession₀)
  | @stale session challenge attestedDigest hsession houtstanding hpending =>
      by_cases hid : from_ = id
      · subst hid
        obtain rfl := Option.some.inj (hsession₀.symm.trans hsession)
        refine ⟨_, (BTreeMap.getElem?_insert _ _ _ _).trans (if_pos rfl), ?_⟩
        have hhad : session₀.questionsLeft = 2 := by
          rw [Session.questionsLeft, houtstanding]
          dsimp only
          rw [hpending, Option.isSome_none, if_neg Bool.false_ne_true]
        have hasks : (Event.received from_ message
            (.ok (some (.requestFactoryAttestation draw.challenge)))).asks from_ = some _ :=
          if_pos rfl
        rw [hasks]
        rw [hhad] at hleft
        exact hleft
      · refine hother hid ?_
        exact (BTreeMap.getElem?_insert _ _ _ _).trans ((if_neg hid).trans hsession₀)
  | @proven session challenge attestedDigest signature hsession houtstanding _ _ =>
      obtain ⟨since₁, -, hold⟩ := hsound.sessions from_ session hsession
      obtain ⟨ids, hproven⟩ := @Staging.prove_proven { check := launch.check, update := [] }
        from_ session draw.order fun attestation body hpending =>
          (verifyFactoryAttestation_eq_ok (hold.pending attestation body hpending)).1
      have hasks : (Event.received from_ message (.ok none)).asks id = none := ite_self none
      rw [hasks, hproven.sessions]
      have hnone : (asked id since₀).length ≤ 3 := le_trans (Nat.le_add_right _ _) hleft
      split
      · exact ⟨session₀.drop, by rw [hsession₀]; rfl, hnone⟩
      split
      · exact ⟨_, rfl, hnone⟩
      · exact ⟨session₀, hsession₀, hleft⟩

theorem Questions.call {launch : Launch} (h : Questions launch)
    (hsound : Sound C factoryKey launch) (call : Call) : Questions (launch.call C call) := by
  cases call with
  | connected id firmwareSupportsCheck draw => exact h.connected id firmwareSupportsCheck draw
  | disconnected id => exact h.disconnected id
  | recv from_ message draw => exact h.received hsound (Staging.recv_received _ from_ message draw)
  | answer request => exact h.answer request

/-! ### One step -/

variable (C factoryKey) in
/-- What holds of a process and what is on file, whenever it dies. -/
structure World.Good (w : World) : Prop where
  sound : Sound C factoryKey w.launch
  agree : ∀ id : DeviceId, w.launch.check.certs[id]?.map Prod.fst = w.disk.get? id
  questions : Questions w.launch

/-- A record on file is one in memory. -/
theorem World.Good.exists_cert {w : World} (h : w.Good C factoryKey) {id : DeviceId}
    {attestation : FactoryAttestation} (hget : w.disk.get? id = some attestation) :
    ∃ body, w.launch.check.certs[id]? = some (attestation, body) ∧
      verifyFactoryAttestation C attestation.attested factoryKey attestation.challenge id
        attestation.signature = .ok body := by
  rw [← h.agree] at hget
  obtain ⟨⟨attestation', body⟩, hcert, rfl⟩ := Option.map_eq_some_iff.1 hget
  refine ⟨body, hcert, ?_⟩
  rw [← h.sound.key]
  exact h.sound.records id _ body hcert

theorem World.Good.verified {w : World} (h : w.Good C factoryKey) :
    DiskVerified C factoryKey w.disk := by
  intro id attestation hget
  obtain ⟨body, -, hverify⟩ := h.exists_cert hget
  exact ⟨body, hverify⟩

/-- What a session would put on file is filed under its device. -/
theorem deviceId_of_pending {check : GenuineCheck} {from_ : DeviceId} {session : Session}
    (hrecorded : ∀ attestation body,
      Staging.recorded { check := check, update := [] } from_ session = some (attestation, body) →
      verifyFactoryAttestation C attestation.attested factoryKey attestation.challenge from_
        attestation.signature = .ok body)
    (attestation : FactoryAttestation) (body : CertificateBody)
    (hpending : session.pending = some (attestation, body)) :
    attestation.attested.deviceId = from_ := by
  have hget : Staging.recorded { check := check, update := [] } from_ session =
      some (attestation, body) := by
    rw [Staging.recorded, hpending]
    rfl
  exact (verifyFactoryAttestation_eq_ok (hrecorded attestation body hget)).1

theorem World.Good.call {w : World} (h : w.Good C factoryKey) (call : Call) :
    (w.step C factoryKey (.call call)).Good C factoryKey := by
  refine ⟨h.sound.call call, fun id => ?_, h.questions.call h.sound call⟩
  show (w.launch.call C call).check.certs[id]?.map Prod.fst =
    (persistUpdate w.disk (w.launch.check.staged C call)).get? id
  cases h.sound.stages call with
  | nothing hstaged hcerts =>
      rw [hstaged, hcerts]
      exact h.agree id
  | proven from_ session ids s hproven hstaged hcheck hrecorded =>
      rw [hstaged, hcheck, hproven.certs,
        get?_persistUpdate hproven h.agree (deviceId_of_pending hrecorded)]
      split
      · rfl
      split
      · rfl
      · exact h.agree id

/-- Any part of an update leaves a verified store. -/
theorem World.Good.cut_verified {w : World} (h : w.Good C factoryKey) (call : Call)
    (written : ℕ) :
    DiskVerified C factoryKey
      (persistUpdate w.disk ((w.launch.check.staged C call).take written)) := by
  refine persistUpdate_verified h.verified fun attestation body hmem => ?_
  have hmem := List.mem_of_mem_take hmem
  cases h.sound.stages call with
  | nothing hstaged _ =>
      rw [hstaged] at hmem
      exact absurd hmem List.not_mem_nil
  | proven from_ session ids s hproven hstaged _ hrecorded =>
      rw [hstaged, hproven.update, List.nil_append, List.mem_append] at hmem
      rcases hmem with hmem | hmem
      · unfold Staging.inserted at hmem
        split at hmem
        · rename_i attestation' body' hpending
          split at hmem
          · exact absurd hmem List.not_mem_nil
          · cases List.mem_singleton.1 hmem
            refine ⟨body, ?_⟩
            rw [deviceId_of_pending hrecorded attestation body hpending]
            refine hrecorded attestation body ?_
            rw [Staging.recorded, hpending]
            rfl
        · exact absurd hmem List.not_mem_nil
      · obtain ⟨_, _, heq⟩ := List.mem_map.1 hmem
        cases heq

theorem World.Good.die {w : World} (h : w.Good C factoryKey) (call : Call) (written : ℕ)
    (order : HashOrder (DeviceId × FactoryAttestation)) :
    (w.step C factoryKey (.die call written order)).Good C factoryKey where
  sound := sound_launched factoryKey (selectRows _ order) []
  agree := loadDisk_certs (h.cut_verified call written) order
  questions _ _ hsince := absurd hsince (Option.some_ne_none _).symm

/-- **One step** keeps the store, whether or not the process dies. -/
theorem World.Good.step {w : World} (h : w.Good C factoryKey) (op : Op) :
    (w.step C factoryKey op).Good C factoryKey := by
  cases op with
  | call call => exact h.call call
  | die call written order => exact h.die call written order

/-! ### One id for each DS key -/

/-- The DS key of a record that verifies is the one its certificate names. -/
theorem dsPublicKey_of_verified {attestation : FactoryAttestation} {body : CertificateBody}
    {id : DeviceId}
    (h : verifyFactoryAttestation C attestation.attested factoryKey attestation.challenge id
      attestation.signature = .ok body) :
    body.dsPublicKey = attestation.attested.certificate.body.dsPublicKey := by
  rw [verifyCertificate_eq_ok (verifyFactoryAttestation_eq_ok h).2]

/-- The whole update of a call leaves one id for each DS key. -/
theorem World.Good.oneId_staged {w : World} (h : w.Good C factoryKey) (hone : OneId w.disk)
    (call : Call) : OneId (persistUpdate w.disk (w.launch.check.staged C call)) := by
  cases h.sound.stages call with
  | nothing hstaged _ =>
      rw [hstaged]
      exact hone
  | proven from_ session ids s hproven hstaged _ hrecorded =>
      rw [hstaged]
      -- a record of another device with the DS key of the record of `from_` is removed
      have hgone : ∀ (id : DeviceId) (attestation attestation' : FactoryAttestation), id ≠ from_ →
          w.disk.get? id = some attestation →
          (Staging.recorded { check := w.launch.check, update := [] } from_ session).map Prod.fst =
            some attestation' →
          attestation.attested.certificate.body.dsPublicKey =
            attestation'.attested.certificate.body.dsPublicKey → id ∈ ids := by
        intro id attestation attestation' hne hget hentry hkey
        obtain ⟨⟨attestation', body'⟩, hrec, rfl⟩ := Option.map_eq_some_iff.1 hentry
        obtain ⟨body, hcert, hverify⟩ := h.exists_cert hget
        refine (hproven.mem_iff id).2 ⟨hne, _, hrec, attestation, body, hcert, ?_⟩
        rw [dsPublicKey_of_verified hverify, hkey,
          ← dsPublicKey_of_verified (hrecorded attestation' body' hrec)]
      have hget := get?_persistUpdate hproven h.agree (deviceId_of_pending hrecorded)
      intro id id' attestation attestation' hid hid' hkey
      rw [hget] at hid hid'
      split at hid
      · cases hid
      rename_i hleft
      split at hid'
      · cases hid'
      rename_i hleft'
      by_cases hfrom : id = from_
      · by_cases hfrom' : id' = from_
        · rw [hfrom, hfrom']
        · rw [if_pos hfrom] at hid
          rw [if_neg hfrom'] at hid'
          exact absurd (hgone id' attestation' attestation hfrom' hid' hid hkey.symm) hleft'
      · rw [if_neg hfrom] at hid
        by_cases hfrom' : id' = from_
        · rw [if_pos hfrom'] at hid'
          exact absurd (hgone id attestation attestation' hfrom hid hid' hkey) hleft
        · rw [if_neg hfrom'] at hid'
          exact hone id id' attestation attestation' hid hid' hkey

/-- When some rows of an update are written and some are not, the record of the device that proved
itself is there and so is the one it supersedes. -/
theorem World.Good.not_oneId_cut {w : World} (h : w.Good C factoryKey) (hone : OneId w.disk)
    {call : Call} {written : ℕ} (hsome : 0 < written)
    (hnotall : written < (w.launch.check.staged C call).length) :
    ¬ OneId (persistUpdate w.disk ((w.launch.check.staged C call).take written)) := by
  cases h.sound.stages call with
  | nothing hstaged _ =>
      rw [hstaged] at hnotall
      exact absurd hnotall (Nat.not_lt_zero _)
  | proven from_ session ids s hproven hstaged _ hrecorded =>
      rw [hstaged, hproven.update, List.nil_append, List.length_append, List.length_map] at hnotall
      rw [hstaged, hproven.update, List.nil_append]
      -- what is known of a device that is superseded
      have hold : ∀ id ∈ ids, id ≠ from_ ∧ ∃ (attestation : FactoryAttestation) (entry : _ × _),
          w.disk.get? id = some attestation ∧
          Staging.recorded { check := w.launch.check, update := [] } from_ session = some entry ∧
          attestation.attested.certificate.body.dsPublicKey =
            entry.1.attested.certificate.body.dsPublicKey := by
        intro id hid
        obtain ⟨hne, entry, hentry, attestation, body, hcert, hkey⟩ := (hproven.mem_iff id).1 hid
        refine ⟨hne, attestation, entry, ?_, hentry, ?_⟩
        · rw [← h.agree, hcert]
          rfl
        · have hverify := h.sound.records id attestation body hcert
          rw [← dsPublicKey_of_verified hverify, hkey,
            dsPublicKey_of_verified (hrecorded entry.1 entry.2 hentry)]
      have hatmost : ids.length ≤ 1 := by
        rcases ids with _ | ⟨id, _ | ⟨id', ids⟩⟩
        · exact Nat.zero_le 1
        · exact Nat.le_refl 1
        · obtain ⟨-, attestation, entry, hget, hentry, hkey⟩ := hold id (by simp)
          obtain ⟨-, attestation', entry', hget', hentry', hkey'⟩ := hold id' (by simp)
          obtain rfl := Option.some.inj (hentry.symm.trans hentry')
          obtain rfl := hone id id' attestation attestation' hget hget' (hkey.trans hkey'.symm)
          exact absurd hproven.nodup (by simp)
      cases hpending : session.pending with
      | none =>
          simp only [Staging.inserted, hpending, List.length_nil] at hnotall
          omega
      | some entry =>
          obtain ⟨attestation, body⟩ := entry
          simp only [Staging.inserted, hpending] at hnotall ⊢
          by_cases hsame : w.launch.check.certs[from_]? = some (attestation, body)
          · rw [if_pos hsame, List.length_nil] at hnotall
            omega
          · rw [if_neg hsame, List.length_singleton] at hnotall
            obtain ⟨id, rfl⟩ : ∃ id, ids = [id] := List.length_eq_one_iff.1 (by omega)
            obtain ⟨hne, attestation', entry, hget, hentry, hkey⟩ :=
              hold id (List.mem_singleton_self id)
            have hrec : Staging.recorded { check := w.launch.check, update := [] } from_ session =
                some (attestation, body) := by
              rw [Staging.recorded, hpending]
              rfl
            obtain rfl := Option.some.inj (hrec.symm.trans hentry)
            obtain rfl : written = 1 := by
              rw [List.length_singleton] at hnotall
              omega
            have hid := deviceId_of_pending hrecorded attestation body hpending
            rw [if_neg hsame]
            intro honly
            refine hne (honly id from_ attestation' attestation ?_ ?_ hkey)
            · show (w.disk.insertOrReplace attestation.attested.deviceId attestation).get? id = _
              rw [Table.get?_insertOrReplace, hid, if_neg (Ne.symm hne), hget]
            · show (w.disk.insertOrReplace attestation.attested.deviceId attestation).get? from_ = _
              rw [Table.get?_insertOrReplace, hid, if_pos rfl]

/-! ### Runs -/

theorem good_new : (World.new factoryKey).Good C factoryKey where
  sound := sound_launched factoryKey [] []
  agree id := by simp [World.new, GenuineCheck.new]
  questions _ _ hsince := absurd hsince (Option.some_ne_none _).symm

theorem World.Good.foldl {w : World} (h : w.Good C factoryKey) (ops : List Op) :
    (ops.foldl (World.step C factoryKey) w).Good C factoryKey := by
  induction ops generalizing w with
  | nil => exact h
  | cons op ops ih => exact ih (h.step op)

/-- One id for each DS key is on file in every state of a run exactly when no update is cut. -/
theorem World.Good.oneId_iff {w : World} (h : w.Good C factoryKey) (hone : OneId w.disk)
    (ops : List Op) :
    (∀ n, OneId ((ops.take n).foldl (World.step C factoryKey) w).disk) ↔
      Whole C factoryKey w ops := by
  induction ops generalizing w with
  | nil =>
      refine iff_of_true (fun n => ?_) trivial
      rw [List.take_nil]
      exact hone
  | cons op ops ih =>
      have hnext : OneId (w.step C factoryKey op).disk →
          ((∀ n, OneId (((op :: ops).take n).foldl (World.step C factoryKey) w).disk) ↔
            Whole C factoryKey (w.step C factoryKey op) ops) := by
        intro hstep
        rw [← ih (h.step op) hstep]
        constructor
        · exact fun hall n => hall (n + 1)
        · intro hall n
          cases n with
          | zero => exact hone
          | succ n => exact hall n
      cases op with
      | call call =>
          rw [Whole, true_and]
          exact hnext (h.oneId_staged hone call)
      | die call written order =>
          rw [Whole]
          by_cases hwhole : written = 0 ∨ (w.launch.check.staged C call).length ≤ written
          · rw [and_iff_right hwhole]
            refine hnext ?_
            rcases hwhole with rfl | hall
            · exact hone
            · show OneId (persistUpdate w.disk ((w.launch.check.staged C call).take written))
              rw [List.take_of_length_le hall]
              exact h.oneId_staged hone call
          · rw [not_or, Nat.not_le] at hwhole
            refine iff_of_false (fun hall => ?_)
              fun h => absurd h.1 (not_or.2 ⟨hwhole.1, Nat.not_le.2 hwhole.2⟩)
            exact h.not_oneId_cut hone (Nat.pos_of_ne_zero hwhole.1) hwhole.2 (hall 1)

theorem recv_error {s : Staging} {from_ : DeviceId} {message : DeviceMessage} {draw : Draw}
    {e : GenuineError} (h : (s.recv C from_ message draw).1 = .error e) :
    (s.recv C from_ message draw).2 = s := by
  have hreceived := @Staging.recv_received C s from_ message draw
  generalize hresult : s.recv C from_ message draw = result at h hreceived ⊢
  cases hreceived with
  | ignored | failed => rfl
  | attested | stale | proven => cases h

/-- **The store.** In every run the records on file verify, loading them gives those in memory, a
connection is asked at most three questions, and a reply that fails changes nothing. No two devices
on file ever name one DS key exactly when no update is cut. -/
theorem store_is_kept (C : Crypto) (factoryKey : XOnly) (ops : List Op) :
    ((∀ n, OneId (World.run C factoryKey (ops.take n)).disk) ↔
      Whole C factoryKey (.new factoryKey) ops) ∧
    DiskVerified C factoryKey (World.run C factoryKey ops).disk ∧
    (∀ order, (GenuineCheck.loadDisk C factoryKey (World.run C factoryKey ops).disk order).certs =
      (World.run C factoryKey ops).launch.check.certs) ∧
    (∀ id since, sinceConnected id (World.run C factoryKey ops).launch.events = some since →
      (asked id since).length ≤ 3) ∧
    ∀ (s : Staging) (from_ : DeviceId) (message : DeviceMessage) (draw : Draw) (e : GenuineError),
      (s.recv C from_ message draw).1 = .error e → (s.recv C from_ message draw).2 = s := by
  have hgood : (World.run C factoryKey ops).Good C factoryKey := good_new.foldl ops
  refine ⟨good_new.oneId_iff ?_ ops, hgood.verified, fun order => ?_, fun id since hsince => ?_,
    fun s from_ message draw e => recv_error⟩
  · intro id id' attestation attestation' hget
    cases hget
  · refine Std.ExtTreeMap.ext_getElem? fun {id} => ?_
    have hload := loadDisk_certs hgood.verified order id
    cases hget : (World.run C factoryKey ops).disk.get? id with
    | none =>
        have hagree := hgood.agree id
        rw [hget, Option.map_eq_none_iff] at hload hagree
        rw [hload, hagree]
    | some attestation =>
        obtain ⟨body, hcert, hverify⟩ := hgood.exists_cert hget
        rw [hget] at hload
        obtain ⟨⟨attestation', body'⟩, hcert', rfl⟩ := Option.map_eq_some_iff.1 hload
        obtain ⟨hverified, -, hkey⟩ := @load_spec C factoryKey
          (selectRows (World.run C factoryKey ops).disk order)
        have hverify' := hverified id attestation' body' hcert'
        rw [hkey, hverify] at hverify'
        obtain rfl := Except.ok.inj hverify'
        rw [hcert', hcert]
  · obtain ⟨session, -, hleft⟩ := hgood.questions id since hsince
    exact le_trans (Nat.le_add_right _ _) hleft

/-! ### An update that is cut -/

/-- One piece of hardware under an old and a new id. -/
def twin (deviceId : DeviceId) : AttestedDevice where
  deviceId := deviceId
  certificate := sampleAttested.certificate

/-- Signatures verify when they are the ones that are sent below. -/
def twinCrypto : Crypto where
  evenY := fun id => some (id.setWidth 256)
  schnorrVerify := fun _ tag _ signature =>
    signature = if tag = IDENTITY_MESSAGE_TAG then 12 else 11
  isPkcs1Der := fun bytes => bytes = [1]
  rsaVerify := fun key _ signature => key = [1] && signature = 13
  sha256 := fun bytes => .replicate 32 (bytes.headD 0)
  encodeBody := fun _ => [4]
  encodeAttested := fun attested => if attested.deviceId = 7 then [7] else [8]
  encodeSigned := fun _ => [9]

/-- A device connects and makes its factory attestation. -/
def attestAs (deviceId : DeviceId) : List Op :=
  [.call (.connected deviceId true sampleFirst),
    .call (.recv deviceId (.factoryAttestation (twin deviceId) { rsa3072 := 13 }) sampleSecond)]

/-- The device proves itself under one id and then under another, and the process dies once the
record of the new id is written. -/
def cutOps : List Op :=
  attestAs 7 ++ [.call (.recv 7 (.identityAttestation 12) sampleFirst)] ++ attestAs 8 ++
    [.die (.recv 8 (.identityAttestation 12) sampleFirst) 1 (.asListed _)]

theorem cut_keeps_both : ¬ ∀ (C : Crypto) (factoryKey : XOnly) (ops : List Op),
    OneId (World.run C factoryKey ops).disk := by
  intro h
  have hold : (World.run twinCrypto 1 cutOps).disk.get? 7 =
      some { attested := twin 7, signature := { rsa3072 := 13 },
             challenge := sampleFirst.challenge } := by
    decide +kernel
  have hnew : (World.run twinCrypto 1 cutOps).disk.get? 8 =
      some { attested := twin 8, signature := { rsa3072 := 13 },
             challenge := sampleFirst.challenge } := by
    decide +kernel
  exact absurd (h twinCrypto 1 cutOps 7 8 _ _ hold hnew rfl) (by decide +kernel)

end Frostsnap.Genuine
