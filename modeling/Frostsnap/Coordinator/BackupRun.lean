import Frostsnap.Core.Ids
import Frostsnap.Lib.Table

/-!
# Backup runs

Which shares of a key still have to be backed up, as `backup_run.rs` of the coordinator keeps it in
memory and in a table. A run is started by adding its shares, each of which is marked when it is
complete, and cleared as a whole. An operation changes the memory first; what it changed is written
afterwards in one transaction.

In memory a share that is added again is simply not complete any more, where the row of it cannot be
inserted a second time: the transaction fails, and the memory and the table have parted.

## Main results

* `Stored.startRun`, `Stored.mutate`: what is staged leads a table to what is in memory.
* `persists_exactly`: every operation of a run is stored exactly when no share is added that is
  there already.
-/

namespace Frostsnap

namespace AccessStructureRef

/-- `range_for_key`. -/
def inRangeForKey (keyId : KeyId) (ref : AccessStructureRef) : Bool :=
  (compare { keyId := keyId, accessStructureId := 0 : AccessStructureRef } ref).isLE &&
    (compare ref { keyId := keyId, accessStructureId := BitVec.allOnes 256 }).isLE

end AccessStructureRef

namespace BackupRun

/-! ### In memory -/

/-- Maps each access structure to its share indices, and whether each is complete. -/
@[ext]
structure BackupState where
  runs : BTreeMap AccessStructureRef (BTreeMap ℕ Bool)

/-- What is staged. -/
inductive Mutation where
  | addShareNeedsBackup (ref : AccessStructureRef) (shareIndex : ℕ)
  | markShareComplete (ref : AccessStructureRef) (shareIndex : ℕ)
  | clearBackupState (ref : AccessStructureRef)
  deriving DecidableEq

namespace BackupState

/-- No runs. -/
def default : BackupState where
  runs := ∅

/-- `apply_mutation`, and whether it changed something. -/
def applyMutation (s : BackupState) : Mutation → Bool × BackupState
  | .addShareNeedsBackup ref shareIndex =>
      let run := s.runs[ref]?.getD ∅
      (true, { runs := s.runs.insert ref (run.insert shareIndex false) })
  | .markShareComplete ref shareIndex =>
      let run := s.runs[ref]?.getD ∅
      (run[shareIndex]? ≠ some true, { runs := s.runs.insert ref (run.insert shareIndex true) })
  | .clearBackupState ref => (s.runs[ref]?.isSome, { runs := s.runs.erase ref })

/-- `mutate`. -/
def mutate (s : BackupState) (mutation : Mutation) (mutations : List Mutation) :
    BackupState × List Mutation :=
  let (changed, s) := s.applyMutation mutation
  (s, if changed then mutations ++ [mutation] else mutations)

/-- `start_run`. -/
def startRun (s : BackupState) (ref : AccessStructureRef) (shareIndices : List ℕ)
    (mutations : List Mutation) : BackupState × List Mutation :=
  shareIndices.foldl
    (fun (s, mutations) shareIndex => s.mutate (.addShareNeedsBackup ref shareIndex) mutations)
    (s, mutations)

/-- `mark_backup_complete`. -/
def markBackupComplete (s : BackupState) (ref : AccessStructureRef) (shareIndex : ℕ)
    (mutations : List Mutation) : BackupState × List Mutation :=
  s.mutate (.markShareComplete ref shareIndex) mutations

/-- `guess_access_structure_ref_for_key`. -/
def guessAccessStructureRefForKey (s : BackupState) (keyId : KeyId) : Option AccessStructureRef :=
  s.runs.keys.find? (AccessStructureRef.inRangeForKey keyId)

/-- `clear_backup_run`. -/
def clearBackupRun (s : BackupState) (keyId : KeyId) (mutations : List Mutation) :
    BackupState × List Mutation :=
  match s.guessAccessStructureRefForKey keyId with
  | some ref => s.mutate (.clearBackupState ref) mutations
  | none => (s, mutations)

end BackupState

/-! ### In the table -/

/-- The table `backup_runs`. -/
abbrev BackupRuns := Table (AccessStructureRef × ℕ) Bool

/-- The statement of `persist_update` for a mutation. -/
def persistMutation (t : BackupRuns) : Mutation → Option BackupRuns
  | .addShareNeedsBackup ref shareIndex => t.insert (ref, shareIndex) false
  | .markShareComplete ref shareIndex => some (t.insertOrReplace (ref, shareIndex) true)
  | .clearBackupState ref => some (t.deleteWhere fun key => key.1 = ref)

/-- `persist_update`: `none` when a statement fails, and then the transaction is rolled back. -/
def persistUpdate (t : BackupRuns) (update : List Mutation) : Option BackupRuns :=
  update.foldlM persistMutation t

/-- One row of `load`. -/
def loadRow (s : BackupState) (row : (AccessStructureRef × ℕ) × Bool) : BackupState :=
  let s := (s.applyMutation (.addShareNeedsBackup row.1.1 row.1.2)).2
  if row.2 then (s.applyMutation (.markShareComplete row.1.1 row.1.2)).2 else s

/-- `load`, from the rows in the order that they are read. -/
def load (rows : List ((AccessStructureRef × ℕ) × Bool)) : BackupState :=
  rows.foldl loadRow .default

/-! ### Operations -/

/-- An operation. -/
inductive Op where
  | startRun (ref : AccessStructureRef) (shareIndices : List ℕ)
  | markBackupComplete (ref : AccessStructureRef) (shareIndex : ℕ)
  | clearBackupRun (keyId : KeyId)
  deriving DecidableEq

/-- What is in memory, and what is stored. -/
structure Store where
  memory : BackupState
  table : BackupRuns

namespace Store

/-- What is loaded first. -/
def load (t : BackupRuns) : Store where
  memory := BackupRun.load t.rows
  table := t

/-- An operation in memory, and what it stages. -/
def stage (s : Store) : Op → BackupState × List Mutation
  | .startRun ref shareIndices => s.memory.startRun ref shareIndices []
  | .markBackupComplete ref shareIndex => s.memory.markBackupComplete ref shareIndex []
  | .clearBackupRun keyId => s.memory.clearBackupRun keyId []

/-- `mutate2`: the operation, and whether what it staged was stored. -/
def perform (s : Store) (op : Op) : Bool × Store :=
  let (memory, mutations) := s.stage op
  match persistUpdate s.table mutations with
  | some table => (true, { memory := memory, table := table })
  | none => (false, { memory := memory, table := s.table })

/-- Loading the rows, in any order, gives what is in memory. -/
def Loads (s : Store) : Prop := ∀ rows, rows.Perm s.table.rows → BackupRun.load rows = s.memory

/-- Every operation is stored, and what is stored is what is in memory before and after it. -/
def StoresAll : Store → List Op → Prop
  | s, [] => s.Loads
  | s, op :: ops => s.Loads ∧ (s.perform op).1 = true ∧ StoresAll (s.perform op).2 ops

end Store

/-- No share is added that is there already, or twice. -/
def Op.AddsNewShares (s : BackupState) : Op → Prop
  | .startRun ref shareIndices =>
      shareIndices.Nodup ∧
        ∀ shareIndex ∈ shareIndices, (s.runs[ref]?.getD ∅)[shareIndex]? = none
  | _ => True

/-- No operation does. -/
def Store.AllAddNewShares : Store → List Op → Prop
  | _, [] => True
  | s, op :: ops => op.AddsNewShares s.memory ∧ AllAddNewShares (s.perform op).2 ops

/-! ### What is in memory -/

namespace BackupState

/-- Whether a share is in a run, and complete. -/
def entry (s : BackupState) (key : AccessStructureRef × ℕ) : Option Bool :=
  (s.runs[key.1]?.getD ∅)[key.2]?

/-- No run is empty. -/
def Occupied (s : BackupState) : Prop :=
  ∀ (ref : AccessStructureRef) (run : BTreeMap ℕ Bool), s.runs[ref]? = some run →
    ∃ shareIndex : ℕ, run[shareIndex]? ≠ none

theorem ext_entry {s s' : BackupState} (hs : s.Occupied) (hs' : s'.Occupied)
    (h : ∀ key, s.entry key = s'.entry key) : s = s' := by
  have hentry : ∀ ref i, (s.runs[ref]?.getD ∅)[i]? = (s'.runs[ref]?.getD ∅)[i]? :=
    fun ref i => h (ref, i)
  refine BackupState.ext (Std.ExtTreeMap.ext_getElem? fun {ref} => ?_)
  have hruns := hentry ref
  cases hrun : s.runs[ref]? with
  | none =>
      cases hrun' : s'.runs[ref]? with
      | none => rfl
      | some run' =>
          obtain ⟨i, hi⟩ := hs' ref run' hrun'
          rw [hrun, hrun'] at hruns
          exact absurd (hruns i).symm hi
  | some run =>
      cases hrun' : s'.runs[ref]? with
      | none =>
          obtain ⟨i, hi⟩ := hs ref run hrun
          rw [hrun, hrun'] at hruns
          exact absurd (hruns i) hi
      | some run' =>
          rw [hrun, hrun'] at hruns
          exact congrArg some (Std.ExtTreeMap.ext_getElem? fun {i} => hruns i)

/-- What a run has after a share was put into it. -/
theorem entry_insert (s : BackupState) (ref : AccessStructureRef) (i : ℕ) (complete : Bool)
    (key : AccessStructureRef × ℕ) :
    (BackupState.mk (s.runs.insert ref ((s.runs[ref]?.getD ∅).insert i complete))).entry key =
      if (ref, i) = key then some complete else s.entry key := by
  obtain ⟨ref', j⟩ := key
  simp only [entry, BTreeMap.getElem?_insert, Prod.mk.injEq]
  by_cases href : ref = ref'
  · subst href
    rw [if_pos rfl, Option.getD_some, BTreeMap.getElem?_insert]
    by_cases hij : i = j
    · rw [if_pos hij, if_pos ⟨rfl, hij⟩]
    · rw [if_neg hij, if_neg fun h => hij h.2]
  · rw [if_neg href, if_neg fun h => href h.1]

theorem Occupied.insert {s : BackupState} (h : s.Occupied) (ref : AccessStructureRef) (i : ℕ)
    (complete : Bool) :
    (BackupState.mk
      (s.runs.insert ref ((s.runs[ref]?.getD ∅).insert i complete))).Occupied := by
  intro ref' run hrun
  simp only [BTreeMap.getElem?_insert] at hrun
  split at hrun
  · obtain rfl := Option.some.inj hrun
    refine ⟨i, ?_⟩
    rw [BTreeMap.getElem?_insert, if_pos rfl]
    exact Option.some_ne_none _
  · exact h ref' run hrun

/-- What a mutation makes of the entries. -/
theorem entry_applyMutation (s : BackupState) (m : Mutation) (key : AccessStructureRef × ℕ) :
    (s.applyMutation m).2.entry key =
      match m with
      | .addShareNeedsBackup ref i => if (ref, i) = key then some false else s.entry key
      | .markShareComplete ref i => if (ref, i) = key then some true else s.entry key
      | .clearBackupState ref => if key.1 = ref then none else s.entry key := by
  cases m with
  | addShareNeedsBackup ref i => exact s.entry_insert ref i false key
  | markShareComplete ref i => exact s.entry_insert ref i true key
  | clearBackupState ref =>
      simp only [applyMutation, entry, BTreeMap.getElem?_erase]
      by_cases href : ref = key.1
      · rw [if_pos href, if_pos href.symm]
        rfl
      · rw [if_neg href, if_neg fun h => href h.symm]

theorem Occupied.applyMutation {s : BackupState} (h : s.Occupied) (m : Mutation) :
    (s.applyMutation m).2.Occupied := by
  cases m with
  | addShareNeedsBackup ref i => exact h.insert ref i false
  | markShareComplete ref i => exact h.insert ref i true
  | clearBackupState ref =>
      intro ref' run hrun
      simp only [BackupState.applyMutation, BTreeMap.getElem?_erase] at hrun
      split at hrun
      · cases hrun
      · exact h ref' run hrun

/-- A mutation that changes nothing is not staged, and need not be. -/
theorem applyMutation_unchanged {s : BackupState} (h : s.Occupied) {m : Mutation}
    (hm : (s.applyMutation m).1 = false) : (s.applyMutation m).2 = s := by
  refine ext_entry (h.applyMutation m) h fun key => ?_
  rw [entry_applyMutation]
  cases m with
  | addShareNeedsBackup ref i => cases hm
  | markShareComplete ref i =>
      have htrue : s.entry (ref, i) = some true := by
        simpa [applyMutation, entry] using hm
      dsimp only
      split
      · rename_i hkey
        rw [← hkey, htrue]
      · rfl
  | clearBackupState ref =>
      have hnone : s.runs[ref]?.isSome = false := hm
      rw [Option.isSome_eq_false_iff, Option.isNone_iff_eq_none] at hnone
      dsimp only
      split
      · rename_i hkey
        rw [entry, hkey, hnone]
        rfl
      · rfl

end BackupState

/-! ### What is stored -/

/-- A table stores what is in memory. -/
structure Stored (t : BackupRuns) (s : BackupState) : Prop where
  occupied : s.Occupied
  entry : ∀ key, s.entry key = t.get? key

/-- **A mutation** does the same in memory and in the table, when its statement succeeds. -/
theorem Stored.applyMutation {t t' : BackupRuns} {s : BackupState} (h : Stored t s) {m : Mutation}
    (hm : persistMutation t m = some t') : Stored t' (s.applyMutation m).2 := by
  refine ⟨h.occupied.applyMutation m, fun key => ?_⟩
  rw [s.entry_applyMutation]
  cases m with
  | addShareNeedsBackup ref i =>
      rw [Table.get?_insert hm, h.entry]
  | markShareComplete ref i =>
      obtain rfl := Option.some.inj hm
      rw [Table.get?_insertOrReplace, h.entry]
  | clearBackupState ref =>
      obtain rfl := Option.some.inj hm
      rw [Table.get?_deleteWhere, h.entry]
      simp only [decide_eq_true_eq]

theorem entry_loadRow (s : BackupState) (row : (AccessStructureRef × ℕ) × Bool)
    (key : AccessStructureRef × ℕ) :
    (loadRow s row).entry key = if row.1 = key then some row.2 else s.entry key := by
  obtain ⟨⟨ref, i⟩, complete⟩ := row
  rw [loadRow]
  cases complete with
  | false => exact s.entry_applyMutation (.addShareNeedsBackup ref i) key
  | true =>
      show (BackupState.applyMutation _ (.markShareComplete ref i)).2.entry key = _
      rw [BackupState.entry_applyMutation, BackupState.entry_applyMutation]
      dsimp only
      split
      · rfl
      · rfl

theorem occupied_load (rows : List ((AccessStructureRef × ℕ) × Bool)) : (load rows).Occupied := by
  have hrow : ∀ (s : BackupState) (row : (AccessStructureRef × ℕ) × Bool), s.Occupied →
      (loadRow s row).Occupied := by
    intro s row hs
    rw [loadRow]
    split
    · exact (hs.applyMutation _).applyMutation _
    · exact hs.applyMutation _
  have hloop : ∀ (s : BackupState), s.Occupied → (rows.foldl loadRow s).Occupied := by
    induction rows with
    | nil => exact fun s hs => hs
    | cons row rows ih => exact fun s hs => ih _ (hrow s row hs)
  refine hloop _ fun ref run hrun => ?_
  have hnone : BackupState.default.runs[ref]? = none := Std.ExtTreeMap.getElem?_empty
  rw [hnone] at hrun
  cases hrun

/-- What is loaded from rows is what they say. -/
theorem entry_load {rows : List ((AccessStructureRef × ℕ) × Bool)}
    (hnodup : (rows.map Prod.fst).Nodup) {key : AccessStructureRef × ℕ} {complete : Bool} :
    (load rows).entry key = some complete ↔ (key, complete) ∈ rows := by
  induction rows using List.reverseRecOn with
  | nil =>
      have hnone : (load []).entry key = none := by
        show (BackupState.default.runs[key.1]?.getD ∅)[key.2]? = none
        have hrun : BackupState.default.runs[key.1]? = none := Std.ExtTreeMap.getElem?_empty
        rw [hrun]
        exact Std.ExtTreeMap.getElem?_empty
      rw [hnone]
      exact iff_of_false (fun h => by cases h) List.not_mem_nil
  | append_singleton rows row ih =>
      rw [List.map_append, List.nodup_append] at hnodup
      have hlast : load (rows ++ [row]) = loadRow (load rows) row := List.foldl_append
      rw [hlast, entry_loadRow, List.mem_append, List.mem_singleton]
      split
      · rename_i hkey
        subst hkey
        -- no earlier row has the key
        have hnot : (row.1, complete) ∉ rows := fun hmem =>
          hnodup.2.2 _ (List.mem_map.2 ⟨_, hmem, rfl⟩) _ List.mem_cons_self rfl
        rw [or_iff_right hnot, Option.some.injEq]
        constructor
        · rintro rfl
          rfl
        · intro heq
          rw [← heq]
      · rename_i hkey
        rw [ih hnodup.1]
        refine (or_iff_left fun heq => hkey ?_).symm
        rw [← heq]

/-- **The rows of a table**, in any order, load to what is stored. -/
theorem Stored.load_eq {t : BackupRuns} {s : BackupState} (h : Stored t s)
    {rows : List ((AccessStructureRef × ℕ) × Bool)} (hrows : rows.Perm t.rows) :
    load rows = s := by
  have hnodup : (rows.map Prod.fst).Nodup := (hrows.map Prod.fst).nodup_iff.2 t.nodup
  refine BackupState.ext_entry (occupied_load rows) h.occupied fun key => ?_
  rw [h.entry]
  refine Option.ext fun complete => ?_
  rw [entry_load hnodup, hrows.mem_iff, Table.mem_rows_iff]

/-- What is in memory is stored when it is what the rows load to. -/
theorem Stored.of_load (t : BackupRuns) : Stored t (load t.rows) := by
  refine ⟨occupied_load t.rows, fun key => Option.ext fun complete => ?_⟩
  rw [entry_load t.nodup, Table.mem_rows_iff]

/-! ### What is staged -/

/-- A mutation that is made in memory and staged if it changed something. -/
theorem Stored.mutate {t : BackupRuns} {s : BackupState} (h : Stored t s) {m : Mutation}
    (hm : (persistMutation t m).isSome) :
    ∃ t', persistUpdate t (s.mutate m []).2 = some t' ∧ Stored t' (s.mutate m []).1 := by
  obtain ⟨t', ht'⟩ := Option.isSome_iff_exists.1 hm
  rw [BackupState.mutate]
  dsimp only
  cases hchanged : (s.applyMutation m).1 with
  | true =>
      refine ⟨t', ?_, h.applyMutation ht'⟩
      rw [if_pos rfl, List.nil_append, persistUpdate, List.foldlM_cons, ht']
      rfl
  | false =>
      refine ⟨t, rfl, ?_⟩
      rw [BackupState.applyMutation_unchanged h.occupied hchanged]
      exact h

/-- Every share that is added is staged. -/
theorem startRun_staged (s : BackupState) (ref : AccessStructureRef) (shareIndices : List ℕ)
    (mutations : List Mutation) :
    (s.startRun ref shareIndices mutations).2 =
      mutations ++ shareIndices.map (Mutation.addShareNeedsBackup ref) := by
  induction shareIndices generalizing s mutations with
  | nil => exact (List.append_nil mutations).symm
  | cons i rest ih =>
      have hstep : s.startRun ref (i :: rest) mutations =
          (s.applyMutation (.addShareNeedsBackup ref i)).2.startRun ref rest
            (mutations ++ [.addShareNeedsBackup ref i]) := rfl
      rw [hstep, ih, List.append_assoc]
      rfl

/-- **A run is started** in the table exactly when none of its shares is there. -/
theorem Stored.startRun {t : BackupRuns} {s : BackupState} (h : Stored t s)
    (ref : AccessStructureRef) (shareIndices : List ℕ) (mutations : List Mutation) :
    (∀ t', persistUpdate t (shareIndices.map (Mutation.addShareNeedsBackup ref)) = some t' →
      Stored t' (s.startRun ref shareIndices mutations).1) ∧
    ((persistUpdate t (shareIndices.map (Mutation.addShareNeedsBackup ref))).isSome ↔
      shareIndices.Nodup ∧ ∀ i ∈ shareIndices, s.entry (ref, i) = none) := by
  induction shareIndices generalizing s t mutations with
  | nil =>
      refine ⟨?_, iff_of_true rfl ⟨List.nodup_nil, fun i hi => by cases hi⟩⟩
      rintro t' ht'
      obtain rfl := Option.some.inj ht'
      exact h
  | cons i rest ih =>
      have hstep : persistUpdate t ((i :: rest).map (Mutation.addShareNeedsBackup ref)) =
          (t.insert (ref, i) false).bind fun t =>
            persistUpdate t (rest.map (Mutation.addShareNeedsBackup ref)) := rfl
      rw [hstep]
      cases hinsert : t.insert (ref, i) false with
      | none =>
          obtain ⟨complete, hthere⟩ := Table.insert_eq_none_iff.1 hinsert
          refine ⟨fun t' ht' => (by cases ht'), iff_of_false Bool.false_ne_true ?_⟩
          rintro ⟨-, hnew⟩
          rw [← h.entry, hnew i List.mem_cons_self] at hthere
          cases hthere
      | some t₁ =>
          have hadded : persistMutation t (.addShareNeedsBackup ref i) = some t₁ := hinsert
          have h₁ := h.applyMutation hadded
          obtain ⟨hrest, hrestIff⟩ := ih h₁ (mutations ++ [.addShareNeedsBackup ref i])
          refine ⟨hrest, hrestIff.trans ?_⟩
          have hnew : s.entry (ref, i) = none := by
            rw [h.entry]
            cases hget : t.get? (ref, i) with
            | none => rfl
            | some complete =>
                rw [Table.insert_eq_none_iff.2 ⟨complete, hget⟩] at hinsert
                cases hinsert
          have hentry : ∀ j, (s.applyMutation (.addShareNeedsBackup ref i)).2.entry (ref, j) =
              if i = j then some false else s.entry (ref, j) := by
            intro j
            rw [s.entry_applyMutation]
            simp only [Prod.mk.injEq, true_and]
          rw [List.nodup_cons]
          constructor
          · rintro ⟨hnodup, hnone⟩
            have hout : i ∉ rest := by
              intro hmem
              have := hnone i hmem
              rw [hentry, if_pos rfl] at this
              cases this
            refine ⟨⟨hout, hnodup⟩, fun j hj => ?_⟩
            rcases List.mem_cons.1 hj with rfl | hj
            · exact hnew
            · have hne : i ≠ j := fun heq => hout (heq ▸ hj)
              rw [← hnone j hj, hentry, if_neg hne]
          · rintro ⟨⟨hout, hnodup⟩, hnone⟩
            refine ⟨hnodup, fun j hj => ?_⟩
            have hne : i ≠ j := fun heq => hout (heq ▸ hj)
            rw [hentry, if_neg hne, hnone j (List.mem_cons_of_mem i hj)]

namespace Store

variable {s : Store}

/-- **An operation** is stored exactly when it adds no share that is there. -/
theorem perform_of_stored (h : Stored s.table s.memory) (op : Op) :
    ((s.perform op).1 = true ↔ op.AddsNewShares s.memory) ∧
      ((s.perform op).1 = true → Stored (s.perform op).2.table (s.perform op).2.memory) := by
  have hok : ∀ t', persistUpdate s.table (s.stage op).2 = some t' → Stored t' (s.stage op).1 →
      (s.perform op).1 = true ∧ Stored (s.perform op).2.table (s.perform op).2.memory := by
    intro t' ht' hstored
    have hperform : s.perform op = (true, { memory := (s.stage op).1, table := t' }) := by
      rw [perform]
      simp only [ht']
    rw [hperform]
    exact ⟨rfl, hstored⟩
  cases op with
  | startRun ref shareIndices =>
      obtain ⟨hstored, hiff⟩ := h.startRun ref shareIndices []
      have hstaged : (s.stage (.startRun ref shareIndices)).2 =
          shareIndices.map (Mutation.addShareNeedsBackup ref) :=
        startRun_staged s.memory ref shareIndices []
      rw [← hstaged] at hstored hiff
      cases hupdate : persistUpdate s.table (s.stage (.startRun ref shareIndices)).2 with
      | none =>
          have hfalse : (s.perform (.startRun ref shareIndices)).1 = false := by
            rw [perform]
            simp only [hupdate]
          rw [hupdate] at hiff
          rw [hfalse]
          exact ⟨hiff, fun h => absurd h Bool.false_ne_true⟩
      | some t' =>
          obtain ⟨hdone, hafter⟩ := hok t' hupdate (hstored t' hupdate)
          rw [hupdate] at hiff
          exact ⟨iff_of_true hdone (hiff.1 rfl), fun _ => hafter⟩
  | markBackupComplete ref i =>
      obtain ⟨t', ht', hstored⟩ := @Stored.mutate _ _ h (.markShareComplete ref i) rfl
      obtain ⟨hdone, hafter⟩ := hok t' ht' hstored
      exact ⟨iff_of_true hdone trivial, fun _ => hafter⟩
  | clearBackupRun keyId =>
      have hstage : ∃ t', persistUpdate s.table (s.stage (.clearBackupRun keyId)).2 = some t' ∧
          Stored t' (s.stage (.clearBackupRun keyId)).1 := by
        rw [stage, BackupState.clearBackupRun]
        split
        · exact h.mutate rfl
        · exact ⟨s.table, rfl, h⟩
      obtain ⟨t', ht', hstored⟩ := hstage
      obtain ⟨hdone, hafter⟩ := hok t' ht' hstored
      exact ⟨iff_of_true hdone trivial, fun _ => hafter⟩

theorem storesAll_iff (h : Stored s.table s.memory) (ops : List Op) :
    s.StoresAll ops ↔ s.AllAddNewShares ops := by
  induction ops generalizing s with
  | nil => exact iff_of_true (fun _ hrows => h.load_eq hrows) trivial
  | cons op ops ih =>
      obtain ⟨hiff, hafter⟩ := perform_of_stored h op
      have hloads : s.Loads := fun _ hrows => h.load_eq hrows
      constructor
      · rintro ⟨-, hdone, hrest⟩
        exact ⟨hiff.1 hdone, (ih (hafter hdone)).1 hrest⟩
      · rintro ⟨hnew, hrest⟩
        exact ⟨hloads, hiff.2 hnew, (ih (hafter (hiff.2 hnew))).2 hrest⟩

end Store

/-- **Persistence.** Whatever was stored first, in a run of operations every one is stored, and what
is stored loads to what is in memory throughout, exactly when no operation of it adds a share that
is in its run already, or adds one twice. -/
theorem persists_exactly (t : BackupRuns) (ops : List Op) :
    (Store.load t).StoresAll ops ↔ (Store.load t).AllAddNewShares ops :=
  Store.storesAll_iff (Stored.of_load t) ops

/-- A run that is started once more is not stored. -/
theorem started_again_is_not_stored :
    ¬ ∀ ops, (Store.load Table.empty).StoresAll ops := by
  intro h
  let ref : AccessStructureRef := { keyId := 1, accessStructureId := 2 }
  have hrun := h [.startRun ref [1], .startRun ref [1]]
  exact absurd hrun.2.2.2.1 (by decide +kernel)

end BackupRun

end Frostsnap
