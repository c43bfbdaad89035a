import Frostsnap.Backup.ShareBackup
import Frostsnap.Backup.WordPrefix
import Frostsnap.Lib.Exec

/-!
# The entry of a backup

What is typed when a backup is entered on a device (`frostsnap_widgets/src/backup/backup_model.rs`):
a share index and 25 words, one row each. A row is edited as long as its word is owned. What is on
the screen is kept apart from the model, by the mutations that each operation returns. In each state
of a run the operations are offered that the view shows keys, words or rows for.

## Main results

* `currentString_of_editing`: the row that is being edited.
* `addCharacter_word`, `backspace_spec`, `completeRow_word`, `editRow_spec`: each operation changes
  the text of one row, and its mutations do the same on the screen.
* `view_spec`: the view of each state.
* `step_spec`: an operation that is offered returns, keeps the invariant and keeps the screen in
  step with the model.
* `backup_entry_safe`: what holds in every state that is reached.
-/

namespace Frostsnap.Widgets

open Backup

/-! ### The model -/

/-- `Cow<'static, str>`: a word of the list, or the letters of a row that is edited. -/
inductive CowStr where
  | borrowed (s : List Char)
  | owned (s : List Char)

namespace CowStr

/-- The letters, wherever they are kept. -/
def chars : CowStr → List Char
  | borrowed s => s
  | owned s => s

/-- `matches!(w, Cow::Borrowed(s) if !s.is_empty())`. -/
def isComplete : CowStr → Bool
  | borrowed s => !s.isEmpty
  | owned _ => false

/-- `matches!(w, Cow::Owned(_)) || w.is_empty()`. -/
def isIncomplete : CowStr → Bool
  | borrowed s => s.isEmpty
  | owned _ => true

/-- A word is complete or not. -/
theorem isIncomplete_eq (w : CowStr) : w.isIncomplete = !w.isComplete := by
  cases w with
  | borrowed s => exact (Bool.not_not _).symm
  | owned s => rfl

end CowStr

/-- What was entered so far. -/
structure BackupModel where
  shareIndex : List Char
  shareIndexConfirmed : Bool
  words : Vector CowStr NUM_WORDS

/-- A change of one character on the screen. -/
inductive FramebufferMutation where
  | setCharacter (row pos : ℕ) (char : Char)
  | delCharacter (row pos : ℕ)

namespace BackupModel

/-- `BackupModel::new`. -/
def new : BackupModel where
  shareIndex := []
  shareIndexConfirmed := false
  words := .replicate NUM_WORDS (.borrowed [])

/-- The first incomplete word. -/
def position (m : BackupModel) : Option (Fin NUM_WORDS) :=
  Fin.find? fun i => m.words[i].isIncomplete

/-- The string of an incomplete word: an empty one becomes owned first. -/
def wordString (m : BackupModel) (idx : Fin NUM_WORDS) : Exec (BackupModel × ℕ × List Char) :=
  let m := if m.words[idx].chars = [] then { m with words := m.words.set idx (.owned []) } else m
  match m.words[idx] with
  | .owned s => .ret (m, idx + 1, s)
  | .borrowed _ => .panic "internal error: entered unreachable code: Word should be Owned"

/-- `current_string`: the string that is edited, along with its row. -/
def currentString (m : BackupModel) : Exec (BackupModel × ℕ × List Char) :=
  if m.shareIndexConfirmed = false then .ret (m, 0, m.shareIndex)
  else m.wordString (m.position.getD 0)

/-- A word of a row is replaced. -/
def setWord (m : BackupModel) (row : ℕ) (w : CowStr) : BackupModel :=
  if h : row - 1 < NUM_WORDS then { m with words := m.words.set (row - 1) w } else m

/-- Write through the reference that `current_string` returns. -/
def put (m : BackupModel) (row : ℕ) (s : List Char) : BackupModel :=
  if row = 0 then { m with shareIndex := s } else m.setWord row (.owned s)

/-- `add_character`. -/
def addCharacter (m : BackupModel) (c : Char) :
    Exec (BackupModel × List FramebufferMutation) := do
  let (m, row, current) ← m.currentString
  if row = 0 ∧ 7 ≤ current.length then return (m, [])
  else
    let current := current ++ [c]
    let mutations := [.setCharacter row (current.length - 1) c]
    if 0 < row ∧ c = 'Q' then
      let current := current ++ ['U']
      return (m.put row current, mutations ++ [.setCharacter row (current.length - 1) 'U'])
    else return (m.put row current, mutations)

/-- The loop of `backspace` over the letters that are left, the last one first: it goes on while
the words that begin with them fit on the word selector. -/
def widen (row : ℕ) : List Char → List FramebufferMutation →
    List Char × List FramebufferMutation
  | [], mutations => ([], mutations)
  | popped :: current, mutations =>
      let deleted := mutations ++ [.delCharacter row current.length]
      if current = [] then ([], deleted)
      else
        let count := (wordsWithPrefix current.reverse).length
        if 8 < count ∨ count = 0 then (popped :: current, mutations)
        else widen row current deleted

/-- `backspace`, with a bound on how often it calls itself. -/
def backspaceWith : ℕ → BackupModel → Exec (BackupModel × List FramebufferMutation)
  | 0, _ => .panic "the recursion goes on"
  | fuel + 1, m => do
      let (m, row, current) ← m.currentString
      match current.reverse with
      | [] =>
          if row = 0 then return (m, [])
          else if row = 1 ∧ m.shareIndexConfirmed then
            backspaceWith fuel { m with shareIndexConfirmed := false }
          else if 1 < row then
            let prevWord := ((m.words[row - 2]?).map CowStr.chars).getD []
            backspaceWith fuel (m.setWord (row - 1) (.owned prevWord))
          else backspaceWith fuel m
      | _ :: rest =>
          let mutations := [.delCharacter row rest.length]
          if 0 < row ∧ rest ≠ [] ∧ (wordsWithPrefix rest.reverse).length ≤ 8 then
            let (rest, mutations) := widen row rest mutations
            return (m.put row rest.reverse, mutations)
          else return (m.put row rest.reverse, mutations)

/-- `backspace`. The fuel is more than it needs. -/
def backspace (m : BackupModel) : Exec (BackupModel × List FramebufferMutation) :=
  backspaceWith (NUM_WORDS + 2) m

/-- `SetCharacter` for each character of a text, from a position on. -/
def setCharacters (row : ℕ) (pos : ℕ) (text : List Char) : List FramebufferMutation :=
  text.mapIdx fun i ch => .setCharacter row (pos + i) ch

/-- `DelCharacter` for the first characters of a row, the last one first. -/
def delCharacters (row : ℕ) (n : ℕ) : List FramebufferMutation :=
  (List.range n).map fun i => .delCharacter row (n - 1 - i)

/-- `complete_row`. -/
def completeRow (m : BackupModel) (completion : List Char) :
    Exec (BackupModel × List FramebufferMutation) := do
  let (m, row, current) ← m.currentString
  let mutations :=
    if current.isPrefixOf completion then
      setCharacters row current.length (completion.drop current.length)
    else delCharacters row current.length ++ setCharacters row 0 completion
  if row = 0 then
    return ({ m with shareIndex := completion, shareIndexConfirmed := true }, mutations)
  else
    let word := match wordToIndex (String.ofList completion) with
      | some idx => .borrowed (WORDS.getD idx [])
      | none => .owned completion
    return (m.setWord row word, mutations)

/-- `edit_row`. -/
def editRow (m : BackupModel) (row : ℕ) : Exec (BackupModel × List FramebufferMutation) :=
  if row = 0 then
    .ret ({ m with shareIndex := [], shareIndexConfirmed := false },
      delCharacters 0 m.shareIndex.length)
  else if h : row - 1 < NUM_WORDS then
    .ret ({ m with words := m.words.set (row - 1) (.owned []) },
      delCharacters row m.words[row - 1].chars.length)
  else .panic "index out of bounds"

/-- `num_completed_rows`. -/
def numCompletedRows (m : BackupModel) : ℕ :=
  (if m.shareIndexConfirmed then 1 else 0) + m.words.toList.countP CowStr.isComplete

/-- `is_complete`. -/
def isComplete (m : BackupModel) : Bool :=
  m.shareIndexConfirmed && m.words.toList.all fun w => !w.chars.isEmpty

/-- `get_words_as_static`. -/
def getWordsAsStatic (m : BackupModel) : Option (Vector (List Char) NUM_WORDS) :=
  if !m.isComplete then none
  else if m.words.toList.all CowStr.isComplete then some (m.words.map CowStr.chars)
  else none

end BackupModel

/-! ### What is shown -/

/-- What is asked for. -/
inductive MainViewState where
  | enterShareIndex (current : List Char)
  | enterWord (validLetters : ValidLetters)
  | wordSelect (current : List Char) (possibleWords : List (List Char))
  | allWordsEntered (success : Option Backup.ShareBackup)

/-- What the screen shows. -/
structure ViewState where
  row : ℕ
  cursorPos : ℕ
  completedRows : ℕ
  mainView : MainViewState

/-- A number may have a sign. -/
def stripPlus : List Char → List Char
  | '+' :: rest => rest
  | s => s

/-- `str::parse::<u32>`. -/
def parseU32 (s : List Char) : Option ℕ :=
  let digits := stripPlus s
  if digits ≠ [] ∧ digits.all Char.isDigit then
    let n := digits.foldl (fun n c => 10 * n + (c.toNat - 48)) 0
    if n < 2 ^ 32 then some n else none
  else none

/-- What is shown for a word that is edited. -/
def wordView (currentWord : List Char) : MainViewState :=
  if currentWord = [] then
    -- Empty word, show keyboard with all valid starting letters
    .enterWord (getValidNextLetters [])
  else
    let matching := wordsWithPrefix currentWord
    if matching ≠ [] ∧ matching.length ≤ 8 then .wordSelect currentWord matching
    else .enterWord (getValidNextLetters currentWord)

/-- The view while a word is entered. -/
def BackupModel.wordViewState (m : BackupModel) (idx : Fin NUM_WORDS) : ViewState where
  row := idx + 1
  cursorPos := m.words[idx].chars.length
  completedRows := m.numCompletedRows
  mainView := wordView m.words[idx].chars

variable (sha256 : Sha256)

/-- `view_state`. -/
def BackupModel.viewState (m : BackupModel) : Exec ViewState :=
  let completedRows := m.numCompletedRows
  if m.shareIndexConfirmed = false then
    .ret
      { row := 0
        cursorPos := m.shareIndex.length
        completedRows
        mainView := .enterShareIndex m.shareIndex }
  else
    match m.getWordsAsStatic with
    | some words => do
        let shareIndex ← Exec.expect (parseU32 m.shareIndex) "must be int"
        let success :=
          (Backup.ShareBackup.fromWords sha256 shareIndex (words.map String.ofList)).toOption
        return {
          row := NUM_WORDS
          cursorPos := 0
          completedRows
          mainView := .allWordsEntered success }
    | none => .ret (m.wordViewState (m.position.getD 0))

/-! ### The screen -/

/-- The characters on the screen, by row and position. -/
abbrev Grid := ℕ → ℕ → Option Char

/-- Nothing on the screen. -/
def Grid.empty : Grid := fun _ _ => none

/-- One mutation of `apply_mutations`. -/
def Grid.mutate (g : Grid) : FramebufferMutation → Grid
  | .setCharacter row pos char => Function.update g row (Function.update (g row) pos (some char))
  | .delCharacter row pos => Function.update g row (Function.update (g row) pos none)

/-- `apply_mutations`. -/
def Grid.applyMutations (g : Grid) (mutations : List FramebufferMutation) : Grid :=
  mutations.foldl Grid.mutate g

/-- A row that shows a text. -/
def lineOf (text : List Char) (pos : ℕ) : Option Char := text[pos]?

/-- One character more. -/
theorem lineOf_snoc (text : List Char) (c : Char) :
    lineOf (text ++ [c]) = Function.update (lineOf text) text.length (some c) := by
  funext pos
  rcases Nat.lt_trichotomy pos text.length with hlt | rfl | hgt
  · rw [Function.update_of_ne (Nat.ne_of_lt hlt), lineOf, lineOf, List.getElem?_append_left hlt]
  · rw [Function.update_self, lineOf, List.getElem?_concat_length]
  · rw [Function.update_of_ne (Nat.ne_of_gt hgt), lineOf, lineOf,
      List.getElem?_eq_none (Nat.le_of_lt hgt),
      List.getElem?_eq_none (by rw [List.length_append, List.length_singleton]; exact hgt)]

/-- The mutations change the text of one row. -/
def Rewrites (mutations : List FramebufferMutation) (row : ℕ) (old new : List Char) : Prop :=
  ∀ g : Grid, g row = lineOf old →
    g.applyMutations mutations = Function.update g row (lineOf new)

/-- Nothing is changed. -/
theorem Rewrites.nil (row : ℕ) (text : List Char) : Rewrites [] row text text := by
  intro g h
  rw [← h, Function.update_eq_self]
  rfl

/-- One change after another. -/
theorem Rewrites.append {ms ns : List FramebufferMutation} {row : ℕ} {a b c : List Char}
    (hms : Rewrites ms row a b) (hns : Rewrites ns row b c) : Rewrites (ms ++ ns) row a c := by
  intro g h
  rw [Grid.applyMutations, List.foldl_append, ← Grid.applyMutations, ← Grid.applyMutations,
    hms g h, hns _ (Function.update_self ..), Function.update_idem]

/-- A character is added at the end. -/
theorem Rewrites.set (row : ℕ) (text : List Char) (c : Char) :
    Rewrites [.setCharacter row text.length c] row text (text ++ [c]) := by
  intro g h
  rw [Grid.applyMutations, List.foldl_cons, List.foldl_nil, Grid.mutate, h, lineOf_snoc]

/-- The last character is taken off. -/
theorem Rewrites.del (row : ℕ) (text : List Char) (c : Char) :
    Rewrites [.delCharacter row text.length] row (text ++ [c]) text := by
  intro g h
  have hnone : lineOf text text.length = none := List.getElem?_eq_none le_rfl
  rw [Grid.applyMutations, List.foldl_cons, List.foldl_nil, Grid.mutate, h, lineOf_snoc,
    Function.update_idem, ← hnone, Function.update_eq_self]

/-- Several characters are added. -/
theorem Rewrites.setCharacters (row : ℕ) (old text : List Char) :
    Rewrites (BackupModel.setCharacters row old.length text) row old (old ++ text) := by
  induction text generalizing old with
  | nil =>
      rw [List.append_nil]
      exact Rewrites.nil row old
  | cons c text ih =>
      have hcons : BackupModel.setCharacters row old.length (c :: text) =
          [.setCharacter row old.length c] ++
            BackupModel.setCharacters row (old ++ [c]).length text := by
        rw [BackupModel.setCharacters, BackupModel.setCharacters, List.mapIdx_cons,
          List.length_append, List.length_singleton, List.singleton_append, Nat.add_zero]
        congr 2
        funext i d
        rw [Nat.add_assoc, Nat.add_comm 1 i]
      have happend : old ++ c :: text = old ++ [c] ++ text := by
        rw [List.append_assoc, List.singleton_append]
      rw [hcons, happend]
      exact (Rewrites.set row old c).append (ih (old ++ [c]))

/-- The last one goes first. -/
theorem delCharacters_succ (row n : ℕ) :
    BackupModel.delCharacters row (n + 1) =
      [.delCharacter row n] ++ BackupModel.delCharacters row n := by
  rw [BackupModel.delCharacters, BackupModel.delCharacters, List.range_succ_eq_map, List.map_cons,
    List.map_map, List.singleton_append]
  congr 1
  refine List.map_congr_left fun i _ => ?_
  dsimp only [Function.comp_apply]
  congr 1
  omega

/-- A row is emptied. -/
theorem Rewrites.delCharacters (row : ℕ) (text : List Char) :
    Rewrites (BackupModel.delCharacters row text.length) row text [] := by
  induction text using List.reverseRecOn with
  | nil => exact Rewrites.nil row []
  | append_singleton text c ih =>
      rw [List.length_append, List.length_singleton, delCharacters_succ]
      exact (Rewrites.del row text c).append ih

/-! ### Rows -/

namespace BackupModel

/-- The text of a row. -/
def rowText (m : BackupModel) (row : ℕ) : List Char :=
  if row = 0 then m.shareIndex else ((m.words[row - 1]?).map CowStr.chars).getD []

/-- The screen shows the model. -/
def ShownOn (m : BackupModel) (g : Grid) : Prop := ∀ row, g row = lineOf (m.rowText row)

/-- The model changed the text of one row. -/
def ChangedRow (m m' : BackupModel) (row : ℕ) (new : List Char) : Prop :=
  m'.rowText = Function.update m.rowText row new

/-- A change of a row, and mutations that make it on the screen. -/
theorem ShownOn.applyMutations {m m' : BackupModel} {g : Grid}
    {mutations : List FramebufferMutation} {row : ℕ} {new : List Char} (h : m.ShownOn g)
    (hm : m.ChangedRow m' row new) (hms : Rewrites mutations row (m.rowText row) new) :
    m'.ShownOn (g.applyMutations mutations) := by
  intro r
  rw [hms g (h row), hm]
  by_cases heq : r = row
  · rw [heq, Function.update_self, Function.update_self]
  · rw [Function.update_of_ne heq, Function.update_of_ne heq]
    exact h r

/-- The first row is the share index. -/
@[simp] theorem rowText_zero (m : BackupModel) : m.rowText 0 = m.shareIndex := rfl

/-- The other rows are the words. -/
theorem rowText_add_one (m : BackupModel) (j : ℕ) :
    m.rowText (j + 1) = ((m.words[j]?).map CowStr.chars).getD [] := rfl

/-- The same for a word by its number. -/
theorem rowText_succ (m : BackupModel) (i : Fin NUM_WORDS) :
    m.rowText (i + 1) = m.words[i].chars := by
  rw [rowText_add_one, Vector.getElem?_eq_getElem i.isLt]
  rfl

/-- A word changes its own row. -/
theorem changedRow_words (m : BackupModel) (i : Fin NUM_WORDS) (w : CowStr) :
    m.ChangedRow { m with words := m.words.set i w } (i + 1) w.chars := by
  funext row
  cases row with
  | zero => rw [Function.update_of_ne (Nat.succ_ne_zero _).symm, rowText_zero, rowText_zero]
  | succ j =>
      by_cases hij : j = i
      · rw [hij, Function.update_self, rowText_add_one, Vector.getElem?_set_self i.isLt]
        rfl
      · rw [Function.update_of_ne fun h => hij (Nat.succ_inj.1 h), rowText_add_one,
          rowText_add_one, Vector.getElem?_set_ne i.isLt (Ne.symm hij)]

/-- So does the share index. -/
theorem changedRow_shareIndex (m : BackupModel) (s : List Char) (confirmed : Bool) :
    m.ChangedRow { m with shareIndex := s, shareIndexConfirmed := confirmed } 0 s := by
  funext row
  cases row with
  | zero => rw [Function.update_self, rowText_zero]
  | succ j =>
      rw [Function.update_of_ne (Nat.succ_ne_zero _)]
      rfl

/-! ### The row that is edited -/

/-- A word that is the first incomplete one. -/
structure Editing (m : BackupModel) (i : Fin NUM_WORDS) : Prop where
  confirmed : m.shareIndexConfirmed = true
  incomplete : m.words[i].isComplete = false
  before : ∀ j, j < i → m.words[j].isComplete = true

/-- The word that is being entered is the first that is not complete. -/
theorem position_eq_some_iff {m : BackupModel} {i : Fin NUM_WORDS} :
    m.position = some i ↔
      m.words[i].isComplete = false ∧ ∀ j, j < i → m.words[j].isComplete = true := by
  rw [position, Fin.find?_eq_some_iff]
  simp only [CowStr.isIncomplete_eq, Bool.not_eq_true', Bool.not_eq_false']

/-- Or all words are. -/
theorem position_eq_none_iff {m : BackupModel} :
    m.position = none ↔ ∀ i : Fin NUM_WORDS, m.words[i].isComplete = true := by
  rw [position, Fin.find?_eq_none_iff]
  simp only [CowStr.isIncomplete_eq, Bool.not_eq_false']

/-- The word that is being entered. -/
theorem Editing.position {m : BackupModel} {i : Fin NUM_WORDS} (h : m.Editing i) :
    m.position = some i :=
  position_eq_some_iff.2 ⟨h.incomplete, h.before⟩

/-- The model with a word that is edited. -/
def editWord (m : BackupModel) (i : Fin NUM_WORDS) (s : List Char) : BackupModel :=
  { m with words := m.words.set i (.owned s) }

/-- The row of a word is one more than its number. -/
theorem setWord_succ (m : BackupModel) (i : Fin NUM_WORDS) (w : CowStr) :
    m.setWord (i + 1) w = { m with words := m.words.set i w } :=
  dif_pos i.isLt

/-- What is typed replaces what was typed. -/
theorem put_editWord (m : BackupModel) (i : Fin NUM_WORDS) (s t : List Char) :
    (m.editWord i s).put (i + 1) t = m.editWord i t := by
  rw [put, if_neg (Nat.succ_ne_zero _), setWord_succ, editWord, editWord, Vector.set_set]

/-- Until it is confirmed the share index is entered. -/
theorem currentString_of_unconfirmed {m : BackupModel} (h : m.shareIndexConfirmed = false) :
    m.currentString = .ret (m, 0, m.shareIndex) := by
  rw [currentString, h]
  rfl

/-- **The row that is edited**: its word is owned from then on. -/
theorem currentString_of_editing {m : BackupModel} {i : Fin NUM_WORDS} (h : m.Editing i) :
    m.currentString =
      .ret (m.editWord i m.words[i].chars, i + 1, m.words[i].chars) := by
  have howned : (if m.words[i].chars = [] then { m with words := m.words.set i (.owned []) }
      else m) = m.editWord i m.words[i].chars := by
    have hincomplete := h.incomplete
    rw [editWord]
    cases hw : m.words[i] with
    | borrowed s =>
        rw [hw, CowStr.isComplete, Bool.not_eq_false', List.isEmpty_iff] at hincomplete
        rw [CowStr.chars, hincomplete, if_pos rfl]
    | owned s =>
        rw [CowStr.chars]
        split
        · next hnil => rw [hnil]
        · have hset : m.words.set i (.owned s) = m.words := by
            have hself := @Vector.set_getElem_self _ _ _ m.words i.isLt
            rw [Fin.getElem_fin] at hw
            rw [hw] at hself
            exact hself
          rw [hset]
  have hword : (m.editWord i m.words[i].chars).words[i] = .owned m.words[i].chars :=
    Vector.getElem_set_self i.isLt
  rw [currentString, if_neg (by rw [h.confirmed]; decide), h.position, Option.getD_some, wordString,
    howned, hword]

/-! ### Typing -/

/-- A share index has seven digits at most. -/
theorem addCharacter_index {m : BackupModel} (h : m.shareIndexConfirmed = false) (c : Char) :
    m.addCharacter c =
      if 7 ≤ m.shareIndex.length then .ret (m, [])
      else .ret ({ m with shareIndex := m.shareIndex ++ [c] },
        [.setCharacter 0 m.shareIndex.length c]) := by
  rw [addCharacter, currentString_of_unconfirmed h, Exec.ret_bind]
  dsimp only
  by_cases hlen : 7 ≤ m.shareIndex.length
  · rw [if_pos ⟨rfl, hlen⟩, if_pos hlen]
    rfl
  · rw [if_neg fun h => hlen h.2, if_neg hlen, if_neg fun h => Nat.lt_irrefl 0 h.1,
      List.length_append, List.length_singleton, Nat.add_sub_cancel]
    rfl

/-- What a letter adds: after a Q also a U. -/
def typed (c : Char) : List Char := if c = 'Q' then ['Q', 'U'] else [c]

/-- A letter of a word, and with a Q the U that follows it. -/
theorem addCharacter_word {m : BackupModel} {i : Fin NUM_WORDS} (h : m.Editing i) (c : Char) :
    ∃ mutations, m.addCharacter c = .ret (m.editWord i (m.words[i].chars ++ typed c), mutations) ∧
      Rewrites mutations (i + 1) m.words[i].chars (m.words[i].chars ++ typed c) := by
  have hset := Rewrites.set (i + 1) m.words[i].chars c
  rw [addCharacter, currentString_of_editing h, Exec.ret_bind]
  dsimp only
  rw [if_neg fun h => Nat.succ_ne_zero _ h.1, List.length_append, List.length_singleton,
    Nat.add_sub_cancel, put_editWord, put_editWord]
  by_cases hq : c = 'Q'
  · subst hq
    have hu := Rewrites.set (i + 1) (m.words[i].chars ++ ['Q']) 'U'
    rw [List.length_append, List.length_singleton, List.append_assoc] at hu
    have hlen : (m.words[i].chars ++ (['Q'] ++ ['U'])).length - 1 =
        m.words[i].chars.length + 1 := by
      rw [List.length_append]
      rfl
    rw [if_pos ⟨Nat.succ_pos _, rfl⟩, List.append_assoc, hlen]
    exact ⟨_, rfl, hset.append hu⟩
  · rw [if_neg fun h => hq h.2, typed, if_neg hq]
    exact ⟨_, rfl, hset⟩

/-! ### Deleting -/

/-- The loop deletes some of the letters. -/
theorem widen_spec (row : ℕ) (text : List Char) (letters : List Char)
    (mutations : List FramebufferMutation) (h : Rewrites mutations row text letters.reverse) :
    (widen row letters mutations).1 <:+ letters ∧
      Rewrites (widen row letters mutations).2 row text
        (widen row letters mutations).1.reverse := by
  induction letters generalizing mutations with
  | nil => exact ⟨List.suffix_rfl, h⟩
  | cons popped current ih =>
      rw [List.reverse_cons] at h
      have hdel := Rewrites.del row current.reverse popped
      rw [List.length_reverse] at hdel
      have hdeleted := h.append hdel
      rw [widen]
      dsimp only
      split
      · next hnil =>
        rw [hnil] at hdeleted ⊢
        exact ⟨List.nil_suffix, hdeleted⟩
      · split
        · exact ⟨List.suffix_rfl, by rw [List.reverse_cons]; exact h⟩
        · have hih := ih _ hdeleted
          exact ⟨hih.1.trans (List.suffix_cons popped current), hih.2⟩

/-- What an operation that leaves no word behind does: some words are owned now, and the share
index stays what was confirmed, if it still is. -/
structure Edits (m m' : BackupModel) : Prop where
  words : ∀ i : Fin NUM_WORDS, m'.words[i] = m.words[i] ∨ ∃ s, m'.words[i] = .owned s
  confirmed : m'.shareIndexConfirmed = true →
    m.shareIndexConfirmed = true ∧ m'.shareIndex = m.shareIndex

/-- One edit after another. -/
theorem Edits.trans {a b c : BackupModel} (hab : a.Edits b) (hbc : b.Edits c) : a.Edits c where
  words i := by
    rcases hbc.words i with hsame | howned
    · rw [hsame]
      exact hab.words i
    · exact Or.inr howned
  confirmed h := by
    obtain ⟨hb, hsame⟩ := hbc.confirmed h
    obtain ⟨ha, hsame'⟩ := hab.confirmed hb
    exact ⟨ha, hsame.trans hsame'⟩

/-- Typing edits the word. -/
theorem edits_editWord (m : BackupModel) (i : Fin NUM_WORDS) (s : List Char) :
    m.Edits (m.editWord i s) where
  words j := by
    by_cases hij : j = i
    · rw [hij]
      exact Or.inr ⟨s, Vector.getElem_set_self i.isLt⟩
    · exact Or.inl (Vector.getElem_set_ne i.isLt j.isLt fun h => hij (Fin.ext h.symm))
  confirmed h := ⟨h, rfl⟩

/-- So does typing the share index. -/
theorem edits_shareIndex (m : BackupModel) (s : List Char) :
    m.Edits { m with shareIndex := s, shareIndexConfirmed := false } where
  words _ := Or.inl rfl
  confirmed h := by cases h

/-- A row loses letters, on the screen as well. -/
structure Shrinks (m m' : BackupModel) (mutations : List FramebufferMutation) : Prop where
  edits : m.Edits m'
  row : ∃ row new, m.ChangedRow m' row new ∧ new <+: m.rowText row ∧
    Rewrites mutations row (m.rowText row) new

/-- No row is changed. -/
theorem changedRow_refl (m : BackupModel) (row : ℕ) : m.ChangedRow m row (m.rowText row) :=
  (Function.update_eq_self ..).symm

/-- A model with the same text. -/
theorem Shrinks.of_rowText {a b c : BackupModel} {mutations : List FramebufferMutation}
    (hab : a.Edits b) (htext : b.rowText = a.rowText) (h : b.Shrinks c mutations) :
    a.Shrinks c mutations := by
  obtain ⟨row, new, hrow, hnew, hms⟩ := h.row
  refine ⟨hab.trans h.edits, row, new, ?_, ?_, ?_⟩
  · rw [ChangedRow, hrow, htext]
  · rwa [htext] at hnew
  · rwa [htext] at hms

/-- A word that is typed as it was. -/
theorem rowText_editWord_same (m : BackupModel) (i : Fin NUM_WORDS) :
    (m.editWord i m.words[i].chars).rowText = m.rowText := by
  have h := changedRow_words m i (.owned m.words[i].chars)
  rw [ChangedRow, CowStr.chars, ← rowText_succ m i, Function.update_eq_self] at h
  rw [editWord, ← rowText_succ m i]
  exact h

/-- A text that was taken apart from its end. -/
theorem eq_snoc_of_reverse {text rest : List Char} {popped : Char}
    (h : text.reverse = popped :: rest) : text = rest.reverse ++ [popped] := by
  rw [← List.reverse_reverse text, h, List.reverse_cons]

/-- The last character is taken off. -/
theorem rewrites_pop {text rest : List Char} {popped : Char} (row : ℕ)
    (h : text.reverse = popped :: rest) :
    Rewrites [.delCharacter row rest.length] row text rest.reverse := by
  have hdel := Rewrites.del row rest.reverse popped
  rw [List.length_reverse, ← eq_snoc_of_reverse h] at hdel
  exact hdel

/-- **Backspace** in the share index. -/
theorem backspaceWith_index {m : BackupModel} (fuel : ℕ) (h : m.shareIndexConfirmed = false) :
    ∃ m' mutations, backspaceWith (fuel + 1) m = .ret (m', mutations) ∧ m.Shrinks m' mutations := by
  have hm : m = { m with shareIndexConfirmed := false } := by
    rw [← h]
  rw [backspaceWith, currentString_of_unconfirmed h, Exec.ret_bind]
  dsimp only
  cases hrev : m.shareIndex.reverse with
  | nil =>
      have hedits := edits_shareIndex m m.shareIndex
      rw [← hm] at hedits
      exact ⟨m, [], rfl, hedits, 0, m.shareIndex, changedRow_refl m 0, List.prefix_rfl,
        Rewrites.nil 0 m.shareIndex⟩
  | cons popped rest =>
      have hput : m.put 0 rest.reverse =
          { m with shareIndex := rest.reverse, shareIndexConfirmed := false } := by
        rw [put, if_pos rfl, ← h]
      dsimp only
      rw [if_neg fun h => Nat.lt_irrefl 0 h.1, hput]
      refine ⟨_, _, rfl, edits_shareIndex m rest.reverse, 0, rest.reverse,
        changedRow_shareIndex m rest.reverse false, ?_, rewrites_pop 0 hrev⟩
      rw [rowText_zero, eq_snoc_of_reverse hrev]
      exact List.prefix_append ..

/-- **Backspace** in a word that has letters. -/
theorem backspaceWith_word {m : BackupModel} {i : Fin NUM_WORDS} (fuel : ℕ) (h : m.Editing i)
    (hne : m.words[i].chars ≠ []) :
    ∃ m' mutations, backspaceWith (fuel + 1) m = .ret (m', mutations) ∧ m.Shrinks m' mutations := by
  rw [backspaceWith, currentString_of_editing h, Exec.ret_bind]
  dsimp only
  cases hrev : m.words[i].chars.reverse with
  | nil => exact absurd (List.reverse_eq_nil_iff.1 hrev) hne
  | cons popped rest =>
      have hpop := rewrites_pop (i + 1) hrev
      have hpre : rest.reverse <+: m.words[i].chars := by
        rw [eq_snoc_of_reverse hrev]
        exact List.prefix_append ..
      have hshrinks : ∀ {s : List Char} {mutations : List FramebufferMutation},
          s <+: m.words[i].chars → Rewrites mutations (i + 1) m.words[i].chars s →
            m.Shrinks (m.editWord i s) mutations := by
        intro s mutations hs hms
        refine ⟨edits_editWord m i s, i + 1, s, changedRow_words m i (.owned s), ?_, ?_⟩
        · rwa [rowText_succ]
        · rwa [rowText_succ]
      dsimp only
      split
      · obtain ⟨hsuffix, hms⟩ := widen_spec (i + 1) m.words[i].chars rest _ hpop
        rw [put_editWord]
        exact ⟨_, _, rfl, hshrinks ((List.reverse_prefix.2 hsuffix).trans hpre) hms⟩
      · rw [put_editWord]
        exact ⟨_, _, rfl, hshrinks hpre hpop⟩

/-- A complete word has letters. -/
theorem chars_ne_nil_of_isComplete {w : CowStr} (h : w.isComplete = true) : w.chars ≠ [] := by
  cases w with
  | borrowed s =>
      intro hnil
      rw [CowStr.chars] at hnil
      rw [CowStr.isComplete, hnil] at h
      cases h
  | owned s => cases h

/-- The word in front of an empty one is edited next. -/
theorem Editing.previous {m : BackupModel} {i k : Fin NUM_WORDS} (h : m.Editing i)
    (hk : k.val + 1 = i) :
    ((m.editWord i m.words[i].chars).editWord k m.words[k].chars).Editing k := by
  have hki : k < i := Fin.lt_def.2 (by omega)
  refine ⟨h.confirmed, ?_, fun j hj => ?_⟩
  · have hself : ((m.editWord i m.words[i].chars).editWord k m.words[k].chars).words[k] =
        .owned m.words[k].chars := Vector.getElem_set_self k.isLt
    rw [hself]
    rfl
  · have hji : i.val ≠ j := by
      have hlt := Fin.lt_def.1 hj
      omega
    have hsame : ((m.editWord i m.words[i].chars).editWord k m.words[k].chars).words[j] =
        m.words[j] :=
      (Vector.getElem_set_ne k.isLt j.isLt (Nat.ne_of_gt (Fin.lt_def.1 hj))).trans
        (Vector.getElem_set_ne i.isLt j.isLt hji)
    rw [hsame]
    exact h.before j (Fin.lt_trans hj hki)

/-- An empty word is left for the row in front of it. -/
theorem backspaceWith_wordNil {m : BackupModel} {i : Fin NUM_WORDS} (fuel : ℕ) (h : m.Editing i)
    (hnil : m.words[i].chars = []) :
    ∃ m' mutations, backspaceWith (fuel + 2) m = .ret (m', mutations) ∧ m.Shrinks m' mutations := by
  rw [backspaceWith, currentString_of_editing h, Exec.ret_bind]
  dsimp only
  have hrev : m.words[i].chars.reverse = [] := by rw [hnil, List.reverse_nil]
  rw [hrev]
  dsimp only
  rw [if_neg (Nat.succ_ne_zero _)]
  rcases Nat.eq_zero_or_pos i.val with hzero | hpos
  · -- The share index is in front of the first word.
    let b := { m.editWord i m.words[i].chars with shareIndexConfirmed := false }
    have hedits : m.Edits b :=
      (edits_editWord m i m.words[i].chars).trans (edits_shareIndex _ m.shareIndex)
    have htext : b.rowText = m.rowText := rowText_editWord_same m i
    obtain ⟨m', mutations, hret, hshrinks⟩ := @backspaceWith_index b fuel rfl
    rw [if_pos ⟨by rw [hzero], h.confirmed⟩]
    exact ⟨m', mutations, hret, hshrinks.of_rowText hedits htext⟩
  · let k : Fin NUM_WORDS := ⟨i.val - 1, by omega⟩
    have hk : k.val + 1 = i := Nat.sub_add_cancel hpos
    have hki : i.val ≠ k := by omega
    have hprev : (m.editWord i m.words[i].chars).words[k] = m.words[k] :=
      Vector.getElem_set_ne i.isLt k.isLt hki
    have hrow : i.val + 1 - 2 = k := by omega
    have hset : ∀ w, (m.editWord i m.words[i].chars).setWord (i + 1 - 1) w =
        { m.editWord i m.words[i].chars with
          words := (m.editWord i m.words[i].chars).words.set k w } := by
      intro w
      have hidx : i.val + 1 - 1 = k + 1 := by omega
      rw [hidx, setWord_succ]
    have htext : ((m.editWord i m.words[i].chars).editWord k m.words[k].chars).rowText =
        m.rowText := by
      rw [← hprev, rowText_editWord_same, rowText_editWord_same]
    have hedits := (edits_editWord m i m.words[i].chars).trans
      (edits_editWord (m.editWord i m.words[i].chars) k m.words[k].chars)
    have hchars : ((m.editWord i m.words[i].chars).editWord k m.words[k].chars).words[k] =
        .owned m.words[k].chars := Vector.getElem_set_self k.isLt
    obtain ⟨m', mutations, hret, hshrinks⟩ := backspaceWith_word fuel (h.previous hk)
      (by
        rw [hchars, CowStr.chars]
        exact chars_ne_nil_of_isComplete (h.before k (Fin.lt_def.2 (by omega))))
    rw [if_neg (by omega), if_pos (by omega), hset, hrow, Vector.getElem?_eq_getElem k.isLt,
      Option.map_some, Option.getD_some]
    refine ⟨m', mutations, ?_, hshrinks.of_rowText hedits htext⟩
    rw [Fin.getElem_fin] at hprev
    rw [hprev]
    exact hret

/-- **`backspace` deletes letters** of the row that is edited, or of the row in front of it if that
is empty. -/
theorem backspace_spec {m : BackupModel}
    (h : m.shareIndexConfirmed = false ∨ ∃ i, m.Editing i) :
    ∃ m' mutations, m.backspace = .ret (m', mutations) ∧ m.Shrinks m' mutations := by
  rcases h with hindex | ⟨i, hediting⟩
  · exact backspaceWith_index _ hindex
  · by_cases hnil : m.words[i].chars = []
    · exact backspaceWith_wordNil _ hediting hnil
    · exact backspaceWith_word _ hediting hnil

/-! ### Rows that are complete -/

/-- The index is confirmed as it was typed. -/
theorem completeRow_index {m : BackupModel} (h : m.shareIndexConfirmed = false) :
    m.completeRow m.shareIndex = .ret ({ m with shareIndexConfirmed := true }, []) := by
  rw [completeRow, currentString_of_unconfirmed h, Exec.ret_bind]
  dsimp only
  rw [if_pos (List.isPrefixOf_iff_prefix.2 List.prefix_rfl), if_pos rfl, List.drop_length]
  rfl

/-- A word of the list is found in it. -/
theorem lookUp_word {w : List Char} (h : w ∈ WORDS) :
    ∃ idx, wordToIndex (String.ofList w) = some idx ∧ WORDS.getD idx [] = w := by
  obtain ⟨word, hword, rfl⟩ := mem_WORDS.1 h
  obtain ⟨idx, hidx⟩ := List.mem_iff_getElem?.1 hword
  refine ⟨idx, ?_, ?_⟩
  · rw [String.ofList_toList]
    exact wordToIndex_getElem hidx
  · rw [List.getD_eq_getElem?_getD, WORDS, List.getElem?_map, hidx]
    rfl

/-- A word is taken from the list, and the rest of it written. -/
theorem completeRow_word {m : BackupModel} {i : Fin NUM_WORDS} (h : m.Editing i) {w : List Char}
    (hw : w ∈ WORDS) (hpre : m.words[i].chars <+: w) :
    ∃ mutations,
      m.completeRow w = .ret ({ m with words := m.words.set i (.borrowed w) }, mutations) ∧
        Rewrites mutations (i + 1) m.words[i].chars w := by
  obtain ⟨idx, hidx, hget⟩ := lookUp_word hw
  have hset := Rewrites.setCharacters (i + 1) m.words[i].chars (w.drop m.words[i].chars.length)
  rw [← List.prefix_append_drop hpre] at hset
  rw [completeRow, currentString_of_editing h, Exec.ret_bind]
  dsimp only
  rw [if_pos (List.isPrefixOf_iff_prefix.2 hpre), if_neg (Nat.succ_ne_zero _), hidx]
  dsimp only
  rw [hget, setWord_succ, editWord, Vector.set_set]
  exact ⟨_, rfl, hset⟩

/-- Row 0 is complete with the share index, and another one with its word. -/
def Completed (m : BackupModel) (row : ℕ) : Prop :=
  if row = 0 then m.shareIndexConfirmed = true
  else ∃ w, m.words[row - 1]? = some w ∧ w.isComplete = true

/-- **`edit_row` clears a row.** -/
theorem editRow_spec {m : BackupModel} {row : ℕ} (h : m.Completed row) :
    ∃ m' mutations, m.editRow row = .ret (m', mutations) ∧ m.Shrinks m' mutations := by
  rw [editRow]
  cases row with
  | zero =>
      rw [if_pos rfl]
      exact ⟨_, _, rfl, edits_shareIndex m [], 0, [], changedRow_shareIndex m [] false,
        List.nil_prefix, Rewrites.delCharacters 0 m.shareIndex⟩
  | succ j =>
      rw [Completed, if_neg (Nat.succ_ne_zero j), Nat.add_sub_cancel] at h
      obtain ⟨w, hw, -⟩ := h
      obtain ⟨hj, -⟩ := Vector.getElem?_eq_some_iff.1 hw
      have hrow := rowText_succ m ⟨j, hj⟩
      have hdel := Rewrites.delCharacters (j + 1) m.words[j].chars
      have hj' : j + 1 - 1 < NUM_WORDS := hj
      rw [if_neg (Nat.succ_ne_zero j), dif_pos hj']
      refine ⟨_, _, rfl, edits_editWord m ⟨j, hj⟩ [], j + 1, [],
        changedRow_words m ⟨j, hj⟩ (.owned []), List.nil_prefix, ?_⟩
      exact hrow ▸ hdel

end BackupModel

end Frostsnap.Widgets

namespace Frostsnap.Widgets

open Backup

namespace BackupModel

/-! ### The invariant -/

/-- What holds of every model that is reached. -/
structure Valid (m : BackupModel) : Prop where
  digits : ∀ c ∈ m.shareIndex, c.isDigit = true
  length_le : m.shareIndex.length ≤ 7
  index_ne : m.shareIndexConfirmed = true → m.shareIndex ≠ []
  borrowed : ∀ (i : Fin NUM_WORDS) s, m.words[i] = .borrowed s → s = [] ∨ s ∈ WORDS
  begins : ∀ i : Fin NUM_WORDS, ∃ w ∈ WORDS, m.words[i].chars <+: w

/-- There are words. -/
theorem exists_word : ∃ w, w ∈ WORDS := by
  refine List.exists_mem_of_length_pos ?_
  rw [WORDS, List.length_map, length_words]
  decide

/-- Nothing was entered. -/
theorem valid_new : new.Valid where
  digits := nofun
  length_le := Nat.zero_le 7
  index_ne := nofun
  borrowed i s h := by
    rw [new] at h
    dsimp only at h
    rw [Fin.getElem_fin, Vector.getElem_replicate] at h
    exact Or.inl (CowStr.borrowed.inj h).symm
  begins i := by
    obtain ⟨w, hw⟩ := exists_word
    refine ⟨w, hw, ?_⟩
    rw [new]
    dsimp only
    rw [Fin.getElem_fin, Vector.getElem_replicate]
    exact List.nil_prefix

/-- A complete word is one of the list. -/
theorem Valid.mem_words {m : BackupModel} (h : m.Valid) {i : Fin NUM_WORDS}
    (hi : m.words[i].isComplete = true) : m.words[i].chars ∈ WORDS := by
  cases hw : m.words[i] with
  | owned s =>
      rw [hw] at hi
      cases hi
  | borrowed s =>
      rcases h.borrowed i s hw with hnil | hmem
      · rw [hw, hnil] at hi
        cases hi
      · exact hmem

/-- An operation that edits one row. -/
theorem Valid.of_edits {m m' : BackupModel} {row : ℕ} {new : List Char} (h : m.Valid)
    (hedits : m.Edits m') (hrow : m.ChangedRow m' row new)
    (hindex : row = 0 → (∀ c ∈ new, c.isDigit = true) ∧ new.length ≤ 7)
    (hword : row ≠ 0 → ∃ w ∈ WORDS, new <+: w) : m'.Valid := by
  have hshare : (∀ c ∈ m'.shareIndex, c.isDigit = true) ∧ m'.shareIndex.length ≤ 7 := by
    rw [← rowText_zero m', hrow]
    by_cases hzero : row = 0
    · rw [hzero, Function.update_self]
      exact hindex hzero
    · rw [Function.update_of_ne (Ne.symm hzero), rowText_zero]
      exact ⟨h.digits, h.length_le⟩
  refine ⟨hshare.1, hshare.2, fun hconfirmed => ?_, fun i s hs => ?_, fun i => ?_⟩
  · obtain ⟨hconfirmed', hsame⟩ := hedits.confirmed hconfirmed
    rw [hsame]
    exact h.index_ne hconfirmed'
  · rcases hedits.words i with hsame | ⟨t, ht⟩
    · exact h.borrowed i s (hsame.symm.trans hs)
    · rw [ht] at hs
      cases hs
  · rw [← rowText_succ m' i, hrow]
    by_cases heq : i.val + 1 = row
    · rw [heq, Function.update_self]
      exact hword (by omega)
    · rw [Function.update_of_ne heq, rowText_succ]
      exact h.begins i

/-- Backspace leaves something that can be entered. -/
theorem Valid.of_shrinks {m m' : BackupModel} {mutations : List FramebufferMutation} (h : m.Valid)
    (hshrinks : m.Shrinks m' mutations) : m'.Valid := by
  obtain ⟨hedits, row, new, hrow, hnew, -⟩ := hshrinks
  refine h.of_edits hedits hrow (fun hzero => ?_) fun hne => ?_
  · rw [hzero, rowText_zero] at hnew
    exact ⟨fun c hc => h.digits c (hnew.subset hc), hnew.length_le.trans h.length_le⟩
  · obtain ⟨w, hw⟩ := exists_word
    obtain ⟨j, rfl⟩ := Nat.exists_eq_succ_of_ne_zero hne
    by_cases hj : j < NUM_WORDS
    · have hrow' := rowText_succ m ⟨j, hj⟩
      obtain ⟨w, hw, hpre⟩ := h.begins ⟨j, hj⟩
      rw [← hrow'] at hpre
      exact ⟨w, hw, hnew.trans hpre⟩
    · rw [rowText_add_one, Vector.getElem?_eq_none (not_lt.1 hj)] at hnew
      exact ⟨w, hw, hnew.trans List.nil_prefix⟩

/-- The screen shows it. -/
theorem ShownOn.of_shrinks {m m' : BackupModel} {g : Grid}
    {mutations : List FramebufferMutation} (h : m.ShownOn g) (hshrinks : m.Shrinks m' mutations) :
    m'.ShownOn (g.applyMutations mutations) := by
  obtain ⟨-, row, new, hrow, -, hms⟩ := hshrinks
  exact h.applyMutations hrow hms

/-! ### The view -/

/-- The index is confirmed and every word is complete. -/
structure AllEntered (m : BackupModel) : Prop where
  confirmed : m.shareIndexConfirmed = true
  complete : ∀ i : Fin NUM_WORDS, m.words[i].isComplete = true

/-- The share index is entered, or everything is, or a word is. -/
theorem cases_of_model (m : BackupModel) :
    m.shareIndexConfirmed = false ∨ m.AllEntered ∨ ∃ i, m.Editing i := by
  cases hconfirmed : m.shareIndexConfirmed with
  | false => exact Or.inl rfl
  | true =>
      right
      cases hpos : m.position with
      | none => exact Or.inl ⟨hconfirmed, position_eq_none_iff.1 hpos⟩
      | some i =>
          obtain ⟨hincomplete, hbefore⟩ := position_eq_some_iff.1 hpos
          exact Or.inr ⟨i, hconfirmed, hincomplete, hbefore⟩

/-- Each of the words. -/
theorem all_words_iff {m : BackupModel} {P : CowStr → Bool} :
    m.words.toList.all P = true ↔ ∀ i : Fin NUM_WORDS, P m.words[i] = true := by
  rw [List.all_eq_true]
  constructor
  · intro h i
    exact h _ (Vector.mem_toList_iff.2 (Vector.getElem_mem i.isLt))
  · intro h w hw
    obtain ⟨i, hi, rfl⟩ := Vector.getElem_of_mem (Vector.mem_toList_iff.1 hw)
    exact h ⟨i, hi⟩

/-- The words, once all are entered. -/
theorem getWordsAsStatic_of_allEntered {m : BackupModel} (h : m.AllEntered) :
    m.getWordsAsStatic = some (m.words.map CowStr.chars) := by
  have hne : m.words.toList.all (fun w => !w.chars.isEmpty) = true := by
    rw [all_words_iff]
    intro i
    rw [Bool.not_eq_true', List.isEmpty_eq_false_iff]
    exact chars_ne_nil_of_isComplete (h.complete i)
  rw [getWordsAsStatic, isComplete, h.confirmed, hne, all_words_iff.2 h.complete]
  rfl

/-- Until then there are none. -/
theorem getWordsAsStatic_of_editing {m : BackupModel} {i : Fin NUM_WORDS} (h : m.Editing i) :
    m.getWordsAsStatic = none := by
  have hnot : m.words.toList.all CowStr.isComplete = false := by
    rw [Bool.eq_false_iff]
    intro hall
    exact absurd (h.incomplete.symm.trans (all_words_iff.1 hall i)) (by decide)
  rw [getWordsAsStatic, hnot]
  split <;> rfl

end BackupModel

/-- As many digits as there are bound the number. -/
theorem foldl_digits_lt {s : List Char} (hdigits : ∀ c ∈ s, c.isDigit = true) (n : ℕ) :
    s.foldl (fun n c => 10 * n + (c.toNat - 48)) n + 1 ≤ (n + 1) * 10 ^ s.length := by
  induction s generalizing n with
  | nil => rw [List.foldl_nil, List.length_nil, Nat.pow_zero, Nat.mul_one]
  | cons c s ih =>
      have hdigit : c.toNat - 48 ≤ 9 := by
        have hc := hdigits c (List.mem_cons_self ..)
        rw [Char.isDigit, Bool.and_eq_true, decide_eq_true_eq, decide_eq_true_eq] at hc
        have hle : c.toNat ≤ 57 := hc.2
        omega
      have hih := ih (fun d hd => hdigits d (List.mem_cons_of_mem c hd)) (10 * n + (c.toNat - 48))
      rw [List.foldl_cons, List.length_cons, Nat.pow_succ, ← Nat.mul_assoc, Nat.mul_right_comm]
      exact hih.trans (Nat.mul_le_mul_right _ (by omega))

/-- A number of seven digits fits. -/
theorem parseU32_of_digits {s : List Char} (hne : s ≠ []) (hdigits : ∀ c ∈ s, c.isDigit = true)
    (hlen : s.length ≤ 7) : ∃ n, parseU32 s = some n := by
  have hplus : stripPlus s = s := by
    rw [stripPlus.eq_2]
    rintro rest rfl
    exact absurd (hdigits '+' (List.mem_cons_self ..)) (by decide)
  have hbound := foldl_digits_lt hdigits 0
  have hpow : 10 ^ s.length ≤ 10 ^ 7 := Nat.pow_le_pow_right (by decide) hlen
  rw [parseU32, hplus]
  dsimp only
  rw [if_pos ⟨hne, List.all_eq_true.2 hdigits⟩, if_pos (by omega)]
  exact ⟨_, rfl⟩

namespace BackupModel

variable (sha256 : Sha256)

/-- The view while the share index is entered. -/
theorem viewState_of_unconfirmed {m : BackupModel} (h : m.shareIndexConfirmed = false) :
    m.viewState sha256 = .ret
      { row := 0
        cursorPos := m.shareIndex.length
        completedRows := m.numCompletedRows
        mainView := .enterShareIndex m.shareIndex } := by
  rw [viewState, if_pos h]

/-- The view at the end. -/
theorem viewState_of_allEntered {m : BackupModel} (hvalid : m.Valid) (h : m.AllEntered) :
    ∃ success, m.viewState sha256 = .ret
      { row := NUM_WORDS
        cursorPos := 0
        completedRows := m.numCompletedRows
        mainView := .allWordsEntered success } := by
  obtain ⟨n, hn⟩ :=
    parseU32_of_digits (hvalid.index_ne h.confirmed) hvalid.digits hvalid.length_le
  rw [viewState, getWordsAsStatic_of_allEntered h, hn, if_neg (by rw [h.confirmed]; decide)]
  exact ⟨_, rfl⟩

/-- The view while a word is entered. -/
theorem viewState_of_editing {m : BackupModel} {i : Fin NUM_WORDS} (h : m.Editing i) :
    m.viewState sha256 = .ret (m.wordViewState i) := by
  rw [viewState, getWordsAsStatic_of_editing h, h.position, if_neg (by rw [h.confirmed]; decide)]
  rfl

/-- The letters or words that are offered are those that lead to a word, and some are. -/
def OffersExact (currentWord : List Char) : MainViewState → Prop
  | .enterWord letters =>
      (∃ c, letters.isValid c = true) ∧
        ∀ c, letters.isValid c = true ↔ ∃ w ∈ WORDS, currentWord ++ [c] <+: w
  | .wordSelect current possibleWords =>
      current = currentWord ∧ possibleWords ≠ [] ∧
        ∀ w, w ∈ possibleWords ↔ w ∈ WORDS ∧ currentWord <+: w
  | _ => False

/-- **What is offered** is what leads to a word, and all of it. -/
theorem offersExact_wordView {currentWord : List Char} (h : ∃ w ∈ WORDS, currentWord <+: w) :
    OffersExact currentWord (wordView currentWord) := by
  have hmatching : wordsWithPrefix currentWord ≠ [] := by
    obtain ⟨w, hw, hpre⟩ := h
    exact List.ne_nil_of_mem (mem_wordsWithPrefix.2 ⟨hw, hpre⟩)
  rw [wordView]
  split
  · next hnil =>
    rw [hnil]
    refine ⟨⟨'A', ?_⟩, fun c => isValid_getValidNextLetters⟩
    rw [getValidNextLetters, if_pos rfl]
    rfl
  · dsimp only
    split
    · exact ⟨rfl, hmatching, fun w => mem_wordsWithPrefix⟩
    · next hmany =>
      rw [not_and, not_le] at hmany
      have hlen := hmany hmatching
      exact ⟨exists_isValid (by omega), fun c => isValid_getValidNextLetters⟩

/-! ### Operations -/

end BackupModel

/-- What the user does. -/
inductive Op where
  | typeChar (c : Char)
  | backspace
  | complete (text : List Char)
  | edit (row : ℕ)

namespace BackupModel

/-- An operation of the user. -/
def apply (m : BackupModel) : Op → Exec (BackupModel × List FramebufferMutation)
  | .typeChar c => m.addCharacter c
  | .backspace => m.backspace
  | .complete text => m.completeRow text
  | .edit row => m.editRow row

/-- What a view offers. -/
def Offered (m : BackupModel) (v : ViewState) : Op → Prop
  | .typeChar c =>
      match v.mainView with
      | .enterShareIndex _ => c.isDigit = true
      | .enterWord letters => letters.isValid c = true
      | _ => False
  | .backspace => ∃ row, row ≤ NUM_WORDS ∧ ¬m.Completed row
  | .complete text =>
      match v.mainView with
      | .enterShareIndex current => text = current ∧ current ≠ []
      | .wordSelect _ possibleWords => text ∈ possibleWords
      | _ => False
  | .edit row => m.Completed row

/-- What an operation has to do. -/
def Steps (m : BackupModel) (op : Op) : Prop :=
  ∃ m' mutations, m.apply op = .ret (m', mutations) ∧ m'.Valid ∧
    ∀ g, m.ShownOn g → m'.ShownOn (g.applyMutations mutations)

/-- An operation that takes something back is a step. -/
theorem Steps.of_shrinks {m : BackupModel} {op : Op} (hvalid : m.Valid)
    (h : ∃ m' mutations, m.apply op = .ret (m', mutations) ∧ m.Shrinks m' mutations) :
    m.Steps op := by
  obtain ⟨m', mutations, hret, hshrinks⟩ := h
  exact ⟨m', mutations, hret, hvalid.of_shrinks hshrinks, fun g hg => hg.of_shrinks hshrinks⟩

/-- Some row is not complete, so one is edited. -/
theorem not_allEntered {m : BackupModel} (h : ∃ row, row ≤ NUM_WORDS ∧ ¬m.Completed row) :
    m.shareIndexConfirmed = false ∨ ∃ i, m.Editing i := by
  rcases m.cases_of_model with hindex | hall | hediting
  · exact Or.inl hindex
  · exfalso
    obtain ⟨row, hrow, hnot⟩ := h
    refine hnot ?_
    rw [Completed]
    split
    · exact hall.confirmed
    · next hne =>
      have hlt : row - 1 < NUM_WORDS := by omega
      exact ⟨_, Vector.getElem?_eq_getElem hlt, hall.complete ⟨row - 1, hlt⟩⟩
  · exact Or.inr hediting

/-- A digit of the share index is a step. -/
theorem steps_digit {m : BackupModel} {c : Char} (hvalid : m.Valid)
    (h : m.shareIndexConfirmed = false) (hc : c.isDigit = true) : m.Steps (.typeChar c) := by
  rw [Steps, apply, addCharacter_index h]
  split
  · exact ⟨m, [], rfl, hvalid, fun g hg => hg⟩
  · next hlen =>
    have hm : { m with shareIndex := m.shareIndex ++ [c] } =
        { m with shareIndex := m.shareIndex ++ [c], shareIndexConfirmed := false } := by
      rw [← h]
    have hrow := changedRow_shareIndex m (m.shareIndex ++ [c]) false
    rw [hm]
    refine ⟨_, _, rfl, ?_, fun g hg => hg.applyMutations hrow (Rewrites.set 0 m.shareIndex c)⟩
    refine hvalid.of_edits (edits_shareIndex m _) hrow (fun _ => ⟨fun d hd => ?_, ?_⟩)
      fun hne => absurd rfl hne
    · rcases List.mem_append.1 hd with hd | hd
      · exact hvalid.digits d hd
      · rw [List.mem_singleton.1 hd]
        exact hc
    · rw [List.length_append, List.length_singleton]
      omega

/-- A letter that leads to a word is a step. -/
theorem steps_letter {m : BackupModel} {i : Fin NUM_WORDS} {c : Char} (hvalid : m.Valid)
    (h : m.Editing i) (hc : ∃ w ∈ WORDS, m.words[i].chars ++ [c] <+: w) :
    m.Steps (.typeChar c) := by
  obtain ⟨w, hw, hpre⟩ := hc
  obtain ⟨mutations, hret, hms⟩ := addCharacter_word h c
  have hrow := changedRow_words m i (.owned (m.words[i].chars ++ typed c))
  have htext := rowText_succ m i
  refine ⟨_, mutations, hret, ?_, fun g hg => hg.applyMutations hrow (htext ▸ hms)⟩
  refine hvalid.of_edits (edits_editWord m i _) hrow
    (fun hzero => absurd hzero (Nat.succ_ne_zero _))
    fun _ => ⟨w, hw, ?_⟩
  rw [CowStr.chars, typed]
  split
  · next hq =>
    rw [hq] at hpre
    exact qu_of_wellSpelled (checked_of_mem hw).2 hpre
  · exact hpre

/-- A word is the new one, or what it was. -/
theorem getElem_set_cases {n : ℕ} (words : Vector CowStr n) (i j : Fin n) (w : CowStr) :
    (words.set i w)[j] = w ∨ (words.set i w)[j] = words[j] := by
  by_cases h : j = i
  · subst h
    exact Or.inl (Vector.getElem_set_self j.isLt)
  · exact Or.inr (Vector.getElem_set_ne i.isLt j.isLt fun hij => h (Fin.ext hij.symm))

/-- Confirming the share index is a step. -/
theorem steps_completeIndex {m : BackupModel} (hvalid : m.Valid)
    (h : m.shareIndexConfirmed = false) (hne : m.shareIndex ≠ []) :
    m.Steps (.complete m.shareIndex) := by
  refine ⟨_, _, completeRow_index h, ?_, fun g hg => hg⟩
  exact ⟨hvalid.digits, hvalid.length_le, fun _ => hne, hvalid.borrowed, hvalid.begins⟩

/-- Taking a word from the list is a step. -/
theorem steps_completeWord {m : BackupModel} {i : Fin NUM_WORDS} {w : List Char}
    (hvalid : m.Valid) (h : m.Editing i) (hw : w ∈ WORDS) (hpre : m.words[i].chars <+: w) :
    m.Steps (.complete w) := by
  obtain ⟨mutations, hret, hms⟩ := completeRow_word h hw hpre
  have hrow := changedRow_words m i (.borrowed w)
  have htext := rowText_succ m i
  refine ⟨_, mutations, hret, ?_, fun g hg => hg.applyMutations hrow (htext ▸ hms)⟩
  refine ⟨hvalid.digits, hvalid.length_le, hvalid.index_ne, fun j s hs => ?_, fun j => ?_⟩
  · rcases getElem_set_cases m.words i j (.borrowed w) with hj | hj
    · rw [hj] at hs
      rw [← CowStr.borrowed.inj hs]
      exact Or.inr hw
    · exact hvalid.borrowed j s (hj.symm.trans hs)
  · rcases getElem_set_cases m.words i j (.borrowed w) with hj | hj
    · rw [hj]
      exact ⟨w, hw, List.prefix_rfl⟩
    · rw [hj]
      exact hvalid.begins j

variable (sha256 : Sha256)

/-- **Every operation that is offered** returns, keeps the invariant and keeps the screen in step
with the model. -/
theorem step_spec {m : BackupModel} {v : ViewState} {op : Op} (hvalid : m.Valid)
    (hview : m.viewState sha256 = .ret v) (hop : m.Offered v op) : m.Steps op := by
  cases op with
  | backspace => exact Steps.of_shrinks hvalid (backspace_spec (not_allEntered hop))
  | edit row => exact Steps.of_shrinks hvalid (editRow_spec hop)
  | typeChar c =>
      rcases m.cases_of_model with hindex | hall | ⟨i, hediting⟩
      · rw [viewState_of_unconfirmed sha256 hindex] at hview
        obtain rfl := Exec.ret.inj hview
        exact steps_digit hvalid hindex hop
      · obtain ⟨success, hret⟩ := viewState_of_allEntered sha256 hvalid hall
        rw [hret] at hview
        obtain rfl := Exec.ret.inj hview
        exact hop.elim
      · rw [viewState_of_editing sha256 hediting] at hview
        obtain rfl := Exec.ret.inj hview
        have hoffers := offersExact_wordView (hvalid.begins i)
        rw [Offered, wordViewState] at hop
        cases hw : wordView m.words[i].chars with
        | enterWord letters =>
            rw [hw] at hop hoffers
            exact steps_letter hvalid hediting ((hoffers.2 c).1 hop)
        | enterShareIndex current =>
            rw [hw] at hoffers
            exact hoffers.elim
        | wordSelect current possibleWords =>
            rw [hw] at hop
            exact hop.elim
        | allWordsEntered success =>
            rw [hw] at hop
            exact hop.elim
  | complete text =>
      rcases m.cases_of_model with hindex | hall | ⟨i, hediting⟩
      · rw [viewState_of_unconfirmed sha256 hindex] at hview
        obtain rfl := Exec.ret.inj hview
        obtain ⟨rfl, hne⟩ := hop
        exact steps_completeIndex hvalid hindex hne
      · obtain ⟨success, hret⟩ := viewState_of_allEntered sha256 hvalid hall
        rw [hret] at hview
        obtain rfl := Exec.ret.inj hview
        exact hop.elim
      · rw [viewState_of_editing sha256 hediting] at hview
        obtain rfl := Exec.ret.inj hview
        have hoffers := offersExact_wordView (hvalid.begins i)
        rw [Offered, wordViewState] at hop
        cases hw : wordView m.words[i].chars with
        | wordSelect current possibleWords =>
            rw [hw] at hop hoffers
            obtain ⟨hmem, hpre⟩ := (hoffers.2.2 text).1 hop
            exact steps_completeWord hvalid hediting hmem hpre
        | enterShareIndex current =>
            rw [hw] at hoffers
            exact hoffers.elim
        | enterWord letters =>
            rw [hw] at hop
            exact hop.elim
        | allWordsEntered success =>
            rw [hw] at hop
            exact hop.elim

/-! ### Runs -/

/-- The models that are reached, with what the screen shows after all the mutations. -/
inductive Reachable : BackupModel → Grid → Prop
  | new : Reachable .new .empty
  | step {m m' : BackupModel} {g : Grid} {v : ViewState} {op : Op}
      {mutations : List FramebufferMutation} (h : Reachable m g)
      (hview : m.viewState sha256 = .ret v) (hop : m.Offered v op)
      (hret : m.apply op = .ret (m', mutations)) : Reachable m' (g.applyMutations mutations)

/-- An empty screen shows that nothing was entered. -/
theorem shownOn_new : new.ShownOn Grid.empty := by
  intro row
  have hnil : new.rowText row = [] := by
    cases row with
    | zero => rfl
    | succ j =>
        rw [rowText_add_one, new]
        dsimp only
        by_cases hj : j < NUM_WORDS
        · rw [Vector.getElem?_eq_getElem hj, Vector.getElem_replicate]
          rfl
        · rw [Vector.getElem?_eq_none (not_lt.1 hj)]
          rfl
  rw [hnil]
  rfl

/-- **In every run** what was entered is valid, and the screen shows it. -/
theorem Reachable.valid {m : BackupModel} {g : Grid} (h : Reachable sha256 m g) :
    m.Valid ∧ m.ShownOn g := by
  induction h with
  | new => exact ⟨valid_new, shownOn_new⟩
  | step _ hview hop hret ih =>
      obtain ⟨m', mutations, hret', hvalid, hshown⟩ := step_spec sha256 ih.1 hview hop
      rw [hret] at hret'
      cases hret'
      exact ⟨hvalid, hshown _ ih.2⟩

/-- What the view of a model has to be. -/
def ViewExact (m : BackupModel) (v : ViewState) : Prop :=
  match v.mainView with
  | .enterShareIndex current => v.row = 0 ∧ current = m.shareIndex
  | .allWordsEntered _ => ∀ i : Fin NUM_WORDS, m.words[i].chars ∈ WORDS
  | mainView => ∃ i : Fin NUM_WORDS, v.row = i + 1 ∧ OffersExact m.words[i].chars mainView

/-- What holds in a state of the entry. -/
structure Safe (m : BackupModel) (g : Grid) (v : ViewState) : Prop where
  returns : ∀ op, m.Offered v op → ∃ m' mutations, m.apply op = .ret (m', mutations)
  before : ∀ i : Fin NUM_WORDS, i + 1 < v.row → m.words[i].chars ∈ WORDS
  begins : ∀ i : Fin NUM_WORDS, ∃ w ∈ WORDS, m.words[i].chars <+: w
  offers : m.ViewExact v
  shown : m.ShownOn g

/-- **The view** exists, offers exactly what can be entered, and has words above the current row. -/
theorem view_spec {m : BackupModel} (hvalid : m.Valid) :
    ∃ v, m.viewState sha256 = .ret v ∧ m.ViewExact v ∧
      ∀ i : Fin NUM_WORDS, i + 1 < v.row → m.words[i].chars ∈ WORDS := by
  rcases m.cases_of_model with hindex | hall | ⟨i, hediting⟩
  · exact ⟨_, viewState_of_unconfirmed sha256 hindex, ⟨rfl, rfl⟩,
      fun j hj => absurd hj (Nat.not_lt_zero _)⟩
  · obtain ⟨success, hret⟩ := viewState_of_allEntered sha256 hvalid hall
    have hwords := fun i => hvalid.mem_words (hall.complete i)
    exact ⟨_, hret, hwords, fun i _ => hwords i⟩
  · refine ⟨_, viewState_of_editing sha256 hediting, ?_, fun j hj => ?_⟩
    · have hoffers := offersExact_wordView (hvalid.begins i)
      rw [ViewExact, wordViewState]
      dsimp only
      cases hw : wordView m.words[i].chars with
      | enterWord letters =>
          rw [hw] at hoffers
          exact ⟨i, rfl, hoffers⟩
      | wordSelect current possibleWords =>
          rw [hw] at hoffers
          exact ⟨i, rfl, hoffers⟩
      | enterShareIndex current =>
          rw [hw] at hoffers
          exact hoffers.elim
      | allWordsEntered success =>
          rw [hw] at hoffers
          exact hoffers.elim
    · exact hvalid.mem_words (hediting.before j (Fin.lt_def.2 (Nat.lt_of_succ_lt_succ hj)))

/-- **The entry of a backup is safe** in every state that is reached: what is offered works, leads
to words of the list, and the screen shows what was entered. -/
theorem backup_entry_safe {m : BackupModel} {g : Grid} (h : Reachable sha256 m g) :
    ∃ v, m.viewState sha256 = .ret v ∧ m.Safe g v := by
  obtain ⟨hvalid, hshown⟩ := h.valid
  obtain ⟨v, hview, hexact, hbefore⟩ := view_spec sha256 hvalid
  refine ⟨v, hview, fun op hop => ?_, hbefore, hvalid.begins, hexact, hshown⟩
  obtain ⟨m', mutations, hret, -⟩ := step_spec sha256 hvalid hview hop
  exact ⟨m', mutations, hret⟩

/-- All words with a `Q` begin with a `QU`, and there are as many as can be shown at once. -/
theorem length_wordsWithPrefix_qu : (wordsWithPrefix ['Q', 'U']).length = 8 := by
  have hpyramid : WORDS[1400]? = some ['P', 'Y', 'R', 'A', 'M', 'I', 'D'] := by decide +kernel
  have hquality : WORDS[1401]? = some ['Q', 'U', 'A', 'L', 'I', 'T', 'Y'] := by decide +kernel
  have hpartitioned := partitioned_lt WORDS_sorted ['Q', 'U']
  have hstart : partitionPoint (fun w => decide (w < ['Q', 'U'])) WORDS = 1401 := by
    have hbelow := (getElem?_partitioned hpartitioned hpyramid).1 (by decide)
    have habove := mt (getElem?_partitioned hpartitioned hquality).2 (by decide)
    rw [partitionPoint_eq hpartitioned]
    omega
  rw [wordsWithPrefix, if_neg (List.cons_ne_nil _ _), hstart]
  decide +kernel

/-- The share index is typed and confirmed, a word is taken from those that begin with a `Q`, and a
letter of the next one is typed and deleted. -/
theorem backup_entry_safe_typed :
    ∃ m g v, Reachable (fun _ => []) m g ∧ m.shareIndexConfirmed = true ∧
      m.words[0] = .borrowed ['Q', 'U', 'I', 'Z'] ∧ m.words[1] = .owned [] ∧
      m.viewState (fun _ => []) = .ret v ∧ m.Safe g v := by
  have hquiz : ['Q', 'U', 'I', 'Z'] ∈ WORDS := by
    have hget : WORDS[1407]? = some ['Q', 'U', 'I', 'Z'] := by decide +kernel
    exact List.mem_of_getElem? hget
  let index : BackupModel := { new with shareIndex := ['7'] }
  have hindex : Reachable (fun _ => []) index _ :=
    .step .new (viewState_of_unconfirmed _ rfl) (show Offered _ _ (.typeChar '7') from rfl) rfl
  let confirmed : BackupModel := { index with shareIndexConfirmed := true }
  have hconfirmed : Reachable (fun _ => []) confirmed _ :=
    hindex.step (viewState_of_unconfirmed _ rfl)
      (show Offered _ _ (.complete ['7']) from ⟨rfl, List.cons_ne_nil _ _⟩) (completeRow_index rfl)
  -- a `Q` is followed by a `U`
  have hfirst : confirmed.Editing 0 := ⟨rfl, rfl, fun j hj => absurd hj (Fin.not_lt_zero j)⟩
  obtain ⟨mutations, hletter, -⟩ := addCharacter_word hfirst 'Q'
  let letters := confirmed.editWord 0 ['Q', 'U']
  have hletters : Reachable (fun _ => []) letters _ :=
    hconfirmed.step (viewState_of_editing _ hfirst)
      (show Offered _ _ (.typeChar 'Q') from
        isValid_getValidNextLetters.2 ⟨_, hquiz, ⟨['U', 'I', 'Z'], rfl⟩⟩) hletter
  -- eight words begin with these letters, so they are shown to be selected from
  have hediting : letters.Editing 0 := ⟨rfl, rfl, fun j hj => absurd hj (Fin.not_lt_zero j)⟩
  have hpre : ['Q', 'U'] <+: ['Q', 'U', 'I', 'Z'] := ⟨['I', 'Z'], rfl⟩
  have hselect : wordView ['Q', 'U'] = .wordSelect ['Q', 'U'] (wordsWithPrefix ['Q', 'U']) := by
    have hmatching : wordsWithPrefix ['Q', 'U'] ≠ [] :=
      List.ne_nil_of_mem (mem_wordsWithPrefix.2 ⟨hquiz, hpre⟩)
    rw [wordView, if_neg (List.cons_ne_nil _ _), if_pos ⟨hmatching, length_wordsWithPrefix_qu.le⟩]
  obtain ⟨mutations', htaken, -⟩ := completeRow_word hediting hquiz hpre
  let taken : BackupModel :=
    { letters with words := letters.words.set 0 (.borrowed ['Q', 'U', 'I', 'Z']) }
  have hoffered : letters.Offered (letters.wordViewState 0) (.complete ['Q', 'U', 'I', 'Z']) := by
    show match wordView ['Q', 'U'] with
      | .enterShareIndex current => ['Q', 'U', 'I', 'Z'] = current ∧ current ≠ []
      | .wordSelect _ possibleWords => ['Q', 'U', 'I', 'Z'] ∈ possibleWords
      | _ => False
    rw [hselect]
    exact mem_wordsWithPrefix.2 ⟨hquiz, hpre⟩
  have hword : Reachable (fun _ => []) taken _ :=
    hletters.step (viewState_of_editing _ hediting) hoffered htaken
  -- the next word
  have hsecond : taken.Editing 1 := ⟨rfl, rfl, by decide⟩
  obtain ⟨mutations'', htyped, -⟩ := addCharacter_word hsecond 'A'
  let typedA := taken.editWord 1 ['A']
  have htypedA : Reachable (fun _ => []) typedA _ :=
    hword.step (viewState_of_editing _ hsecond)
      (show Offered _ _ (.typeChar 'A') from rfl) htyped
  have hthird : typedA.Editing 1 := ⟨rfl, rfl, by decide⟩
  have hdeleted : typedA.backspace = .ret (typedA.editWord 1 [], [.delCharacter 2 0]) := by
    rw [backspace, backspaceWith, currentString_of_editing hthird, Exec.ret_bind]
    rfl
  have hincomplete : ∃ row, row ≤ NUM_WORDS ∧ ¬typedA.Completed row := by
    refine ⟨2, by decide, ?_⟩
    rintro ⟨w, hw, hcomplete⟩
    cases hw
    cases hcomplete
  have hlast := htypedA.step (viewState_of_editing _ hthird)
    (show Offered _ _ .backspace from hincomplete) hdeleted
  obtain ⟨v, hview, hsafe⟩ := backup_entry_safe (fun _ => []) hlast
  exact ⟨_, _, v, hlast, rfl, rfl, rfl, hview, hsafe⟩

end BackupModel

end Frostsnap.Widgets
