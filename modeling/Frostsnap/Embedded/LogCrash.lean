import Frostsnap.Embedded.NorFlashLog
import Frostsnap.Lib.Run

/-!
# The log across power loss

A push that is interrupted leaves part of its body behind the last length word. Nothing
erases it: the next push goes to the same place, and programming can only clear the bits that
are still set. `LogState` is a log together with the entries committed to it, those of the
pushes that got as far as their length word.

## Main results

* `LogState.Inv`: the committed entries are laid out from the start, and an erased word ends
  them.
* `LogState.Inv.exact_iff`: after a push that commits, the log reads as the committed entries
  exactly when the body reads as the item on top of what was there, and the word behind it is
  still erased.
* `norFlashLog_exact_iff`: the same over every run of pushes, crashes and restarts.
-/

namespace Frostsnap

variable {T : Type}

/-- Program units in which power loss interrupts a push: whole words. -/
structure FlashGeometry.ForLog (g : FlashGeometry) : Prop where
  word_dvd : writeSize ∣ g.unit
  unit_pos : 0 < g.unit

/-- A log on flash and what has been committed to it. -/
structure LogState (T : Type) where
  flash : Flash
  /-- where the next entry goes, as long as the device comes up -/
  wordPos : Option ℕ
  /-- the entries of the pushes that programmed their length word, oldest first -/
  committed : List T

/-- An operation on a log, and where power is lost inside it. -/
inductive LogOp (T : Type) where
  | push (item : T) (crash : Option (ℕ × ℕ))
  | restart

namespace NorFlashLog

/-- The position a restart finds: behind the last entry, when all of them can be read. -/
def bootPos (C : Codec T) (p : FlashPartition) (f : Flash) : Option ℕ :=
  match (new p).seekIter C f with
  | some (.ret (.ok (_, log))) => some log.wordPos
  | _ => none

/-- A push that is interrupted there has programmed its length word, behind the pieces of its
body. -/
def ReachesLength (C : Codec T) (item : T) : Option (ℕ × ℕ) → Prop
  | none => True
  | some (n, k) => pieces C item < n ∨ pieces C item = n ∧ 0 < k

instance (C : Codec T) (item : T) (crash : Option (ℕ × ℕ)) :
    Decidable (ReachesLength C item crash) :=
  match crash with
  | none => inferInstanceAs (Decidable True)
  | some _ => inferInstanceAs (Decidable (_ ∨ _))

end NorFlashLog

namespace LogState

open NorFlashLog

variable (C : Codec T) (g : FlashGeometry) (p : FlashPartition)

/-- One operation. A push that panics or is interrupted restarts the device. -/
def step (s : LogState T) : LogOp T → LogState T
  | .push item crash =>
      match s.wordPos with
      | none => s
      | some word =>
          let m := NorFlashLog.push C { flash := p, wordPos := word } item
          let flash := m.flashAfter g s.flash crash
          { flash := flash
            wordPos :=
              match crash, (m s.flash).result with
              | none, .ret (.ok log) => some log.wordPos
              | none, .ret (.error _) => some word
              | _, _ => bootPos C p flash
            committed :=
              match (m s.flash).result with
              | .ret (.ok _) =>
                  if ReachesLength C item crash then s.committed ++ [item] else s.committed
              | _ => s.committed }
  | .restart => { s with wordPos := bootPos C p s.flash }

/-- Iterating the log gives exactly the committed entries. -/
def Exact (s : LogState T) : Prop :=
  ∃ log, (NorFlashLog.new p).seekIter C s.flash = some (.ret (.ok (s.committed, log)))

/-- The push commits: it has room, and is not interrupted before its length word. -/
def Commits (s : LogState T) (item : T) (crash : Option (ℕ × ℕ)) : Prop :=
  ∃ word, s.wordPos = some word ∧ Fits C { flash := p, wordPos := word } item ∧
    ReachesLength C item crash

/-- There is a place for the item: its body, programmed over what is there, reads as the item
and no further than the body, and the word behind the body is still erased. -/
def HasPlace (s : LogState T) (item : T) : Prop :=
  ∃ word, s.wordPos = some word ∧ ReadsBack C p s.flash word item ∧
    p.ErasedWord s.flash (word + 1 + bodyWords C item)

/-- What holds of a log that reads as its committed entries. -/
structure Inv (s : LogState T) (word : ℕ) : Prop where
  wordPos : s.wordPos = some word
  entries : Entries C p s.flash 0 s.committed word
  erased : p.ErasedWord s.flash word

variable {C g p} {s : LogState T} {word : ℕ}

theorem Inv.exact (h : s.Inv C p word) : s.Exact C p :=
  ⟨_, seekIter_of_entries h.entries h.erased⟩

theorem Inv.bootPos_eq (h : s.Inv C p word) : bootPos C p s.flash = some word := by
  rw [bootPos, seekIter_of_entries h.entries h.erased]

/-! ### What an interrupted push leaves -/

variable {item : T} {crash : Option (ℕ × ℕ)} {f : Flash}

/-- A push that does not commit changes nothing up to the end of its length word. -/
theorem flashAfter_of_not_commits
    (h : Fits C { flash := p, wordPos := word } item → ¬ ReachesLength C item crash) {i : ℕ}
    (hi : i < p.start + (word + 1) * writeSize) :
    (NorFlashLog.push C { flash := p, wordPos := word } item).flashAfter g f crash i = f i := by
  have hbody : ∀ ps : List (List UInt8), ∀ op ∈
      Flash.programs (p.start + (word + 1) * writeSize) ps,
      op.Within (p.start + (word + 1) * writeSize)
        (p.start + (word + 1) * writeSize + ps.flatten.length) :=
    fun ps op hop => Flash.programs_within hop
  by_cases hfits : Fits C { flash := p, wordPos := word } item
  · obtain ⟨ps, -, hlen, hpush⟩ := push_of_fits hfits
    cases crash with
    | none => exact absurd trivial (h hfits)
    | some q =>
        obtain ⟨n, k⟩ := q
        have hreach : ¬ (pieces C item < n ∨ pieces C item = n ∧ 0 < k) := h hfits
        simp only [FlashM.flashAfter, FlashM.crash, hpush, Flash.crashAt_append,
          Flash.length_programs, hlen]
        by_cases hn : n < pieces C item
        · rw [if_pos hn]
          exact Flash.crashAt_outside (hbody ps) (.inl hi) n k
        · obtain rfl : n = pieces C item := by omega
          obtain rfl : k = 0 := by omega
          rw [if_neg hn, Nat.sub_self, Flash.crashAt_cons_zero]
          simp only [FlashOp.tear, Nat.zero_mul, List.take_zero, Flash.apply,
            Flash.program_nil]
          exact Flash.exec_outside (hbody ps) (.inl hi)
  · obtain ⟨ps, -, hpush⟩ := push_of_not_fits hfits
    have hops := (hpush f).1
    cases crash with
    | none =>
        rw [FlashM.flashAfter, FlashM.after, hops]
        exact Flash.exec_outside (hbody ps) (.inl hi)
    | some q =>
        rw [FlashM.flashAfter, FlashM.crash, hops]
        exact Flash.crashAt_outside (hbody ps) (.inl hi) q.1 q.2

/-- A push that commits has programmed its body and its length word. -/
theorem flashAfter_of_commits (hg : g.ForLog)
    (hfits : Fits C { flash := p, wordPos := word } item) (hreach : ReachesLength C item crash) :
    (NorFlashLog.push C { flash := p, wordPos := word } item).flashAfter g f crash =
      pushed C p f word item := by
  rw [← after_of_fits hfits]
  obtain ⟨ps, -, hlen, hpush⟩ := push_of_fits hfits
  cases crash with
  | none => rfl
  | some q =>
      obtain ⟨n, k⟩ := q
      rw [FlashM.flashAfter]
      by_cases hn : pieces C item < n
      · rw [FlashM.crash, hpush, Flash.crashAt_of_length_le]
        · simp only [FlashM.after, hpush]
        · simp only [List.length_append, Flash.length_programs, hlen, List.length_singleton]
          omega
      · have hk : pieces C item = n ∧ 0 < k := hreach.resolve_left hn
        obtain ⟨rfl, hk⟩ := hk
        have hunit : writeSize ≤ k * g.unit :=
          (Nat.le_of_dvd hg.unit_pos hg.word_dvd).trans (Nat.le_mul_of_pos_left _ hk)
        simp only [FlashM.crash, hpush, Flash.crashAt_append, Flash.length_programs, hlen,
          lt_irrefl, if_false, Nat.sub_self, Flash.crashAt_cons_zero, FlashOp.tear,
          FlashM.after, Flash.exec_append, Flash.exec_cons, Flash.exec_nil]
        rw [List.take_of_length_le (by rw [length_leBytes]; exact hunit)]

/-! ### A push that does not commit -/

/-- What a push adds to the ledger. -/
theorem step_committed (hpos : s.wordPos = some word) :
    (s.step C g p (.push item crash)).committed =
      if Fits C { flash := p, wordPos := word } item ∧ ReachesLength C item crash then
        s.committed ++ [item]
      else s.committed := by
  simp only [step, hpos]
  by_cases hfits : Fits C { flash := p, wordPos := word } item
  · obtain ⟨ps, -, -, hpush⟩ := push_of_fits hfits
    simp only [hpush, hfits, true_and]
  · obtain ⟨ps, -, hpush⟩ := push_of_not_fits hfits
    split
    · rename_i log hlog
      exact absurd hlog ((hpush s.flash).2 log)
    · exact (if_neg fun hc => hfits hc.1).symm

theorem step_flash (hpos : s.wordPos = some word) :
    (s.step C g p (.push item crash)).flash =
      (NorFlashLog.push C { flash := p, wordPos := word } item).flashAfter g s.flash crash := by
  simp only [step, hpos]

/-- A restart, or a push that does not commit, leaves the log as it was. -/
theorem Inv.of_not_commits (h : s.Inv C p word) (hc : ¬ s.Commits C p item crash) :
    (s.step C g p (.push item crash)).committed = s.committed ∧
      (s.step C g p (.push item crash)).Inv C p word := by
  have hno : Fits C { flash := p, wordPos := word } item → ¬ ReachesLength C item crash :=
    fun hfits hreach => hc ⟨word, h.wordPos, hfits, hreach⟩
  have hcommitted : (s.step C g p (.push item crash)).committed = s.committed := by
    rw [step_committed h.wordPos, if_neg fun hb => hno hb.1 hb.2]
  have hsame : ∀ i, i < p.start + (word + 1) * writeSize →
      (s.step C g p (.push item crash)).flash i = s.flash i := by
    intro i hi
    rw [step_flash h.wordPos]
    exact flashAfter_of_not_commits hno hi
  have hentries : Entries C p (s.step C g p (.push item crash)).flash 0
      (s.step C g p (.push item crash)).committed word := by
    rw [hcommitted]
    refine h.entries.congr fun i _ hi => hsame i (hi.trans_le ?_)
    simp only [writeSize]
    omega
  have herased : p.ErasedWord (s.step C g p (.push item crash)).flash word := by
    rw [FlashPartition.ErasedWord, FlashPartition.take_bytesFrom_congr fun i _ hi => ?_, h.erased]
    refine hsame i (hi.trans_le ?_)
    simp only [writeSize]
    omega
  refine ⟨hcommitted, ?_, hentries, herased⟩
  have hboot : bootPos C p (s.step C g p (.push item crash)).flash = some word := by
    rw [bootPos, seekIter_of_entries hentries herased]
  rw [step_flash h.wordPos] at hboot
  simp only [step, h.wordPos]
  split
  · rename_i log hlog
    by_cases hfits : Fits C { flash := p, wordPos := word } item
    · exact absurd trivial (hno hfits)
    · obtain ⟨ps, -, hpush⟩ := push_of_not_fits hfits
      exact absurd hlog ((hpush s.flash).2 log)
  · rfl
  · exact hboot

/-! ### A push that commits -/

/-- **A push that commits.** The log then reads as its committed entries exactly when there
was a place for the item, and is then laid out again. -/
theorem Inv.of_commits (hg : g.ForLog) (h : s.Inv C p word) (hc : s.Commits C p item crash) :
    ((s.step C g p (.push item crash)).Exact C p → s.HasPlace C p item) ∧
      (s.HasPlace C p item →
        (s.step C g p (.push item crash)).Inv C p (word + 1 + bodyWords C item)) := by
  obtain ⟨word', hword', hfits, hreach⟩ := hc
  obtain rfl : word = word' := Option.some.inj (h.wordPos.symm.trans hword')
  have hcommitted : (s.step C g p (.push item crash)).committed = s.committed ++ [item] := by
    rw [step_committed h.wordPos, if_pos ⟨hfits, hreach⟩]
  have hflash : (s.step C g p (.push item crash)).flash = _ := step_flash h.wordPos
  rw [flashAfter_of_commits hg hfits hreach] at hflash
  have hold : Entries C p (s.step C g p (.push item crash)).flash 0 s.committed word := by
    rw [hflash]
    exact h.entries.congr fun i _ hi => pushed_of_lt hi
  constructor
  · rintro ⟨log, hseek⟩
    rw [hcommitted] at hseek
    obtain ⟨fuel, out, -, hout, hcollect⟩ :=
      (collect_of_entries (NorFlashLog.new p) hold).mp hseek
    obtain rfl := List.append_cancel_left hout
    -- the iterator reads the item behind the committed entries, and then ends
    cases fuel with
    | zero => cases hcollect
    | succ fuel =>
        rcases collect_succ_eq_ok_iff.mp hcollect with
          ⟨-, hnil, -⟩ | ⟨item', mid, items, hnext, hcons, hrest⟩
        · cases hnil
        · obtain ⟨rfl, rfl⟩ := List.cons.inj hcons
          rw [hflash] at hnext hrest
          have hread := hnext.symm.trans
            (next_of_length C { NorFlashLog.new p with wordPos := word } hfits
              (length_pushed h.erased))
          split at hread
          · cases hread
          · rename_i item' rest hdecode
            split at hread
            · rename_i hused
              cases hread
              cases fuel with
              | zero => cases hrest
              | succ fuel =>
                  rcases collect_succ_eq_ok_iff.mp hrest with
                    ⟨hend, -, -⟩ | ⟨_, _, _, -, hcons, -⟩
                  · have he := (next_eq_none_iff (by exact hfits)).mp hend
                    have hdecode' : C.decode (p.bytesFrom (pushed C p s.flash word item)
                      ((word + 1) * writeSize)) = some (item, rest) := hdecode
                    exact ⟨word, h.wordPos, ⟨rest, by rw [← bytesFrom_pushed, hdecode'], hused⟩,
                      erasedWord_pushed.mp he⟩
                  · cases hcons
            · cases hread
  · rintro ⟨word', hpos, hback, he⟩
    obtain rfl : word = word' := Option.some.inj (h.wordPos.symm.trans hpos)
    have hentries : Entries C p (s.step C g p (.push item crash)).flash 0
        (s.step C g p (.push item crash)).committed (word + 1 + bodyWords C item) := by
      rw [hcommitted, hflash]
      exact h.entries.push h.erased hfits hback
    have herased : p.ErasedWord (s.step C g p (.push item crash)).flash
        (word + 1 + bodyWords C item) := by
      rw [hflash]
      exact erasedWord_pushed.mpr he
    refine ⟨?_, hentries, herased⟩
    have hboot : bootPos C p (s.step C g p (.push item crash)).flash =
        some (word + 1 + bodyWords C item) := by
      rw [bootPos, seekIter_of_entries hentries herased]
    obtain ⟨ps, -, -, hpush⟩ := push_of_fits hfits
    rw [step_flash h.wordPos] at hboot
    simp only [step, h.wordPos]
    cases crash with
    | none =>
        simp only [hpush]
        rfl
    | some q => exact hboot

/-- A restart finds the log as it was. -/
theorem Inv.restart (h : s.Inv C p word) : (s.step C g p .restart).Inv C p word :=
  ⟨h.bootPos_eq, h.entries, h.erased⟩

/-! ### Runs -/

variable (C g p) in
/-- Every push of the run that commits finds a place for its item. -/
def HavePlaces (s : LogState T) (ops : List (LogOp T)) : Prop :=
  ∀ done item crash, done ++ [.push item crash] <+: ops →
    (run (step C g p) s done).Commits C p item crash →
    (run (step C g p) s done).HasPlace C p item

variable (C g p) in
/-- The log reads as its committed entries at every point of the run. -/
def ExactThroughout (s : LogState T) (ops : List (LogOp T)) : Prop :=
  ∀ done, done <+: ops → (run (step C g p) s done).Exact C p

theorem havePlaces_cons {op : LogOp T} {ops : List (LogOp T)} :
    HavePlaces C g p s (op :: ops) ↔
      (∀ item crash, op = .push item crash → s.Commits C p item crash → s.HasPlace C p item) ∧
        HavePlaces C g p (s.step C g p op) ops := by
  constructor
  · intro h
    refine ⟨?_, fun done item crash hdone => ?_⟩
    · rintro item crash rfl
      exact h [] item crash (by simp)
    · exact h (op :: done) item crash (by simpa using hdone)
  · rintro ⟨hhead, htail⟩ done item crash hdone
    cases done with
    | nil =>
        refine hhead item crash ?_
        simpa [eq_comm] using hdone
    | cons op' done =>
        obtain ⟨rfl, hrest⟩ := List.cons_prefix_cons.mp hdone
        exact htail done item crash hrest

theorem exactThroughout_cons {op : LogOp T} {ops : List (LogOp T)} :
    ExactThroughout C g p s (op :: ops) ↔
      s.Exact C p ∧ ExactThroughout C g p (s.step C g p op) ops := by
  constructor
  · intro h
    refine ⟨h [] List.nil_prefix, fun done hdone => ?_⟩
    exact h (op :: done) (by simpa using hdone)
  · rintro ⟨hhead, htail⟩ done hdone
    cases done with
    | nil => exact hhead
    | cons op' done =>
        obtain ⟨rfl, hrest⟩ := List.cons_prefix_cons.mp hdone
        exact htail done hrest

/-- An erased partition is an empty log. -/
theorem inv_of_erased (hp : 0 < p.nSectors) :
    Inv C p { flash := fun _ => 0xff, wordPos := some 0, committed := [] } 0 := by
  refine ⟨rfl, .nil 0, ?_⟩
  rw [FlashPartition.ErasedWord, FlashPartition.bytesFrom, FlashPartition.contents_erased, fill,
    List.nil_append, Nat.zero_mul, List.drop_zero, List.take_replicate, List.length_nil,
    Nat.sub_zero, Nat.min_eq_left]
  simp only [FlashPartition.size, sectorSize, writeSize]
  omega

end LogState

/-- **When the log is crash safe.** From a log that is laid out, over every run of pushes,
crashes inside them and restarts: the log reads as its committed entries at every point of the
run exactly when every push that commits finds a place for its item. -/
theorem norFlashLog_exact_iff (C : Codec T) {g : FlashGeometry} (hg : g.ForLog)
    (p : FlashPartition) {s : LogState T} {word : ℕ} (hs : s.Inv C p word)
    (ops : List (LogOp T)) :
    s.ExactThroughout C g p ops ↔ s.HavePlaces C g p ops := by
  induction ops generalizing s word with
  | nil =>
      constructor
      · intro _ done item crash hdone
        simp at hdone
      · intro _ done hdone
        rw [List.prefix_nil.mp hdone]
        exact hs.exact
  | cons op ops ih =>
      rw [LogState.exactThroughout_cons, LogState.havePlaces_cons]
      cases op with
      | restart =>
          rw [ih hs.restart]
          exact and_congr_left fun _ => ⟨fun _ => nofun, fun _ => hs.exact⟩
      | push item crash =>
          by_cases hc : s.Commits C p item crash
          · obtain ⟨hplace, hinv⟩ := hs.of_commits hg hc
            constructor
            · rintro ⟨-, htail⟩
              have hp := hplace (htail [] List.nil_prefix)
              refine ⟨?_, (ih (hinv hp)).mp htail⟩
              rintro _ _ ⟨⟩ -
              exact hp
            · rintro ⟨hhead, htail⟩
              exact ⟨hs.exact, (ih (hinv (hhead item crash rfl hc))).mpr htail⟩
          · rw [ih (hs.of_not_commits hc).2]
            refine and_congr_left fun _ => ⟨fun _ => ?_, fun _ => hs.exact⟩
            rintro _ _ ⟨⟩ hc'
            exact absurd hc' hc

/-! ### Pushing over a torn entry -/

/-- Entries of four bytes. -/
abbrev wordCodec : Codec (BitVec 32) := (FixedCodec.bits 4).toCodec

/-- A partition of one sector. -/
def oneSector : FlashPartition := { offsetSector := 0, nSectors := 1, inBounds := by decide }

/-- The log of an erased partition. -/
def emptyLog : LogState (BitVec 32) where
  flash := fun _ => 0xff
  wordPos := some 0
  committed := []

/-- A push is interrupted behind its body and made again after the restart, as the second
entry of the log. -/
theorem norFlashLog_exact_of_repeated :
    emptyLog.ExactThroughout wordCodec ⟨4, 4096⟩ oneSector
      [.push 5 none, .push 6 (some (1, 0)), .push 6 none] := by
  refine (norFlashLog_exact_iff wordCodec ⟨by decide, by decide⟩ oneSector
    (LogState.inv_of_erased (by decide)) _).mpr ?_
  have hlast : ¬ (emptyLog.step wordCodec ⟨4, 4096⟩ oneSector (.push 5 none)).Commits wordCodec
      oneSector 6 (some (1, 0)) := by
    rintro ⟨word, -, -, hreach⟩
    exact absurd hreach (by decide +kernel)
  simp only [LogState.havePlaces_cons]
  refine ⟨?_, ?_, ?_, fun _ _ _ h => absurd h (by simp)⟩
  · rintro item crash ⟨⟩ -
    exact ⟨0, rfl, NorFlashLog.readsBack_of_set trivial (by decide) (by decide +kernel),
      by unfold FlashPartition.ErasedWord; decide +kernel⟩
  · rintro item crash ⟨⟩ hc
    exact absurd hc hlast
  · rintro item crash ⟨⟩ -
    have hpos : (LogState.step wordCodec ⟨4, 4096⟩ oneSector
        (emptyLog.step wordCodec ⟨4, 4096⟩ oneSector (.push 5 none))
        (.push 6 (some (1, 0)))).wordPos = some 2 := by decide +kernel
    exact ⟨2, hpos, NorFlashLog.readsBack_of_set trivial (by decide) (by decide +kernel),
      by unfold FlashPartition.ErasedWord; decide +kernel⟩

/-- The push of `0` is interrupted behind its body, so the push of `1` after the restart clears
no bit that is not clear already: it returns, and the log reads `0`. -/
theorem norFlashLog_reads_torn_entry :
    (run (LogState.step wordCodec ⟨4, 4096⟩ oneSector) emptyLog
      [.push 0 (some (1, 0)), .push 1 none]).committed = [1] ∧
    (∃ log, (NorFlashLog.new oneSector).seekIter wordCodec
      (run (LogState.step wordCodec ⟨4, 4096⟩ oneSector) emptyLog
        [.push 0 (some (1, 0)), .push 1 none]).flash = some (.ret (.ok ([0], log)))) ∧
    ¬ emptyLog.ExactThroughout wordCodec ⟨4, 4096⟩ oneSector
      [.push 0 (some (1, 0)), .push 1 none] := by
  have hcommitted : (run (LogState.step wordCodec ⟨4, 4096⟩ oneSector) emptyLog
      [.push 0 (some (1, 0)), .push 1 none]).committed = [1] := by decide +kernel
  have hseek : (NorFlashLog.new oneSector).seekIter wordCodec
      (run (LogState.step wordCodec ⟨4, 4096⟩ oneSector) emptyLog
        [.push 0 (some (1, 0)), .push 1 none]).flash =
      some (.ret (.ok ([0], { flash := oneSector, wordPos := 2 }))) := by decide +kernel
  refine ⟨hcommitted, ⟨_, hseek⟩, fun h => ?_⟩
  obtain ⟨log, hexact⟩ := h _ (List.prefix_refl _)
  rw [hseek, hcommitted] at hexact
  simp at hexact

end Frostsnap
