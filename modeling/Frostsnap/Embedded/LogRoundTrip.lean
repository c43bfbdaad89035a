import Frostsnap.Embedded.LogCrash

/-!
# The log between pushes and iterators

A push appends at the position of the log, and so does an iterator read: `seek_iter` moves the
position to the start, each item moves it on, and where the iterator is dropped the position
stays. `LogSession` is a log that a caller pushes to and iterates over, together with the items
of the pushes that were successful.

## Main results

* `NorFlashLog.push_of_buffersFit`: a push that does not fit, but whose whole buffers do, is an
  error.
* `LogSession.Inv.step`: what every call that finds the log as it needs it preserves.
* `norFlashLog_roundTrip`: in every run of such calls the log reads as the items pushed to it.
* `norFlashLog_forgets`: pushing after an iterator that was not used up loses an item.
-/

namespace Frostsnap

variable {T : Type}

/-- A call on a log: a push, or an iterator that is dropped after some calls of `next`. -/
inductive LogCall (T : Type) where
  | push (item : T)
  | seekIter (taken : ℕ)

/-- A log on flash and what was pushed to it. -/
structure LogSession (T : Type) where
  flash : Flash
  log : NorFlashLog
  /-- the items of the successful pushes, oldest first -/
  pushed : List T

namespace NorFlashLog

/-- What a number of calls of the iterator's `next` give, up to the first error, and where the
log is then. An iterator that has ended is at an erased word, and stays there. -/
def takeIter (C : Codec T) (f : Flash) :
    ℕ → NorFlashLog → Exec (Except LogDecodeError (List T × NorFlashLog))
  | 0, log => .ret (.ok ([], log))
  | n + 1, log =>
      match log.next C f with
      | .panic msg => .panic msg
      | .ret none => .ret (.ok ([], log))
      | .ret (some (.error e)) => .ret (.error e)
      | .ret (some (.ok (item, log))) =>
          match takeIter C f n log with
          | .panic msg => .panic msg
          | .ret (.error e) => .ret (.error e)
          | .ret (.ok (items, log)) => .ret (.ok (item :: items, log))

/-- `seek_iter`, dropped after some calls of `next`. -/
def seekTake (C : Codec T) (f : Flash) (n : ℕ) (log : NorFlashLog) :
    Exec (Except LogDecodeError (List T × NorFlashLog)) :=
  takeIter C f n { log with wordPos := 0 }

/-! ### A push that does not fit -/

/-- The bytes of an item that fill whole buffers, which are programmed while it is encoded. -/
def wholeBuffers (C : Codec T) (item : T) : List UInt8 :=
  (C.encode item).take ((C.encode item).length / writeBufSize * writeBufSize)

/-- The whole buffers of an item fit in the partition. -/
def BuffersFit (C : Codec T) (log : NorFlashLog) (item : T) : Prop :=
  (C.encode item).length / writeBufSize * writeBufSize ≤
    log.flash.size - (log.wordPos + 1) * writeSize

instance (C : Codec T) (log : NorFlashLog) (item : T) : Decidable (log.BuffersFit C item) :=
  inferInstanceAs (Decidable (_ ≤ _))

variable {C : Codec T} {log : NorFlashLog} {item : T}

theorem length_wholeBuffers (C : Codec T) (item : T) :
    (wholeBuffers C item).length = (C.encode item).length / writeBufSize * writeBufSize := by
  rw [wholeBuffers, List.length_take]
  exact Nat.min_eq_left (Nat.div_mul_le_self _ _)

/-- The writer that has programmed the whole buffers of an item. -/
def buffered (C : Codec T) (log : NorFlashLog) (item : T) : BincodeFlashWriter :=
  { log.writer with
    buf := (C.encode item).drop (wholeBuffers C item).length
    wordPos := log.wordPos + 1 +
      (C.encode item).length / writeBufSize * (writeBufSize / writeSize) }

/-- Encoding an item programs its whole buffers, if they fit, and leaves the rest of it in the
buffer. -/
theorem write_item (C : Codec T) (log : NorFlashLog) (item : T) :
    ∃ ps, ps.flatten = wholeBuffers C item ∧
      (log.BuffersFit C item → ∀ f, log.writer.write (C.encode item) f =
        ⟨Flash.programs (log.flash.start + (log.wordPos + 1) * writeSize) ps,
          .ret (.ok (log.buffered C item))⟩) ∧
      (¬ log.BuffersFit C item → ∀ f, ∃ ops, log.writer.write (C.encode item) f =
        ⟨ops, .ret (.error .outOfBounds)⟩) := by
  obtain ⟨ps, rest, hp, hrest, hcat, hrun⟩ :=
    BincodeFlashWriter.write_spec log.writer_ready (C.encode item)
  have hcat' : ps.flatten ++ rest = C.encode item := hcat
  have hrest' : rest.length < 32 := hrest
  have hflat : ps.flatten.length = ps.length * 32 :=
    BincodeFlashWriter.length_flatten_of_forall hp
  have hlen := congrArg List.length hcat'
  rw [List.length_append, hflat] at hlen
  have hcount : ps.length = (C.encode item).length / 32 := by omega
  have hwhole : ps.flatten = wholeBuffers C item := by
    rw [wholeBuffers, ← hcount, ← hcat', ← hflat, List.take_left]
  have hroom : ps.length ≤ log.writer.room ↔ log.BuffersFit C item := by
    rw [BuffersFit, ← hcount]
    exact Nat.le_div_iff_mul_le (Nat.zero_lt_of_lt hrest)
  refine ⟨ps, hwhole, fun hfit f => ?_, fun hfit f =>
    ⟨Flash.programs (log.writer.flash.start + log.writer.pos) (ps.take log.writer.room), ?_⟩⟩
  · rw [hrun f, if_pos (hroom.mpr hfit), List.take_of_length_le (hroom.mpr hfit), buffered,
      ← hwhole, ← hcat', List.drop_left, hcat', ← hcount]
    rfl
  · rw [hrun f, if_neg (hroom.not.mpr hfit)]

/-- **A push that does not fit**, but whose whole buffers do, is an error. It has programmed
them behind the length word. -/
theorem push_of_buffersFit (h : ¬ log.Fits C item) (hbuffers : log.BuffersFit C item)
    (f : Flash) :
    (log.push C item f).result = .ret (.error .outOfBounds) ∧
      (log.push C item).after f =
        f.program (log.flash.start + (log.wordPos + 1) * writeSize) (wholeBuffers C item) := by
  obtain ⟨ps, hps, hwrite, -⟩ := write_item C log item
  have hsize : log.flash.size < (log.wordPos + 1 + bodyWords C item) * 4 := not_le.mp h
  have hroom : (C.encode item).length / 32 * 32 ≤ log.flash.size - (log.wordPos + 1) * 4 :=
    hbuffers
  have hbody : (padWord (C.encode item)).length = bodyWords C item * 4 := length_body C item
  rw [length_padWord] at hbody
  have hrest : (log.buffered C item).buf.length =
      (C.encode item).length - (C.encode item).length / 32 * 32 := by
    rw [buffered, List.length_drop, length_wholeBuffers]
  have hend : log.push C item f =
      ⟨Flash.programs (log.flash.start + (log.wordPos + 1) * writeSize) ps,
        .ret (.error .outOfBounds)⟩ := by
    rw [push, FlashM.bind_of_ret (hwrite hbuffers f)]
    dsimp only
    by_cases hnil : (log.buffered C item).buf = []
    · -- there is no body, and the length word is out of bounds
      rw [hnil, List.length_nil] at hrest
      have hlength : ∀ n f, log.flash.norWrite (log.wordPos * writeSize) (leBytes 4 n) f = _ :=
        fun n => FlashPartition.norWrite_apply_of_lt (by
          rw [length_leBytes]
          simp only [writeSize]
          omega)
      rw [BincodeFlashWriter.flush, if_pos hnil, FlashM.pure_bind_apply]
      dsimp only
      rw [FlashM.bind_of_pure (hlength _ _)]
      simp only [FlashM.pure_apply, List.append_nil]
    · -- the rest of the body is out of bounds
      have hpad := length_padWord (log.buffered C item).buf
      have hlast : ∀ f, (log.buffered C item).flash.norWrite
          ((log.buffered C item).wordPos * writeSize) (padWord (log.buffered C item).buf) f = _ :=
        FlashPartition.norWrite_apply_of_lt (by
          rw [hpad, hrest]
          simp only [buffered, writer, FlashPartition.bincodeWriter, writeSize, writeBufSize]
          omega)
      have hflush : ∀ f, (log.buffered C item).flush f =
          ⟨[], .ret (.error .outOfBounds)⟩ := by
        intro f
        rw [BincodeFlashWriter.flush, if_neg hnil, FlashM.bind_of_pure (hlast f)]
        rfl
      rw [FlashM.bind_of_pure (hflush _)]
      simp only [FlashM.pure_apply, List.append_nil]
  refine ⟨by rw [hend], ?_⟩
  rw [FlashM.after, hend, Flash.exec_programs, hps]

/-! ### What an iterator gives -/

variable {p : FlashPartition} {f : Flash} {word stop : ℕ} {items : List T}

variable (C) in
theorem next_of_erased (he : p.ErasedWord f word) :
    next C { flash := p, wordPos := word } f = .ret none := by
  have hsize := he.le_size
  have hle : word * writeSize ≤ p.size := by
    simp only [writeSize] at hsize ⊢
    omega
  exact (@next_eq_none_iff T C { flash := p, wordPos := word } f hle).mpr he

/-- The length word of an entry is not erased. -/
theorem Entries.eq_nil_of_erased (h : Entries C p f word items stop)
    (he : p.ErasedWord f word) : items = [] ∧ stop = word := by
  cases h with
  | nil => exact ⟨rfl, rfl⟩
  | @cons _ len stop item items rest fits length body used tail =>
      have hnext := next_of_length C { flash := p, wordPos := word } fits length
      rw [next_of_erased C he] at hnext
      simp only [body, if_pos used] at hnext
      cases hnext

/-- **Calls of `next` give the next entries**, and move the log behind them. -/
theorem takeIter_of_entries (h : Entries C p f word items stop) (he : p.ErasedWord f stop)
    (n : ℕ) :
    ∃ mid, takeIter C f n { flash := p, wordPos := word } =
        .ret (.ok (items.take n, { flash := p, wordPos := mid })) ∧
      Entries C p f word (items.take n) mid ∧ Entries C p f mid (items.drop n) stop := by
  induction h generalizing n with
  | nil word =>
      refine ⟨word, ?_, ?_, ?_⟩
      · cases n with
        | zero => rfl
        | succ n =>
            rw [takeIter, next_of_erased C he]
            rfl
      · rw [List.take_nil]
        exact .nil _
      · rw [List.drop_nil]
        exact .nil _
  | @cons word len stop item items rest fits length body used tail ih =>
      cases n with
      | zero => exact ⟨word, rfl, .nil _, .cons fits length body used tail⟩
      | succ n =>
          obtain ⟨mid, htake, hread, hahead⟩ := ih he n
          have hnext := next_of_length C { flash := p, wordPos := word } fits length
          simp only [body, if_pos used] at hnext
          refine ⟨mid, ?_, .cons fits length body used hread, hahead⟩
          rw [takeIter, hnext]
          simp only [htake, List.take_succ_cons]

end NorFlashLog

namespace LogSession

open NorFlashLog

variable (C : Codec T)

/-- A log that nothing was pushed to. -/
def start (p : FlashPartition) (f : Flash) : LogSession T where
  flash := f
  log := .new p
  pushed := []

/-- One call. A session ends at a panic, and is not followed behind an item that cannot be
read. -/
def step (s : LogSession T) : LogCall T → Exec (Except LogDecodeError (LogSession T))
  | .push item =>
      let m := s.log.push C item
      match (m s.flash).result with
      | .panic msg => .panic msg
      | .ret (.error _) => .ret (.ok { s with flash := m.after s.flash })
      | .ret (.ok log) =>
          .ret (.ok { flash := m.after s.flash, log := log, pushed := s.pushed ++ [item] })
  | .seekIter n =>
      match seekTake C s.flash n s.log with
      | .panic msg => .panic msg
      | .ret (.error e) => .ret (.error e)
      | .ret (.ok (_, log)) => .ret (.ok { s with log := log })

/-- The log is as a call needs it. A push that fits needs its position to be erased, the bits
of its body set, and the word behind the body erased. One that does not fit needs the room for
its whole buffers, and its position erased unless they clear no bit. -/
def Ready (s : LogSession T) : LogCall T → Prop
  | .push item =>
      let body := s.log.flash.start + (s.log.wordPos + 1) * writeSize
      if s.log.Fits C item then
        s.log.flash.ErasedWord s.flash s.log.wordPos ∧
          (∀ i < (C.encode item).length,
            s.flash (body + i) &&& (C.encode item).getD i 0 = (C.encode item).getD i 0) ∧
          s.log.flash.ErasedWord s.flash (s.log.wordPos + 1 + bodyWords C item)
      else
        s.log.BuffersFit C item ∧
          (s.log.flash.ErasedWord s.flash s.log.wordPos ∨
            s.flash.program body (wholeBuffers C item) = s.flash)
  | .seekIter _ => True

/-- A run of calls that each find the log as they need it. -/
inductive Run : LogSession T → List (LogCall T) → LogSession T → Prop
  | nil (s : LogSession T) : Run s [] s
  | cons {s s' s'' : LogSession T} {call : LogCall T} {calls : List (LogCall T)}
      (ready : s.Ready C call) (step : s.step C call = .ret (.ok s')) (rest : Run s' calls s'') :
      Run s (call :: calls) s''

/-- The entries that were pushed are laid out, the position of the log is before, between or
behind them, and an erased word ends them. -/
structure Inv (s : LogSession T) (p : FlashPartition) (stop : ℕ) : Prop where
  flash : s.log.flash = p
  entries : ∃ read ahead, s.pushed = read ++ ahead ∧
    Entries C p s.flash 0 read s.log.wordPos ∧ Entries C p s.flash s.log.wordPos ahead stop
  erased : p.ErasedWord s.flash stop

variable {C} {s : LogSession T} {p : FlashPartition} {stop : ℕ} {item : T}

/-- The session after a push that fits. -/
def add (C : Codec T) (s : LogSession T) (item : T) : LogSession T where
  flash := NorFlashLog.pushed C s.log.flash s.flash s.log.wordPos item
  log := s.log.behind C item
  pushed := s.pushed ++ [item]

theorem push_result_of_fits (h : s.log.Fits C item) :
    (s.log.push C item s.flash).result = .ret (.ok (s.log.behind C item)) := by
  obtain ⟨ps, -, -, hpush⟩ := NorFlashLog.push_of_fits h
  rw [hpush]

/-- A push that fits programs its body and its length word. -/
theorem step_of_fits (h : s.log.Fits C item) :
    s.step C (.push item) = .ret (.ok (s.add C item)) := by
  simp only [step, push_result_of_fits h, after_of_fits h, add]

/-- An iterator that meets no error moves the log. -/
theorem step_of_taken {n : ℕ} {items : List T} {log : NorFlashLog}
    (h : NorFlashLog.seekTake C s.flash n s.log = .ret (.ok (items, log))) :
    s.step C (.seekIter n) = .ret (.ok { s with log := log }) := by
  simp only [step, h]

theorem Inv.log_eq (h : s.Inv C p stop) : s.log = { flash := p, wordPos := s.log.wordPos } := by
  rw [← h.flash]

/-- Iterating gives what was pushed. -/
theorem Inv.seekIter (h : s.Inv C p stop) :
    s.log.seekIter C s.flash = some (.ret (.ok (s.pushed, { flash := p, wordPos := stop }))) := by
  obtain ⟨read, ahead, hpushed, hread, hahead⟩ := h.entries
  rw [hpushed, h.log_eq]
  exact seekIter_of_entries (hread.append hahead) h.erased

/-- Where the position is erased it is behind all entries. -/
theorem Inv.wordPos_eq (h : s.Inv C p stop) (he : p.ErasedWord s.flash s.log.wordPos) :
    s.log.wordPos = stop ∧ Entries C p s.flash 0 s.pushed stop := by
  obtain ⟨read, ahead, hpushed, hread, hahead⟩ := h.entries
  obtain ⟨rfl, hstop⟩ := hahead.eq_nil_of_erased he
  rw [List.append_nil] at hpushed
  rw [hpushed, hstop]
  exact ⟨rfl, hread⟩

theorem Inv.wordPos_le (h : s.Inv C p stop) : s.log.wordPos ≤ stop := by
  obtain ⟨read, ahead, -, -, hahead⟩ := h.entries
  exact (Nat.le_add_right _ _).trans hahead.length_le

/-! ### What a call preserves -/

/-- **An iterator** that is dropped gives the first items, and leaves the log behind them. -/
theorem Inv.seekTake (h : s.Inv C p stop) (n : ℕ) :
    ∃ log, NorFlashLog.seekTake C s.flash n s.log = .ret (.ok (s.pushed.take n, log)) ∧
      Inv C { s with log := log } p stop := by
  obtain ⟨read, ahead, hpushed, hread, hahead⟩ := h.entries
  have hall := hread.append hahead
  rw [← hpushed] at hall
  obtain ⟨mid, htake, hbefore, hbehind⟩ := takeIter_of_entries hall h.erased n
  refine ⟨{ flash := p, wordPos := mid }, ?_, rfl, ?_, h.erased⟩
  · rw [NorFlashLog.seekTake, h.log_eq]
    exact htake
  · exact ⟨_, _, (List.take_append_drop n s.pushed).symm, hbefore, hbehind⟩

/-- **A push that fits** adds its item behind the others. -/
theorem Inv.add (h : s.Inv C p stop) (hvalid : C.Valid item)
    (hready : s.Ready C (.push item)) (hfits : s.log.Fits C item) :
    s.log.wordPos = stop ∧ (s.add C item).Inv C p (stop + 1 + bodyWords C item) := by
  simp only [Ready, if_pos hfits] at hready
  obtain ⟨he, hset, hbehind⟩ := hready
  rw [h.flash] at he hset hbehind
  obtain ⟨hpos, hentries⟩ := h.wordPos_eq he
  rw [h.log_eq, hpos] at hfits
  rw [hpos] at he hset hbehind
  refine ⟨hpos, h.flash, ⟨s.pushed ++ [item], [], (List.append_nil _).symm, ?_, ?_⟩, ?_⟩
  · rw [LogSession.add, behind, h.flash, hpos]
    exact hentries.push he hfits (readsBack_of_set hvalid hfits hset)
  · rw [LogSession.add, behind, hpos]
    exact .nil _
  · rw [LogSession.add, h.flash, hpos]
    exact erasedWord_pushed.mpr hbehind

/-- **A push that does not fit** is an error, and leaves the entries as they are. -/
theorem Inv.push_of_not_fits (h : s.Inv C p stop) (hready : s.Ready C (.push item))
    (hfits : ¬ s.log.Fits C item) :
    (s.log.push C item s.flash).result = .ret (.error .outOfBounds) ∧
      Inv C { s with flash := (s.log.push C item).after s.flash } p stop := by
  simp only [Ready, if_neg hfits] at hready
  obtain ⟨hbuffers, hplace⟩ := hready
  obtain ⟨hresult, hafter⟩ := push_of_buffersFit hfits hbuffers s.flash
  refine ⟨hresult, ?_⟩
  rw [hafter]
  rcases hplace with he | hsame
  · -- what is programmed is behind the entries and the erased word
    rw [h.flash] at he ⊢
    obtain ⟨hpos, hentries⟩ := h.wordPos_eq he
    have hold : ∀ i, i < p.start + (stop + 1) * writeSize →
        s.flash.program (p.start + (s.log.wordPos + 1) * writeSize) (wholeBuffers C item) i =
          s.flash i := by
      intro i hi
      rw [hpos, Flash.program, if_neg (not_le.mpr hi)]
    refine ⟨h.flash, ⟨s.pushed, [], (List.append_nil _).symm, ?_, ?_⟩, ?_⟩
    · show Entries C p _ 0 s.pushed s.log.wordPos
      rw [hpos]
      refine hentries.congr fun i _ hi => ?_
      rw [← hpos]
      refine hold i (hi.trans_le ?_)
      simp only [writeSize]
      omega
    · show Entries C p _ s.log.wordPos [] stop
      rw [hpos]
      exact .nil _
    · rw [FlashPartition.ErasedWord, FlashPartition.take_bytesFrom_congr fun i _ hi => ?_,
        h.erased]
      refine hold i (hi.trans_le ?_)
      simp only [writeSize]
      omega
  · rw [hsame]
    exact h

/-- **What a call preserves.** A call that finds the log as it needs it returns, and the log is
laid out again. -/
theorem Inv.step {call : LogCall T} (h : s.Inv C p stop)
    (hvalid : ∀ item, call = .push item → C.Valid item) (hready : s.Ready C call) :
    ∃ s' stop', s.step C call = .ret (.ok s') ∧ s'.Inv C p stop' := by
  rcases call with item | n
  · by_cases hfits : s.log.Fits C item
    · exact ⟨_, _, step_of_fits hfits, (h.add (hvalid item rfl) hready hfits).2⟩
    · obtain ⟨hresult, hinv⟩ := h.push_of_not_fits hready hfits
      exact ⟨_, _, by simp only [LogSession.step, hresult], hinv⟩
  · obtain ⟨log, htake, hinv⟩ := h.seekTake n
    exact ⟨_, _, step_of_taken htake, hinv⟩

/-- A log that starts erased is laid out. -/
theorem inv_start {f : Flash} (hp : 0 < p.nSectors) (hf : p.isEmpty f = true) :
    Inv C (start p f) p 0 := by
  refine ⟨rfl, ⟨[], [], rfl, .nil 0, .nil 0⟩, ?_⟩
  have hcontents : p.contents f = List.replicate p.size 0xff := by
    rw [List.eq_replicate_iff]
    exact ⟨FlashPartition.length_contents p f, by simpa [FlashPartition.isEmpty] using hf⟩
  have hsize : writeSize ≤ p.size := by
    simp only [FlashPartition.size, sectorSize, writeSize]
    omega
  show (p.bytesFrom f (0 * writeSize)).take writeSize = _
  rw [FlashPartition.bytesFrom, hcontents, Nat.zero_mul, List.drop_zero, List.take_replicate,
    Nat.min_eq_left hsize]

/-- What holds behind a run. -/
theorem Run.inv {calls : List (LogCall T)} {s' : LogSession T} (h : Run C s calls s')
    (hinv : s.Inv C p stop) (hvalid : ∀ item, .push item ∈ calls → C.Valid item) :
    ∃ stop', s'.Inv C p stop' := by
  induction h generalizing stop with
  | nil s => exact ⟨stop, hinv⟩
  | @cons s s₁ s₂ call calls ready step rest ih =>
      obtain ⟨s', stop', hstep, hinv'⟩ := hinv.step
        (fun item hcall => hvalid item (by rw [hcall]; exact List.mem_cons_self)) ready
      obtain rfl : s' = s₁ := by
        rw [step] at hstep
        cases hstep
        rfl
      exact ih hinv' fun item hitem => hvalid item (List.mem_cons_of_mem _ hitem)

end LogSession

open LogSession in
/-- **The log reads as what was pushed.** In every run from an erased partition whose calls
each find the log as they need it: iterating gives exactly the items of the successful pushes,
an iterator that is dropped early gives the first of them, and the next push that finds the log
as it needs it returns. It is successful when there is room behind the entries, and an error
that leaves them readable when there is not. -/
theorem norFlashLog_roundTrip (C : Codec T) {p : FlashPartition} (hp : 0 < p.nSectors) {f : Flash}
    (hf : p.isEmpty f = true) {calls : List (LogCall T)}
    (hvalid : ∀ item, .push item ∈ calls → C.Valid item) {s : LogSession T}
    (hrun : Run C (start p f) calls s) :
    ∃ log, s.log.seekIter C s.flash = some (.ret (.ok (s.pushed, log))) ∧
      (∀ n, ∃ log', NorFlashLog.seekTake C s.flash n s.log =
        .ret (.ok (s.pushed.take n, log'))) ∧
      ∀ item, C.Valid item → s.Ready C (.push item) →
        (log.Fits C item → ∃ log', (s.log.push C item s.flash).result = .ret (.ok log')) ∧
        (¬ log.Fits C item →
          (s.log.push C item s.flash).result = .ret (.error .outOfBounds) ∧
          ∃ log', s.log.seekIter C ((s.log.push C item).after s.flash) =
            some (.ret (.ok (s.pushed, log')))) := by
  obtain ⟨stop, hinv⟩ := hrun.inv (inv_start hp hf) hvalid
  refine ⟨_, hinv.seekIter, fun n => ?_, fun item hitem hready =>
    ⟨fun hfits => ?_, fun hfits => ?_⟩⟩
  · obtain ⟨log, htake, -⟩ := hinv.seekTake n
    exact ⟨log, htake⟩
  · have hroom : s.log.Fits C item := by
      have hle := hinv.wordPos_le
      rw [NorFlashLog.Fits, hinv.flash]
      refine le_trans (Nat.mul_le_mul_right _ ?_) hfits
      dsimp only
      omega
    exact ⟨_, push_result_of_fits hroom⟩
  · by_cases hroom : s.log.Fits C item
    · obtain ⟨hpos, -⟩ := hinv.add hitem hready hroom
      rw [hinv.log_eq, hpos] at hroom
      exact absurd hroom hfits
    · obtain ⟨hresult, hafter⟩ := hinv.push_of_not_fits hready hroom
      exact ⟨hresult, _, hafter.seekIter⟩

/-- Two items are pushed, and an iterator is dropped behind the first between them. -/
theorem norFlashLog_roundTrip_of_two :
    ∃ s : LogSession (BitVec 32), s.pushed = [5, 6] ∧
      ∃ log, s.log.seekIter wordCodec s.flash = some (.ret (.ok ([5, 6], log))) := by
  have htaken : NorFlashLog.seekTake wordCodec
      ((LogSession.start oneSector fun _ => 0xff).add wordCodec 5).flash 1
      ((LogSession.start oneSector fun _ => 0xff).add wordCodec 5).log =
        .ret (.ok ([5], { flash := oneSector, wordPos := 2 })) := by
    decide +kernel
  obtain ⟨s, hrun, hpushed⟩ : ∃ s, LogSession.Run wordCodec
      (LogSession.start oneSector fun _ => 0xff) [.push 5, .seekIter 1, .push 6] s ∧
      s.pushed = [5, 6] := by
    refine ⟨_, .cons ?_ (LogSession.step_of_fits (by decide)) (.cons trivial
      (LogSession.step_of_taken htaken) (.cons ?_ (LogSession.step_of_fits (by decide))
        (.nil _))), rfl⟩
    · exact ⟨by unfold FlashPartition.ErasedWord; decide +kernel, by decide +kernel,
        by unfold FlashPartition.ErasedWord; decide +kernel⟩
    · exact ⟨by unfold FlashPartition.ErasedWord; decide +kernel, by decide +kernel,
        by unfold FlashPartition.ErasedWord; decide +kernel⟩
  obtain ⟨log, hseek, -, -⟩ := norFlashLog_roundTrip wordCodec (by decide) (by decide +kernel)
    (fun _ _ => trivial) hrun
  exact ⟨s, hpushed, log, by rw [hseek, hpushed]⟩

/-- An iterator is dropped before it is used, and the next push goes to the place of the first
entry: both pushes are successful, and the log reads as one item that was never pushed. -/
theorem norFlashLog_forgets :
    ∃ s₁ s₂ s₃ : LogSession (BitVec 32),
      (LogSession.start oneSector fun _ => 0xff).step wordCodec (.push 5) = .ret (.ok s₁) ∧
      s₁.step wordCodec (.seekIter 0) = .ret (.ok s₂) ∧
      s₂.step wordCodec (.push 6) = .ret (.ok s₃) ∧ s₃.pushed = [5, 6] ∧
      ∃ log, s₃.log.seekIter wordCodec s₃.flash = some (.ret (.ok ([4], log))) := by
  refine ⟨_, _, _, LogSession.step_of_fits (by decide), rfl, LogSession.step_of_fits (by decide),
    rfl, { flash := oneSector, wordPos := 2 }, ?_⟩
  decide +kernel

end Frostsnap
