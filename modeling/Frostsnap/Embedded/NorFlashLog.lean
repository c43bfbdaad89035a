import Frostsnap.Embedded.Partition
import Frostsnap.Lib.Codec

/-!
# The log on flash

This module embeds `nor_flash_log.rs`: entries one after the other, each a length word and a
body of that many words. A push writes the body first and the length word last. A word that
is still erased ends the log.

## Main results

* `NorFlashLog.push_of_fits`, `NorFlashLog.push_of_not_fits`: what a push issues.
* `NorFlashLog.collect_of_entries`: the iterator gives the entries that are laid out on the
  flash, and goes on behind them.
* `NorFlashLog.Entries.congr`: the entries depend on their own words only.
-/

namespace Frostsnap

/-- `WRITE_BUF_SIZE`, in bytes. -/
abbrev writeBufSize : ℕ := 32

/-- Why an entry cannot be read. -/
inductive LogDecodeError where
  | readLength (lengthWordBytePos : ℕ) (e : NorFlashErrorKind)
  | body
  deriving DecidableEq

/-- A log in a partition, and the word the next entry goes to. -/
structure NorFlashLog where
  flash : FlashPartition
  wordPos : ℕ
  deriving DecidableEq

namespace FlashPartition

/-- The bytes of the partition from an offset on. -/
def bytesFrom (p : FlashPartition) (f : Flash) (offset : ℕ) : List UInt8 :=
  (p.contents f).drop offset

/-- The word at a position is still erased. -/
def ErasedWord (p : FlashPartition) (f : Flash) (word : ℕ) : Prop :=
  (p.bytesFrom f (word * writeSize)).take writeSize = List.replicate writeSize 0xff

@[simp] theorem length_bytesFrom (p : FlashPartition) (f : Flash) (offset : ℕ) :
    (p.bytesFrom f offset).length = p.size - offset := by
  rw [bytesFrom, List.length_drop, length_contents]

theorem getElem_bytesFrom {p : FlashPartition} {f : Flash} {offset i : ℕ}
    (h : i < (p.bytesFrom f offset).length) :
    (p.bytesFrom f offset)[i] = f (p.start + (offset + i)) := by
  simp only [bytesFrom, contents, List.getElem_drop, List.getElem_map, List.getElem_range',
    Nat.one_mul]

/-- The bytes up to some offset depend on the flash up to there. -/
theorem take_bytesFrom_congr {p : FlashPartition} {f f' : Flash} {offset n : ℕ}
    (h : ∀ i, p.start + offset ≤ i → i < p.start + offset + n → f' i = f i) :
    (p.bytesFrom f' offset).take n = (p.bytesFrom f offset).take n := by
  apply List.ext_getElem
  · simp only [List.length_take, length_bytesFrom]
  · intro i h₁ h₂
    rw [List.length_take] at h₁
    rw [List.getElem_take, List.getElem_take, getElem_bytesFrom, getElem_bytesFrom]
    exact h _ (by omega) (by omega)

theorem bytesFrom_congr {p : FlashPartition} {f f' : Flash} {offset : ℕ}
    (h : ∀ i, p.start + offset ≤ i → f' i = f i) :
    p.bytesFrom f' offset = p.bytesFrom f offset := by
  have htake := take_bytesFrom_congr (p := p) (n := p.size) fun i hi _ => h i hi
  rwa [List.take_of_length_le (by rw [length_bytesFrom]; omega),
    List.take_of_length_le (by rw [length_bytesFrom]; omega)] at htake

theorem le_u32Max (p : FlashPartition) {n : ℕ} (h : n ≤ p.size) : n ≤ u32Max :=
  h.trans p.size_lt.le

/-- An erased word is in the partition. -/
theorem ErasedWord.le_size {p : FlashPartition} {f : Flash} {word : ℕ}
    (h : p.ErasedWord f word) : (word + 1) * writeSize ≤ p.size := by
  have hlen := congrArg List.length h
  rw [List.length_take, length_bytesFrom, List.length_replicate] at hlen
  simp only [writeSize] at hlen ⊢
  omega

end FlashPartition

namespace NorFlashLog

variable {T : Type}

/-- `NorFlashLog::new`. -/
def new (flash : FlashPartition) : NorFlashLog where
  flash := flash
  wordPos := 0

/-- The writer of a push. The first word is skipped, because that is where the length goes. -/
def writer (log : NorFlashLog) : BincodeFlashWriter :=
  { log.flash.bincodeWriter writeBufSize with wordPos := log.wordPos + 1 }

/-- Append an entry: the body behind the length word, and then the length word. A writer whose
buffer is not empty panics when it is dropped, as it is when the body does not fit. -/
def push (C : Codec T) (log : NorFlashLog) (item : T) :
    FlashM (Except NorFlashErrorKind NorFlashLog) := do
  match ← log.writer.write (C.encode item) with
  | .error _ => FlashM.lift (.panic "BincodeFlashWriter must be empty when dropped")
  | .ok writer => do
      match ← writer.flush with
      | .error e => return .error e
      | .ok finalWord => do
          let writtenWordLength := finalWord - log.writer.wordPos
          match ← log.flash.norWrite (log.wordPos * writeSize)
              (leBytes 4 writtenWordLength) with
          | .error e => return .error e
          | .ok () => return .ok { log with wordPos := log.wordPos + (writtenWordLength + 1) }

/-- One call of the iterator's `next`: the entry at the position of the log, and the log
behind it. -/
def next (C : Codec T) (log : NorFlashLog) (f : Flash) :
    Exec (Option (Except LogDecodeError (T × NorFlashLog))) :=
  let lengthWordBytePos := asU32 (log.wordPos * writeSize)
  match log.flash.read f lengthWordBytePos writeSize with
  | .error e => .ret (some (.error (.readLength lengthWordBytePos e)))
  | .ok lengthBuf =>
      if lengthBuf = List.replicate writeSize 0xff then .ret none
      else
        let wordPos := asU32 (log.wordPos + 1)
        let wordLength := ofLeBytes lengthBuf
        let bodyBytePos := asU32 (wordPos * writeSize)
        let body := log.flash.bytesFrom f bodyBytePos
        match C.decode body with
        | none => .ret (some (.error .body))
        | some (item, rest) =>
            if bodyBytePos + (body.length - rest.length) ≤
                asU32 (bodyBytePos + asU32 (wordLength * writeSize)) then
              .ret (some (.ok
                (item, { log with wordPos := asU32 (wordPos + wordLength) })))
            else .panic "assertion failed: reader.byte_pos() <= expected_pos"

/-- The items of the iterator up to the first error, and where it stops. It may run forever
when an entry wraps around to an earlier one; then no amount of fuel is enough. -/
def collect (C : Codec T) (f : Flash) :
    ℕ → NorFlashLog → Option (Exec (Except LogDecodeError (List T × NorFlashLog)))
  | 0, _ => none
  | fuel + 1, log =>
      match log.next C f with
      | .panic msg => some (.panic msg)
      | .ret none => some (.ret (.ok ([], log)))
      | .ret (some (.error e)) => some (.ret (.error e))
      | .ret (some (.ok (item, log))) =>
          (collect C f fuel log).map fun
            | .panic msg => .panic msg
            | .ret (.error e) => .ret (.error e)
            | .ret (.ok (items, log)) => .ret (.ok (item :: items, log))

/-- `seek_iter`, collected: from the start of the partition, at most one entry a word. -/
def seekIter (C : Codec T) (log : NorFlashLog) (f : Flash) :
    Option (Exec (Except LogDecodeError (List T × NorFlashLog))) :=
  collect C f (log.flash.size + 1) { log with wordPos := 0 }

/-! ### What a push issues -/

/-- The words of the body of an entry. -/
def bodyWords (C : Codec T) (item : T) : ℕ := (padWord (C.encode item)).length / writeSize

/-- The pieces the body of an entry is programmed in. -/
def pieces (C : Codec T) (item : T) : ℕ :=
  ((C.encode item).length + writeBufSize - 1) / writeBufSize

/-- There is room for an entry. -/
def Fits (C : Codec T) (log : NorFlashLog) (item : T) : Prop :=
  (log.wordPos + 1 + bodyWords C item) * writeSize ≤ log.flash.size

instance (C : Codec T) (log : NorFlashLog) (item : T) : Decidable (log.Fits C item) :=
  inferInstanceAs (Decidable (_ ≤ _))

/-- The log behind an entry. -/
def behind (C : Codec T) (log : NorFlashLog) (item : T) : NorFlashLog :=
  { log with wordPos := log.wordPos + 1 + bodyWords C item }

variable {C : Codec T} {log : NorFlashLog} {item : T}

theorem length_body (C : Codec T) (item : T) :
    (padWord (C.encode item)).length = bodyWords C item * writeSize := by
  rw [bodyWords, length_padWord]
  simp only [writeSize]
  omega

theorem writer_ready (log : NorFlashLog) : log.writer.Ready :=
  ⟨(by decide : writeSize ∣ writeBufSize), (by decide : 0 < writeBufSize)⟩

/-- **A push that fits** programs the body, and then the length word. -/
theorem push_of_fits (h : log.Fits C item) :
    ∃ ps, ps.flatten = padWord (C.encode item) ∧ ps.length = pieces C item ∧
      ∀ f, log.push C item f =
      ⟨Flash.programs (log.flash.start + (log.wordPos + 1) * writeSize) ps ++
        [.program (log.flash.start + log.wordPos * writeSize) (leBytes 4 (bodyWords C item))],
        .ret (.ok (log.behind C item))⟩ := by
  have hsize : (log.wordPos + 1 + bodyWords C item) * writeSize ≤ log.flash.size := h
  have hend : log.writer.pos + (padWord (C.encode item)).length ≤ log.writer.flash.size := by
    rw [length_body]
    refine le_trans (le_of_eq ?_) hsize
    exact (Nat.add_mul _ _ _).symm
  obtain ⟨ps, w', hflat, -, hlen, ops₁, ops₂, hops, hwrite, hflush⟩ :=
    BincodeFlashWriter.write_flush log.writer_ready rfl hend
  refine ⟨ps, hflat, hlen, fun f => ?_⟩
  have hword : log.writer.wordPos + (padWord (C.encode item)).length / writeSize -
      log.writer.wordPos = bodyWords C item := Nat.add_sub_cancel_left _ _
  have hlength : ∀ f, log.flash.norWrite (log.wordPos * writeSize)
      (leBytes 4 (bodyWords C item)) f = _ :=
    FlashPartition.norWrite_apply (by
      rw [length_leBytes]
      simp only [writeSize] at hsize ⊢
      omega)
  rw [push, FlashM.bind_of_ret (hwrite f)]
  simp only
  rw [FlashM.bind_of_ret (hflush _)]
  simp only [hword]
  rw [FlashM.bind_of_ret (hlength _), ← List.append_assoc, hops]
  have hpos : log.wordPos + (bodyWords C item + 1) = log.wordPos + 1 + bodyWords C item := by
    omega
  simp only [hpos]
  rfl

/-- **A push that does not fit** fails, after programming at most what lies behind the length
word. -/
theorem push_of_not_fits (h : ¬ log.Fits C item) :
    ∃ ps, (log.wordPos + 1) * writeSize + ps.flatten.length ≤
        max log.flash.size ((log.wordPos + 1) * writeSize) ∧
      ∀ f, (log.push C item f).ops =
          Flash.programs (log.flash.start + (log.wordPos + 1) * writeSize) ps ∧
        ∀ log', (log.push C item f).result ≠ .ret (.ok log') := by
  have hsize : log.flash.size < (log.wordPos + 1 + bodyWords C item) * writeSize := not_le.mp h
  by_cases hnil : C.encode item = []
  · -- no body is written, and the length word is out of bounds
    refine ⟨[], by simp, fun f => ?_⟩
    have hzero : bodyWords C item = 0 := by
      rw [bodyWords, hnil, padWord_nil]
      rfl
    have hlength : ∀ f, log.flash.norWrite (log.wordPos * writeSize) (leBytes 4 0) f = _ :=
      FlashPartition.norWrite_apply_of_lt (by
        rw [length_leBytes]
        simp only [hzero, writeSize] at hsize ⊢
        omega)
    have hpush : log.push C item f = ⟨[], .ret (.error .outOfBounds)⟩ := by
      rw [push, hnil, FlashM.bind_of_pure (a := .ok log.writer) rfl]
      simp only
      rw [FlashM.bind_of_pure (a := .ok log.writer.wordPos) rfl]
      simp only [Nat.sub_self]
      rw [FlashM.bind_of_pure (hlength f)]
      rfl
    rw [hpush]
    exact ⟨rfl, nofun⟩
  · have hend : log.writer.flash.size < log.writer.pos + (padWord (C.encode item)).length := by
      rw [length_body]
      refine lt_of_lt_of_le hsize (le_of_eq ?_)
      exact Nat.add_mul _ _ _
    obtain ⟨ps, -, hlen, -, hfail⟩ :=
      BincodeFlashWriter.write_flush_of_lt log.writer_ready rfl hnil hend
    refine ⟨ps, ?_, fun f => ?_⟩
    · have hroom : ps.flatten.length ≤ log.flash.size - (log.wordPos + 1) * writeSize := hlen
      omega
    · rcases hfail with hwrite | ⟨w', hwrite, hflush⟩
      · rw [push, FlashM.bind_of_ret (hwrite f)]
        simp only [FlashM.lift_apply, List.append_nil]
        exact ⟨rfl, nofun⟩
      · rw [push, FlashM.bind_of_ret (hwrite f)]
        simp only
        rw [FlashM.bind_of_pure (hflush _)]
        simp only [FlashM.pure_apply, List.append_nil]
        exact ⟨rfl, nofun⟩

/-! ### The entries on the flash -/

/-- The entries that are laid out between two words of a partition. -/
inductive Entries (C : Codec T) (p : FlashPartition) (f : Flash) : ℕ → List T → ℕ → Prop
  | nil (word : ℕ) : Entries C p f word [] word
  | cons {word len stop : ℕ} {item : T} {items : List T} {rest : List UInt8}
      (fits : (word + 1 + len) * writeSize ≤ p.size)
      (length : (p.bytesFrom f (word * writeSize)).take writeSize = leBytes 4 len)
      (body : C.decode (p.bytesFrom f ((word + 1) * writeSize)) = some (item, rest))
      (used : p.size - (word + 1) * writeSize - rest.length ≤ len * writeSize)
      (tail : Entries C p f (word + 1 + len) items stop) :
      Entries C p f word (item :: items) stop

namespace Entries

variable {p : FlashPartition} {f f' : Flash} {word stop : ℕ} {items : List T}

theorem append {items' : List T} {stop' : ℕ} (h : Entries C p f word items stop)
    (h' : Entries C p f stop items' stop') : Entries C p f word (items ++ items') stop' := by
  induction h with
  | nil => exact h'
  | cons fits length body used _ ih => exact .cons fits length body used (ih h')

theorem length_le (h : Entries C p f word items stop) : word + items.length ≤ stop := by
  induction h with
  | nil => exact le_refl _
  | cons _ _ _ _ _ ih =>
      rw [List.length_cons]
      omega

/-- The entries depend on their own words only: reading stops at the end of the last one. -/
theorem congr (hf : ∀ i, p.start ≤ i → i < p.start + stop * writeSize → f' i = f i)
    (h : Entries C p f word items stop) : Entries C p f' word items stop := by
  induction h with
  | nil => exact .nil _
  | @cons word len stop item items rest fits length body used tail ih =>
      have hstop : word + 1 + len ≤ stop := (Nat.le_add_right _ _).trans tail.length_le
      obtain ⟨bytes, hbytes, hread⟩ := C.streams _ _ _ body
      have hlen := congrArg List.length hbytes
      rw [List.length_append, FlashPartition.length_bytesFrom] at hlen
      have hsame : (p.bytesFrom f' ((word + 1) * writeSize)).take bytes.length = bytes := by
        rw [FlashPartition.take_bytesFrom_congr (f := f), hbytes, List.take_left]
        intro i hi₀ hi
        refine hf i ((Nat.le_add_right _ _).trans hi₀) (lt_of_lt_of_le hi ?_)
        simp only [writeSize] at used hstop hlen fits ⊢
        omega
      have hsplit := List.take_append_drop bytes.length (p.bytesFrom f' ((word + 1) * writeSize))
      rw [hsame] at hsplit
      refine .cons fits ?_ (by rw [← hsplit, hread]) ?_ (ih hf)
      · rw [FlashPartition.take_bytesFrom_congr (f := f), length]
        intro i hi₀ hi
        refine hf i ((Nat.le_add_right _ _).trans hi₀) (lt_of_lt_of_le hi ?_)
        simp only [writeSize] at hstop ⊢
        omega
      · rw [List.length_drop, FlashPartition.length_bytesFrom]
        omega

end Entries

/-! ### What the iterator gives -/

variable {f : Flash}

theorem read_word (h : (log.wordPos + 1) * writeSize ≤ log.flash.size) :
    log.flash.read f (asU32 (log.wordPos * writeSize)) writeSize =
      .ok ((log.flash.bytesFrom f (log.wordPos * writeSize)).take writeSize) := by
  have hle : log.wordPos * writeSize + writeSize ≤ log.flash.size := by
    simp only [writeSize] at h ⊢
    omega
  have hadd : ¬ log.flash.size < saturatingAddU32 (log.wordPos * writeSize) writeSize :=
    not_lt.mpr ((Nat.min_le_left _ _).trans hle)
  rw [asU32_of_le (log.flash.le_u32Max (by omega)), FlashPartition.read, if_neg hadd]
  rfl

variable (C log) in
/-- At a length word the iterator decodes what lies behind it. -/
theorem next_of_length {len : ℕ}
    (hfits : (log.wordPos + 1 + len) * writeSize ≤ log.flash.size)
    (hlength : (log.flash.bytesFrom f (log.wordPos * writeSize)).take writeSize =
      leBytes 4 len) :
    log.next C f =
      match C.decode (log.flash.bytesFrom f ((log.wordPos + 1) * writeSize)) with
      | none => .ret (some (.error .body))
      | some (item, rest) =>
          if log.flash.size - (log.wordPos + 1) * writeSize - rest.length ≤
              len * writeSize then
            .ret (some (.ok (item, { log with wordPos := log.wordPos + 1 + len })))
          else .panic "assertion failed: reader.byte_pos() <= expected_pos" := by
  have hmax := log.flash.size_lt
  simp only [writeSize] at hfits
  have hlt : len < u32Max := by omega
  have hof : ofLeBytes (leBytes 4 len) = len :=
    ofLeBytes_leBytes (hlt.trans (by decide : u32Max < 256 ^ 4))
  have hne : leBytes 4 len ≠ List.replicate writeSize 0xff := by
    intro heq
    rw [heq, show ofLeBytes (List.replicate writeSize 0xff) = u32Max by decide] at hof
    omega
  have hword : asU32 (log.wordPos + 1) = log.wordPos + 1 := asU32_of_le (by omega)
  have hbody : asU32 ((log.wordPos + 1) * writeSize) = (log.wordPos + 1) * writeSize :=
    asU32_of_le (by simp only [writeSize]; omega)
  have hlen : asU32 (len * writeSize) = len * writeSize :=
    asU32_of_le (by simp only [writeSize]; omega)
  have hend : asU32 ((log.wordPos + 1) * writeSize + len * writeSize) =
      (log.wordPos + 1) * writeSize + len * writeSize :=
    asU32_of_le (by simp only [writeSize]; omega)
  have hnext : asU32 (log.wordPos + 1 + len) = log.wordPos + 1 + len :=
    asU32_of_le (by omega)
  rw [next, read_word (by simp only [writeSize]; omega)]
  simp only [hlength, if_neg hne, hof, hword, hbody, hlen, hend, hnext,
    FlashPartition.length_bytesFrom, Nat.add_le_add_iff_left]

/-- The iterator ends at an erased word, and nowhere else. -/
theorem next_eq_none_iff (h : log.wordPos * writeSize ≤ log.flash.size) :
    log.next C f = .ret none ↔ log.flash.ErasedWord f log.wordPos := by
  by_cases hfit : (log.wordPos + 1) * writeSize ≤ log.flash.size
  · rw [next, read_word hfit, FlashPartition.ErasedWord]
    simp only
    constructor
    · intro hn
      by_contra hne
      rw [if_neg hne] at hn
      split at hn
      · cases hn
      · split at hn <;> cases hn
    · intro he
      rw [if_pos he]
  · have hpos : asU32 (log.wordPos * writeSize) = log.wordPos * writeSize :=
      asU32_of_le (log.flash.le_u32Max h)
    have hread : log.flash.read f (log.wordPos * writeSize) writeSize = .error .outOfBounds := by
      refine if_pos (Nat.lt_min.mpr ⟨?_, log.flash.size_lt⟩)
      simp only [writeSize] at hfit ⊢
      omega
    constructor
    · intro hn
      simp only [next, hpos, hread] at hn
      cases hn
    · exact fun he => absurd he.le_size hfit

/-- What the first step of a run of the iterator that ends well was. -/
theorem collect_succ_eq_ok_iff {fuel : ℕ} {items : List T} {log' : NorFlashLog} :
    collect C f (fuel + 1) log = some (.ret (.ok (items, log'))) ↔
      (log.next C f = .ret none ∧ items = [] ∧ log' = log) ∨
      ∃ item mid items', log.next C f = .ret (some (.ok (item, mid))) ∧ items = item :: items' ∧
        collect C f fuel mid = some (.ret (.ok (items', log'))) := by
  rw [collect]
  cases hn : log.next C f with
  | panic msg => simp
  | ret r =>
      match r with
      | none =>
          simp only [Option.some.injEq, Exec.ret.injEq, Except.ok.injEq, Prod.mk.injEq, true_and,
            reduceCtorEq, false_and, exists_false, or_false]
          exact and_congr eq_comm eq_comm
      | some (.error e) => simp
      | some (.ok (item, mid)) =>
          simp only [Exec.ret.injEq, reduceCtorEq, false_and, false_or, Option.some.injEq,
            Except.ok.injEq, Prod.mk.injEq, Option.map_eq_some_iff]
          constructor
          · rintro ⟨r, hr, heq⟩
            match r with
            | .panic msg => cases heq
            | .ret (.error e) => cases heq
            | .ret (.ok (items', log'')) =>
                cases heq
                exact ⟨item, mid, items', ⟨rfl, rfl⟩, rfl, hr⟩
          · rintro ⟨item', mid', items', ⟨rfl, rfl⟩, rfl, hr⟩
            exact ⟨_, hr, rfl⟩

variable (log) in
/-- **The iterator gives the entries on the flash**, and goes on behind them. -/
theorem collect_of_entries {word stop fuel : ℕ} {items out : List T} {log' : NorFlashLog}
    (h : Entries C log.flash f word items stop) :
    collect C f fuel { log with wordPos := word } = some (.ret (.ok (out, log'))) ↔
      ∃ fuel' out', fuel = items.length + fuel' ∧ out = items ++ out' ∧
        collect C f fuel' { log with wordPos := stop } = some (.ret (.ok (out', log'))) := by
  induction h generalizing fuel out with
  | nil word => simp
  | @cons word len stop item items rest fits length body used _ ih =>
      cases fuel with
      | zero =>
          simp only [collect, reduceCtorEq, List.length_cons, false_iff, not_exists, not_and]
          omega
      | succ fuel =>
          have hn := next_of_length C { log with wordPos := word } fits length
          simp only [body, if_pos used] at hn
          rw [collect_succ_eq_ok_iff, hn]
          simp only [Exec.ret.injEq, reduceCtorEq, false_and, false_or, Option.some.injEq,
            Except.ok.injEq, Prod.mk.injEq]
          constructor
          · rintro ⟨_, _, items', ⟨rfl, rfl⟩, rfl, hc⟩
            obtain ⟨fuel', out', rfl, rfl, hrest⟩ := ih.mp hc
            exact ⟨fuel', out', by rw [List.length_cons]; omega, rfl, hrest⟩
          · rintro ⟨fuel', out', hfuel, rfl, hc⟩
            rw [List.length_cons] at hfuel
            exact ⟨_, _, items ++ out', ⟨rfl, rfl⟩, rfl,
              ih.mpr ⟨fuel', out', by omega, rfl, hc⟩⟩

/-- Iterating a log that is laid out stops behind its entries. -/
theorem seekIter_of_entries {p : FlashPartition} {word : ℕ} {items : List T}
    (h : Entries C p f 0 items word)
    (he : p.ErasedWord f word) :
    (NorFlashLog.new p).seekIter C f =
      some (.ret (.ok (items, { flash := p, wordPos := word }))) := by
  have hsize := he.le_size
  have hlen := h.length_le
  have hfuel : p.size + 1 = items.length + (p.size - items.length + 1) := by
    simp only [writeSize] at hsize
    omega
  refine (collect_of_entries (NorFlashLog.new p) h).mpr
    ⟨_, [], hfuel, (List.append_nil _).symm, collect_succ_eq_ok_iff.mpr (.inl ⟨?_, rfl, rfl⟩)⟩
  refine (next_eq_none_iff ?_).mpr he
  simp only [writeSize] at hsize
  show word * 4 ≤ p.size
  omega

/-! ### What a push leaves -/

variable {p : FlashPartition} {word : ℕ}

/-- The flash after a push has programmed its body and its length word. -/
def pushed (C : Codec T) (p : FlashPartition) (f : Flash) (word : ℕ) (item : T) : Flash :=
  (f.program (p.start + (word + 1) * writeSize) (padWord (C.encode item))).program
    (p.start + word * writeSize) (leBytes 4 (bodyWords C item))

/-- The body of an item, programmed over what is there, reads as the item and no further than
the body. -/
def ReadsBack (C : Codec T) (p : FlashPartition) (f : Flash) (word : ℕ) (item : T) : Prop :=
  ∃ rest, C.decode (p.bytesFrom
      (f.program (p.start + (word + 1) * writeSize) (padWord (C.encode item)))
      ((word + 1) * writeSize)) = some (item, rest) ∧
    p.size - (word + 1) * writeSize - rest.length ≤ bodyWords C item * writeSize

theorem after_of_fits (h : Fits C { flash := p, wordPos := word } item) (f : Flash) :
    (push C { flash := p, wordPos := word } item).after f = pushed C p f word item := by
  obtain ⟨ps, hflat, -, hpush⟩ := push_of_fits h
  simp only [FlashM.after, hpush, Flash.exec_append, Flash.exec_programs, hflat,
    Flash.exec_cons, Flash.exec_nil, Flash.apply, pushed]

/-- A push changes nothing before its length word. -/
theorem pushed_of_lt {f : Flash} {i : ℕ} (h : i < p.start + word * writeSize) :
    pushed C p f word item i = f i := by
  simp only [pushed, Flash.program, writeSize] at h ⊢
  rw [if_neg (by omega), if_neg (by omega)]

/-- A push changes nothing behind its body. -/
theorem pushed_of_le {f : Flash} {i : ℕ}
    (h : p.start + (word + 1 + bodyWords C item) * writeSize ≤ i) :
    pushed C p f word item i = f i := by
  have hlen := length_body C item
  simp only [writeSize] at h hlen
  simp only [pushed, Flash.program, writeSize]
  rw [List.getD_eq_default (leBytes _ _) _ (by rw [length_leBytes]; omega),
    List.getD_eq_default (padWord _) _ (by omega)]
  simp only [UInt8.and_ff, ite_self]

/-- The body is what programming it leaves. -/
theorem bytesFrom_pushed (f : Flash) :
    p.bytesFrom (pushed C p f word item) ((word + 1) * writeSize) =
      p.bytesFrom (f.program (p.start + (word + 1) * writeSize) (padWord (C.encode item)))
        ((word + 1) * writeSize) := by
  refine FlashPartition.bytesFrom_congr fun i hi => ?_
  simp only [writeSize] at hi ⊢
  simp only [pushed, writeSize, Flash.program]
  rw [if_pos (by omega), List.getD_eq_default (leBytes _ _) _ (by rw [length_leBytes]; omega),
    UInt8.and_ff]

/-- The length of the body is in the erased word it was programmed to. -/
theorem length_pushed {f : Flash} (h : p.ErasedWord f word) :
    (p.bytesFrom (pushed C p f word item) (word * writeSize)).take writeSize =
      leBytes 4 (bodyWords C item) := by
  have hsize := h.le_size
  apply List.ext_getElem
  · rw [List.length_take, FlashPartition.length_bytesFrom, length_leBytes]
    simp only [writeSize] at hsize ⊢
    omega
  · intro i h₁ h₂
    have hi : i < writeSize := (List.length_take_le _ _).trans_lt' h₁
    have hold : f (p.start + (word * writeSize + i)) = 0xff := by
      have hget := List.getElem_of_eq h (i := i) (by
        rw [List.length_take, FlashPartition.length_bytesFrom]
        simp only [writeSize] at hsize hi ⊢
        omega)
      rwa [List.getElem_take, FlashPartition.getElem_bytesFrom, List.getElem_replicate] at hget
    rw [List.getElem_take, FlashPartition.getElem_bytesFrom]
    simp only [writeSize] at hi hold ⊢
    simp only [pushed, Flash.program, writeSize]
    rw [if_pos (by omega), if_neg (by omega), hold, UInt8.ff_and, ← Nat.add_assoc,
      Nat.add_sub_cancel_left, List.getD_eq_getElem _ _ h₂]

/-- The words behind a body are as they were. -/
theorem erasedWord_pushed {f : Flash} :
    p.ErasedWord (pushed C p f word item) (word + 1 + bodyWords C item) ↔
      p.ErasedWord f (word + 1 + bodyWords C item) := by
  rw [FlashPartition.ErasedWord, FlashPartition.ErasedWord,
    FlashPartition.bytesFrom_congr fun i hi => pushed_of_le hi]

/-- **A push adds its entry**, when there is room at the end and the body reads back. -/
theorem Entries.push {f : Flash} {start : ℕ} {items : List T}
    (h : Entries C p f start items word) (he : p.ErasedWord f word)
    (hfits : Fits C { flash := p, wordPos := word } item) (hback : ReadsBack C p f word item) :
    Entries C p (pushed C p f word item) start (items ++ [item])
      (word + 1 + bodyWords C item) := by
  obtain ⟨rest, hdecode, hused⟩ := hback
  refine (h.congr fun i _ hi => pushed_of_lt hi).append
    (.cons hfits (length_pushed he) ?_ hused (.nil _))
  rw [bytesFrom_pushed, hdecode]

/-- A body reads back where all the bits it needs are still set, as they are when nothing but
the same item has been pushed there. -/
theorem readsBack_of_set {f : Flash} (hvalid : C.Valid item)
    (hfits : Fits C { flash := p, wordPos := word } item)
    (hset : ∀ i < (C.encode item).length,
      f (p.start + (word + 1) * writeSize + i) &&& (C.encode item).getD i 0 =
        (C.encode item).getD i 0) : ReadsBack C p f word item := by
  have hsize : (word + 1 + bodyWords C item) * writeSize ≤ p.size := hfits
  have hlen := length_body C item
  have hpad := length_padWord (C.encode item)
  simp only [writeSize] at hsize hlen
  generalize hf : f.program (p.start + (word + 1) * writeSize)
    (padWord (C.encode item)) = f'
  have htake : (p.bytesFrom f' ((word + 1) * writeSize)).take (C.encode item).length =
      C.encode item := by
    apply List.ext_getElem
    · rw [List.length_take, FlashPartition.length_bytesFrom]
      simp only [writeSize]
      omega
    · intro i h₁ h₂
      have hi := hset i h₂
      have hget : (padWord (C.encode item)).getD i 0xff = (C.encode item)[i] := by
        rw [padWord, List.getD_append _ _ _ _ h₂, List.getD_eq_getElem _ _ h₂]
      rw [List.getD_eq_getElem _ _ h₂] at hi
      rw [List.getElem_take, FlashPartition.getElem_bytesFrom, ← hf]
      simp only [Flash.program]
      rw [if_pos (by omega), ← Nat.add_assoc, Nat.add_sub_cancel_left, hget, hi]
  have hsplit := List.take_append_drop (C.encode item).length
    (p.bytesFrom f' ((word + 1) * writeSize))
  rw [htake] at hsplit
  refine ⟨_, by rw [hf, ← hsplit, C.decode_encode hvalid], ?_⟩
  rw [List.length_drop, FlashPartition.length_bytesFrom]
  simp only [writeSize]
  omega

end NorFlashLog

end Frostsnap
