import Frostsnap.Embedded.AbCrash
import Frostsnap.Lib.Run
import Mathlib.Tactic.Ring

/-!
# Erasing a device

This module embeds `erase.rs`, `flash_header.rs` and the start of a device up to its header in
`device_loop.rs`. A device is named by a header, which an A/B slot of two sectors keeps in front
of everything else. An erase first erases the first sector and has that confirmed, and then the
rest. A start that finds no header erases everything before it makes a new one, unless there is
nothing behind the header.

An A/B slot has two copies of the header, one in each of the first two sectors, and the
confirmation is sent when only one of them is gone.

## Main results

* `Erase.crash_cases`: what power loss inside an erase leaves. Until the second sector is erased
  it is a header that is still read.
* `clean_of_ready`: without a header, a device does not come up before there is nothing behind it,
  wherever its starts are interrupted.
* `erase_power_loss`: both together, for every point at which power is lost inside an erase.
-/

namespace Frostsnap

/-! ### The header -/

/-- `Header`, of which `V0` is the only version. -/
structure Header where
  deviceIdSeed : BitVec 256
  deriving DecidableEq

/-- `HeaderMagicBytes::MAGIC_BYTES`, with the version signal added. -/
abbrev headerMagicBytes : List UInt8 := [0x66, 0x73, 0x68, 0x65, 0x61, 0x64, 0x30]

/-- The magic bytes, of which the last one is not looked at, the number of the version and the
seed. -/
def headerCodec : FixedCodec (7 + (4 + 32)) Header :=
  ((FixedCodec.mark headerMagicBytes (fun bytes => bytes.take 6 == headerMagicBytes.take 6)
      rfl rfl).prod
    ((FixedCodec.mark (leBytes 4 0) (fun bytes => ofLeBytes bytes == 0) rfl rfl).prod
      (FixedCodec.bits 32))).equiv
    { toFun := fun (_, _, deviceIdSeed) => { deviceIdSeed := deviceIdSeed }
      invFun := fun header => ((), (), header.deviceIdSeed)
      left_inv := fun _ => rfl
      right_inv := fun _ => rfl }

theorem headerCodec_valid (header : Header) : headerCodec.Valid header :=
  ⟨trivial, trivial, trivial⟩

/-- `FlashHeader`. -/
structure FlashHeader where
  ab : AbSlot

namespace FlashHeader

/-- `FlashHeader::new`. -/
def new (flash : FlashPartition) : Exec FlashHeader := do
  let ab ← AbSlot.new flash
  return { ab := ab }

/-- `read_header`. -/
def readHeader (h : FlashHeader) (f : Flash) : Option Header := h.ab.read headerCodec.toCodec f

/-- `write_header`. -/
def writeHeader (h : FlashHeader) (header : Header) : FlashM Unit :=
  h.ab.write headerCodec.toCodec header

/-- `init`, with the seed that is drawn. -/
def init (h : FlashHeader) (deviceIdSeed : BitVec 256) : FlashM Header := do
  let header : Header := { deviceIdSeed := deviceIdSeed }
  h.writeHeader header
  return header

end FlashHeader

/-! ### The erase -/

/-- `CHUNK_SIZE`, in sectors. -/
abbrev CHUNK_SIZE : ℕ := 16

/-- How far an erase is. -/
inductive Erase.State where
  | initial
  | erasingFirst
  | erasingRest
  | done
  deriving DecidableEq

/-- An erase, which is split in two so that the first sector can be confirmed. -/
structure Erase where
  state : Erase.State
  nSectors : ℕ

/-- What polling an erase gives. -/
inductive ErasePoll where
  | pending
  | sendConfirmation
  | reset
  deriving DecidableEq

namespace Erase

/-- An erase that has not begun. -/
def new (partition : FlashPartition) : Erase where
  state := .initial
  nSectors := partition.nSectors

/-- Erase the sectors from `sector` on, a chunk at a time. -/
def eraseRest (partition : FlashPartition) (nSectors sector : ℕ) : FlashM Unit :=
  if sector < nSectors then do
    let count := min CHUNK_SIZE (nSectors - sector)
    FlashM.lift (Exec.expectOk (← partition.eraseSectors sector count) "failed to erase sectors")
    eraseRest partition nSectors (sector + count)
  else pure ()
termination_by nSectors - sector
decreasing_by
  simp only [CHUNK_SIZE]
  omega

/-- One step of an erase. -/
def poll (e : Erase) (partition : FlashPartition) : FlashM (ErasePoll × Erase) :=
  match e.state with
  | .initial => return (.pending, { e with state := .erasingFirst })
  | .erasingFirst => do
      FlashM.lift (Exec.expectOk (← partition.eraseSector 0) "failed to erase sector")
      return (.sendConfirmation, { e with state := .erasingRest })
  | .erasingRest => do
      eraseRest partition e.nSectors 1
      return (.reset, { e with state := .done })
  | .done => return (.reset, e)

/-- Poll an erase until it asks for a reset, at most `fuel` times, and say whether it did. After a
poll that leaves it in a state, its caller writes `work` of that state. -/
def untilReset (partition : FlashPartition) (work : State → List FlashOp) :
    ℕ → Erase → FlashM Bool
  | 0, _ => return false
  | fuel + 1, e => do
      let (p, e) ← e.poll partition
      if p = .reset then return true
      else do
        FlashM.issueAll (work e.state)
        untilReset partition work fuel e

end Erase

/-! ### The start of a device -/

/-- What a start comes to. -/
inductive InitOutcome where
  | ready (header : Header)
  | resetRequested
  deriving DecidableEq

/-- `DeviceLoop::new` up to the header, with the seed that is drawn if there is none. -/
def initDevice (nvs : FlashPartition) (deviceIdSeed : BitVec 256) : FlashM InitOutcome := do
  let fullNvs := nvs
  let (nvs, headerSectors) ← FlashM.lift (nvs.splitOffFront 2)
  let headerFlash ← FlashM.lift (FlashHeader.new headerSectors)
  let f ← FlashM.get
  match headerFlash.readHeader f with
  | some header => return .ready header
  | none =>
      if nvs.isEmpty f then do
        let header ← headerFlash.init deviceIdSeed
        return .ready header
      else do
        let _ ← (Erase.new fullNvs).untilReset fullNvs (fun _ => []) 3
        return .resetRequested

/-! ### Where the header lies -/

namespace FlashPartition

variable (nvs : FlashPartition) (h : 2 ≤ nvs.nSectors)

/-- The sectors of the header. -/
def headerSectors : FlashPartition := nvs.dropEnd (nvs.nSectors - 2) (Nat.sub_le _ _)

/-- The sectors behind the header. -/
def behindHeader : FlashPartition := nvs.takeEnd (nvs.nSectors - 2) (Nat.sub_le _ _)

include h in
theorem nSectors_headerSectors : nvs.headerSectors.nSectors = 2 := by
  simp only [headerSectors, dropEnd]
  omega

/-- The slot of the header. -/
def headerSlot : AbSlot :=
  AbSlot.halves nvs.headerSectors (nvs.nSectors_headerSectors h).ge
    (by rw [nvs.nSectors_headerSectors h])

theorem headerSlot_zero :
    ((nvs.headerSlot h).slots 0).flash.start = nvs.start ∧
      ((nvs.headerSlot h).slots 0).flash.size = sectorSize := by
  have hn := nvs.nSectors_headerSectors h
  have hsize : nvs.headerSectors.nSectors - nvs.headerSectors.nSectors / 2 = 1 := by rw [hn]
  exact ⟨rfl, by rw [size, show ((nvs.headerSlot h).slots 0).flash.nSectors = 1 from hsize,
    Nat.one_mul]⟩

theorem headerSlot_one :
    ((nvs.headerSlot h).slots 1).flash.start = nvs.start + sectorSize ∧
      ((nvs.headerSlot h).slots 1).flash.size = sectorSize := by
  have hn := nvs.nSectors_headerSectors h
  have hsize : nvs.headerSectors.nSectors / 2 = 1 := by rw [hn]
  have hstart : nvs.headerSectors.offsetSector +
      (nvs.headerSectors.nSectors - nvs.headerSectors.nSectors / 2) = nvs.offsetSector + 1 := by
    rw [hn]
    rfl
  refine ⟨?_, ?_⟩
  · rw [start, show ((nvs.headerSlot h).slots 1).flash.offsetSector = nvs.offsetSector + 1 from
      hstart, Nat.add_mul, Nat.one_mul, start]
  · rw [size, show ((nvs.headerSlot h).slots 1).flash.nSectors = 1 from hsize, Nat.one_mul]

theorem headerSlot_stop : (nvs.headerSlot h).stop = nvs.start + 2 * sectorSize := by
  rw [AbSlot.stop, (nvs.headerSlot_one h).1, (nvs.headerSlot_one h).2]
  omega

include h in
theorem behindHeader_start : nvs.behindHeader.start = nvs.start + 2 * sectorSize := by
  simp only [behindHeader, takeEnd, start, sectorSize]
  omega

include h in
theorem behindHeader_stop :
    nvs.behindHeader.start + nvs.behindHeader.size = nvs.start + nvs.size := by
  simp only [behindHeader, takeEnd, start, size, sectorSize]
  omega

end FlashPartition

/-! ### What an erase issues -/

namespace Erase

variable {nvs : FlashPartition} {f : Flash} {g : FlashGeometry}

/-- The operations that erase the sectors from `sector` on. -/
structure RestOps (nvs : FlashPartition) (sector : ℕ) (ops : List FlashOp) : Prop where
  isErase : ∀ op ∈ ops, op.IsErase
  first : sector < nvs.nSectors → ∃ stop rest,
    ops = .erase (nvs.start + sector * sectorSize) stop :: rest ∧
      nvs.start + (sector + 1) * sectorSize ≤ stop
  erased : ∀ (f : Flash) (i : ℕ), nvs.start + sector * sectorSize ≤ i → i < nvs.start + nvs.size →
    f.exec ops i = 0xff

/-- **What erasing the rest issues.** -/
theorem eraseRest_ops (sector : ℕ) :
    ∃ ops, (∀ f, eraseRest nvs nvs.nSectors sector f = ⟨ops, .ret ()⟩) ∧
      RestOps nvs sector ops := by
  induction hleft : nvs.nSectors - sector using Nat.strong_induction_on generalizing sector with
  | h left ih =>
      by_cases hlt : sector < nvs.nSectors
      · have hcount : 0 < min CHUNK_SIZE (nvs.nSectors - sector) := by
          simp only [CHUNK_SIZE]
          omega
        generalize hc : min CHUNK_SIZE (nvs.nSectors - sector) = count at hcount
        have hfits : sector + count ≤ nvs.nSectors := by
          have := Nat.min_le_right CHUNK_SIZE (nvs.nSectors - sector)
          omega
        obtain ⟨ops, hrun, hops⟩ := ih (nvs.nSectors - (sector + count)) (by omega)
          (sector + count) rfl
        have hchunk : ∀ f, nvs.eraseSectors sector count f =
            ⟨[.erase (nvs.start + sector * sectorSize)
              (nvs.start + (sector + count) * sectorSize)], .ret (.ok ())⟩ := by
          intro f
          rw [FlashPartition.eraseSectors, if_neg (by omega), Nat.add_mul, Nat.add_mul]
          rfl
        refine ⟨.erase (nvs.start + sector * sectorSize)
          (nvs.start + (sector + count) * sectorSize) :: ops, fun f => ?_, ?_,
          fun _ => ⟨_, ops, rfl, ?_⟩, ?_⟩
        · rw [eraseRest, if_pos hlt, hc, FlashM.bind_of_ret (hchunk f)]
          simp only [Exec.expectOk, FlashM.lift_ret_bind_apply, hrun]
          rfl
        · intro op hop
          rcases List.mem_cons.mp hop with rfl | hop
          · trivial
          · exact hops.isErase op hop
        · exact Nat.add_le_add_left (Nat.mul_le_mul_right _ (by omega)) _
        · intro f i hstart hstop
          rw [Flash.exec_cons]
          by_cases hi : i < nvs.start + (sector + count) * sectorSize
          · have herased : f.apply (.erase (nvs.start + sector * sectorSize)
                (nvs.start + (sector + count) * sectorSize)) i = 0xff := if_pos ⟨hstart, hi⟩
            rcases Flash.exec_erases (f := f.apply _) hops.isErase i with h | h
            · rw [h, herased]
            · exact h
          · exact hops.erased _ i (not_lt.mp hi) hstop
      · refine ⟨[], fun f => ?_, by simp, fun h => absurd h hlt, fun f i hstart hstop => ?_⟩
        · rw [eraseRest, if_neg hlt]
          rfl
        · have hle := Nat.mul_le_mul_right sectorSize (not_lt.mp hlt)
          simp only [FlashPartition.size] at hstop
          omega

/-- The erase of the first sector. -/
def firstOp (nvs : FlashPartition) : FlashOp := .erase nvs.start (nvs.start + sectorSize)

theorem eraseSector_zero (h : 0 < nvs.nSectors) (f : Flash) :
    nvs.eraseSector 0 f = ⟨[firstOp nvs], .ret (.ok ())⟩ := by
  rw [FlashPartition.eraseSector, if_neg (by omega), Nat.add_zero, Nat.add_mul, Nat.one_mul]
  rfl

/-- The confirmation is sent when the first sector is erased, and nothing else. -/
theorem poll_erasingFirst (h : 0 < nvs.nSectors) (f : Flash) :
    poll ⟨.erasingFirst, nvs.nSectors⟩ nvs f =
      ⟨[firstOp nvs], .ret (.sendConfirmation, ⟨.erasingRest, nvs.nSectors⟩)⟩ := by
  simp only [poll]
  rw [FlashM.bind_of_ret (eraseSector_zero h f)]
  rfl

/-- **What an erase issues**: the first sector, and then all others, and in between what its
caller writes. Its third poll asks for the reset. -/
theorem untilReset_ops (h : 0 < nvs.nSectors) (work : State → List FlashOp) :
    ∃ rest, RestOps nvs 1 rest ∧ ∀ f,
      (new nvs).untilReset nvs work 3 f =
        ⟨work .erasingFirst ++ (firstOp nvs :: (work .erasingRest ++ rest)), .ret true⟩ := by
  obtain ⟨rest, hrun, hrest⟩ := @eraseRest_ops nvs 1
  refine ⟨rest, hrest, fun f => ?_⟩
  have hpoll₁ : (new nvs).poll nvs f = ⟨[], .ret (.pending, ⟨.erasingFirst, nvs.nSectors⟩)⟩ := rfl
  have hpoll₃ : ∀ f, poll ⟨.erasingRest, nvs.nSectors⟩ nvs f =
      ⟨rest, .ret (.reset, ⟨.done, nvs.nSectors⟩)⟩ := by
    intro f
    simp only [poll]
    rw [FlashM.bind_of_ret (hrun f)]
    simp
  rw [untilReset, FlashM.bind_of_pure hpoll₁]
  simp only [reduceCtorEq, if_false]
  rw [FlashM.bind_of_ret (FlashM.issueAll_apply _), untilReset,
    FlashM.bind_of_ret (poll_erasingFirst h _)]
  simp only [reduceCtorEq, if_false]
  rw [FlashM.bind_of_ret (FlashM.issueAll_apply _), untilReset, FlashM.bind_of_ret (hpoll₃ _)]
  simp

end Erase

/-! ### Power loss inside an erase -/

namespace Erase

variable {nvs : FlashPartition} {f : Flash} {g : FlashGeometry} {work : State → List FlashOp}

/-- Both sectors of the header are erased. -/
def HeaderErased (nvs : FlashPartition) (f : Flash) : Prop :=
  ∀ i, nvs.start ≤ i → i < nvs.start + 2 * sectorSize → f i = 0xff

/-- What is written while an erase goes on lies behind the header. -/
def WorkBehind (nvs : FlashPartition) (work : State → List FlashOp) : Prop :=
  ∀ s, ∀ op ∈ work s, op.Within (nvs.start + 2 * sectorSize) (nvs.start + nvs.size)

/-- The number of operations up to the one that erases the second sector. -/
def opsBeforeSecond (work : State → List FlashOp) : ℕ :=
  (work .erasingFirst).length + 1 + (work .erasingRest).length

/-- Power is lost before anything of the second sector is erased. -/
def BeforeSecond (work : State → List FlashOp) : Option (ℕ × ℕ) → Prop
  | none => False
  | some (n, k) => n < opsBeforeSecond work ∨ (n = opsBeforeSecond work ∧ k = 0)

/-- What power loss leaves before the second sector is erased. -/
structure SecondKept (g : FlashGeometry) (nvs : FlashPartition) (work : State → List FlashOp)
    (f f' : Flash) : Prop where
  second : ∀ i, nvs.start + sectorSize ≤ i → i < nvs.start + 2 * sectorSize → f' i = f i
  first : (∀ i, nvs.start ≤ i → i < nvs.start + sectorSize → f' i = f i) ∨
    ∀ i, nvs.start ≤ i → i < nvs.start + sectorSize → f' i = 0xff
  /-- behind the header there is what the caller has written -/
  behind : ∃ crash, ∀ i, nvs.start + 2 * sectorSize ≤ i →
    f' i = (FlashM.issueAll (work .erasingFirst ++ work .erasingRest)).flashAfter g f crash i

/-- What is issued before the second sector is erased. -/
def opsOfFirst (nvs : FlashPartition) (work : State → List FlashOp) : List FlashOp :=
  work .erasingFirst ++ (firstOp nvs :: work .erasingRest)

theorem length_opsOfFirst : (opsOfFirst nvs work).length = opsBeforeSecond work := by
  simp only [opsOfFirst, opsBeforeSecond, List.length_append, List.length_cons]
  omega

theorem firstOp_within : (firstOp nvs).Within nvs.start (nvs.start + sectorSize) :=
  ⟨le_refl _, le_refl _⟩

/-- The caller stays away from the header. -/
theorem WorkBehind.away (h : WorkBehind nvs work) {i : ℕ} (hi : i < nvs.start + 2 * sectorSize)
    (s : State) : ∀ op ∈ work s, ∃ start stop, op.Within start stop ∧ (i < start ∨ stop ≤ i) :=
  fun op hop => ⟨_, _, h s op hop, .inl hi⟩

theorem exec_away {ops : List FlashOp} {i : ℕ}
    (h : ∀ op ∈ ops, ∃ start stop, op.Within start stop ∧ (i < start ∨ stop ≤ i)) :
    f.exec ops i = f i := by
  rw [← Flash.crashAt_of_length_le (g := ⟨writeSize, sectorSize⟩) (le_refl ops.length) 0]
  exact Flash.crashAt_away h _ _

/-- The first sector is erased when what comes before the second one has been done. -/
theorem exec_opsOfFirst (hwork : WorkBehind nvs work) {i : ℕ} (hstart : nvs.start ≤ i)
    (hstop : i < nvs.start + sectorSize) : f.exec (opsOfFirst nvs work) i = 0xff := by
  have hi : i < nvs.start + 2 * sectorSize := by
    simp only [sectorSize] at hstop ⊢
    omega
  rw [opsOfFirst, Flash.exec_append, Flash.exec_cons, exec_away (hwork.away hi .erasingRest)]
  exact if_pos ⟨hstart, hstop⟩

/-- **Power loss before the second sector is erased.** -/
theorem secondKept_of_crash (hg : g.sector = sectorSize) (hwork : WorkBehind nvs work)
    (n k : ℕ) : SecondKept g nvs work f (f.crashAt g (opsOfFirst nvs work) n k) where
  second i hstart hstop := by
    refine Flash.crashAt_away (fun op hop => ?_) n k
    rcases List.mem_append.mp hop with hop | hop
    · exact hwork.away hstop _ op hop
    · rcases List.mem_cons.mp hop with rfl | hop
      · exact ⟨_, _, firstOp_within, .inr hstart⟩
      · exact hwork.away hstop _ op hop
  first := by
    have haway : ∀ i, i < nvs.start + sectorSize → i < nvs.start + 2 * sectorSize := by
      intro i hi
      simp only [sectorSize] at hi ⊢
      omega
    simp only [opsOfFirst, Flash.crashAt_append]
    split
    · refine .inl fun i _ hstop => ?_
      exact Flash.crashAt_away (hwork.away (haway i hstop) _) n k
    · cases hn : n - (work .erasingFirst).length with
      | zero =>
          simp only [Flash.crashAt_cons_zero]
          cases k with
          | zero =>
              refine .inl fun i _ hstop => ?_
              rw [Flash.apply_tear_zero]
              exact exec_away (hwork.away (haway i hstop) _)
          | succ k =>
              refine .inr fun i hstart hstop => if_pos ⟨hstart, lt_min hstop ?_⟩
              rw [hg, Nat.add_mul, Nat.one_mul]
              exact hstop.trans_le (Nat.add_le_add_left (Nat.le_add_left _ _) _)
      | succ m =>
          refine .inr fun i hstart hstop => ?_
          rw [Flash.crashAt_cons_succ, Flash.crashAt_away (hwork.away (haway i hstop) _) m k]
          exact if_pos ⟨hstart, hstop⟩
  behind := by
    have hfirst : ∀ (f : Flash) (k i : ℕ), nvs.start + 2 * sectorSize ≤ i →
        f.apply ((firstOp nvs).tear g k) i = f i := by
      intro f k i hi
      refine Flash.apply_outside (Flash.tear_within firstOp_within k) (.inr ?_)
      simp only [sectorSize] at hi ⊢
      omega
    simp only [opsOfFirst, Flash.crashAt_append]
    split
    · rename_i hlt
      refine ⟨some (n, k), fun i hi => ?_⟩
      simp only [FlashM.flashAfter, FlashM.crash, FlashM.issueAll_apply, Flash.crashAt_append,
        if_pos hlt]
    · rename_i hlt
      cases hn : n - (work .erasingFirst).length with
      | zero =>
          refine ⟨some ((work .erasingFirst).length, 0), fun i hi => ?_⟩
          simp only [Flash.crashAt_cons_zero, hfirst _ k i hi, FlashM.flashAfter, FlashM.crash,
            FlashM.issueAll_apply, Flash.crashAt_append, Nat.lt_irrefl, if_false, Nat.sub_self]
          cases work .erasingRest with
          | nil => rfl
          | cons op ops => rw [Flash.crashAt_cons_zero, Flash.apply_tear_zero]
      | succ m =>
          refine ⟨some ((work .erasingFirst).length + m, k), fun i hi => ?_⟩
          have hfirst₀ : (f.exec (work .erasingFirst)).apply (firstOp nvs) i =
              f.exec (work .erasingFirst) i := by
            refine Flash.apply_outside firstOp_within (.inr ?_)
            simp only [sectorSize] at hi ⊢
            omega
          rw [Flash.crashAt_cons_succ, Flash.crashAt_congr hfirst₀]
          simp only [FlashM.flashAfter, FlashM.crash, FlashM.issueAll_apply, Flash.crashAt_append,
            Nat.not_lt.mpr (Nat.le_add_right _ m), if_false, Nat.add_sub_cancel_left]

/-- **Power loss from then on**: both sectors of the header are erased. -/
theorem headerErased_of_crash (hg : g.sector = sectorSize) (h : 1 < nvs.nSectors)
    (hwork : WorkBehind nvs work) {rest : List FlashOp} (hrest : RestOps nvs 1 rest)
    (n k : ℕ) (hnk : n = 0 → k ≠ 0) :
    HeaderErased nvs ((f.exec (opsOfFirst nvs work)).crashAt g rest n k) := by
  intro i hstart hstop
  by_cases hi : i < nvs.start + sectorSize
  · rcases Flash.crashAt_erases hrest.isErase n k i with h | h
    · rw [h, exec_opsOfFirst hwork hstart hi]
    · exact h
  · obtain ⟨stop, rest', rfl, hstop'⟩ := hrest.first h
    rw [Nat.one_mul]
    have hi' : nvs.start + sectorSize ≤ i := not_lt.mp hi
    cases n with
    | zero =>
        rw [Flash.crashAt_cons_zero]
        refine if_pos ⟨hi', lt_min (hstop.trans_le hstop') (hstop.trans_le ?_)⟩
        have hk : 1 * sectorSize ≤ k * sectorSize :=
          Nat.mul_le_mul_right _ (Nat.pos_of_ne_zero (hnk rfl))
        rw [hg]
        simp only [sectorSize] at hk ⊢
        omega
    | succ n =>
        rw [Flash.crashAt_cons_succ]
        have hop : ∀ f : Flash, f.apply (.erase (nvs.start + sectorSize) stop) i = 0xff :=
          fun f => if_pos ⟨hi', hstop.trans_le hstop'⟩
        rcases Flash.crashAt_erases (g := g)
          (fun op hop => hrest.isErase op (List.mem_cons_of_mem _ hop)) n k i with h | h
        · exact h.trans (hop _)
        · exact h

/-- **What power loss inside an erase leaves.** -/
theorem crash_cases (hg : g.sector = sectorSize) (h : 1 < nvs.nSectors)
    (hwork : WorkBehind nvs work) (crash : Option (ℕ × ℕ)) :
    let f' := ((new nvs).untilReset nvs work 3).flashAfter g f crash
    (BeforeSecond work crash → SecondKept g nvs work f f') ∧
      (¬ BeforeSecond work crash → HeaderErased nvs f') := by
  obtain ⟨rest, hrest, hrun⟩ := untilReset_ops (Nat.lt_of_succ_lt h) work
  have hops : ((new nvs).untilReset nvs work 3 f).ops = opsOfFirst nvs work ++ rest := by
    rw [hrun, opsOfFirst, List.append_assoc, List.cons_append]
  cases crash with
  | none =>
      refine ⟨fun hb => hb.elim, fun _ i hstart hstop => ?_⟩
      simp only [FlashM.flashAfter, FlashM.after, hops, Flash.exec_append]
      rw [← Flash.crashAt_of_length_le (g := g) (le_refl rest.length) 0]
      refine headerErased_of_crash hg h hwork hrest _ 0 (fun hlen => ?_) i hstart hstop
      obtain ⟨stop, rest', rfl, -⟩ := hrest.first h
      simp at hlen
  | some p =>
      obtain ⟨n, k⟩ := p
      simp only [FlashM.flashAfter, FlashM.crash, hops, BeforeSecond]
      rw [← @length_opsOfFirst nvs work]
      constructor
      · intro hb
        have hcrash : f.crashAt g (opsOfFirst nvs work ++ rest) n k =
            f.crashAt g (opsOfFirst nvs work) n k := by
          rw [Flash.crashAt_append]
          rcases hb with hlt | ⟨rfl, rfl⟩
          · rw [if_pos hlt]
          · obtain ⟨stop, rest', rfl, -⟩ := hrest.first h
            rw [if_neg (Nat.lt_irrefl _), Nat.sub_self, Flash.crashAt_cons_zero,
              Flash.apply_tear_zero, Flash.crashAt_of_length_le (le_refl _)]
        rw [hcrash]
        exact secondKept_of_crash hg hwork n k
      · intro hb
        rw [Flash.crashAt_append, if_neg fun hlt => hb (.inl hlt)]
        exact headerErased_of_crash hg h hwork hrest _ k fun hn hk =>
          hb (by omega)

end Erase

/-! ### Starts -/

namespace FlashPartition

variable {nvs : FlashPartition} {h : 2 ≤ nvs.nSectors} {f : Flash} {g : FlashGeometry}
  {header : Header}

/-- There is nothing behind the header. -/
def Clean (nvs : FlashPartition) (f : Flash) : Prop := nvs.behindHeader.isEmpty f = true

variable (nvs h) in
/-- Both copies of the header are there, as a write leaves them that was not interrupted. -/
def Stored (header : Header) (f : Flash) : Prop :=
  ∃ index < u32Max, ∀ j, ((nvs.headerSlot h).slots j).Holds headerCodec.toCodec index header f

theorem splitOffFront_two (h : 2 ≤ nvs.nSectors) :
    nvs.splitOffFront 2 = .ret (nvs.behindHeader, nvs.headerSectors) := by
  rw [splitOffFront, Exec.assert_of _ h, Exec.ret_bind, splitOffEnd, dif_pos (Nat.sub_le _ _)]
  rfl

theorem new_headerSectors (h : 2 ≤ nvs.nSectors) :
    FlashHeader.new nvs.headerSectors = .ret { ab := nvs.headerSlot h } := by
  have hn := nvs.nSectors_headerSectors h
  rw [FlashHeader.new, AbSlot.new, dif_pos hn.ge, dif_pos (by rw [hn])]
  rfl

/-- A start that finds a header. -/
theorem initDevice_of_some (hread : (nvs.headerSlot h).read headerCodec.toCodec f = some header)
    (seed : BitVec 256) : initDevice nvs seed f = ⟨[], .ret (.ready header)⟩ := by
  rw [initDevice]
  simp only [splitOffFront_two h, FlashM.lift_ret_bind_apply, new_headerSectors h,
    FlashM.get_bind_apply, FlashHeader.readHeader, hread]
  rfl

/-- A start that finds no header and nothing behind it. -/
theorem initDevice_of_clean (hread : (nvs.headerSlot h).read headerCodec.toCodec f = none)
    (hclean : nvs.Clean f) (seed : BitVec 256) :
    let write := (nvs.headerSlot h).write headerCodec.toCodec { deviceIdSeed := seed }
    (initDevice nvs seed f).ops = (write f).ops ∧
      ((write f).result = .ret () →
        (initDevice nvs seed f).result = .ret (.ready { deviceIdSeed := seed })) := by
  intro write
  have hinit : initDevice nvs seed f = (do
      let header ← FlashHeader.init { ab := nvs.headerSlot h } seed
      return .ready header : FlashM InitOutcome) f := by
    rw [initDevice]
    simp only [splitOffFront_two h, FlashM.lift_ret_bind_apply, new_headerSectors h,
      FlashM.get_bind_apply, FlashHeader.readHeader, hread]
    rw [if_pos (show nvs.behindHeader.isEmpty f = true from hclean)]
  rw [hinit]
  rcases hw : write f with ⟨ops, u | msg⟩
  · have hret : FlashHeader.init { ab := nvs.headerSlot h } seed f =
        ⟨ops, .ret { deviceIdSeed := seed }⟩ := by
      rw [FlashHeader.init, FlashHeader.writeHeader, FlashM.bind_of_ret hw]
      simp
    rw [FlashM.bind_of_ret hret]
    simp
  · have hpanic : FlashHeader.init { ab := nvs.headerSlot h } seed f = ⟨ops, .panic msg⟩ := by
      rw [FlashHeader.init, FlashHeader.writeHeader, FlashM.bind_of_panic hw]
    rw [FlashM.bind_of_panic hpanic]
    simp

/-- A start that finds no header and something behind it. -/
theorem initDevice_of_not_clean (hread : (nvs.headerSlot h).read headerCodec.toCodec f = none)
    (hclean : ¬ nvs.Clean f) (seed : BitVec 256) :
    initDevice nvs seed f = ⟨((Erase.new nvs).untilReset nvs (fun _ => []) 3 f).ops,
      .ret .resetRequested⟩ := by
  obtain ⟨rest, -, hrun⟩ := Erase.untilReset_ops (Nat.lt_of_succ_lt h) fun _ => []
  rw [initDevice]
  simp only [splitOffFront_two h, FlashM.lift_ret_bind_apply, new_headerSectors h,
    FlashM.get_bind_apply, FlashHeader.readHeader, hread]
  rw [if_neg (show ¬ nvs.behindHeader.isEmpty f = true from hclean), FlashM.bind_of_ret (hrun f),
    hrun f]
  simp

/-! ### What is read after power loss -/

/-- The bytes of a slot of the header lie in its sectors. -/
theorem contents_headerSlot_congr {f' : Flash} (j : Fin 2)
    (hsame : ∀ i, nvs.start + j.val * sectorSize ≤ i →
      i < nvs.start + (j.val + 1) * sectorSize → f' i = f i) :
    ((nvs.headerSlot h).slots j).flash.contents f' =
      ((nvs.headerSlot h).slots j).flash.contents f := by
  refine contents_congr fun i hstart hstop => hsame i ?_ ?_
  · rcases AbSlot.eq_zero_or_one j with rfl | rfl
    · rw [(nvs.headerSlot_zero h).1] at hstart
      simpa using hstart
    · rw [(nvs.headerSlot_one h).1] at hstart
      simpa using hstart
  · rcases AbSlot.eq_zero_or_one j with rfl | rfl
    · rw [(nvs.headerSlot_zero h).1, (nvs.headerSlot_zero h).2] at hstop
      simpa using hstop
    · rw [(nvs.headerSlot_one h).1, (nvs.headerSlot_one h).2] at hstop
      simp only [Fin.val_one, sectorSize] at hstop ⊢
      omega

/-- A slot of the header that is erased has no index. -/
theorem readIndex_of_erased (j : Fin 2)
    (herased : ∀ i, nvs.start + j.val * sectorSize ≤ i →
      i < nvs.start + (j.val + 1) * sectorSize → f i = 0xff) :
    ((nvs.headerSlot h).slots j).readIndex f = none := by
  refine Slot.readIndex_of_fill_nil ?_
  rw [← contents_erased]
  exact contents_headerSlot_congr j herased

theorem read_of_headerErased (herased : Erase.HeaderErased nvs f) :
    (nvs.headerSlot h).read headerCodec.toCodec f = none := by
  have hnone : ∀ j, ((nvs.headerSlot h).slots j).readIndex f = none := by
    intro j
    refine readIndex_of_erased j fun i hstart hstop => herased i ?_ ?_
    · exact (Nat.le_add_right _ _).trans hstart
    · refine hstop.trans_le (Nat.add_le_add_left (Nat.mul_le_mul_right _ ?_) _)
      omega
  rw [AbSlot.read, Slot.read_eq_none (hnone _)]
  rfl

/-- **The second copy is enough** to read the header. -/
theorem read_of_secondKept {f' : Flash} {work : Erase.State → List FlashOp}
    (hstored : nvs.Stored h header f) (hkept : Erase.SecondKept g nvs work f f') :
    (nvs.headerSlot h).read headerCodec.toCodec f' = some header := by
  obtain ⟨index, hindex, hholds⟩ := hstored
  have hone : ((nvs.headerSlot h).slots 1).Holds headerCodec.toCodec index header f' := by
    refine Eq.trans (contents_headerSlot_congr 1 fun i hstart hstop => ?_) (hholds 1)
    refine hkept.second i ?_ ?_
    · simpa using hstart
    · simpa using hstop
  have hread₁ := hone.read hindex (headerCodec_valid header)
  rcases hkept.first with hsame | herased
  · have hzero : ((nvs.headerSlot h).slots 0).Holds headerCodec.toCodec index header f' := by
      refine Eq.trans (contents_headerSlot_congr 0 fun i hstart hstop => ?_) (hholds 0)
      refine hsame i ?_ ?_
      · simpa using hstart
      · simpa using hstop
    have hcurrent : (nvs.headerSlot h).currentSlotAndIndex f' = some (0, index) := by
      refine AbSlot.current_of_eq fun j => ?_
      rcases AbSlot.eq_zero_or_one j with rfl | rfl
      · exact hzero.readIndex hindex
      · exact hone.readIndex hindex
    rw [AbSlot.read, hcurrent, Option.map_some, Option.getD_some,
      hzero.read hindex (headerCodec_valid header)]
    rfl
  · have hnone : ((nvs.headerSlot h).slots 0).readIndex f' = none := by
      refine readIndex_of_erased 0 fun i hstart hstop => herased i ?_ ?_
      · simpa using hstart
      · simpa using hstop
    have hcurrent : (nvs.headerSlot h).currentSlotAndIndex f' = some (1, index) := by
      refine AbSlot.current_of_lt (hone.readIndex hindex) fun other hother => ?_
      rw [show (1 + 1 : Fin 2) = 0 from rfl, hnone] at hother
      cases hother
    rw [AbSlot.read, hcurrent, Option.map_some, Option.getD_some, hread₁]
    rfl

end FlashPartition

/-! ### Starting again and again -/

namespace FlashPartition

variable {nvs : FlashPartition} {h : 2 ≤ nvs.nSectors} {f : Flash} {g : FlashGeometry}

/-- No start will find a header with something behind it. -/
def Gone (nvs : FlashPartition) (f : Flash) : Prop := Erase.HeaderErased nvs f ∨ nvs.Clean f

/-- The flash after a start that may be interrupted, with the seed that it draws. -/
def afterStart (g : FlashGeometry) (nvs : FlashPartition) (f : Flash)
    (start : BitVec 256 × Option (ℕ × ℕ)) : Flash :=
  (initDevice nvs start.1).flashAfter g f start.2

theorem Clean.congr {f' : Flash} (hclean : nvs.Clean f)
    (hsame : ∀ i, nvs.behindHeader.start ≤ i → f' i = f i) : nvs.Clean f' := by
  rw [Clean, isEmpty, contents_congr fun i hi _ => hsame i hi]
  exact hclean

/-- Erases leave an erased header erased. -/
theorem headerErased_of_erases (herased : Erase.HeaderErased nvs f) {α : Type} {m : FlashM α}
    (hops : ∀ op ∈ (m f).ops, op.IsErase) (crash : Option (ℕ × ℕ)) :
    Erase.HeaderErased nvs (m.flashAfter g f crash) := by
  intro i hstart hstop
  obtain ⟨n, k, hcrash⟩ := FlashM.flashAfter_eq_crash (g := g) (rfl : (m f).ops = (m f).ops) crash
  rw [hcrash]
  rcases Flash.crashAt_erases hops n k i with hi | hi
  · exact hi.trans (herased i hstart hstop)
  · exact hi

theorem isErase_of_untilReset (h : 1 < nvs.nSectors) :
    ∀ op ∈ ((Erase.new nvs).untilReset nvs (fun _ => []) 3 f).ops, op.IsErase := by
  obtain ⟨rest, hrest, hrun⟩ := Erase.untilReset_ops (Nat.lt_of_succ_lt h) fun _ => []
  intro op hop
  rw [hrun] at hop
  rcases List.mem_cons.mp hop with rfl | hop
  · trivial
  · exact hrest.isErase op hop

include h in
/-- **A start keeps what is gone gone**, wherever it is interrupted. -/
theorem Gone.afterStart (hgone : nvs.Gone f) (start : BitVec 256 × Option (ℕ × ℕ)) :
    nvs.Gone (nvs.afterStart g f start) := by
  obtain ⟨seed, crash⟩ := start
  rw [FlashPartition.afterStart]
  cases hread : (nvs.headerSlot h).read headerCodec.toCodec f with
  | some header =>
      rw [FlashM.flashAfter_of_nil (by rw [initDevice_of_some hread])]
      exact hgone
  | none =>
      by_cases hclean : nvs.Clean f
      · refine .inr (hclean.congr fun i hi => ?_)
        have hops := (initDevice_of_clean hread hclean seed).1
        rw [FlashM.flashAfter_congr hops]
        have hwithin : FlashM.Confined (nvs.headerSlot h).start (nvs.headerSlot h).stop
            ((nvs.headerSlot h).write headerCodec.toCodec { deviceIdSeed := seed }) :=
          AbSlot.write_within _ _ _
        refine hwithin.flashAfter_outside crash (.inr ?_)
        rwa [nvs.headerSlot_stop h, ← nvs.behindHeader_start h]
      · refine .inl (headerErased_of_erases (hgone.resolve_right hclean) ?_ crash)
        rw [initDevice_of_not_clean hread hclean seed]
        exact isErase_of_untilReset h

include h in
/-- **Only a clean device comes up**, however many starts were interrupted before. -/
theorem clean_of_ready (hgone : nvs.Gone f) (starts : List (BitVec 256 × Option (ℕ × ℕ)))
    {seed : BitVec 256} {header : Header}
    (hready : (initDevice nvs seed (run (nvs.afterStart g) f starts)).result =
      .ret (.ready header)) : nvs.Clean (run (nvs.afterStart g) f starts) := by
  have hrun : nvs.Gone (run (nvs.afterStart g) f starts) :=
    run_invariant (fun _ _ (_ : True) => trivial) (fun f start _ hf => hf.afterStart (h := h) start)
      trivial hgone
  by_contra hclean
  have hread := read_of_headerErased (h := h) (hrun.resolve_right hclean)
  rw [initDevice_of_not_clean hread hclean] at hready
  cases hready

theorem header_fits (header : Header) :
    ((nvs.headerSlot h).slots 0).Fits headerCodec.toCodec header := by
  have hlen : (headerCodec.toCodec.encode header).length = 43 := headerCodec.length_toBytes header
  rw [Slot.fits_iff, hlen, (nvs.headerSlot_zero h).2]
  decide

/-- **An erased device comes up** with the header that it makes, of which it has both copies. -/
theorem ready_of_clean (herased : Erase.HeaderErased nvs f) (hclean : nvs.Clean f)
    (seed : BitVec 256) :
    (initDevice nvs seed f).result = .ret (.ready { deviceIdSeed := seed }) ∧
      nvs.Stored h { deviceIdSeed := seed } ((initDevice nvs seed).after f) := by
  have hread := read_of_headerErased (h := h) herased
  have hnone : (nvs.headerSlot h).currentSlotAndIndex f = none := by
    have hindex : ∀ j, ((nvs.headerSlot h).slots j).readIndex f = none := by
      intro j
      refine readIndex_of_erased j fun i hstart hstop => herased i ?_ ?_
      · exact (Nat.le_add_right _ _).trans hstart
      · refine hstop.trans_le (Nat.add_le_add_left (Nat.mul_le_mul_right _ ?_) _)
        omega
    simp only [AbSlot.currentSlotAndIndex, hindex]
  have hwrite := AbSlot.write_returns (f := f) (header_fits (h := h) { deviceIdSeed := seed }) (by
    rintro ⟨i, index, hcurrent, -⟩
    rw [hnone] at hcurrent
    cases hcurrent)
  obtain ⟨hops, hresult⟩ := initDevice_of_clean hread hclean seed
  refine ⟨hresult hwrite, ?_⟩
  obtain ⟨i, index, -, hindex, hholds⟩ := AbSlot.write_holds hwrite
  refine ⟨index, hindex, fun j => ?_⟩
  rw [FlashM.after, hops]
  exact hholds j

/-- A start of a device without a header erases the rest of it. -/
theorem erased_of_not_clean (h : 2 < nvs.nSectors) (herased : Erase.HeaderErased nvs f)
    (hclean : ¬ nvs.Clean f) (seed : BitVec 256) :
    (initDevice nvs seed f).result = .ret .resetRequested ∧
      Erase.HeaderErased nvs ((initDevice nvs seed).after f) ∧
      nvs.Clean ((initDevice nvs seed).after f) := by
  have hread := read_of_headerErased (h := h.le) herased
  have hinit := initDevice_of_not_clean hread hclean seed
  obtain ⟨rest, hrest, hrun⟩ := Erase.untilReset_ops (Nat.lt_of_succ_lt (Nat.lt_of_succ_lt h))
    fun _ => []
  refine ⟨by rw [hinit], ?_, ?_⟩
  · refine headerErased_of_erases (g := ⟨writeSize, sectorSize⟩) herased ?_ none
    rw [hinit]
    exact isErase_of_untilReset (Nat.lt_of_succ_lt h)
  · rw [Clean, isEmpty, List.all_eq_true]
    intro byte hbyte
    obtain ⟨i, hi, rfl⟩ := List.mem_map.mp hbyte
    obtain ⟨hstart, hstop⟩ := List.mem_range'_1.mp hi
    rw [nvs.behindHeader_stop h.le] at hstop
    rw [nvs.behindHeader_start h.le] at hstart
    rw [FlashM.after, hinit, hrun]
    simp only [List.nil_append, Flash.exec_cons, beq_iff_eq]
    refine hrest.erased _ i ?_ hstop
    simp only [sectorSize] at hstart ⊢
    omega

/-- Without a header, a device comes up at the first start that is not interrupted, or at the
second one. -/
theorem ready_of_headerErased (h : 2 < nvs.nSectors) (herased : Erase.HeaderErased nvs f)
    (seed seed' : BitVec 256) :
    (initDevice nvs seed f).result = .ret (.ready { deviceIdSeed := seed }) ∨
      (initDevice nvs seed' ((initDevice nvs seed).after f)).result =
        .ret (.ready { deviceIdSeed := seed' }) := by
  by_cases hclean : nvs.Clean f
  · exact .inl (ready_of_clean (h := h.le) herased hclean seed).1
  · obtain ⟨-, herased', hclean'⟩ := erased_of_not_clean h herased hclean seed
    exact .inr (ready_of_clean (h := h.le) herased' hclean' seed').1

end FlashPartition

/-- **Power loss inside an erase**, of a device that has both copies of its header, with whatever
the main loop writes behind the header between two polls. If nothing of the second sector was
erased, the next start comes up with the old header, and nothing that lies behind it was erased;
the confirmation is sent before that. Afterwards the device does not come up before there is
nothing behind the header, wherever its starts are interrupted. When the two starts right after the
loss are not, it comes up with a new header at the first or the second. -/
theorem erase_power_loss {g : FlashGeometry} (hg : g.sector = sectorSize) {nvs : FlashPartition}
    (h : 2 < nvs.nSectors) {work : Erase.State → List FlashOp}
    (hwork : Erase.WorkBehind nvs work) {header : Header} {f : Flash}
    (hstored : nvs.Stored h.le header f) (crash : Option (ℕ × ℕ)) :
    let f' := ((Erase.new nvs).untilReset nvs work 3).flashAfter g f crash
    (Erase.BeforeSecond work crash →
      (∀ seed, initDevice nvs seed f' = ⟨[], .ret (.ready header)⟩) ∧
      ∃ crash', ∀ i, nvs.start + 2 * sectorSize ≤ i →
        f' i = (FlashM.issueAll (work .erasingFirst ++ work .erasingRest)).flashAfter g f
          crash' i) ∧
    (¬ Erase.BeforeSecond work crash →
      (∀ (starts : List (BitVec 256 × Option (ℕ × ℕ))) (seed : BitVec 256) (header' : Header),
        (initDevice nvs seed (run (nvs.afterStart g) f' starts)).result = .ret (.ready header') →
          nvs.Clean (run (nvs.afterStart g) f' starts)) ∧
      ∀ seed seed',
        (initDevice nvs seed f').result = .ret (.ready { deviceIdSeed := seed }) ∨
          (initDevice nvs seed' ((initDevice nvs seed).after f')).result =
            .ret (.ready { deviceIdSeed := seed' })) := by
  intro f'
  obtain ⟨hbefore, hafter⟩ := Erase.crash_cases (f := f) hg (Nat.lt_of_succ_lt h) hwork crash
  constructor
  · intro hb
    have hkept := hbefore hb
    exact ⟨fun seed => FlashPartition.initDevice_of_some
      (FlashPartition.read_of_secondKept hstored hkept) seed, hkept.behind⟩
  · intro hb
    have herased := hafter hb
    refine ⟨fun starts seed header' hready => ?_, fun seed seed' => ?_⟩
    · exact FlashPartition.clean_of_ready (h := h.le) (.inl herased) starts hready
    · exact FlashPartition.ready_of_headerErased h herased seed seed'

/-- Four sectors. -/
def fourSectors : FlashPartition where
  offsetSector := 0
  nSectors := 4
  inBounds := by decide

/-- One word written behind the header after the confirmation, and nothing before it. -/
def oneWord : Erase.State → List FlashOp
  | .erasingRest => [.program (2 * sectorSize) [0, 0, 0, 0]]
  | _ => []

/-- A device that has come up, with the seed `1`. -/
def upDevice : Flash := (initDevice fourSectors 1).after fun _ => 0xff

/-- An erase that loses power after the confirmation and the write of a word. -/
theorem erase_power_loss_of_confirmed :
    initDevice fourSectors 2 (((Erase.new fourSectors).untilReset fourSectors oneWord 3).flashAfter
      ⟨4, sectorSize⟩ upDevice (some (2, 0))) = ⟨[], .ret (.ready { deviceIdSeed := 1 })⟩ := by
  have hclean : fourSectors.Clean fun _ => 0xff := by
    rw [FlashPartition.Clean, FlashPartition.isEmpty, FlashPartition.contents_erased]
    simp [fill]
  have hstored := (FlashPartition.ready_of_clean (h := (by decide : 2 ≤ fourSectors.nSectors))
    (fun _ _ _ => rfl) hclean 1).2
  have hwork : Erase.WorkBehind fourSectors oneWord := by
    intro s op hop
    cases s <;> simp only [oneWord, List.mem_singleton, List.not_mem_nil] at hop
    rw [hop]
    exact ⟨by decide, by decide⟩
  exact ((erase_power_loss rfl (by decide) hwork hstored (some (2, 0))).1 (.inr ⟨rfl, rfl⟩)).1 2

end Frostsnap
