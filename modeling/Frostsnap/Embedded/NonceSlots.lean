import Frostsnap.Core.SlotOps
import Frostsnap.Embedded.AbCrash

/-!
# Nonce slots on flash

This module embeds `nonce_slots.rs`: each nonce slot of the device is an A/B slot of two
sectors, and the operations of `AbSlots` read and write the flash.

## Main results

* `NonceSlots.sign_trace`: a signing request issues nothing, or exactly the write of the value
  `withSignatures` computes for the slot of the stream; it returns only when that write does.
* `AbSlot.copies_of_crash`: what the two copies of a slot hold after a crash inside a write is
  what they held before, or the new value with other share bytes.
-/

namespace Frostsnap

/-- The nonce slots in a partition, two sectors each. -/
def loadSlots (p : FlashPartition) : List AbSlot :=
  if h : 2 ≤ p.nSectors then
    AbSlot.halves (p.dropEnd (p.nSectors - 2) (by omega))
        (by simp only [FlashPartition.dropEnd]; omega)
        (by simp only [FlashPartition.dropEnd]; omega) ::
      loadSlots (p.takeEnd (p.nSectors - 2) (by omega))
  else []
termination_by p.nSectors
decreasing_by simp only [FlashPartition.takeEnd]; omega

variable {SecretNonce Nonce Share Item : Type}

/-- A slot value as the flash holds it. -/
abbrev NonceSlotValue (Share : Type) := SecretNonceSlot RatchetSeedMaterial Share

/-- `read_slot` of a nonce slot. -/
def AbSlot.readNonceSlot (share : FixedCodec 32 Share) (a : AbSlot) (f : Flash) :
    Option (NonceSlotValue Share) :=
  a.read (secretNonceSlotCodec share) f

/-- `write_slot` of a nonce slot. -/
def AbSlot.writeNonceSlot (share : FixedCodec 32 Share) (a : AbSlot) (v : NonceSlotValue Share) :
    FlashM Unit :=
  a.write (secretNonceSlotCodec share) v

namespace NonceSlots

/-- The slots as they read now. -/
def view (share : FixedCodec 32 Share) (slots : List AbSlot) (lastUsed : ℕ) (f : Flash) :
    AbSlots (MemoryNonceSlot RatchetSeedMaterial Share) where
  slots := slots.map fun a => { inner := a.readNonceSlot share f }
  lastUsed := lastUsed

/-- Write the initial value of a slot. -/
def initializeAt (share : FixedCodec 32 Share) (slots : List AbSlot) (i : ℕ)
    (streamId : NonceStreamId) (lastUsed : ℕ) (seed : RatchetSeedMaterial) : FlashM Unit := do
  let a ← FlashM.lift (Exec.expect slots[i]? "index out of bounds")
  a.writeNonceSlot share (.initial streamId lastUsed seed)

/-- The position of the slot for a stream, created if there is none, and the new clock. -/
def getOrCreate (share : FixedCodec 32 Share) (slots : List AbSlot) (lastUsed : ℕ)
    (streamId : NonceStreamId) (seed : RatchetSeedMaterial) : FlashM (ℕ × ℕ) := do
  let f ← FlashM.get
  let ab := view share slots lastUsed f
  let lastUsed := ab.nextLastUsed
  match chooseSlot streamId ab.slots 0 u32Max 0 with
  | .found i => return (i, lastUsed)
  | .empty i => do
      initializeAt share slots i streamId lastUsed seed
      return (i, lastUsed)
  | .evict i => do
      initializeAt share slots i streamId lastUsed seed
      return (i, lastUsed)

/-- The slot that holds a stream. -/
def get (share : FixedCodec 32 Share) (slots : List AbSlot) (streamId : NonceStreamId)
    (f : Flash) : Option AbSlot :=
  slots.find? fun a =>
    (a.readNonceSlot share f).map SecretNonceSlot.nonceStreamId == some streamId

/-- The end of `sign_guaranteeing_nonces_destroyed`: the slot is read back, checked, and its
shares are returned. -/
def readBack [DecidableEq Share] (share : FixedCodec 32 Share) (a : AbSlot)
    (withSignatures : NonceSlotValue Share)
    (coordNonceState : CoordNonceStreamState) (nonceBatchSize : ℕ) (f : Flash) :
    Exec (SignOutput RatchetSeedMaterial Nonce Share) := do
  let readBackState ← Exec.expect (a.readNonceSlot share f) "guaranteed"
  Exec.assert (readBackState = withSignatures)
    "signature shares should have been read the same as written"
  let signingState ← Exec.expect readBackState.signingState "guaranteed"
  let replenishment ←
    reconcileSlot (MemoryNonceSlot.mk (a.readNonceSlot share f)) coordNonceState nonceBatchSize
  return (signingState.signatureShares, replenishment)

/-- `sign_guaranteeing_nonces_destroyed`, with the new clock. -/
def signGuaranteeingNoncesDestroyed [DecidableEq Share]
    (d : NonceDerivation RatchetSeedMaterial SecretNonce Nonce)
    (sign : Item → SecretNonce → Share) (share : FixedCodec 32 Share) (slots : List AbSlot)
    (lastUsed : ℕ) (sessionId : SignSessionId) (coordNonceState : CoordNonceStreamState)
    (sessions : List Item) (nonceBatchSize : ℕ) :
    FlashM (Except NoncesUnavailable (SignOutput RatchetSeedMaterial Nonce Share × ℕ)) := do
  let f ← FlashM.get
  let lastUsed := (view share slots lastUsed f).nextLastUsed
  match get share slots coordNonceState.streamId f with
  | none => return .error .overflow
  | some a => do
      let slotValue ← FlashM.lift
        (Exec.expect (a.readNonceSlot share f) "cannot sign with uninitialized slot")
      FlashM.lift
        (Exec.assert (coordNonceState.streamId = slotValue.nonceStreamId) "wrong stream id")
      match ← FlashM.lift
          (slotValue.withSignatures d sign sessionId coordNonceState lastUsed sessions) with
      | .error e => return .error e
      | .ok withSignatures => do
          a.writeNonceSlot share withSignatures
          let f ← FlashM.get
          let out ← FlashM.lift
            (readBack share a withSignatures coordNonceState nonceBatchSize f)
          return .ok (out, lastUsed)

/-- The slot a request writes, and the value it writes there. -/
def signingWrite (d : NonceDerivation RatchetSeedMaterial SecretNonce Nonce)
    (sign : Item → SecretNonce → Share) (share : FixedCodec 32 Share) (slots : List AbSlot)
    (lastUsed : ℕ) (sessionId : SignSessionId) (coordNonceState : CoordNonceStreamState)
    (sessions : List Item) (f : Flash) : Option (AbSlot × NonceSlotValue Share) :=
  (get share slots coordNonceState.streamId f).bind fun a =>
    (a.readNonceSlot share f).bind fun v =>
      match v.withSignatures d sign sessionId coordNonceState
        (view share slots lastUsed f).nextLastUsed sessions with
      | .ret (.ok w) => some (a, w)
      | _ => none

/-- What the signing loop of a request signs. -/
def signingEvent (d : NonceDerivation RatchetSeedMaterial SecretNonce Nonce)
    (sign : Item → SecretNonce → Share) (share : FixedCodec 32 Share) (slots : List AbSlot)
    (sessionId : SignSessionId) (coordNonceState : CoordNonceStreamState)
    (sessions : List Item) (f : Flash) : Option (SigningEvent RatchetSeedMaterial Share) :=
  (get share slots coordNonceState.streamId f).bind fun a =>
    (a.readNonceSlot share f).bind fun v =>
      v.signingEvent d sign sessionId coordNonceState sessions

/-! ### What the operations issue -/

variable {share : FixedCodec 32 Share} {slots : List AbSlot} {lastUsed : ℕ} {f : Flash}

theorem initializeAt_trace (share : FixedCodec 32 Share) (slots : List AbSlot) (lastUsed : ℕ)
    (f : Flash) (i : ℕ) (streamId : NonceStreamId) (seed : RatchetSeedMaterial) :
    (initializeAt share slots i streamId lastUsed seed f).ops = [] ∨
    ∃ a ∈ slots, (initializeAt share slots i streamId lastUsed seed f).ops =
      (a.writeNonceSlot share (.initial streamId lastUsed seed) f).ops := by
  cases ha : slots[i]? with
  | none =>
      left
      simp only [initializeAt, ha, Exec.expect_none, FlashM.lift_panic_bind_apply]
  | some a =>
      right
      refine ⟨a, List.mem_of_getElem? ha, ?_⟩
      simp only [initializeAt, ha, Exec.expect_some, FlashM.lift_ret_bind_apply]

/-- Creating a slot issues nothing, or exactly the write of a slot's initial value. -/
theorem getOrCreate_trace (share : FixedCodec 32 Share) (slots : List AbSlot) (lastUsed : ℕ)
    (f : Flash) (streamId : NonceStreamId) (seed : RatchetSeedMaterial) :
    (getOrCreate share slots lastUsed streamId seed f).ops = [] ∨
    (view share slots lastUsed f).Creates streamId ∧ ∃ a ∈ slots,
      (getOrCreate share slots lastUsed streamId seed f).ops =
        (a.writeNonceSlot share (.initial streamId (view share slots lastUsed f).nextLastUsed
          seed) f).ops := by
  simp only [getOrCreate, FlashM.get_bind_apply]
  cases hc : chooseSlot streamId (view share slots lastUsed f).slots 0 u32Max 0 with
  | found i => exact .inl rfl
  | empty i =>
      have hcreates : (view share slots lastUsed f).Creates streamId := fun j hj => by
        cases hc.symm.trans hj
      rcases initializeAt_trace share slots (view share slots lastUsed f).nextLastUsed f i
        streamId seed with hnil | ⟨a, ha, hops⟩
      · exact .inl ((FlashM.ops_bind fun _ _ => rfl).trans hnil)
      · exact .inr ⟨hcreates, a, ha, (FlashM.ops_bind fun _ _ => rfl).trans hops⟩
  | evict i =>
      have hcreates : (view share slots lastUsed f).Creates streamId := fun j hj => by
        cases hc.symm.trans hj
      rcases initializeAt_trace share slots (view share slots lastUsed f).nextLastUsed f i
        streamId seed with hnil | ⟨a, ha, hops⟩
      · exact .inl ((FlashM.ops_bind fun _ _ => rfl).trans hnil)
      · exact .inr ⟨hcreates, a, ha, (FlashM.ops_bind fun _ _ => rfl).trans hops⟩

/-- **What a signing request issues**: nothing, when it is refused or panics before it
writes; otherwise exactly the write of its new value. It returns only when the write does, and
then with the shares of that value. -/
theorem sign_trace [DecidableEq Share]
    (d : NonceDerivation RatchetSeedMaterial SecretNonce Nonce)
    (sign : Item → SecretNonce → Share) (share : FixedCodec 32 Share) (slots : List AbSlot)
    (lastUsed : ℕ) (f : Flash) (sessionId : SignSessionId)
    (coord : CoordNonceStreamState) (sessions : List Item) (nonceBatchSize : ℕ) :
    (signingWrite d sign share slots lastUsed sessionId coord sessions f = none ∧
      (signGuaranteeingNoncesDestroyed d sign share slots lastUsed sessionId coord sessions
        nonceBatchSize f).ops = [] ∧
      ∀ out, (signGuaranteeingNoncesDestroyed d sign share slots lastUsed sessionId coord
        sessions nonceBatchSize f).result ≠ .ret (.ok out)) ∨
    ∃ a w, signingWrite d sign share slots lastUsed sessionId coord sessions f = some (a, w) ∧
      (signGuaranteeingNoncesDestroyed d sign share slots lastUsed sessionId coord sessions
        nonceBatchSize f).ops = (a.writeNonceSlot share w f).ops ∧
      ∀ out, (signGuaranteeingNoncesDestroyed d sign share slots lastUsed sessionId coord
        sessions nonceBatchSize f).result = .ret (.ok out) →
        (a.writeNonceSlot share w f).result = .ret () ∧
          ∃ st, w.signingState = some st ∧ out.1.1 = st.signatureShares := by
  simp only [signGuaranteeingNoncesDestroyed, signingWrite, FlashM.get_bind_apply]
  cases hget : get share slots coord.streamId f with
  | none => exact .inl ⟨rfl, rfl, fun out hout => by cases hout⟩
  | some a =>
      cases hv : a.readNonceSlot share f with
      | none =>
          simp only [Option.bind_some, hv, Option.bind_none, Exec.expect_none,
            FlashM.lift_panic_bind_apply]
          exact .inl ⟨trivial, trivial, fun out hout => by cases hout⟩
      | some v =>
          have hid : coord.streamId = v.nonceStreamId := by
            have hfound := List.find?_some hget
            simp only [hv, Option.map_some, beq_iff_eq, Option.some.injEq] at hfound
            exact hfound.symm
          simp only [Option.bind_some, hv, Exec.expect_some, FlashM.lift_ret_bind_apply,
            Exec.assert_of _ hid]
          cases hw : v.withSignatures d sign sessionId coord
              (view share slots lastUsed f).nextLastUsed sessions with
          | panic msg =>
              simp only [FlashM.lift_panic_bind_apply]
              exact .inl ⟨trivial, trivial, fun out hout => by cases hout⟩
          | ret r =>
              cases r with
              | error err =>
                  simp only [FlashM.lift_ret_bind_apply]
                  exact .inl ⟨trivial, rfl, fun out hout => by cases hout⟩
              | ok w =>
                  simp only [FlashM.lift_ret_bind_apply]
                  refine .inr ⟨a, w, rfl, FlashM.ops_bind fun _ f' => ?_, fun out hout => ?_⟩
                  · rw [FlashM.get_bind_apply, FlashM.ops_bind fun _ _ => rfl]
                    rfl
                  · obtain ⟨ops, u, hwrite, hrest⟩ := FlashM.bind_result_eq_ret hout
                    rw [FlashM.get_bind_apply] at hrest
                    obtain ⟨ops', out', hback, heq⟩ := FlashM.bind_result_eq_ret hrest
                    cases heq
                    refine ⟨by rw [hwrite], ?_⟩
                    have hret := congrArg FlashTrace.result hback
                    simp only [FlashM.lift_apply, readBack] at hret
                    obtain ⟨w', -, hret⟩ := Exec.bind_eq_ret_iff.mp hret
                    obtain ⟨_, hassert, hret⟩ := Exec.bind_eq_ret_iff.mp hret
                    obtain ⟨st, hst, hret⟩ := Exec.bind_eq_ret_iff.mp hret
                    obtain ⟨job, -, hret⟩ := Exec.bind_eq_ret_iff.mp hret
                    cases hret
                    rw [Exec.assert_eq_ret_iff] at hassert
                    rw [Exec.expect_eq_ret_iff, hassert] at hst
                    exact ⟨st, hst, rfl⟩

theorem signingWrite_eq_some {d : NonceDerivation RatchetSeedMaterial SecretNonce Nonce}
    {sign : Item → SecretNonce → Share} {sessionId : SignSessionId}
    {coord : CoordNonceStreamState} {sessions : List Item} {a : AbSlot}
    {w : NonceSlotValue Share}
    (h : signingWrite d sign share slots lastUsed sessionId coord sessions f = some (a, w)) :
    a ∈ slots ∧ ∃ v, a.readNonceSlot share f = some v ∧ v.nonceStreamId = coord.streamId ∧
      v.withSignatures d sign sessionId coord (view share slots lastUsed f).nextLastUsed
        sessions = .ret (.ok w) ∧
      signingEvent d sign share slots sessionId coord sessions f =
        v.signingEvent d sign sessionId coord sessions := by
  obtain ⟨a', hget, h⟩ := Option.bind_eq_some_iff.mp h
  obtain ⟨v, hv, h⟩ := Option.bind_eq_some_iff.mp h
  split at h
  · rename_i hw
    cases h
    have hfound := List.find?_some hget
    simp only [hv, Option.map_some, beq_iff_eq, Option.some.injEq] at hfound
    refine ⟨List.mem_of_find?_eq_some hget, v, hv, hfound, hw, ?_⟩
    simp only [signingEvent, hget, hv, Option.bind_some]
  · cases h

end NonceSlots

/-! ### The copies of a slot -/

variable {share : FixedCodec 32 Share} {f : Flash} {g : FlashGeometry}

/-- What an interrupted slot reads as: what it read as before, or the new value with other
share bytes. -/
theorem Slot.read_of_left {s : Slot} {index index' : ℕ} {w u : NonceSlotValue Share}
    {f' : Flash} (hw : SlotValid share w) (hi : index < u32Max)
    (hleft : s.Left g (secretNonceSlotCodec share) index w f f')
    (h : s.read (secretNonceSlotCodec share) f' = some (index', u)) :
    s.read (secretNonceSlotCodec share) f = some (index', u) ∨ SameButShares w u := by
  cases hleft with
  | before hc => exact .inl (by rwa [← Slot.read_congr hc])
  | blank hb =>
      rw [Slot.read_eq_none hb] at h
      cases h
  | torn m h4 hm hu hc =>
      rw [Slot.read_of_tornBytes hi hc] at h
      obtain ⟨p, hd, heq⟩ := Option.map_eq_some_iff.mp h
      cases heq
      exact .inr (sameButShares_of_decode hw hd)

namespace AbSlot

variable {a b : AbSlot}

/-- The slots of `a` lie before those of `b`. -/
def Before (a b : AbSlot) : Prop := a.stop ≤ b.start

/-- **What the copies of a slot hold after a crash inside a write**: what they held before, or
the new value with other share bytes. -/
theorem copies_of_crash (hg : g.ForSlots) {w u : NonceSlotValue Share} (hw : SlotValid share w)
    {n k : ℕ} {j : Fin 2} {index : ℕ}
    (h : (a.slots j).read (secretNonceSlotCodec share)
      ((a.writeNonceSlot share w).crash g f n k) = some (index, u)) :
    (a.slots j).read (secretNonceSlotCodec share) f = some (index, u) ∨ SameButShares w u := by
  rcases a.nextSlotAndIndex_cases f with ⟨-, hn⟩ | ⟨i, next, hn, hlt, -⟩
  · simp only [FlashM.crash, writeNonceSlot, write_of_exhausted hn, Flash.crashAt_nil] at h
    exact .inl h
  · have hj : j = i ∨ j = i + 1 := by
      rcases eq_zero_or_one i with rfl | rfl <;> rcases eq_zero_or_one j with rfl | rfl <;> simp
    rcases crash_left (secretNonceSlotCodec share) w hg hn n k with
      ⟨hleft, hother⟩ | ⟨-, hholds, hleft⟩
    · rcases hj with rfl | rfl
      · exact Slot.read_of_left hw hlt hleft h
      · exact .inl ((Slot.read_congr hother).symm.trans h)
    · rcases hj with rfl | rfl
      · rw [writeNonceSlot, hholds.read hlt hw] at h
        cases h
        exact .inr (SameButShares.refl w)
      · exact Slot.read_of_left hw hlt hleft h

/-- Slots one of which lies before the other do not see each other's writes. -/
theorem read_other (h : a.Before b ∨ b.Before a) (w : NonceSlotValue Share) (n k : ℕ)
    (j : Fin 2) :
    (b.slots j).read (secretNonceSlotCodec share) ((a.writeNonceSlot share w).crash g f n k) =
      (b.slots j).read (secretNonceSlotCodec share) f := by
  refine Slot.read_congr (FlashPartition.contents_congr fun x h₁ h₂ => ?_)
  refine Flash.crashAt_outside (write_within _ a w f) ?_ n k
  have hb := b.slot_within j
  rcases h with h | h
  · exact .inr (h.trans (hb.1.trans h₁))
  · exact .inl (h₂.trans_le (hb.2.trans h))

/-- The value a slot reads as is in one of its copies. -/
theorem copy_of_read {v : NonceSlotValue Share} (h : a.readNonceSlot share f = some v) :
    ∃ j index, (a.slots j).read (secretNonceSlotCodec share) f = some (index, v) := by
  obtain ⟨p, hp, rfl⟩ := Option.map_eq_some_iff.mp h
  exact ⟨_, p.1, hp⟩

/-- After a write that returns, each copy can be read. -/
theorem read_of_write {w : NonceSlotValue Share} (hw : SlotValid share w)
    (hret : (a.writeNonceSlot share w f).result = .ret ()) (j : Fin 2) :
    ∃ index, (a.slots j).read (secretNonceSlotCodec share)
      ((a.writeNonceSlot share w).after f) = some (index, w) := by
  obtain ⟨i, next, -, hlt, hholds⟩ := write_holds hret
  exact ⟨next, (hholds j).read hlt hw⟩

/-- After a write that returns, both copies are the value. -/
theorem copies_of_write {w u : NonceSlotValue Share} (hw : SlotValid share w) {j : Fin 2}
    {index : ℕ} (hret : (a.writeNonceSlot share w f).result = .ret ())
    (h : (a.slots j).read (secretNonceSlotCodec share) ((a.writeNonceSlot share w).after f) =
      some (index, u)) : u = w := by
  obtain ⟨i, next, -, hlt, hholds⟩ := write_holds hret
  rw [writeNonceSlot, (hholds j).read hlt hw] at h
  cases h
  rfl

end AbSlot

end Frostsnap
