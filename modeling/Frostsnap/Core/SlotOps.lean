import Frostsnap.Core.NonceLineage
import Mathlib.Data.List.Basic

/-!
# What the operations do to the slots

`get_or_create` leaves the slots alone or initialises one of them. A signing request refuses,
or it writes one slot and returns the shares cached there. The lemmas here say so in terms of
the slot values, and are all that the safety argument knows about `AbSlots`.
-/

namespace Frostsnap

variable {Seed SecretNonce Nonce Share Item : Type} {S : Type} [NonceStreamSlot S Seed Share]

/-! ### What each operation does to the slots -/

namespace AbSlots

/-- The values after a slot is initialised. -/
theorem value_initializeAt (ab : AbSlots S) (i j : ℕ) (streamId : NonceStreamId) (lastUsed : ℕ)
    (seed : Seed) :
    (ab.initializeAt i streamId lastUsed seed).value j =
      if i = j then ab.slots[j]?.map fun _ => .initial streamId lastUsed seed
      else ab.value j := by
  unfold value initializeAt
  rw [List.getElem?_modify]
  split
  · cases ab.slots[j]? <;> simp
  · cases ab.slots[j]? <;> simp

/-- The operation initialises a slot with the seed it draws. -/
def Creates (ab : AbSlots S) (streamId : NonceStreamId) : Prop :=
  ∀ i, chooseSlot streamId ab.slots 0 u32Max 0 ≠ .found i

instance (ab : AbSlots S) (streamId : NonceStreamId) : Decidable (ab.Creates streamId) :=
  match h : chooseSlot streamId ab.slots 0 u32Max 0 with
  | .found i => isFalse fun hc => hc i h
  | .empty _ => isTrue fun _ hf => by rw [h] at hf; cases hf
  | .evict _ => isTrue fun _ hf => by rw [h] at hf; cases hf

/-- **What `get_or_create` does to the slots**: nothing, or it initialises one of them. -/
theorem getOrCreate_cases {ab ab' : AbSlots S} {streamId : NonceStreamId} {seed : Seed} {i : ℕ}
    (h : ab.getOrCreate streamId seed = .ret (ab', i)) :
    (¬ ab.Creates streamId ∧ ∀ j, ab'.value j = ab.value j) ∨
    (ab.Creates streamId ∧ ∃ lastUsed, ∀ j, ab'.value j =
      if i = j then ab.slots[j]?.map fun _ => .initial streamId lastUsed seed
      else ab.value j) := by
  unfold getOrCreate at h
  cases hc : chooseSlot streamId ab.slots 0 u32Max 0 with
  | found k =>
      simp only [hc] at h
      cases h
      exact .inl ⟨fun hn => hn _ hc, fun j => rfl⟩
  | empty k =>
      simp only [hc] at h
      cases h
      refine .inr ⟨fun k hk => (by rw [hc] at hk; cases hk), ab.nextLastUsed, fun j => ?_⟩
      rw [value_initializeAt]
      rfl
  | evict k =>
      simp only [hc] at h
      split at h
      · cases h
        refine .inr ⟨fun k hk => (by rw [hc] at hk; cases hk), ab.nextLastUsed, fun j => ?_⟩
        rw [value_initializeAt]
        rfl
      · cases h

section Sign

variable {d : NonceDerivation Seed SecretNonce Nonce}
  {sign : Item → SecretNonce → Share} {sessionId : SignSessionId}
  {coord : CoordNonceStreamState} {sessions : List Item} {nonceBatchSize : ℕ}

/-- The slot value a request for a stream is served from, and where it is. -/
def target (ab : AbSlots S) (streamId : NonceStreamId) :
    Option (ℕ × SecretNonceSlot Seed Share) :=
  (ab.get streamId).bind fun i => (ab.value i).map (i, ·)

/-- The event of a request, at the level of the slots. -/
def signingEvent (d : NonceDerivation Seed SecretNonce Nonce) (sign : Item → SecretNonce → Share)
    (ab : AbSlots S) (sessionId : SignSessionId) (coord : CoordNonceStreamState)
    (sessions : List Item) : Option (SigningEvent Seed Share) :=
  (ab.target coord.streamId).bind fun p => p.2.signingEvent d sign sessionId coord sessions

/-- The attempt of a request, at the level of the slots. -/
def signingAttempt (d : NonceDerivation Seed SecretNonce Nonce)
    (sign : Item → SecretNonce → Share) (ab : AbSlots S) (sessionId : SignSessionId)
    (coord : CoordNonceStreamState) (sessions : List Item) : Option (SigningEvent Seed Share) :=
  (ab.target coord.streamId).bind fun p => p.2.signingAttempt d sign sessionId coord sessions

/-- The slot a request writes, and the value it writes there. -/
def signingWrite (d : NonceDerivation Seed SecretNonce Nonce) (sign : Item → SecretNonce → Share)
    (ab : AbSlots S) (sessionId : SignSessionId) (coord : CoordNonceStreamState)
    (sessions : List Item) : Option (ℕ × SecretNonceSlot Seed Share) :=
  (ab.target coord.streamId).bind fun p =>
    match p.2.withSignatures d sign sessionId coord ab.nextLastUsed sessions with
    | .ret (.ok w) => some (p.1, w)
    | _ => none

/-- The slots as a request leaves them, also when it panics after it has written. -/
def slotsLeft (d : NonceDerivation Seed SecretNonce Nonce) (sign : Item → SecretNonce → Share)
    (ab : AbSlots S) (sessionId : SignSessionId) (coord : CoordNonceStreamState)
    (sessions : List Item) : List S :=
  match ab.signingWrite d sign sessionId coord sessions with
  | some (i, w) => ab.slots.modify i fun slot => writeSlot slot w
  | none => ab.slots

/-- What `get` finds is a readable slot of the stream. -/
theorem target_eq_some {ab : AbSlots S} {streamId : NonceStreamId} {i : ℕ}
    {v : SecretNonceSlot Seed Share} (h : ab.target streamId = some (i, v)) :
    ab.get streamId = some i ∧ ab.value i = some v ∧ v.nonceStreamId = streamId := by
  simp only [target, Option.bind_eq_some_iff, Option.map_eq_some_iff, Prod.mk.injEq] at h
  obtain ⟨k, hget, v', hval, rfl, rfl⟩ := h
  refine ⟨hget, hval, ?_⟩
  obtain ⟨hlt, hmatch, -⟩ := List.findIdx?_eq_some_iff_getElem.mp hget
  simp only [value, List.getElem?_eq_getElem hlt, Option.bind_some] at hval
  simpa [hval] using hmatch

/-- Where the search finds a slot, that slot is readable. -/
theorem target_of_get {ab : AbSlots S} {streamId : NonceStreamId} {i : ℕ}
    (h : ab.get streamId = some i) :
    ∃ slot v, ab.slots[i]? = some slot ∧ readSlot slot = some v ∧
      ab.target streamId = some (i, v) := by
  obtain ⟨hlt, hmatch, -⟩ := List.findIdx?_eq_some_iff_getElem.mp h
  cases hv : readSlot ab.slots[i] with
  | none => simp [hv] at hmatch
  | some v =>
      refine ⟨ab.slots[i], v, List.getElem?_eq_getElem hlt, hv, ?_⟩
      simp only [target, h, value, List.getElem?_eq_getElem hlt, Option.bind_some, hv,
        Option.map_some]

/-- A stream that has no readable slot is not found. -/
theorem get_eq_none {ab : AbSlots S} {streamId : NonceStreamId} (h : ab.target streamId = none) :
    ab.get streamId = none := by
  cases hget : ab.get streamId with
  | none => rfl
  | some i =>
      obtain ⟨_, _, _, _, ht⟩ := target_of_get hget
      rw [h] at ht
      cases ht

/-- The values a request leaves: the one it wrote, and the others as they were. -/
theorem value_slotsLeft (ab : AbSlots S) (lastUsed j : ℕ) :
    (AbSlots.mk (ab.slotsLeft d sign sessionId coord sessions) lastUsed).value j =
      match ab.signingWrite d sign sessionId coord sessions with
      | some (i, w) => if i = j then some w else ab.value j
      | none => ab.value j := by
  unfold slotsLeft
  cases hw : ab.signingWrite d sign sessionId coord sessions with
  | none => rfl
  | some p =>
      obtain ⟨i, w⟩ := p
      simp only [value, List.getElem?_modify]
      split
      · rename_i hij
        obtain ⟨q, ht, -⟩ := Option.bind_eq_some_iff.mp hw
        subst hij
        obtain rfl : q.1 = i := by
          revert hw
          simp only [signingWrite, ht, Option.bind_some]
          split
          · rintro ⟨rfl, rfl⟩
            rfl
          · rintro ⟨⟩
        obtain ⟨slot, v, hslot, -, -⟩ := target_of_get (target_eq_some ht).1
        simp [hslot]
      · cases ab.slots[j]? <;> simp

variable [DecidableEq Seed] [DecidableEq Share]

/-- **What a request does**, in terms of the slot value it is served from: it refuses, or it
writes the value `withSignatures` computes, reads it back, and returns the shares cached
there together with what reconciliation finds. -/
theorem sign_eq {ab : AbSlots S} {i : ℕ} {v : SecretNonceSlot Seed Share}
    (ht : ab.target coord.streamId = some (i, v)) :
    ab.signGuaranteeingNoncesDestroyed d sign sessionId coord sessions nonceBatchSize = (do
      match ← v.withSignatures d sign sessionId coord ab.nextLastUsed sessions with
      | .error e => return .error e
      | .ok w =>
          let signingState ← Exec.expect w.signingState "guaranteed"
          let job ← w.reconcileCoordNonceStreamState coord nonceBatchSize
          return .ok ((signingState.signatureShares, job),
            { slots := ab.slotsLeft d sign sessionId coord sessions
              lastUsed := ab.nextLastUsed })) := by
  obtain ⟨hget, -, hid⟩ := target_eq_some ht
  obtain ⟨slot, v', hslot, hread, ht'⟩ := target_of_get hget
  obtain rfl : v = v' := by
    rw [ht] at ht'
    simpa using ht'
  have hleft : ∀ w, v.withSignatures d sign sessionId coord ab.nextLastUsed sessions
      = .ret (.ok w) → ab.slotsLeft d sign sessionId coord sessions
        = ab.slots.set i (writeSlot slot w) := by
    intro w hw
    simp only [slotsLeft, signingWrite, ht, Option.bind_some, hw]
    rw [List.modify_eq_set_getElem?, hslot]
    rfl
  unfold signGuaranteeingNoncesDestroyed
  simp only [hget, Option.bind_some, hslot, Option.map_some, signSlot, reconcileSlot, hread,
    Exec.expect_some, Exec.ret_bind, hid, Exec.assert_of]
  cases hw : v.withSignatures d sign sessionId coord ab.nextLastUsed sessions with
  | panic msg => rfl
  | ret r =>
      cases r with
      | error err => rfl
      | ok w =>
          simp only [Exec.ret_bind, NonceStreamSlot.read_write, Exec.expect_some, Exec.assert_of,
            hleft w hw]
          cases w.signingState with
          | none => rfl
          | some st =>
              simp only [Exec.expect_some, Exec.ret_bind]
              cases (w.reconcileCoordNonceStreamState coord nonceBatchSize :
                Exec (Option (NonceJob Seed Nonce))) <;> rfl

/-- A request that returns leaves the slots `slotsLeft` says, whether or not it was
refused. -/
theorem sign_slots {ab : AbSlots S}
    {r : Except NoncesUnavailable (SignOutput Seed Nonce Share × AbSlots S)}
    (h : ab.signGuaranteeingNoncesDestroyed d sign sessionId coord sessions nonceBatchSize
      = .ret r) (j : ℕ) :
    (match r with | .ok p => p.2 | .error _ => ab).value j =
      (AbSlots.mk (ab.slotsLeft d sign sessionId coord sessions) ab.lastUsed).value j := by
  cases ht : ab.target coord.streamId with
  | none =>
      have hget : ab.get coord.streamId = none := get_eq_none ht
      simp only [signGuaranteeingNoncesDestroyed, hget, Option.bind_none] at h
      cases h
      simp only [slotsLeft, signingWrite, ht, Option.bind_none]
  | some p =>
      obtain ⟨i, v⟩ := p
      rw [sign_eq ht] at h
      obtain ⟨r', hw, h⟩ := Exec.bind_eq_ret_iff.mp h
      rcases r' with err | w
      · cases h
        simp only [slotsLeft, signingWrite, ht, Option.bind_some, hw]
      · obtain ⟨st, -, h⟩ := Exec.bind_eq_ret_iff.mp h
        obtain ⟨job, -, h⟩ := Exec.bind_eq_ret_iff.mp h
        cases h
        rfl

end Sign

end AbSlots

end Frostsnap
