import Frostsnap.Core.NonceStream
import Mathlib.Algebra.Order.Group.Nat

/-!
# Secret nonces on the device

This module embeds `device_nonces.rs`: the slot a nonce stream lives in, how a signing
request ratchets it forward, the nonce generation jobs, and `AbSlots`, the fixed vector of
slots of one device.

A slot never stores secret nonces. It stores seed material and an index; the nonce at an
index and the next seed material both come out of one ChaCha20 keystream whose key is an
HMAC, in the chip's eFuses, over the stream, the index and the material. Those two
primitives are the parameter `NonceDerivation`.

The device is a release build, so `last_used + 1` wraps.
-/

namespace Frostsnap

/-- The primitives a secret nonce is derived with: the eFuse HMAC, the two reads of the
ChaCha20 keystream, and the public half of a nonce. -/
structure NonceDerivation (Seed SecretNonce Nonce : Type) where
  deriveNonceSeed : NonceStreamId → ℕ → Seed → Seed
  keystream : Seed → ℕ → Seed × SecretNonce
  publicNonce : SecretNonce → Nonce

/-- The signature shares a slot remembers, and the session they are for. -/
structure SigningState (Share : Type) where
  sessionId : SignSessionId
  signatureShares : List Share
  deriving DecidableEq

/-- The contents of a nonce slot. -/
structure SecretNonceSlot (Seed Share : Type) where
  index : ℕ
  nonceStreamId : NonceStreamId
  ratchetPrgSeedMaterial : Seed
  /-- for clearing slots based on least recently used -/
  lastUsed : ℕ
  signingState : Option (SigningState Share)
  deriving DecidableEq

/-- Why a slot cannot sign. -/
inductive NoncesUnavailable where
  | indexUsed (current requested : ℕ)
  | overflow
  deriving DecidableEq

/-- Storage for one slot: reading back what was written is the contract of the trait. -/
class NonceStreamSlot (S : Type) (Seed Share : outParam Type) where
  readSlot : S → Option (SecretNonceSlot Seed Share)
  writeSlot : S → SecretNonceSlot Seed Share → S
  read_write : ∀ s v, readSlot (writeSlot s v) = some v

export NonceStreamSlot (readSlot writeSlot)

attribute [simp] NonceStreamSlot.read_write

/-- A slot kept in memory. -/
structure MemoryNonceSlot (Seed Share : Type) where
  inner : Option (SecretNonceSlot Seed Share)

instance (Seed Share : Type) : NonceStreamSlot (MemoryNonceSlot Seed Share) Seed Share where
  readSlot s := s.inner
  writeSlot _ v := { inner := some v }
  read_write _ _ := rfl

variable {Seed SecretNonce Nonce Share Item : Type}

/-! ### The secret nonce iterator -/

/-- One step of the keystream: the next seed material and the secret nonce of an index. -/
def NonceDerivation.ratchetStep (d : NonceDerivation Seed SecretNonce Nonce)
    (streamId : NonceStreamId) (index : ℕ) (seedMaterial : Seed) : Seed × SecretNonce :=
  d.keystream (d.deriveNonceSeed streamId index seedMaterial) index

/-- The state of `iter_secret_nonces`. -/
structure SecretNonceIter (Seed : Type) where
  seedMaterial : Seed
  index : ℕ

/-- The next index, secret nonce and seed material; the iterator ends at `u32::MAX`. -/
def SecretNonceIter.next (d : NonceDerivation Seed SecretNonce Nonce)
    (streamId : NonceStreamId) (it : SecretNonceIter Seed) :
    Option ((ℕ × SecretNonce × Seed) × SecretNonceIter Seed) :=
  if u32Max ≤ it.index then none
  else
    let step := d.ratchetStep streamId it.index it.seedMaterial
    some ((it.index, step.2, step.1), { seedMaterial := step.1, index := it.index + 1 })

/-- `Iterator::skip`. -/
def SecretNonceIter.skip (d : NonceDerivation Seed SecretNonce Nonce)
    (streamId : NonceStreamId) : ℕ → SecretNonceIter Seed → SecretNonceIter Seed
  | 0, it => it
  | n + 1, it =>
      match it.next d streamId with
      | none => it
      | some (_, it') => it'.skip d streamId n

/-- Where the signing loop stopped: the shares it produced, the state after the last nonce
it used, and whether it ran out of nonces. -/
structure SignLoop (Seed Share : Type) where
  signatureShares : List Share
  nextPrgState : Option (ℕ × Seed)
  outOfRange : Bool

/-- The loop of `sign_guaranteeing_nonces_destroyed` over the sign sessions. -/
def signLoop (d : NonceDerivation Seed SecretNonce Nonce) (sign : Item → SecretNonce → Share)
    (streamId : NonceStreamId) :
    List Item → SecretNonceIter Seed → List Share → Option (ℕ × Seed) → SignLoop Seed Share
  | [], _, shares, next => ⟨shares, next, false⟩
  | item :: items, it, shares, next =>
      match it.next d streamId with
      | none => ⟨shares, next, true⟩
      | some ((currentIndex, secretNonce, nextSeedMaterial), it') =>
          signLoop d sign streamId items it' (shares ++ [sign item secretNonce])
            (some (currentIndex + 1, nextSeedMaterial))

/-! ### Nonce generation jobs -/

/-- A job that generates nonces incrementally, can be polled for work. -/
structure NonceJob (Seed Nonce : Type) where
  streamId : NonceStreamId
  seedMaterial : Seed
  index : ℕ
  targetIndex : ℕ
  nonces : List Nonce
  skipTo : ℕ

/-- Do one unit of work: generate a single binonce. -/
def NonceJob.doWork (d : NonceDerivation Seed SecretNonce Nonce) (job : NonceJob Seed Nonce) :
    NonceJob Seed Nonce × Bool :=
  if job.targetIndex ≤ job.index then (job, true)
  else
    let step := d.ratchetStep job.streamId job.index job.seedMaterial
    let nonces :=
      if job.skipTo ≤ job.index then job.nonces ++ [d.publicNonce step.2] else job.nonces
    ({ job with seedMaterial := step.1, index := job.index + 1, nonces := nonces },
      decide (job.targetIndex ≤ job.index + 1))

/-- The loop of `runUntilFinished`, `fuel` being an upper bound on the work left. -/
def NonceJob.runFor (d : NonceDerivation Seed SecretNonce Nonce) :
    ℕ → NonceJob Seed Nonce → NonceJob Seed Nonce
  | 0, job => job
  | fuel + 1, job => if (job.doWork d).2 then (job.doWork d).1 else (job.doWork d).1.runFor d fuel

/-- Run the task synchronously until completion. Each unit of work moves `index` one up, so
the distance to the target, plus the call that finds the job finished, is enough. -/
def NonceJob.runUntilFinished (d : NonceDerivation Seed SecretNonce Nonce)
    (job : NonceJob Seed Nonce) : NonceJob Seed Nonce :=
  job.runFor d (job.targetIndex - job.index + 1)

/-- Convert completed task into a segment. -/
def NonceJob.intoSegment (job : NonceJob Seed Nonce) : Exec (NonceStreamSegment Nonce) :=
  if job.targetIndex ≤ job.index then
    .ret { streamId := job.streamId, index := job.skipTo, nonces := job.nonces }
  else .panic "into_segment called on unfinished NonceJob"

/-! ### One slot -/

namespace SecretNonceSlot

/-- Start the secret nonces at the slot's index. -/
def iterSecretNonces (v : SecretNonceSlot Seed Share) : SecretNonceIter Seed where
  seedMaterial := v.ratchetPrgSeedMaterial
  index := v.index

/-- A job for the public nonces of the slot from `start`, or from its index. -/
def nonceTask (v : SecretNonceSlot Seed Share) (start : Option ℕ) (length : ℕ) :
    Exec (NonceJob Seed Nonce) :=
  let start := start.getD v.index
  if start < v.index then .panic "can't iterate erased nonces"
  else if u32Max < length then .panic "length not too big"
  else
    let last := min (start + length) u32Max
    if last = u32Max then .panic "cannot have an index at u32::MAX"
    else
      .ret
        { streamId := v.nonceStreamId
          seedMaterial := v.ratchetPrgSeedMaterial
          -- the job starts at the slot's own index and skips forward to `start`
          index := v.index
          targetIndex := last
          nonces := []
          skipTo := start }

/-- Whether the coordinator needs nonces, from what it believes about the stream. -/
def reconcileCoordNonceStreamState (v : SecretNonceSlot Seed Share)
    (state : CoordNonceStreamState) (nonceBatchSize : ℕ) : Exec (Option (NonceJob Seed Nonce)) :=
  if state.index < v.index ∨ state.remaining < nonceBatchSize then do
    return some (← v.nonceTask none nonceBatchSize)
  else if v.index = state.index then return none
  else do return some (← v.nonceTask none (state.index - v.index))

/-- The slot caches the shares of the session. -/
def IsCached (v : SecretNonceSlot Seed Share) (sessionId : SignSessionId) : Prop :=
  v.signingState.map SigningState.sessionId = some sessionId

instance (v : SecretNonceSlot Seed Share) (sessionId : SignSessionId) :
    Decidable (v.IsCached sessionId) :=
  inferInstanceAs (Decidable (_ = _))

/-- The slot value a signing request leaves behind: the one already there when its cached
shares are for this session, and otherwise one with new shares, ratcheted past the nonces
they used. -/
def withSignatures (d : NonceDerivation Seed SecretNonce Nonce)
    (sign : Item → SecretNonce → Share) (v : SecretNonceSlot Seed Share)
    (sessionId : SignSessionId) (coordNonceState : CoordNonceStreamState) (lastUsed : ℕ)
    (sessions : List Item) : Exec (Except NoncesUnavailable (SecretNonceSlot Seed Share)) :=
  if v.IsCached sessionId then
    -- already signed for this session: the caller still writes the slot again, since it
    -- cannot know that the previous state was erased
    .ret (.ok v)
  else if coordNonceState.index < v.index then
    .ret (.error (.indexUsed v.index coordNonceState.index))
  else
    let nonceIter :=
      v.iterSecretNonces.skip d v.nonceStreamId (coordNonceState.index - v.index)
    let loop := signLoop d sign v.nonceStreamId sessions nonceIter [] none
    if loop.outOfRange then .panic "tried to sign with nonces out of range"
    else
      match loop.nextPrgState with
      | none => .panic "sign sessions must not be empty"
      | some (nextIndex, nextPrgSeedMaterial) =>
          .ret (.ok
            { nonceStreamId := v.nonceStreamId
              index := nextIndex
              lastUsed := lastUsed
              ratchetPrgSeedMaterial := nextPrgSeedMaterial
              signingState := some
                { sessionId := sessionId, signatureShares := loop.signatureShares } })

/-- The value a slot is initialised with: index zero and fresh seed material. -/
def initial (streamId : NonceStreamId) (lastUsed : ℕ) (seed : Seed) :
    SecretNonceSlot Seed Share where
  index := 0
  nonceStreamId := streamId
  ratchetPrgSeedMaterial := seed
  lastUsed := lastUsed
  signingState := none

end SecretNonceSlot

/-- What a signing request that succeeds gives the device: the shares, and the nonces it
should replenish the coordinator with. -/
abbrev SignOutput (Seed Nonce Share : Type) := List Share × Option (NonceJob Seed Nonce)

section Slot

variable {S : Type} [NonceStreamSlot S Seed Share]

/-- `reconcile_coord_nonce_stream_state` of one slot: an empty slot has nothing to send. -/
def reconcileSlot (slot : S) (state : CoordNonceStreamState) (nonceBatchSize : ℕ) :
    Exec (Option (NonceJob Seed Nonce)) :=
  match readSlot slot with
  | none => .ret none
  | some value => value.reconcileCoordNonceStreamState state nonceBatchSize

/-- `sign_guaranteeing_nonces_destroyed` of one slot: the new value is written, and read
back, before its shares are returned. -/
def signSlot [DecidableEq Seed] [DecidableEq Share]
    (d : NonceDerivation Seed SecretNonce Nonce) (sign : Item → SecretNonce → Share) (slot : S)
    (sessionId : SignSessionId) (coordNonceState : CoordNonceStreamState) (lastUsed : ℕ)
    (sessions : List Item) (nonceBatchSize : ℕ) :
    Exec (Except NoncesUnavailable (SignOutput Seed Nonce Share × S)) := do
  let slotValue ← Exec.expect (readSlot slot) "cannot sign with uninitialized slot"
  Exec.assert (coordNonceState.streamId = slotValue.nonceStreamId) "wrong stream id"
  match ← slotValue.withSignatures d sign sessionId coordNonceState lastUsed sessions with
  | .error e => return .error e
  | .ok withSignatures =>
      let slot := writeSlot slot withSignatures
      let readBackState ← Exec.expect (readSlot slot) "guaranteed"
      Exec.assert (readBackState = withSignatures)
        "signature shares should have been read the same as written"
      let signingState ← Exec.expect readBackState.signingState "guaranteed"
      let replenishment ← reconcileSlot slot coordNonceState nonceBatchSize
      return .ok ((signingState.signatureShares, replenishment), slot)

/-! ### The slots of a device -/

/-- The nonce slots of a device, and the clock their use is stamped with. -/
structure AbSlots (S : Type) where
  slots : List S
  lastUsed : ℕ

/-- What the search for a slot of a stream ends with. -/
inductive SlotChoice where
  | found (i : ℕ)
  | empty (i : ℕ)
  | evict (i : ℕ)
  deriving DecidableEq

/-- The loop of `get_or_create`: the slot of the stream or the first empty one, and when
there is neither the one with the lowest `last_used`. -/
def chooseSlot (streamId : NonceStreamId) : List S → ℕ → ℕ → ℕ → SlotChoice
  | [], _, _, idxLowestLastUsed => .evict idxLowestLastUsed
  | slot :: rest, i, lowestLastUsed, idxLowestLastUsed =>
      match readSlot slot with
      | some value =>
          if value.nonceStreamId = streamId then .found i
          else if value.lastUsed < lowestLastUsed then
            chooseSlot streamId rest (i + 1) value.lastUsed i
          else chooseSlot streamId rest (i + 1) lowestLastUsed idxLowestLastUsed
      | none => .empty i

namespace AbSlots

/-- Load the slots; the clock starts at the newest stamp among them. -/
def new (slots : List S) : AbSlots S where
  slots := slots
  lastUsed := (slots.filterMap fun slot => (readSlot slot).map (·.lastUsed)).foldl max 0

/-- `last_used + 1`, in a release build. -/
def nextLastUsed (ab : AbSlots S) : ℕ := asU32 (ab.lastUsed + 1)

/-- Write a slot's initial value. -/
def initializeAt (ab : AbSlots S) (i : ℕ) (streamId : NonceStreamId) (lastUsed : ℕ)
    (seed : Seed) : AbSlots S where
  slots := ab.slots.modify i fun slot => writeSlot slot (.initial streamId lastUsed seed)
  lastUsed := ab.lastUsed

/-- The position of the slot for a stream, created with the seed `seed` drawn from the RNG
if there is none. -/
def getOrCreate (ab : AbSlots S) (streamId : NonceStreamId) (seed : Seed) :
    Exec (AbSlots S × ℕ) :=
  let lastUsed := ab.nextLastUsed
  let ab := { ab with lastUsed := lastUsed }
  match chooseSlot streamId ab.slots 0 u32Max 0 with
  | .found i => .ret (ab, i)
  | .empty i => .ret (ab.initializeAt i streamId lastUsed seed, i)
  | .evict i =>
      if i < ab.slots.length then .ret (ab.initializeAt i streamId lastUsed seed, i)
      else .panic "index out of bounds"

/-- The position of the first slot that holds a stream. -/
def get (ab : AbSlots S) (streamId : NonceStreamId) : Option ℕ :=
  ab.slots.findIdx? fun slot =>
    (readSlot slot).map SecretNonceSlot.nonceStreamId == some streamId

/-- The value in the slot at a position. -/
def value (ab : AbSlots S) (i : ℕ) : Option (SecretNonceSlot Seed Share) :=
  ab.slots[i]?.bind readSlot

/-- Reconcile with the slot of a stream, as the device does for each stream it is asked to
open. -/
def reconcile (ab : AbSlots S) (state : CoordNonceStreamState) (nonceBatchSize : ℕ) :
    Exec (Option (NonceJob Seed Nonce)) :=
  match (ab.get state.streamId).bind fun i => ab.slots[i]? with
  | none => .ret none
  | some slot => reconcileSlot slot state nonceBatchSize

/-- Sign with the slot of the requested stream. -/
def signGuaranteeingNoncesDestroyed [DecidableEq Seed] [DecidableEq Share]
    (d : NonceDerivation Seed SecretNonce Nonce) (sign : Item → SecretNonce → Share)
    (ab : AbSlots S) (sessionId : SignSessionId) (coordNonceState : CoordNonceStreamState)
    (sessions : List Item) (nonceBatchSize : ℕ) :
    Exec (Except NoncesUnavailable (SignOutput Seed Nonce Share × AbSlots S)) :=
  let lastUsed := ab.nextLastUsed
  match (ab.get coordNonceState.streamId).bind fun i => ab.slots[i]?.map (i, ·) with
  -- `Overflow` stands for "stream not found" here
  | none => .ret (.error .overflow)
  | some (i, slot) => do
      match ← signSlot d sign slot sessionId coordNonceState lastUsed sessions nonceBatchSize with
      | .error e => return .error e
      | .ok (out, slot) => return .ok (out, { slots := ab.slots.set i slot, lastUsed := lastUsed })

end AbSlots

end Slot

end Frostsnap
