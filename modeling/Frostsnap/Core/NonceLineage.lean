import Frostsnap.Core.DeviceNonces

/-!
# Seed lineages

A slot is initialised with one fresh seed and from then on only ratcheted. The seeds it goes
through are the *lineage* of that first seed, and a secret nonce is named by its lineage and
its index. This module says what the iterator, the signing loop and a signing request do in
those terms; nothing after it unfolds the ratchet again.
-/

namespace Frostsnap

variable {Seed SecretNonce Nonce Share Item : Type}

namespace NonceDerivation

variable (d : NonceDerivation Seed SecretNonce Nonce)

/-- The seed material at an index of the lineage of `seed`. -/
def seedAt (streamId : NonceStreamId) (seed : Seed) : ℕ → Seed
  | 0 => seed
  | index + 1 => (d.ratchetStep streamId index (seedAt streamId seed index)).1

/-- The secret nonce at an index of the lineage of `seed`. -/
def secretNonceAt (streamId : NonceStreamId) (seed : Seed) (index : ℕ) : SecretNonce :=
  (d.ratchetStep streamId index (d.seedAt streamId seed index)).2

/-- The ratchet never repeats a seed: two different seeds are never followed by one. -/
def NeverRepeats : Prop :=
  ∀ streamId index, Function.Injective fun seed => (d.ratchetStep streamId index seed).1

variable {d}

/-- Two lineages of one stream that meet at an index are the same lineage. -/
theorem NeverRepeats.seedAt_inj (h : d.NeverRepeats) {streamId : NonceStreamId} {s t : Seed}
    {index : ℕ} (heq : d.seedAt streamId s index = d.seedAt streamId t index) : s = t := by
  induction index with
  | zero => exact heq
  | succ index ih => exact ih (h streamId index heq)

end NonceDerivation

variable {d : NonceDerivation Seed SecretNonce Nonce}

/-- The iterator stands at its index of the lineage of `seed`. -/
def SecretNonceIter.OnLineage (d : NonceDerivation Seed SecretNonce Nonce)
    (streamId : NonceStreamId) (it : SecretNonceIter Seed) (seed : Seed) : Prop :=
  it.seedMaterial = d.seedAt streamId seed it.index

/-- The slot value stands at its index of the lineage of `seed`. -/
def SecretNonceSlot.OnLineage (d : NonceDerivation Seed SecretNonce Nonce)
    (v : SecretNonceSlot Seed Share) (seed : Seed) : Prop :=
  v.ratchetPrgSeedMaterial = d.seedAt v.nonceStreamId seed v.index

theorem SecretNonceSlot.OnLineage.eq {v : SecretNonceSlot Seed Share} {s t : Seed}
    (h : d.NeverRepeats) (hs : v.OnLineage d s) (ht : v.OnLineage d t) : s = t :=
  h.seedAt_inj (hs.symm.trans ht)

/-- A freshly initialised slot is on the lineage of its seed. -/
theorem SecretNonceSlot.initial_onLineage (streamId : NonceStreamId) (lastUsed : ℕ) (s : Seed) :
    (SecretNonceSlot.initial streamId lastUsed s : SecretNonceSlot Seed Share).OnLineage d s :=
  rfl

/-- What a step of the iterator gives, in terms of the lineage. -/
theorem SecretNonceIter.OnLineage.next_eq {streamId : NonceStreamId} {it : SecretNonceIter Seed}
    {s : Seed} (h : it.OnLineage d streamId s) (hlt : it.index < u32Max) :
    it.next d streamId = some
      ((it.index, d.secretNonceAt streamId s it.index, d.seedAt streamId s (it.index + 1)),
        { seedMaterial := d.seedAt streamId s (it.index + 1), index := it.index + 1 }) := by
  unfold SecretNonceIter.next
  rw [if_neg (by omega), h]
  rfl

/-- Skipping stays on the lineage and never goes back. -/
theorem SecretNonceIter.OnLineage.skip {streamId : NonceStreamId} {it : SecretNonceIter Seed}
    {s : Seed} (h : it.OnLineage d streamId s) (n : ℕ) :
    (it.skip d streamId n).OnLineage d streamId s ∧ it.index ≤ (it.skip d streamId n).index ∧
      (it.index + n ≤ u32Max → (it.skip d streamId n).index = it.index + n) := by
  induction n generalizing it with
  | zero => exact ⟨h, le_refl _, fun _ => rfl⟩
  | succ n ih =>
      by_cases hlt : it.index < u32Max
      · simp only [SecretNonceIter.skip, h.next_eq hlt]
        obtain ⟨hline, hle, heq⟩ :=
          ih (show SecretNonceIter.OnLineage d streamId
            ⟨d.seedAt streamId s (it.index + 1), it.index + 1⟩ s from rfl)
        refine ⟨hline, le_trans (Nat.le_succ _) hle, fun hn => ?_⟩
        rw [heq (by simp only; omega)]
        simp only
        omega
      · have hnone : it.next d streamId = none := if_pos (by omega)
        simp only [SecretNonceIter.skip, hnone]
        exact ⟨h, le_refl _, fun hn => by omega⟩

/-- **What the signing loop does.** From index `i` of a lineage it signs the first items with
the nonces at `i, i + 1, …` in order, and ends one past the last nonce it used. It stops
early only when it runs out of nonces, at `u32::MAX`. -/
theorem signLoop_spec (sign : Item → SecretNonce → Share) {streamId : NonceStreamId}
    (items : List Item) {it : SecretNonceIter Seed} {s : Seed}
    (h : it.OnLineage d streamId s) (shares : List Share) (next : Option (ℕ × Seed)) :
    ∃ k ≤ items.length,
      (signLoop d sign streamId items it shares next).signatureShares =
        shares ++ (items.take k).zipIdx.map
          (fun p => sign p.1 (d.secretNonceAt streamId s (it.index + p.2))) ∧
      (signLoop d sign streamId items it shares next).nextPrgState =
        (if k = 0 then next else some (it.index + k, d.seedAt streamId s (it.index + k))) ∧
      ((signLoop d sign streamId items it shares next).outOfRange = false ↔ k = items.length) ∧
      (0 < k → it.index + k ≤ u32Max) := by
  induction items generalizing it shares next with
  | nil => exact ⟨0, le_refl _, by simp [signLoop]⟩
  | cons item items ih =>
      by_cases hlt : it.index < u32Max
      · obtain ⟨k, hk, hshares, hnext, hout, hmax⟩ :=
          ih (show SecretNonceIter.OnLineage d streamId
            ⟨d.seedAt streamId s (it.index + 1), it.index + 1⟩ s from rfl)
            (shares ++ [sign item (d.secretNonceAt streamId s it.index)])
            (some (it.index + 1, d.seedAt streamId s (it.index + 1)))
        refine ⟨k + 1, by simpa using hk, ?_, ?_, ?_, fun _ => ?_⟩
        · simp only [signLoop, h.next_eq hlt, hshares, List.take_succ_cons, List.zipIdx_cons',
            List.map_cons, List.map_map, List.append_assoc, List.singleton_append, Nat.add_zero]
          congr 2
          apply List.map_congr_left
          intro p _
          simp only [Function.comp_apply, Prod.map_fst, Prod.map_snd]
          congr 2
          omega
        · simp only [signLoop, h.next_eq hlt, hnext]
          by_cases hk0 : k = 0
          · simp [hk0]
          · have hidx : it.index + 1 + k = it.index + (k + 1) := by omega
            rw [if_neg hk0, if_neg (by omega)]
            simp only [hidx]
        · simp only [signLoop, h.next_eq hlt, hout, List.length_cons, Nat.add_right_cancel_iff]
        · rcases Nat.eq_zero_or_pos k with rfl | hpos
          · exact hlt
          · have hle := hmax hpos
            simp only at hle
            omega
      · have hnone : it.next d streamId = none := if_pos (by omega)
        refine ⟨0, Nat.zero_le _, ?_, ?_, ?_, nofun⟩ <;> simp [signLoop, hnone]

/-- The shares one signing request produces in a slot: `start` and `seed` are where the
slot's iterator stood when the first of them was signed. -/
structure SigningEvent (Seed Share : Type) where
  streamId : NonceStreamId
  start : ℕ
  seed : Seed
  sessionId : SignSessionId
  shares : List Share

namespace SigningEvent

/-- One past the last index the event used. -/
def stop (e : SigningEvent Seed Share) : ℕ := e.start + e.shares.length

/-- The event signed with nonces of the lineage of `s`. -/
def OnLineage (d : NonceDerivation Seed SecretNonce Nonce) (e : SigningEvent Seed Share)
    (s : Seed) : Prop :=
  e.seed = d.seedAt e.streamId s e.start

/-- The event signed with the nonce at an index of the lineage of `s`. -/
def Uses (d : NonceDerivation Seed SecretNonce Nonce) (e : SigningEvent Seed Share) (s : Seed)
    (index : ℕ) : Prop :=
  e.OnLineage d s ∧ e.start ≤ index ∧ index < e.stop

theorem OnLineage.eq {e : SigningEvent Seed Share} {s t : Seed} (h : d.NeverRepeats)
    (hs : e.OnLineage d s) (ht : e.OnLineage d t) : s = t :=
  h.seedAt_inj (hs.symm.trans ht)

end SigningEvent

namespace SecretNonceSlot

variable {v : SecretNonceSlot Seed Share} {sign : Item → SecretNonce → Share}
  {sessionId : SignSessionId} {coord : CoordNonceStreamState} {sessions : List Item}

/-- What the loop of a signing request signs, also when it then runs out of nonces and
panics; nothing when the request is answered from the cache or refused. -/
def signingAttempt (d : NonceDerivation Seed SecretNonce Nonce)
    (sign : Item → SecretNonce → Share) (v : SecretNonceSlot Seed Share)
    (sessionId : SignSessionId) (coord : CoordNonceStreamState) (sessions : List Item) :
    Option (SigningEvent Seed Share) :=
  if v.IsCached sessionId ∨ coord.index < v.index then none
  else
    let it := v.iterSecretNonces.skip d v.nonceStreamId (coord.index - v.index)
    some
      { streamId := v.nonceStreamId
        start := it.index
        seed := it.seedMaterial
        sessionId := sessionId
        shares := (signLoop d sign v.nonceStreamId sessions it [] none).signatureShares }

/-- The event of a signing request: an attempt that signs every item it was asked for. The
shares of any other attempt are dropped in the panic that ends it. -/
def signingEvent (d : NonceDerivation Seed SecretNonce Nonce)
    (sign : Item → SecretNonce → Share) (v : SecretNonceSlot Seed Share)
    (sessionId : SignSessionId) (coord : CoordNonceStreamState) (sessions : List Item) :
    Option (SigningEvent Seed Share) :=
  (v.signingAttempt d sign sessionId coord sessions).filter fun e =>
    0 < e.shares.length ∧ e.shares.length = sessions.length

/-- An attempt is for the requested session, and only uses nonces of the slot's lineage that
the slot has not passed. -/
theorem signingAttempt_spec {e : SigningEvent Seed Share} {s : Seed} (hs : v.OnLineage d s)
    (h : v.signingAttempt d sign sessionId coord sessions = some e) :
    e.streamId = v.nonceStreamId ∧ e.sessionId = sessionId ∧ v.index ≤ e.start ∧
      e.OnLineage d s := by
  unfold signingAttempt at h
  split at h
  · cases h
  · cases h
    obtain ⟨hline, hle, -⟩ :=
      (show v.iterSecretNonces.OnLineage d v.nonceStreamId s from hs).skip
        (coord.index - v.index)
    exact ⟨rfl, rfl, hle, hline⟩

/-- An event is an attempt. -/
theorem signingAttempt_of_event {e : SigningEvent Seed Share}
    (h : v.signingEvent d sign sessionId coord sessions = some e) :
    v.signingAttempt d sign sessionId coord sessions = some e :=
  (Option.filter_eq_some_iff.mp h).1

/-- A request that is cached or refused attempts nothing. -/
theorem signingEvent_eq_none (h : v.IsCached sessionId ∨ coord.index < v.index) :
    v.signingEvent d sign sessionId coord sessions = none := by
  rw [signingEvent, signingAttempt, if_pos h]
  rfl

/-- **What a signing request leaves in the slot.** It returns the value it found, when the
session is cached; it refuses or panics, and there is no event; or it returns a value of the
same stream that caches the shares of its event and stands one past the last nonce they
used, at most at `u32::MAX`. -/
theorem withSignatures_cases (d : NonceDerivation Seed SecretNonce Nonce)
    (sign : Item → SecretNonce → Share) (sessionId : SignSessionId)
    (coord : CoordNonceStreamState) (lastUsed : ℕ) (sessions : List Item) {s : Seed}
    (hs : v.OnLineage d s) :
    (v.IsCached sessionId ∧ v.signingEvent d sign sessionId coord sessions = none ∧
      v.withSignatures d sign sessionId coord lastUsed sessions = .ret (.ok v)) ∨
    (v.signingEvent d sign sessionId coord sessions = none ∧
      ∀ w, v.withSignatures d sign sessionId coord lastUsed sessions ≠ .ret (.ok w)) ∨
    ∃ e w, v.signingEvent d sign sessionId coord sessions = some e ∧
      v.withSignatures d sign sessionId coord lastUsed sessions = .ret (.ok w) ∧
      w.nonceStreamId = v.nonceStreamId ∧ w.signingState = some ⟨sessionId, e.shares⟩ ∧
      0 < e.shares.length ∧ e.shares.length = sessions.length ∧
      w.OnLineage d s ∧ w.index = e.stop ∧ w.index ≤ u32Max ∧ w.lastUsed = lastUsed ∧
      ∀ share ∈ e.shares, ∃ item nonce, share = sign item nonce := by
  by_cases hc : v.IsCached sessionId
  · exact .inl ⟨hc, signingEvent_eq_none (.inl hc), if_pos hc⟩
  refine .inr ?_
  by_cases hlt : coord.index < v.index
  · refine .inl ⟨signingEvent_eq_none (.inr hlt), fun w hw => ?_⟩
    rw [withSignatures, if_neg hc, if_pos hlt] at hw
    cases hw
  obtain ⟨hline, -⟩ :=
    (show v.iterSecretNonces.OnLineage d v.nonceStreamId s from hs).skip (coord.index - v.index)
  have hatt : v.signingAttempt d sign sessionId coord sessions = some _ :=
    if_neg (not_or.mpr ⟨hc, hlt⟩)
  generalize hit : v.iterSecretNonces.skip d v.nonceStreamId (coord.index - v.index) = it
    at hline hatt
  obtain ⟨k, hk, hshares, hnext, hout, hmax⟩ := signLoop_spec sign sessions hline [] none
  generalize hloop : signLoop d sign v.nonceStreamId sessions it [] none = loop
    at hatt hshares hnext hout
  have hlen : loop.signatureShares.length = k := by simp [hshares, hk]
  have hevent : v.signingEvent d sign sessionId coord sessions =
      if 0 < k ∧ k = sessions.length then
        some ⟨v.nonceStreamId, it.index, it.seedMaterial, sessionId, loop.signatureShares⟩
      else none := by
    rw [signingEvent, hatt, Option.filter_some]
    simp only [hlen, decide_eq_true_eq]
  by_cases hall : 0 < k ∧ k = sessions.length
  · rw [if_pos hall] at hevent
    obtain ⟨hpos, rfl⟩ := hall
    have hok : v.withSignatures d sign sessionId coord lastUsed sessions = .ret (.ok
        { index := it.index + sessions.length
          nonceStreamId := v.nonceStreamId
          ratchetPrgSeedMaterial :=
            d.seedAt v.nonceStreamId s (it.index + sessions.length)
          lastUsed := lastUsed
          signingState := some ⟨sessionId, loop.signatureShares⟩ }) := by
      simp only [withSignatures, if_neg hc, if_neg hlt, hit, hloop, hout.mpr rfl, hnext,
        if_neg (show ¬ sessions.length = 0 by omega)]
      rfl
    refine .inr ⟨_, _, hevent, hok, rfl, rfl, ?_, hlen, rfl, ?_, hmax hpos, rfl, ?_⟩
    · simpa only [hlen] using hpos
    · simp only [SigningEvent.stop, hlen]
    · intro share hshare
      rw [hshares] at hshare
      obtain ⟨p, -, rfl⟩ := List.mem_map.mp hshare
      exact ⟨_, _, rfl⟩
  · rw [if_neg hall] at hevent
    refine .inl ⟨hevent, fun w hw => hall ?_⟩
    simp only [withSignatures, if_neg hc, if_neg hlt, hit, hloop] at hw
    split at hw
    · cases hw
    · rename_i hrange
      obtain rfl : k = sessions.length := hout.mp (by simpa using hrange)
      rw [hnext] at hw
      refine ⟨Nat.pos_of_ne_zero fun h0 => ?_, rfl⟩
      rw [if_pos h0] at hw
      cases hw

end SecretNonceSlot

end Frostsnap
