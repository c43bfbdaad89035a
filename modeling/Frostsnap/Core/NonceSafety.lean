import Frostsnap.Core.SlotOps
import Frostsnap.Lib.Run

/-!
# Nonce safety of the device's slots

A signer that uses a secret nonce for two different messages gives its secret share away.
The slots of a device must therefore never sign twice with one nonce, whatever the
coordinator asks for and in whatever order.

`Store` is the slots of a device together with two ledgers of what has happened to them: the
fresh seeds drawn so far, and the `SigningEvent`s, one for each request that reached the
signing loop. `Store.step` performs one operation. The operations take every argument from
the coordinator. A request that is refused leaves the slots alone; after a panic the device
starts again from the slots as the call left them.

## Main results

* `Store.Inv`: every slot is on the lineage of a drawn seed, no two slots share a lineage, a
  slot has passed every nonce that was signed with on its lineage, and the shares it caches
  are those of the last event on its lineage.
* `Store.step_inv`: every operation keeps it.
* `slots_nonce_safety`: over every run no nonce signs for two sessions, the index of a lineage
  never decreases, and a session that is cached is answered with the shares of the event that
  produced them.
-/

namespace Frostsnap

variable {Seed SecretNonce Nonce Share Item : Type} {S : Type} [NonceStreamSlot S Seed Share]

/-- The slots of a device, and what has happened to them. -/
structure Store (S Seed Share : Type) where
  slots : AbSlots S
  /-- the fresh seeds, with the streams they were drawn for -/
  drawn : List (NonceStreamId × Seed)
  /-- the requests that reached the signing loop, oldest first -/
  signed : List (SigningEvent Seed Share)

/-- An operation on the slots. The seed of `getOrCreate` is what the RNG would give. -/
inductive SlotOp (Seed Item : Type) where
  | getOrCreate (streamId : NonceStreamId) (seed : Seed)
  | reconcile (state : CoordNonceStreamState) (nonceBatchSize : ℕ)
  | sign (sessionId : SignSessionId) (coord : CoordNonceStreamState) (sessions : List Item)
      (nonceBatchSize : ℕ)
  | reboot

namespace Store

/-- A device whose slots have never been written. -/
def fresh (slots : List S) : Store S Seed Share where
  slots := AbSlots.new slots
  drawn := []
  signed := []

section Step

variable [DecidableEq Seed] [DecidableEq Share]

/-- One operation, and what it adds to the ledgers. -/
def step (d : NonceDerivation Seed SecretNonce Nonce) (sign : Item → SecretNonce → Share)
    (s : Store S Seed Share) : SlotOp Seed Item → Store S Seed Share
  | .getOrCreate streamId seed =>
      match s.slots.getOrCreate streamId seed with
      | .ret (slots, _) =>
          { s with
            slots := slots
            drawn := if s.slots.Creates streamId then s.drawn ++ [(streamId, seed)] else s.drawn }
      | .panic _ => { s with slots := AbSlots.new s.slots.slots }
  | .reconcile state nonceBatchSize =>
      match (s.slots.reconcile state nonceBatchSize : Exec (Option (NonceJob Seed Nonce))) with
      | .ret _ => s
      | .panic _ => { s with slots := AbSlots.new s.slots.slots }
  | .sign sessionId coord sessions nonceBatchSize =>
      { s with
        slots :=
          match s.slots.signGuaranteeingNoncesDestroyed d sign sessionId coord sessions
            nonceBatchSize with
          | .ret (.ok (_, slots)) => slots
          | .ret (.error _) => s.slots
          | .panic _ => AbSlots.new (s.slots.slotsLeft d sign sessionId coord sessions)
        signed := s.signed ++ (s.slots.signingEvent d sign sessionId coord sessions).toList }
  | .reboot => { s with slots := AbSlots.new s.slots.slots }

end Step

/-! ### The invariant -/

variable {d : NonceDerivation Seed SecretNonce Nonce}

/-- The last event on a lineage. -/
def LastOn (d : NonceDerivation Seed SecretNonce Nonce) (signed : List (SigningEvent Seed Share))
    (streamId : NonceStreamId) (seed : Seed) (e : SigningEvent Seed Share) : Prop :=
  (e.streamId = streamId ∧ e.OnLineage d seed) ∧
    ∃ before after, signed = before ++ e :: after ∧
      ∀ e' ∈ after, ¬ (e'.streamId = streamId ∧ e'.OnLineage d seed)

/-- What holds of the slots of a device and their history. -/
structure Inv (d : NonceDerivation Seed SecretNonce Nonce) (s : Store S Seed Share) : Prop where
  slot_lineage : ∀ i v, s.slots.value i = some v →
    ∃ seed, (v.nonceStreamId, seed) ∈ s.drawn ∧ v.OnLineage d seed
  event_lineage : ∀ e ∈ s.signed, ∃ seed, (e.streamId, seed) ∈ s.drawn ∧ e.OnLineage d seed
  apart : ∀ i j v w seed, s.slots.value i = some v → s.slots.value j = some w →
    v.nonceStreamId = w.nonceStreamId → v.OnLineage d seed → w.OnLineage d seed → i = j
  spent : ∀ i v seed, s.slots.value i = some v → v.OnLineage d seed →
    ∀ e ∈ s.signed, e.streamId = v.nonceStreamId → e.OnLineage d seed → e.stop ≤ v.index
  ordered : s.signed.Pairwise fun e e' =>
    ∀ seed, e.streamId = e'.streamId → e.OnLineage d seed → e'.OnLineage d seed →
      e.stop ≤ e'.start
  cached : ∀ i v seed st, s.slots.value i = some v → v.OnLineage d seed →
    v.signingState = some st → ∃ e, LastOn d s.signed v.nonceStreamId seed e ∧
      e.sessionId = st.sessionId ∧ e.shares = st.signatureShares

/-- What one operation can do. -/
inductive Effect (d : NonceDerivation Seed SecretNonce Nonce) (s s' : Store S Seed Share) :
    Prop where
  | idle (value : ∀ j, s'.slots.value j = s.slots.value j) (drawn : s'.drawn = s.drawn)
      (signed : s'.signed = s.signed)
  | create (i : ℕ) (streamId : NonceStreamId) (lastUsed : ℕ) (seed : Seed)
      (value : ∀ j, s'.slots.value j =
        if i = j then s.slots.slots[j]?.map fun _ => .initial streamId lastUsed seed
        else s.slots.value j)
      (drawn : s'.drawn = s.drawn ++ [(streamId, seed)]) (signed : s'.signed = s.signed)
  | sign (i : ℕ) (v : SecretNonceSlot Seed Share) (seed : Seed) (e : SigningEvent Seed Share)
      (slot : s.slots.value i = some v) (line : v.OnLineage d seed)
      (stream : e.streamId = v.nonceStreamId) (start : v.index ≤ e.start)
      (event : e.OnLineage d seed)
      (w : SecretNonceSlot Seed Share) (stream' : w.nonceStreamId = v.nonceStreamId)
      (line' : w.OnLineage d seed) (index : w.index = e.stop)
      (state : w.signingState = some ⟨e.sessionId, e.shares⟩)
      (value : ∀ j, s'.slots.value j = if i = j then some w else s.slots.value j)
      (drawn : s'.drawn = s.drawn) (signed : s'.signed = s.signed ++ [e])

/-- Nothing has happened to a fresh device. -/
theorem fresh_inv {slots : List S} (h : ∀ slot ∈ slots, readSlot slot = none) :
    (fresh slots : Store S Seed Share).Inv d := by
  have hnone : ∀ i, (fresh slots : Store S Seed Share).slots.value i = none := by
    intro i
    simp only [fresh, AbSlots.new, AbSlots.value, Option.bind_eq_none_iff]
    intro slot hslot
    exact h slot (List.mem_of_getElem? hslot)
  constructor
  case ordered => exact .nil
  case event_lineage => rintro e ⟨⟩
  all_goals
    intro i
    simp [hnone]

/-- **Every step is one of the effects.** -/
theorem step_effect [DecidableEq Seed] [DecidableEq Share] {sign : Item → SecretNonce → Share}
    {s : Store S Seed Share} (hs : s.Inv d) (op : SlotOp Seed Item) :
    Effect d s (s.step d sign op) := by
  cases op with
  | getOrCreate streamId seed =>
      simp only [step]
      cases hc : s.slots.getOrCreate streamId seed with
      | panic msg => exact .idle (fun _ => rfl) rfl rfl
      | ret p =>
          obtain ⟨slots, i⟩ := p
          rcases AbSlots.getOrCreate_cases hc with ⟨hn, hval⟩ | ⟨hn, lastUsed, hval⟩
          · exact .idle hval (if_neg hn) rfl
          · exact .create i streamId lastUsed seed hval (if_pos hn) rfl
  | reconcile state nonceBatchSize =>
      simp only [step]
      split
      · exact .idle (fun _ => rfl) rfl rfl
      · exact .idle (fun _ => rfl) rfl rfl
  | reboot => exact .idle (fun _ => rfl) rfl rfl
  | sign sessionId coord sessions nonceBatchSize =>
      have hval : ∀ j, (s.step d sign (.sign sessionId coord sessions nonceBatchSize)).slots.value j
          = (AbSlots.mk (s.slots.slotsLeft d sign sessionId coord sessions)
              s.slots.lastUsed).value j := by
        intro j
        simp only [step]
        cases hr : s.slots.signGuaranteeingNoncesDestroyed d sign sessionId coord sessions
          nonceBatchSize with
        | panic msg => rfl
        | ret r =>
            rw [← AbSlots.sign_slots hr j]
            cases r <;> rfl
      simp only [AbSlots.value_slotsLeft] at hval
      cases ht : s.slots.target coord.streamId with
      | none =>
          simp only [AbSlots.signingWrite, ht, Option.bind_none] at hval
          refine .idle hval rfl ?_
          simp [step, AbSlots.signingEvent, ht]
      | some p =>
          obtain ⟨i, v⟩ := p
          obtain ⟨-, hv, -⟩ := AbSlots.target_eq_some ht
          obtain ⟨seed, -, hline⟩ := hs.slot_lineage i v hv
          simp only [AbSlots.signingWrite, ht, Option.bind_some] at hval
          have hsigned : (s.step d sign (.sign sessionId coord sessions nonceBatchSize)).signed
              = s.signed ++ (v.signingEvent d sign sessionId coord sessions).toList := by
            simp [step, AbSlots.signingEvent, ht]
          rcases SecretNonceSlot.withSignatures_cases d sign sessionId coord
            s.slots.nextLastUsed sessions hline with
            ⟨-, he, hw⟩ | ⟨he, hw⟩ | ⟨e, w, he, hw, hwid, hst, -, -, hwline, hidx, -⟩
          · simp only [hw] at hval
            refine .idle (fun j => ?_) rfl (by rw [hsigned, he]; simp)
            rw [hval j]
            split
            · rename_i hij
              rw [← hij, hv]
            · rfl
          · refine .idle (fun j => ?_) rfl (by rw [hsigned, he]; simp)
            rw [hval j]
            split
            · rename_i hc
              split at hc
              · rename_i hok
                exact absurd hok (hw _)
              · cases hc
            · rfl
          · simp only [hw] at hval
            obtain ⟨hstream, rfl, hstart, heline⟩ :=
              SecretNonceSlot.signingAttempt_spec hline
                (SecretNonceSlot.signingAttempt_of_event he)
            exact .sign i v seed e hv hline hstream hstart heline w hwid hwline hidx hst hval rfl
              (by rw [hsigned, he]; rfl)

/-- The seeds drawn so far are pairwise distinct. -/
def FreshSeeds (s : Store S Seed Share) : Prop := (s.drawn.map Prod.snd).Nodup

omit [NonceStreamSlot S Seed Share] in
/-- A lineage that has just been created is not one that was drawn before. -/
theorem FreshSeeds.not_mem_of_create {s s' : Store S Seed Share} {streamId : NonceStreamId}
    {seed : Seed} (h : s'.FreshSeeds) (hd : s'.drawn = s.drawn ++ [(streamId, seed)])
    (id : NonceStreamId) : (id, seed) ∉ s.drawn := by
  unfold FreshSeeds at h
  rw [hd, List.map_append, List.nodup_append] at h
  intro hmem
  exact h.2.2 seed (List.mem_map_of_mem hmem) seed (by simp) rfl

/-- **Every step keeps the invariant**, as long as the seeds it draws are fresh. -/
theorem Effect.inv (hd : d.NeverRepeats) {s s' : Store S Seed Share} (hs : s.Inv d)
    (heff : Effect d s s') (hfresh : s'.FreshSeeds) : s'.Inv d := by
  cases heff with
  | idle value drawn signed =>
      constructor
      · simpa only [value, drawn] using hs.slot_lineage
      · simpa only [signed, drawn] using hs.event_lineage
      · simpa only [value] using hs.apart
      · simpa only [value, signed] using hs.spent
      · simpa only [signed] using hs.ordered
      · simpa only [value, signed] using hs.cached
  | create i streamId lastUsed seed value drawn signed =>
      have hnew := hfresh.not_mem_of_create drawn
      -- the new value is the only one on the new lineage, and no event is on it
      have hinit : ∀ j v, s'.slots.value j = some v →
          (i = j ∧ v = .initial streamId lastUsed seed) ∨ (i ≠ j ∧ s.slots.value j = some v) := by
        intro j v hv
        rw [value j] at hv
        split at hv
        · rename_i hij
          obtain ⟨_, -, rfl⟩ := Option.map_eq_some_iff.mp hv
          exact .inl ⟨hij, rfl⟩
        · rename_i hij
          exact .inr ⟨hij, hv⟩
      have hold : ∀ {j v t}, s.slots.value j = some v → v.OnLineage d t → t ≠ seed := by
        rintro j v t hv ht rfl
        obtain ⟨t', hmem, ht'⟩ := hs.slot_lineage j v hv
        rw [ht.eq hd ht'] at hnew
        exact hnew _ hmem
      have hseed : ∀ {t}, (SecretNonceSlot.initial streamId lastUsed seed :
          SecretNonceSlot Seed Share).OnLineage d t → t = seed := fun ht =>
        ht.eq hd (SecretNonceSlot.initial_onLineage streamId lastUsed seed)
      constructor
      · intro j v hv
        rcases hinit j v hv with ⟨-, rfl⟩ | ⟨-, hv⟩
        · exact ⟨seed, by simp [drawn, SecretNonceSlot.initial],
            SecretNonceSlot.initial_onLineage streamId lastUsed seed⟩
        · obtain ⟨t, hmem, ht⟩ := hs.slot_lineage j v hv
          exact ⟨t, by simp [drawn, hmem], ht⟩
      · intro e he
        rw [signed] at he
        obtain ⟨t, hmem, ht⟩ := hs.event_lineage e he
        exact ⟨t, by simp [drawn, hmem], ht⟩
      · intro j k v w t hv hw hid htv htw
        rcases hinit j v hv with ⟨rfl, rfl⟩ | ⟨-, hv⟩ <;>
          rcases hinit k w hw with ⟨rfl, rfl⟩ | ⟨-, hw⟩
        · rfl
        · exact absurd (hseed htv) (hold hw htw)
        · exact absurd (hseed htw) (hold hv htv)
        · exact hs.apart j k v w t hv hw hid htv htw
      · intro j v t hv ht e he hid het
        rw [signed] at he
        rcases hinit j v hv with ⟨-, rfl⟩ | ⟨-, hv⟩
        · obtain rfl := hseed ht
          obtain ⟨t', hmem, ht'⟩ := hs.event_lineage e he
          rw [het.eq hd ht'] at hnew
          exact absurd hmem (hnew _)
        · exact hs.spent j v t hv ht e he hid het
      · simpa only [signed] using hs.ordered
      · intro j v t st hv ht hst
        rcases hinit j v hv with ⟨-, rfl⟩ | ⟨-, hv⟩
        · cases hst
        · simpa only [signed] using hs.cached j v t st hv ht hst
  | sign i v seed e slot line stream start event w stream' line' index state value drawn signed =>
      -- a slot of the new state is an old one, or the one that has just signed
      have hval : ∀ j u, s'.slots.value j = some u →
          (i = j ∧ u = w) ∨ (i ≠ j ∧ s.slots.value j = some u) := by
        intro j u hu
        rw [value j] at hu
        split at hu
        · rename_i hij
          exact .inl ⟨hij, (Option.some.inj hu).symm⟩
        · rename_i hij
          exact .inr ⟨hij, hu⟩
      have hother : ∀ {j u t}, i ≠ j → s.slots.value j = some u → u.OnLineage d t →
          u.nonceStreamId = v.nonceStreamId → t ≠ seed := by
        rintro j u t hij hu ht hid rfl
        exact hij (hs.apart i j v u t slot hu hid.symm line ht)
      have hmem : ∀ {e'}, e' ∈ s'.signed → e' ∈ s.signed ∨ e' = e := by
        intro e' he'
        simpa [signed] using he'
      constructor
      · intro j u hu
        rw [drawn]
        rcases hval j u hu with ⟨-, rfl⟩ | ⟨-, hu⟩
        · obtain ⟨t, hdrawn, ht⟩ := hs.slot_lineage i v slot
          obtain rfl := line.eq hd ht
          exact ⟨seed, by rwa [stream'], line'⟩
        · exact hs.slot_lineage j u hu
      · intro e' he'
        rw [drawn]
        rcases hmem he' with he' | rfl
        · exact hs.event_lineage e' he'
        · obtain ⟨t, hdrawn, ht⟩ := hs.slot_lineage i v slot
          obtain rfl := line.eq hd ht
          exact ⟨seed, by rwa [stream], event⟩
      · intro j k u u' t hu hu' hid htu htu'
        rcases hval j u hu with ⟨rfl, rfl⟩ | ⟨hij, hu⟩ <;>
          rcases hval k u' hu' with ⟨rfl, rfl⟩ | ⟨hik, hu'⟩
        · rfl
        · exact absurd (htu.eq hd line') (hother hik hu' htu' (by rw [← hid, stream']))
        · exact absurd (htu'.eq hd line') (hother hij hu htu (by rw [hid, stream']))
        · exact hs.apart j k u u' t hu hu' hid htu htu'
      · intro j u t hu ht e' he' hid het
        rcases hval j u hu with ⟨-, rfl⟩ | ⟨hij, hu⟩
        · obtain rfl := ht.eq hd line'
          rcases hmem he' with he' | rfl
          · calc e'.stop ≤ v.index := hs.spent i v t slot line e' he' (hid.trans stream') het
              _ ≤ e.start := start
              _ ≤ e.stop := Nat.le_add_right _ _
              _ = u.index := index.symm
          · exact le_of_eq index.symm
        · rcases hmem he' with he' | rfl
          · exact hs.spent j u t hu ht e' he' hid het
          · exact absurd (het.eq hd event) (hother hij hu ht (by rw [← hid, stream]))
      · rw [signed, List.pairwise_append]
        refine ⟨hs.ordered, List.pairwise_singleton _ _, ?_⟩
        intro e' he' e'' he'' t hid het het'
        obtain rfl := List.mem_singleton.mp he''
        obtain rfl := het'.eq hd event
        exact (hs.spent i v t slot line e' he' (hid.trans stream) het).trans start
      · intro j u t st hu ht hst
        rcases hval j u hu with ⟨-, rfl⟩ | ⟨hij, hu⟩
        · obtain rfl := ht.eq hd line'
          rw [state] at hst
          cases hst
          refine ⟨e, ⟨⟨by rw [stream, stream'], event⟩, s.signed, [], signed, ?_⟩, rfl, rfl⟩
          rintro e' ⟨⟩
        · obtain ⟨e', ⟨hon, before, after, heq, hafter⟩, hid, hshares⟩ :=
            hs.cached j u t st hu ht hst
          refine ⟨e', ⟨hon, before, after ++ [e], by rw [signed, heq]; simp, ?_⟩, hid, hshares⟩
          intro e'' he'' hon'
          rcases List.mem_append.mp he'' with he'' | he''
          · exact hafter e'' he'' hon'
          · obtain rfl := List.mem_singleton.mp he''
            exact absurd (hon'.2.eq hd event) (hother hij hu ht (by rw [← hon'.1, stream]))

/-! ### Runs -/

/-- The lineages of `s` are still there in `s'`, or gone for good, and none has gone back. -/
def Advances (d : NonceDerivation Seed SecretNonce Nonce) (s s' : Store S Seed Share) : Prop :=
  s.drawn ⊆ s'.drawn ∧
    ∀ j w seed, s'.slots.value j = some w → w.OnLineage d seed →
      (w.nonceStreamId, seed) ∈ s.drawn →
      ∃ i v, s.slots.value i = some v ∧ v.nonceStreamId = w.nonceStreamId ∧
        v.OnLineage d seed ∧ v.index ≤ w.index

theorem Advances.refl (s : Store S Seed Share) : s.Advances d s :=
  ⟨List.Subset.refl _, fun j w _ hw hline _ => ⟨j, w, hw, rfl, hline, le_refl _⟩⟩

theorem Advances.trans {s t u : Store S Seed Share} (h : s.Advances d t) (h' : t.Advances d u) :
    s.Advances d u := by
  refine ⟨List.Subset.trans h.1 h'.1, fun j w seed hw hline hmem => ?_⟩
  obtain ⟨k, x, hx, hxid, hxline, hle⟩ := h'.2 j w seed hw hline (h.1 hmem)
  obtain ⟨i, v, hv, hvid, hvline, hle'⟩ := h.2 k x seed hx hxline (by rwa [hxid])
  exact ⟨i, v, hv, hvid.trans hxid, hvline, hle'.trans hle⟩

/-- Every step advances. -/
theorem Effect.advances (hd : d.NeverRepeats) {s s' : Store S Seed Share}
    (heff : Effect d s s') (hfresh : s'.FreshSeeds) : s.Advances d s' := by
  cases heff with
  | idle value drawn signed =>
      refine ⟨by rw [drawn]; exact List.Subset.refl _, fun j w seed hw hline _ => ?_⟩
      exact ⟨j, w, by rwa [← value j], rfl, hline, le_refl _⟩
  | create i streamId lastUsed seed value drawn signed =>
      refine ⟨by simp [drawn], fun j w t hw hline hmem => ?_⟩
      rw [value j] at hw
      split at hw
      · obtain ⟨_, -, rfl⟩ := Option.map_eq_some_iff.mp hw
        have ht := hline.eq hd (SecretNonceSlot.initial_onLineage streamId lastUsed seed)
        rw [ht] at hmem
        exact absurd hmem (hfresh.not_mem_of_create drawn _)
      · exact ⟨j, w, hw, rfl, hline, le_refl _⟩
  | sign i v seed e slot line stream start event w stream' line' index state value drawn signed =>
      refine ⟨by rw [drawn]; exact List.Subset.refl _, fun j u t hu hline _ => ?_⟩
      rw [value j] at hu
      split at hu
      · cases hu
        obtain rfl := hline.eq hd line'
        refine ⟨i, v, slot, stream'.symm, line, ?_⟩
        calc v.index ≤ e.start := start
          _ ≤ e.stop := Nat.le_add_right _ _
          _ = w.index := index.symm
      · exact ⟨j, u, hu, rfl, hline, le_refl _⟩

section Run

variable [DecidableEq Seed] [DecidableEq Share] {sign : Item → SecretNonce → Share}

/-- The seeds drawn before a step are among those drawn after it. -/
theorem freshSeeds_of_step (s : Store S Seed Share) (op : SlotOp Seed Item)
    (h : (s.step d sign op).FreshSeeds) : s.FreshSeeds := by
  unfold FreshSeeds at *
  cases op with
  | getOrCreate streamId seed =>
      simp only [step] at h
      split at h
      · simp only at h
        split at h
        · rw [List.map_append] at h
          exact (List.nodup_append.mp h).1
        · exact h
      · exact h
  | reconcile state nonceBatchSize =>
      simp only [step] at h
      split at h <;> exact h
  | sign sessionId coord sessions nonceBatchSize => exact h
  | reboot => exact h

theorem step_inv (hd : d.NeverRepeats) (s : Store S Seed Share) (op : SlotOp Seed Item)
    (hfresh : (s.step d sign op).FreshSeeds) (hs : s.Inv d) : (s.step d sign op).Inv d :=
  (step_effect hs op).inv hd hs hfresh

/-- The invariant holds at the end of every run. -/
theorem run_inv (hd : d.NeverRepeats) {s : Store S Seed Share} (hs : s.Inv d)
    {ops : List (SlotOp Seed Item)} (hfresh : (run (step d sign) s ops).FreshSeeds) :
    (run (step d sign) s ops).Inv d :=
  run_invariant freshSeeds_of_step (step_inv hd) hfresh hs

/-- Every run advances. -/
theorem run_advances (hd : d.NeverRepeats) {s : Store S Seed Share} (hs : s.Inv d)
    {ops : List (SlotOp Seed Item)} (hfresh : (run (step d sign) s ops).FreshSeeds) :
    s.Advances d (run (step d sign) s ops) :=
  run_related freshSeeds_of_step (step_inv hd) Advances.refl Advances.trans
    (fun _ op hfresh hs => (step_effect hs op).advances hd hfresh) hfresh hs

end Run

/-! ### What the invariant gives -/

/-- Two events that used one nonce are for one session: they are the same event. -/
theorem Inv.unique {s : Store S Seed Share} (hs : s.Inv d) {e e' : SigningEvent Seed Share}
    (he : e ∈ s.signed) (he' : e' ∈ s.signed) {seed : Seed} {index : ℕ}
    (hid : e.streamId = e'.streamId) (hu : e.Uses d seed index) (hu' : e'.Uses d seed index) :
    e.sessionId = e'.sessionId := by
  obtain ⟨i, hi, rfl⟩ := List.mem_iff_getElem.mp he
  obtain ⟨j, hj, rfl⟩ := List.mem_iff_getElem.mp he'
  have hord := List.pairwise_iff_getElem.mp hs.ordered
  rcases lt_trichotomy i j with hij | rfl | hij
  · have hle := hord i j hi hj hij seed hid hu.1 hu'.1
    exact absurd (hu.2.2.trans_le hle) (not_lt.mpr hu'.2.1)
  · rfl
  · have hle := hord j i hj hi hij seed hid.symm hu'.1 hu.1
    exact absurd (hu'.2.2.trans_le hle) (not_lt.mpr hu.2.1)

section Sign

variable {sign : Item → SecretNonce → Share} {sessionId : SignSessionId}
  {coord : CoordNonceStreamState} {sessions : List Item} {nonceBatchSize : ℕ}

/-- What a request attempts uses no nonce that an event has used. -/
theorem Inv.attempt_unused (hd : d.NeverRepeats) {s : Store S Seed Share} (hs : s.Inv d)
    {a : SigningEvent Seed Share}
    (ha : s.slots.signingAttempt d sign sessionId coord sessions = some a)
    {e : SigningEvent Seed Share} (he : e ∈ s.signed) {seed : Seed} {index : ℕ}
    (hid : e.streamId = a.streamId) (hu : a.Uses d seed index) : ¬ e.Uses d seed index := by
  obtain ⟨⟨i, v⟩, ht, ha⟩ := Option.bind_eq_some_iff.mp ha
  obtain ⟨-, hv, -⟩ := AbSlots.target_eq_some ht
  obtain ⟨t, -, hline⟩ := hs.slot_lineage i v hv
  obtain ⟨hstream, -, hstart, haline⟩ := SecretNonceSlot.signingAttempt_spec hline ha
  obtain rfl := hu.1.eq hd haline
  intro hu'
  have hle := hs.spent i v seed hv hline e he (hid.trans hstream) hu'.1
  exact absurd (hu'.2.2.trans_le (hle.trans hstart)) (not_lt.mpr hu.2.1)

variable [DecidableEq Seed] [DecidableEq Share]

/-- A request that returns shares returns those of the last event on the lineage of the slot
that served it, and that event is for the session of the request. -/
theorem Inv.returned (hd : d.NeverRepeats) {s : Store S Seed Share} (hs : s.Inv d)
    (hfresh : s.FreshSeeds) {out : SignOutput Seed Nonce Share} {slots : AbSlots S}
    (h : s.slots.signGuaranteeingNoncesDestroyed d sign sessionId coord sessions nonceBatchSize
      = .ret (.ok (out, slots))) :
    ∃ seed e, (coord.streamId, seed) ∈ s.drawn ∧
      LastOn d (s.step d sign (.sign sessionId coord sessions nonceBatchSize)).signed
        coord.streamId seed e ∧ e.sessionId = sessionId ∧ out.1 = e.shares := by
  have hs' : (s.step d sign (.sign sessionId coord sessions nonceBatchSize)).Inv d :=
    step_inv hd s _ hfresh hs
  cases ht : s.slots.target coord.streamId with
  | none =>
      have hget : s.slots.get coord.streamId = none := AbSlots.get_eq_none ht
      simp only [AbSlots.signGuaranteeingNoncesDestroyed, hget, Option.bind_none] at h
      cases h
  | some p =>
      obtain ⟨i, v⟩ := p
      obtain ⟨-, hv, hid⟩ := AbSlots.target_eq_some ht
      obtain ⟨seed, hdrawn, hline⟩ := hs.slot_lineage i v hv
      have hvalue : (s.step d sign (.sign sessionId coord sessions nonceBatchSize)).slots.value i
          = slots.value i := by
        simp only [step, h]
      have heq := h
      rw [AbSlots.sign_eq ht] at h
      obtain ⟨r, hw, h⟩ := Exec.bind_eq_ret_iff.mp h
      rcases r with err | w
      · cases h
      · obtain ⟨st, hst, h⟩ := Exec.bind_eq_ret_iff.mp h
        obtain ⟨job, -, h⟩ := Exec.bind_eq_ret_iff.mp h
        cases h
        rw [Exec.expect_eq_ret_iff] at hst
        rw [AbSlots.value_slotsLeft] at hvalue
        simp only [AbSlots.signingWrite, ht, Option.bind_some, hw, if_true] at hvalue
        have hkeep : w.nonceStreamId = v.nonceStreamId ∧ w.OnLineage d seed ∧
            st.sessionId = sessionId := by
          rcases SecretNonceSlot.withSignatures_cases d sign sessionId coord
            s.slots.nextLastUsed sessions hline with
            ⟨hc, -, hw'⟩ | ⟨-, hw'⟩ | ⟨e, w', -, hw', hwid, hst', -, -, hwline, -⟩
          · rw [hw] at hw'
            cases hw'
            exact ⟨rfl, hline, by simpa [SecretNonceSlot.IsCached, hst] using hc⟩
          · exact absurd hw (hw' w)
          · rw [hw] at hw'
            cases hw'
            rw [hst] at hst'
            cases hst'
            exact ⟨hwid, hwline, rfl⟩
        obtain ⟨hwid, hwline, hsid⟩ := hkeep
        obtain ⟨e, hlast, heid, heshares⟩ := hs'.cached i w seed st hvalue hwline hst
        refine ⟨seed, e, by rwa [← hid], ?_, heid.trans hsid, heshares.symm⟩
        rwa [hwid, hid] at hlast

/-- A request for a session that its slot caches signs nothing, is not refused, and returns
the cached shares: those of the last event on the lineage of the slot. -/
theorem Inv.repeated {s : Store S Seed Share} (hs : s.Inv d) {i : ℕ}
    {v : SecretNonceSlot Seed Share} (ht : s.slots.target coord.streamId = some (i, v))
    (hc : v.IsCached sessionId) :
    s.slots.signingAttempt d sign sessionId coord sessions = none ∧
    ∃ seed e, v.OnLineage d seed ∧ LastOn d s.signed coord.streamId seed e ∧
      e.sessionId = sessionId ∧
      s.slots.signGuaranteeingNoncesDestroyed d sign sessionId coord sessions nonceBatchSize
        = (do
          let job ← v.reconcileCoordNonceStreamState coord nonceBatchSize
          return .ok ((e.shares, job),
            { slots := s.slots.slotsLeft d sign sessionId coord sessions
              lastUsed := s.slots.nextLastUsed })) := by
  obtain ⟨-, hv, hid⟩ := AbSlots.target_eq_some ht
  obtain ⟨seed, -, hline⟩ := hs.slot_lineage i v hv
  refine ⟨?_, ?_⟩
  · simp only [AbSlots.signingAttempt, ht, Option.bind_some]
    exact if_pos (.inl hc)
  · obtain ⟨st, hst, hsid⟩ := Option.map_eq_some_iff.mp hc
    obtain ⟨e, hlast, heid, heshares⟩ := hs.cached i v seed st hv hline hst
    have hw : v.withSignatures d sign sessionId coord s.slots.nextLastUsed sessions
        = .ret (.ok v) := if_pos hc
    refine ⟨seed, e, hline, by rwa [hid] at hlast, heid.trans hsid, ?_⟩
    rw [AbSlots.sign_eq ht, hw, heshares]
    simp only [Exec.ret_bind, hst, Exec.expect_some]

end Sign

end Store

/-- The nonce safety of a device between two moments of its life. -/
structure NonceSafety [DecidableEq Seed] [DecidableEq Share]
    (d : NonceDerivation Seed SecretNonce Nonce) (sign : Item → SecretNonce → Share)
    (s s' : Store S Seed Share) : Prop where
  /-- no nonce has signed for two sessions -/
  one_session : ∀ e ∈ s'.signed, ∀ e' ∈ s'.signed, ∀ seed index, e.streamId = e'.streamId →
    e.Uses d seed index → e'.Uses d seed index → e.sessionId = e'.sessionId
  /-- a request, even one that runs out of nonces and panics, signs with unused nonces only -/
  attempt_unused : ∀ sessionId coord sessions a,
    s'.slots.signingAttempt d sign sessionId coord sessions = some a →
    ∀ e ∈ s'.signed, ∀ seed index, e.streamId = a.streamId → a.Uses d seed index →
      ¬ e.Uses d seed index
  /-- the index stored for a lineage has not gone back -/
  index_le : ∀ i j v w seed, s.slots.value i = some v → s'.slots.value j = some w →
    v.nonceStreamId = w.nonceStreamId → v.OnLineage d seed → w.OnLineage d seed →
    v.index ≤ w.index
  /-- shares that are returned are those of the last event on the lineage -/
  returned : ∀ sessionId coord sessions nonceBatchSize out slots,
    s'.slots.signGuaranteeingNoncesDestroyed d sign sessionId coord sessions nonceBatchSize
      = .ret (.ok (out, slots)) →
    ∃ seed e, (coord.streamId, seed) ∈ s'.drawn ∧
      Store.LastOn d (s'.step d sign (.sign sessionId coord sessions nonceBatchSize)).signed
        coord.streamId seed e ∧ e.sessionId = sessionId ∧ out.1 = e.shares
  /-- a request for a cached session signs nothing and returns the shares of that event -/
  repeated : ∀ sessionId coord sessions nonceBatchSize i v,
    s'.slots.target coord.streamId = some (i, v) → v.IsCached sessionId →
    s'.slots.signingAttempt d sign sessionId coord sessions = none ∧
    ∃ seed e, v.OnLineage d seed ∧ Store.LastOn d s'.signed coord.streamId seed e ∧
      e.sessionId = sessionId ∧
      s'.slots.signGuaranteeingNoncesDestroyed d sign sessionId coord sessions nonceBatchSize
        = (do
          let job ← v.reconcileCoordNonceStreamState coord nonceBatchSize
          return .ok ((e.shares, job),
            { slots := s'.slots.slotsLeft d sign sessionId coord sessions
              lastUsed := s'.slots.nextLastUsed }))

/-- **Nonce safety.** From a device whose slots are empty, over every run of operations with
every argument chosen by the coordinator, as long as the seeds drawn are distinct and the
ratchet never repeats one. -/
theorem slots_nonce_safety [DecidableEq Seed] [DecidableEq Share]
    (d : NonceDerivation Seed SecretNonce Nonce) (sign : Item → SecretNonce → Share)
    (hd : d.NeverRepeats) (slots : List S) (hslots : ∀ slot ∈ slots, readSlot slot = none)
    (ops₁ ops₂ : List (SlotOp Seed Item))
    (hfresh : (run (Store.step d sign) (Store.fresh slots) (ops₁ ++ ops₂)).FreshSeeds) :
    NonceSafety d sign (run (Store.step d sign) (Store.fresh slots) ops₁)
      (run (Store.step d sign) (Store.fresh slots) (ops₁ ++ ops₂)) := by
  rw [run_append] at hfresh ⊢
  have hs : (run (Store.step d sign) (Store.fresh slots) ops₁).Inv d :=
    Store.run_inv hd (Store.fresh_inv hslots) (run_backward Store.freshSeeds_of_step hfresh)
  have hadv := Store.run_advances hd hs hfresh
  have hs' := Store.run_inv hd hs hfresh
  constructor
  case one_session => exact fun e he e' he' seed index => hs'.unique he he'
  case attempt_unused => exact fun _ _ _ a ha e he seed index => hs'.attempt_unused hd ha he
  case returned => exact fun _ _ _ _ out slots h => hs'.returned hd hfresh h
  case repeated => exact fun _ _ _ _ i v ht hc => hs'.repeated ht hc
  case index_le =>
    intro i j v w seed hv hw hid hvline hwline
    obtain ⟨t, hmem, ht⟩ := hs.slot_lineage i v hv
    obtain rfl := hvline.eq hd ht
    obtain ⟨k, x, hx, hxid, hxline, hle⟩ := hadv.2 j w seed hw hwline (by rwa [← hid])
    obtain rfl := hs.apart k i x v seed hx hv (hxid.trans hid.symm) hxline hvline
    rw [hv] at hx
    cases hx
    exact hle

/-- A keystream over numbers: the next seed is the successor, the nonce is the seed. -/
def countingDerivation : NonceDerivation ℕ ℕ ℕ where
  deriveNonceSeed _ _ seed := seed
  keystream seed _ := (seed + 1, seed)
  publicNonce nonce := nonce

/-- Two slots serve three streams: a session is signed, repeated, refused once its nonces are
spent, and its slot is evicted. -/
theorem slots_nonce_safety_of_counting :
    NonceSafety countingDerivation (fun item nonce : ℕ => item + nonce)
      (run (Store.step countingDerivation fun item nonce : ℕ => item + nonce)
        (Store.fresh [MemoryNonceSlot.mk none, MemoryNonceSlot.mk none])
        [.getOrCreate 1 10, .sign 5 ⟨1, 0, 3⟩ [7, 8] 1])
      (run (Store.step countingDerivation fun item nonce : ℕ => item + nonce)
        (Store.fresh [MemoryNonceSlot.mk none, MemoryNonceSlot.mk none])
        ([.getOrCreate 1 10, .sign 5 ⟨1, 0, 3⟩ [7, 8] 1] ++
          [.sign 5 ⟨1, 0, 3⟩ [7, 8] 1, .sign 6 ⟨1, 1, 3⟩ [9] 1, .reboot, .getOrCreate 2 20,
            .getOrCreate 3 30, .reconcile ⟨3, 0, 0⟩ 4])) :=
  slots_nonce_safety countingDerivation _
    (fun _ _ _ _ h => Nat.succ.inj h) _ (by simp [NonceStreamSlot.readSlot]) _ _
    (by unfold Store.FreshSeeds; decide)

end Frostsnap
