import Frostsnap.Core.SlotChoice
import Mathlib.Data.Nat.Find

/-!
# One slot for each stream

`get_or_create` is meant to give a stream the slot that holds it, and another slot only when there
is none. Its one scan looks for the slot and for an empty one at once, and takes whichever comes
first. This module asks of which slots it does what it is meant to: they may be in any order, and
any of them may be empty or unreadable.

## Main results

* `AbSlots.getOrCreate_serves_iff`: it does exactly when there are slots and no empty one comes
  before the one that holds the stream.
-/

namespace Frostsnap

variable {Seed SecretNonce Nonce Share Item : Type} {S : Type} [NonceStreamSlot S Seed Share]

namespace AbSlots

/-- A stream is given the slot at a position: the one that holds it, as it was, or else one that is
initialised with it. No two slots come to hold one stream, and no other slot changes. -/
structure Serves (ab : AbSlots S) (streamId : NonceStreamId) (seed : Seed) (ab' : AbSlots S)
    (i : ℕ) : Prop where
  found : ∀ j v, ab.value j = some v → v.nonceStreamId = streamId →
    i = j ∧ ab'.value i = some v
  created : ab.Absent streamId → ab'.value i = some (.initial streamId ab.nextLastUsed seed)
  distinct : ab'.Distinct
  others : ∀ j, j ≠ i → ab'.value j = ab.value j

/-- The slot of a stream does not come after an empty one. -/
def ReachedFirst (ab : AbSlots S) (streamId : NonceStreamId) : Prop :=
  ∀ i j v, i < j → ab.value j = some v → v.nonceStreamId = streamId → ab.value i ≠ none

/-- What initialising a slot for a stream that no slot holds does. -/
theorem serves_initializeAt {ab : AbSlots S} (hdistinct : ab.Distinct) {streamId : NonceStreamId}
    (habsent : ab.Absent streamId) {i : ℕ} (hi : i ∈ ab.positions) (seed : Seed) :
    ab.Serves streamId seed (ab.tick.initializeAt i streamId ab.nextLastUsed seed) i where
  found j v hv hid := absurd hid (habsent j v hv)
  created _ := by
    rw [value_initializeAt, if_pos rfl, tick_slots,
      List.getElem?_eq_getElem (Finset.mem_range.1 hi), Option.map_some]
  distinct := hdistinct.initializeAt habsent i ab.nextLastUsed seed
  others j hne := by
    rw [value_initializeAt, if_neg (Ne.symm hne), tick_value]

/-- A stream that comes after an empty slot is put into the empty one as well. -/
theorem exists_getOrCreate_empty {ab : AbSlots S} (hdistinct : ab.Distinct)
    {streamId : NonceStreamId} {i j : ℕ} {v : SecretNonceSlot Seed Share} (hij : i < j)
    (hv : ab.value j = some v) (hid : v.nonceStreamId = streamId) (hempty : ab.value i = none)
    (seed : Seed) :
    ∃ k < j, ab.getOrCreate streamId seed =
      .ret (ab.tick.initializeAt k streamId ab.nextLastUsed seed, k) := by
  -- the first empty slot
  classical
  have hexists : ∃ k, ab.value k = none := ⟨i, hempty⟩
  have hle : Nat.find hexists ≤ i := Nat.find_min' hexists hempty
  have hj : j ∈ ab.positions := mem_positions_of_value hv
  refine ⟨Nat.find hexists, by omega, getOrCreate_empty ?_ (Nat.find_spec hexists) ?_ seed⟩
  · have hlt := Finset.mem_range.1 hj
    exact Finset.mem_range.2 (by omega)
  · intro k hk
    obtain ⟨w, hw⟩ := Option.ne_none_iff_exists'.1 (Nat.find_min hexists hk)
    refine ⟨w, hw, fun hsame => ?_⟩
    have hkj := hdistinct k j w v hw hv (hsame.trans hid.symm)
    omega

/-- **A stream is given its slot** exactly when there are slots, and no empty one comes before the
one that holds the stream. -/
theorem getOrCreate_serves_iff {ab : AbSlots S} (hdistinct : ab.Distinct)
    (streamId : NonceStreamId) (seed : Seed) :
    (∃ ab' i, ab.getOrCreate streamId seed = .ret (ab', i) ∧
      ab.Serves streamId seed ab' i) ↔
      ab.slots ≠ [] ∧ ab.ReachedFirst streamId := by
  constructor
  · rintro ⟨ab', i, hret, hserves⟩
    constructor
    · intro hnil
      have hpanic : ab.getOrCreate streamId seed = .panic "index out of bounds" := by
        simp only [getOrCreate, hnil, chooseSlot, List.length_nil, lt_irrefl, if_false]
      cases hpanic.symm.trans hret
    · intro k j v hkj hv hid hempty
      obtain ⟨k', hk', hcreated⟩ := exists_getOrCreate_empty hdistinct hkj hv hid hempty seed
      obtain ⟨-, rfl⟩ := Prod.mk.inj (Exec.ret.inj (hcreated.symm.trans hret))
      obtain ⟨rfl, -⟩ := hserves.found j v hv hid
      exact lt_irrefl _ hk'
  · rintro ⟨hslots, hfirst⟩
    cases hget : ab.get streamId with
    | none =>
        have habsent := absent_of_get hget
        have hpos : 0 < ab.slots.length := List.length_pos_iff.2 hslots
        have hnext := Finset.mem_range.2 (nextSlot_lt hpos)
        exact ⟨_, ab.nextSlot, getOrCreate_absent habsent hpos seed,
          serves_initializeAt hdistinct habsent hnext seed⟩
    | some i =>
        obtain ⟨v, hv, hid, hother⟩ := get_eq_some hget
        refine ⟨ab.tick, i, getOrCreate_found (mem_positions_of_value hv) hv hid ?_ seed, ?_⟩
        · intro j hj
          obtain ⟨w, hw⟩ := Option.ne_none_iff_exists'.1 (hfirst j i v hj hv hid)
          exact ⟨w, hw, hother j hj w hw⟩
        · constructor
          · intro j w hw hid'
            obtain rfl := hdistinct i j v w hv hw (hid.trans hid'.symm)
            exact ⟨rfl, hw⟩
          · exact fun habsent => absurd hid (habsent i v hv)
          · exact hdistinct
          · exact fun _ _ => rfl

end AbSlots

/-! ### Two slots -/

/-- Two slots in memory, of which the first is empty or holds another stream than the second. -/
def slotsWith (first : Option (SecretNonceSlot ℕ ℕ)) : AbSlots (MemoryNonceSlot ℕ ℕ) where
  slots := [⟨first⟩, ⟨some (.initial 1 1 5)⟩]
  lastUsed := 1

theorem slotsWith_distinct {first : Option (SecretNonceSlot ℕ ℕ)}
    (h : ∀ v ∈ first, v.nonceStreamId ≠ 1) : (slotsWith first).Distinct := by
  intro i j v w hv hw hid
  have hvalue : ∀ i v, (slotsWith first).value i = some v →
      i = 0 ∧ first = some v ∨ i = 1 ∧ v.nonceStreamId = 1 := by
    intro i v hv
    rcases i with _ | _ | i
    · exact .inl ⟨rfl, hv⟩
    · cases hv
      exact .inr ⟨rfl, rfl⟩
    · cases hv
  rcases hvalue i v hv with ⟨rfl, hfirst⟩ | ⟨rfl, hone⟩
  · rcases hvalue j w hw with ⟨rfl, -⟩ | ⟨rfl, hone⟩
    · rfl
    · exact absurd (hid.trans hone) (h v hfirst)
  · rcases hvalue j w hw with ⟨rfl, hfirst⟩ | ⟨rfl, -⟩
    · exact absurd (hid.symm.trans hone) (h w hfirst)
    · rfl

/-- A stream in the second of two slots is given that slot. -/
theorem getOrCreate_serves_second :
    ∃ ab' i, (slotsWith (some (.initial 2 0 3))).getOrCreate 1 7 = .ret (ab', i) ∧
      (slotsWith (some (.initial 2 0 3))).Serves 1 7 ab' i := by
  refine (AbSlots.getOrCreate_serves_iff (slotsWith_distinct ?_) 1 7).2 ⟨nofun, ?_⟩
  · rintro v ⟨⟩
    decide
  · intro i j v hij hv hid hempty
    rcases i with _ | _ | i
    · cases hempty
    · cases hempty
    · rcases j with _ | _ | j
      · omega
      · omega
      · cases hv

/-- The stream in the second slot is put into the first one too, when that is empty. -/
theorem getOrCreate_duplicates_stream :
    (slotsWith none).Distinct ∧
      ∃ ab', (slotsWith none).getOrCreate 1 7 = .ret (ab', 0) ∧
        (ab'.value 0).map SecretNonceSlot.nonceStreamId = some 1 ∧
        (ab'.value 1).map SecretNonceSlot.nonceStreamId = some 1 :=
  ⟨slotsWith_distinct nofun, _, rfl, rfl, rfl⟩

end Frostsnap
