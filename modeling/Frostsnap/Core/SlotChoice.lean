import Frostsnap.Core.NonceSafety
import Frostsnap.Lib.Lowest

/-!
# The slot a stream is put in

`get_or_create` finds the slot of a stream, or takes the first empty slot, or with none left the
one that was used least recently. Slots are given away by their `key`: empty ones first and then by
their stamp, from the front among equals.

## Main results

* `AbSlots.getOrCreate_found`, `getOrCreate_empty` and `getOrCreate_absent`: the slot of a stream,
  by what the slots before it hold.
* `Store.run_ordinary`: whatever a device has done, its slots are filled from the front and no two
  of them hold one stream.
-/

namespace Frostsnap

variable {Seed SecretNonce Nonce Share Item : Type} {S : Type} [NonceStreamSlot S Seed Share]

/-! ### Where a stream is put -/

/-- When a slot is given away: empty slots first, and then by their stamp. -/
def slotAge (slot : S) : ℕ :=
  match readSlot slot with
  | none => 0
  | some v => v.lastUsed + 1

namespace AbSlots

/-- The age of the slot at a position. -/
def age (ab : AbSlots S) (i : ℕ) : ℕ :=
  match ab.value i with
  | none => 0
  | some v => v.lastUsed + 1

/-- What slots are given away by. The search starts from the largest `u32`, so that stamps from
there on are not told apart. -/
def key (ab : AbSlots S) (i : ℕ) : ℕ := min (ab.age i) (u32Max + 1)

/-- The slot that is given away next. -/
def nextSlot (ab : AbSlots S) : ℕ := firstLowest ab.key ab.slots.length

/-- The positions of the slots. -/
def positions (ab : AbSlots S) : Finset ℕ := Finset.range ab.slots.length

/-- No slot holds the stream. -/
def Absent (ab : AbSlots S) (streamId : NonceStreamId) : Prop :=
  ∀ i v, ab.value i = some v → v.nonceStreamId ≠ streamId

/-- No two slots hold one stream. -/
def Distinct (ab : AbSlots S) : Prop :=
  ∀ i j v w, ab.value i = some v → ab.value j = some w →
    v.nonceStreamId = w.nonceStreamId → i = j

theorem age_eq (ab : AbSlots S) {i : ℕ} {slot : S} (h : ab.slots[i]? = some slot) :
    ab.age i = slotAge slot := by
  simp only [age, value, h, Option.bind_some, slotAge]

end AbSlots

/-- The search passes the slots of other streams. -/
theorem chooseSlot_skip (streamId : NonceStreamId) {slots : List S} {k : ℕ}
    (hbefore : ∀ j < k, ∃ v, slots[j]?.bind readSlot = some v ∧ v.nonceStreamId ≠ streamId)
    (i low idx : ℕ) : ∃ low' idx', chooseSlot streamId slots i low idx =
      chooseSlot streamId (slots.drop k) (i + k) low' idx' := by
  induction k generalizing slots i low idx with
  | zero => exact ⟨low, idx, rfl⟩
  | succ k ih =>
      obtain ⟨v, hv, hid⟩ := hbefore 0 k.succ_pos
      cases slots with
      | nil => cases hv
      | cons slot rest =>
          simp only [List.getElem?_cons_zero, Option.bind_some] at hv
          have hrest : ∀ low idx, ∃ low' idx', chooseSlot streamId rest (i + 1) low idx =
              chooseSlot streamId (rest.drop k) (i + (k + 1)) low' idx' := by
            intro low idx
            have hj : ∀ j < k, ∃ v, rest[j]?.bind readSlot = some v ∧ v.nonceStreamId ≠ streamId :=
              fun j hj => by simpa using hbefore (j + 1) (by omega)
            obtain ⟨low', idx', h⟩ := ih hj (i + 1) low idx
            exact ⟨low', idx', by rw [h, Nat.add_right_comm, Nat.add_assoc]⟩
          simp only [chooseSlot, hv, if_neg hid, List.drop_succ_cons]
          split
          · exact hrest _ _
          · exact hrest _ _

/-- A stream that no slot holds gets the first slot of the lowest age, or the one the search
started from when no slot is older than that. -/
theorem chooseSlot_absent (streamId : NonceStreamId) {slots : List S}
    (habsent : ∀ slot ∈ slots, ∀ v, readSlot slot = some v → v.nonceStreamId ≠ streamId)
    (i low idx : ℕ) :
    ∃ k, (chooseSlot streamId slots i low idx = .empty k ∧ i ≤ k ∧ k < i + slots.length ∨
        chooseSlot streamId slots i low idx = .evict k) ∧
      ((k = idx ∧ ∀ slot ∈ slots, low < slotAge slot) ∨
        ∃ j slot, k = i + j ∧ slots[j]? = some slot ∧ slotAge slot ≤ low ∧
          ∀ j' slot', slots[j']? = some slot' →
            slotAge slot < slotAge slot' ∨ (slotAge slot = slotAge slot' ∧ j ≤ j')) := by
  induction slots generalizing i low idx with
  | nil => exact ⟨idx, .inr rfl, .inl ⟨rfl, fun _ h => by cases h⟩⟩
  | cons slot rest ih =>
      have ih := ih fun slot hslot => habsent slot (List.mem_cons_of_mem _ hslot)
      cases hv : readSlot slot with
      | none =>
          have hage : slotAge slot = 0 := by simp only [slotAge, hv]
          refine ⟨i, .inl ⟨by simp only [chooseSlot, hv], le_rfl, by simp⟩,
            .inr ⟨0, slot, rfl, rfl, by omega, fun j' slot' _ => by omega⟩⟩
      | some v =>
          have hage : slotAge slot = v.lastUsed + 1 := by simp only [slotAge, hv]
          have hid := habsent slot List.mem_cons_self v hv
          by_cases hlow : v.lastUsed < low
          · -- the head is the lowest so far
            obtain ⟨k, hchoose, hk⟩ := ih (i + 1) v.lastUsed i
            refine ⟨k, ?_, .inr ?_⟩
            · simp only [chooseSlot, hv, if_neg hid, if_pos hlow]
              refine hchoose.imp_left fun h => ⟨h.1, by omega, ?_⟩
              rw [List.length_cons]
              omega
            · obtain ⟨rfl, hrest⟩ | ⟨j, slot', rfl, hj, hle, hrest⟩ := hk
              · refine ⟨0, slot, rfl, rfl, by omega, fun j' slot' hj' => ?_⟩
                cases j' with
                | zero =>
                    cases hj'
                    exact .inr ⟨rfl, le_rfl⟩
                | succ j' =>
                    have := hrest slot' (List.mem_of_getElem? hj')
                    omega
              · refine ⟨j + 1, slot', by omega, hj, by omega, fun j' slot'' hj' => ?_⟩
                cases j' with
                | zero =>
                    cases hj'
                    omega
                | succ j' =>
                    have := hrest j' slot'' hj'
                    omega
          · -- the head is not older than what the search came with
            obtain ⟨k, hchoose, hk⟩ := ih (i + 1) low idx
            refine ⟨k, ?_, ?_⟩
            · simp only [chooseSlot, hv, if_neg hid, if_neg hlow]
              refine hchoose.imp_left fun h => ⟨h.1, by omega, ?_⟩
              rw [List.length_cons]
              omega
            · obtain ⟨rfl, hrest⟩ | ⟨j, slot', rfl, hj, hle, hrest⟩ := hk
              · refine .inl ⟨rfl, fun slot' hslot' => ?_⟩
                rcases List.mem_cons.mp hslot' with rfl | hslot'
                · omega
                · exact hrest slot' hslot'
              · refine .inr ⟨j + 1, slot', by omega, hj, hle, fun j' slot'' hj' => ?_⟩
                cases j' with
                | zero =>
                    cases hj'
                    omega
                | succ j' =>
                    have := hrest j' slot'' hj'
                    omega

namespace AbSlots

/-- The clock one tick on. -/
def tick (ab : AbSlots S) : AbSlots S := { ab with lastUsed := ab.nextLastUsed }

@[simp] theorem tick_slots (ab : AbSlots S) : ab.tick.slots = ab.slots := rfl

@[simp] theorem tick_value (ab : AbSlots S) (i : ℕ) : ab.tick.value i = ab.value i := rfl

@[simp] theorem initializeAt_length (ab : AbSlots S) (i : ℕ) (streamId : NonceStreamId)
    (lastUsed : ℕ) (seed : Seed) :
    (ab.initializeAt i streamId lastUsed seed).slots.length = ab.slots.length := by
  simp [initializeAt]

theorem age_eq_zero_iff {ab : AbSlots S} {i : ℕ} : ab.age i = 0 ↔ ab.value i = none := by
  unfold age
  cases ab.value i <;> simp

theorem age_of_value {ab : AbSlots S} {i : ℕ} {v : SecretNonceSlot Seed Share}
    (h : ab.value i = some v) : ab.age i = v.lastUsed + 1 := by
  simp only [age, h]

theorem age_congr {ab ab' : AbSlots S} {i : ℕ} (h : ab.value i = ab'.value i) :
    ab.age i = ab'.age i := by
  simp only [age, h]

theorem mem_positions_of_value {ab : AbSlots S} {i : ℕ} {v : SecretNonceSlot Seed Share}
    (h : ab.value i = some v) : i ∈ ab.positions := by
  obtain ⟨slot, hslot, -⟩ := Option.bind_eq_some_iff.mp h
  exact Finset.mem_range.mpr (List.getElem?_eq_some_iff.mp hslot).1

/-- What `get` finds holds the stream, and no slot before it does. -/
theorem get_eq_some {ab : AbSlots S} {streamId : NonceStreamId} {i : ℕ}
    (h : ab.get streamId = some i) :
    ∃ v, ab.value i = some v ∧ v.nonceStreamId = streamId ∧
      ∀ j < i, ∀ w, ab.value j = some w → w.nonceStreamId ≠ streamId := by
  obtain ⟨slot, v, hslot, hv, ht⟩ := target_of_get h
  refine ⟨v, (target_eq_some ht).2.1, (target_eq_some ht).2.2, fun j hj w hw hid => ?_⟩
  obtain ⟨_, _, hbefore⟩ := List.findIdx?_eq_some_iff_getElem.mp h
  obtain ⟨slot', hslot', hread⟩ := Option.bind_eq_some_iff.mp hw
  obtain ⟨hlt, rfl⟩ := List.getElem?_eq_some_iff.mp hslot'
  exact hbefore j hj (by simp [hread, hid])

/-- A stream that `get` does not find is in no slot. -/
theorem absent_of_get {ab : AbSlots S} {streamId : NonceStreamId}
    (h : ab.get streamId = none) : ab.Absent streamId := by
  intro i v hv hid
  obtain ⟨slot, hslot, hread⟩ := Option.bind_eq_some_iff.mp hv
  have := List.findIdx?_eq_none_iff.mp h slot (List.mem_of_getElem? hslot)
  simp [hread, hid] at this

/-- The search reaches the slot at `i` when the ones before it hold other streams. -/
theorem chooseSlot_reaches {ab : AbSlots S} {streamId : NonceStreamId} {i : ℕ}
    (hi : i ∈ ab.positions)
    (hbefore : ∀ j < i, ∃ v, ab.value j = some v ∧ v.nonceStreamId ≠ streamId) :
    ∃ (slot : S) (rest : List S) (low idx : ℕ), ab.value i = readSlot slot ∧
      chooseSlot streamId ab.slots 0 u32Max 0 = chooseSlot streamId (slot :: rest) i low idx := by
  have hlt : i < ab.slots.length := Finset.mem_range.mp hi
  obtain ⟨low, idx, h⟩ := chooseSlot_skip streamId hbefore 0 u32Max 0
  refine ⟨ab.slots[i], ab.slots.drop (i + 1), low, idx, ?_, ?_⟩
  · simp only [value, List.getElem?_eq_getElem hlt, Option.bind_some]
  · rw [h, List.drop_eq_getElem_cons hlt, Nat.zero_add]

/-- **A stream that is in a slot** keeps it when the slots before it hold other streams. -/
theorem getOrCreate_found {ab : AbSlots S} {streamId : NonceStreamId} {i : ℕ}
    {v : SecretNonceSlot Seed Share} (hi : i ∈ ab.positions) (hv : ab.value i = some v)
    (hid : v.nonceStreamId = streamId)
    (hbefore : ∀ j < i, ∃ v, ab.value j = some v ∧ v.nonceStreamId ≠ streamId) (seed : Seed) :
    ab.getOrCreate streamId seed = .ret (ab.tick, i) := by
  obtain ⟨slot, rest, low, idx, hread, h⟩ := chooseSlot_reaches hi hbefore
  rw [hv] at hread
  have hchoose : chooseSlot streamId ab.slots 0 u32Max 0 = .found i := by
    simp only [h, chooseSlot, ← hread, hid, if_true]
  simp only [getOrCreate, hchoose, tick]

/-- **A stream that is in no slot before the first empty one** is put there, also when a slot
after it holds the stream. -/
theorem getOrCreate_empty {ab : AbSlots S} {streamId : NonceStreamId} {i : ℕ}
    (hi : i ∈ ab.positions) (hempty : ab.value i = none)
    (hbefore : ∀ j < i, ∃ v, ab.value j = some v ∧ v.nonceStreamId ≠ streamId) (seed : Seed) :
    ab.getOrCreate streamId seed =
      .ret (ab.tick.initializeAt i streamId ab.nextLastUsed seed, i) := by
  obtain ⟨slot, rest, low, idx, hread, h⟩ := chooseSlot_reaches hi hbefore
  rw [hempty] at hread
  have hchoose : chooseSlot streamId ab.slots 0 u32Max 0 = .empty i := by
    simp only [h, chooseSlot, ← hread]
  simp only [getOrCreate, hchoose, tick]

/-- The slots of a store that a stream is absent from. -/
theorem Absent.slots {ab : AbSlots S} {streamId : NonceStreamId} (h : ab.Absent streamId) :
    ∀ slot ∈ ab.slots, ∀ v, readSlot slot = some v → v.nonceStreamId ≠ streamId := by
  intro slot hslot v hv
  obtain ⟨i, hi⟩ := List.getElem?_of_mem hslot
  exact h i v (by simp only [value, hi, Option.bind_some, hv])

/-- **A stream the device does not have** takes the slot that is given away next. -/
theorem getOrCreate_absent {ab : AbSlots S} {streamId : NonceStreamId} (h : ab.Absent streamId)
    (hslots : 0 < ab.slots.length) (seed : Seed) :
    ab.getOrCreate streamId seed =
      .ret (ab.tick.initializeAt ab.nextSlot streamId ab.nextLastUsed seed, ab.nextSlot) := by
  obtain ⟨k, hchoose, hk⟩ := chooseSlot_absent streamId h.slots 0 u32Max 0
  have hslot : ∀ j < ab.slots.length, ∃ slot, ab.slots[j]? = some slot := fun j hj =>
    ⟨_, List.getElem?_eq_getElem hj⟩
  have hnext : k < ab.slots.length ∧ k = ab.nextSlot := by
    obtain ⟨rfl, hall⟩ | ⟨j, slot, rfl, hj, hle, hall⟩ := hk
    · -- every slot has the largest stamp
      refine ⟨hslots, eq_firstLowest hslots fun j hj hne => ?_⟩
      obtain ⟨slot, hjslot⟩ := hslot j hj
      obtain ⟨first, hfirst⟩ := hslot 0 hslots
      have hj := hall slot (List.mem_of_getElem? hjslot)
      have h0 := hall first (List.mem_of_getElem? hfirst)
      unfold KeyBefore key
      rw [ab.age_eq hjslot, ab.age_eq hfirst]
      omega
    · rw [Nat.zero_add]
      have hlt := (List.getElem?_eq_some_iff.mp hj).1
      refine ⟨hlt, eq_firstLowest hlt fun j' hj' hne => ?_⟩
      obtain ⟨slot', hslot'⟩ := hslot j' hj'
      have hlow := hall j' slot' hslot'
      unfold KeyBefore key
      rw [ab.age_eq hj, ab.age_eq hslot']
      omega
  obtain ⟨hlt, rfl⟩ := hnext
  rcases hchoose with ⟨hchoose, -, -⟩ | hchoose
  · simp only [getOrCreate, hchoose, tick]
  · simp only [getOrCreate, hchoose, tick]
    rw [if_pos hlt]

theorem nextSlot_lt {ab : AbSlots S} (hslots : 0 < ab.slots.length) :
    ab.nextSlot < ab.slots.length :=
  firstLowest_lt ab.key hslots

/-- With an empty slot left, the first one is given away next. -/
theorem eq_nextSlot_of_empty {ab : AbSlots S} {i : ℕ} (hi : i < ab.slots.length)
    (hempty : ab.value i = none) (hbefore : ∀ j < i, ab.value j ≠ none) : i = ab.nextSlot := by
  refine eq_firstLowest hi fun j _ hne => ?_
  have hzero := age_eq_zero_iff.mpr hempty
  have hfull (hj : j < i) : ab.age j ≠ 0 := fun hage => hbefore j hj (age_eq_zero_iff.mp hage)
  unfold KeyBefore key
  rw [hzero]
  by_cases hj : j < i
  · have := hfull hj
    omega
  · omega

end AbSlots

/-! ### The stores that a device has -/

namespace AbSlots

/-- What holds of the slots of a device: no stream is in two of them, and they are filled from the
front. -/
structure Ordinary (ab : AbSlots S) : Prop where
  distinct : ab.Distinct
  packed : ∀ i j, i < j → ab.value i = none → ab.value j = none

/-- Loading the slots sets the clock to the newest stamp. -/
theorem new_stamped (slots : List S) {i : ℕ} {v : SecretNonceSlot Seed Share}
    (h : (AbSlots.new slots).value i = some v) : v.lastUsed ≤ (AbSlots.new slots).lastUsed := by
  obtain ⟨slot, hslot, hread⟩ := Option.bind_eq_some_iff.mp h
  have hmem : v.lastUsed ∈ slots.filterMap fun slot => (readSlot slot).map (·.lastUsed) :=
    List.mem_filterMap.mpr ⟨slot, List.mem_of_getElem? hslot, by rw [hread]; rfl⟩
  simp only [AbSlots.new]
  rw [List.foldl_max_eq_max (List.ne_nil_of_mem hmem)]
  exact (List.le_max_of_mem hmem).trans (le_max_right _ _)

/-- A slot is initialised with a stream that no slot holds. -/
theorem Distinct.initializeAt {ab : AbSlots S} (h : ab.Distinct) {streamId : NonceStreamId}
    (habsent : ab.Absent streamId) (k lastUsed : ℕ) (seed : Seed) :
    (ab.tick.initializeAt k streamId lastUsed seed).Distinct := by
  have hvalue : ∀ j v, (ab.tick.initializeAt k streamId lastUsed seed).value j = some v →
      (k = j ∧ v.nonceStreamId = streamId) ∨ ab.value j = some v := by
    intro j v hv
    rw [value_initializeAt] at hv
    split at hv
    · rename_i hkj
      obtain ⟨_, -, rfl⟩ := Option.map_eq_some_iff.mp hv
      exact .inl ⟨hkj, rfl⟩
    · exact .inr hv
  intro i j v w hv hw hid
  rcases hvalue i v hv with ⟨hki, hvid⟩ | hvold <;>
    rcases hvalue j w hw with ⟨hkj, hwid⟩ | hwold
  · rw [← hki, ← hkj]
  · exact absurd (hid.symm.trans hvid) (habsent j w hwold)
  · exact absurd (hid.trans hwid) (habsent i v hvold)
  · exact h i j v w hvold hwold hid

/-- Only the values of the slots matter. -/
theorem Ordinary.congr {ab ab' : AbSlots S} (h : ab.Ordinary)
    (hvalue : ∀ i, ab'.value i = ab.value i) : ab'.Ordinary where
  distinct i j v w hv hw := h.distinct i j v w (hvalue i ▸ hv) (hvalue j ▸ hw)
  packed i j hij hi := by
    rw [hvalue] at hi ⊢
    exact h.packed i j hij hi

/-- Slots that have never been written. -/
theorem Ordinary.new {slots : List S} (h : ∀ slot ∈ slots, readSlot slot = none) :
    (AbSlots.new slots).Ordinary := by
  have hnone : ∀ i, (AbSlots.new slots).value i = none := by
    intro i
    refine Option.bind_eq_none_iff.mpr fun slot hslot => ?_
    exact h slot (List.mem_of_getElem? hslot)
  constructor
  · intro i j v w hv
    rw [hnone] at hv
    cases hv
  · exact fun i j _ _ => hnone j

/-- The search for the slot of a stream keeps the order of the slots. -/
theorem Ordinary.getOrCreate {ab ab' : AbSlots S} (hord : ab.Ordinary)
    {streamId : NonceStreamId} {seed : Seed} {i : ℕ}
    (h : ab.getOrCreate streamId seed = .ret (ab', i)) : ab'.Ordinary := by
  cases hget : ab.get streamId with
  | some p =>
      obtain ⟨v, hv, hid, hfirst⟩ := get_eq_some hget
      have hbefore : ∀ j < p, ∃ u, ab.value j = some u ∧ u.nonceStreamId ≠ streamId := by
        intro j hj
        cases hu : ab.value j with
        | none =>
            rw [hord.packed j p hj hu] at hv
            cases hv
        | some u => exact ⟨u, rfl, hfirst j hj u hu⟩
      rw [getOrCreate_found (mem_positions_of_value hv) hv hid hbefore] at h
      cases h
      exact hord.congr fun _ => rfl
  | none =>
      have habsent := absent_of_get hget
      have hslots : 0 < ab.slots.length := by
        refine List.length_pos_iff.mpr fun hnil => ?_
        simp only [AbSlots.getOrCreate, hnil, chooseSlot, List.length_nil, lt_irrefl, if_false] at h
        cases h
      rw [getOrCreate_absent habsent hslots] at h
      cases h
      constructor
      case distinct => exact hord.distinct.initializeAt habsent _ _ seed
      case packed =>
        intro p q hpq hp
        rw [value_initializeAt] at hp ⊢
        by_cases hlt : p < ab.slots.length
        · have hne : ab.nextSlot ≠ p := by
            intro heq
            rw [if_pos heq, tick_slots, List.getElem?_eq_getElem hlt] at hp
            cases hp
          rw [if_neg hne, tick_value] at hp
          -- an empty slot that is given away later comes after the next one
          have hbefore := keyBefore_firstLowest ab.key hlt (Ne.symm hne)
          have hzero : ab.key p = 0 := by
            rw [key, age_eq_zero_iff.mpr hp]
            rfl
          have hnq : ab.nextSlot ≠ q := by
            unfold KeyBefore at hbefore
            unfold nextSlot
            omega
          rw [if_neg hnq]
          exact hord.packed p q hpq hp
        · have hnone : ab.slots[q]? = none := List.getElem?_eq_none (by omega)
          simp only [tick_slots, hnone, Option.map_none, value, Option.bind_none, ite_self]

end AbSlots

/-- Signing does not change the stream of a slot. -/
theorem SecretNonceSlot.withSignatures_streamId {d : NonceDerivation Seed SecretNonce Nonce}
    {sign : Item → SecretNonce → Share} {v w : SecretNonceSlot Seed Share}
    {sessionId : SignSessionId} {coord : CoordNonceStreamState} {lastUsed : ℕ}
    {sessions : List Item}
    (h : v.withSignatures d sign sessionId coord lastUsed sessions = .ret (.ok w)) :
    w.nonceStreamId = v.nonceStreamId := by
  simp only [withSignatures] at h
  split at h
  · cases h
    rfl
  split at h
  · cases h
  split at h
  · cases h
  split at h
  · cases h
  · cases h
    rfl

namespace AbSlots

/-- A signing request keeps the order of the slots: it writes the slot of its stream. -/
theorem Ordinary.slotsLeft {ab : AbSlots S} (hord : ab.Ordinary)
    (d : NonceDerivation Seed SecretNonce Nonce) (sign : Item → SecretNonce → Share)
    (sessionId : SignSessionId) (coord : CoordNonceStreamState) (sessions : List Item)
    (lastUsed : ℕ) :
    (AbSlots.mk (ab.slotsLeft d sign sessionId coord sessions) lastUsed).Ordinary := by
  cases hw : ab.signingWrite d sign sessionId coord sessions with
  | none => exact hord.congr fun j => by rw [value_slotsLeft, hw]
  | some p =>
      obtain ⟨k, w⟩ := p
      obtain ⟨v, hv, hid⟩ : ∃ v, ab.value k = some v ∧ w.nonceStreamId = v.nonceStreamId := by
        obtain ⟨⟨k', v⟩, htarget, hwrite⟩ := Option.bind_eq_some_iff.mp hw
        split at hwrite
        · rename_i hsigned
          cases hwrite
          exact ⟨v, (target_eq_some htarget).2.1, SecretNonceSlot.withSignatures_streamId hsigned⟩
        · cases hwrite
      constructor
      case distinct =>
        have hvalue : ∀ j u, (AbSlots.mk (ab.slotsLeft d sign sessionId coord sessions)
            lastUsed).value j = some u → ∃ u', ab.value j = some u' ∧
              u'.nonceStreamId = u.nonceStreamId := by
          intro j u hu
          rw [value_slotsLeft, hw] at hu
          simp only at hu
          split at hu
          · rename_i hkj
            cases hu
            exact ⟨v, hkj ▸ hv, hid.symm⟩
          · exact ⟨u, hu, rfl⟩
        intro i j u u' hu hu' huid
        obtain ⟨x, hx, hxid⟩ := hvalue i u hu
        obtain ⟨y, hy, hyid⟩ := hvalue j u' hu'
        exact hord.distinct i j x y hx hy (hxid.trans (huid.trans hyid.symm))
      case packed =>
        intro i j hij hi
        rw [value_slotsLeft, hw] at hi ⊢
        simp only at hi ⊢
        split at hi
        · cases hi
        · have hj := hord.packed i j hij hi
          rw [if_neg (fun hkj => by rw [← hkj, hv] at hj; cases hj)]
          exact hj

end AbSlots

/-- **Every operation on the slots keeps a store ordinary.** -/
theorem Store.step_ordinary [DecidableEq Seed] [DecidableEq Share]
    (d : NonceDerivation Seed SecretNonce Nonce) (sign : Item → SecretNonce → Share)
    {s : Store S Seed Share} (hs : s.slots.Ordinary) (op : SlotOp Seed Item) :
    (s.step d sign op).slots.Ordinary := by
  have hnew : (AbSlots.new s.slots.slots).Ordinary := hs.congr fun _ => rfl
  cases op with
  | getOrCreate streamId seed =>
      simp only [step]
      cases hget : s.slots.getOrCreate streamId seed with
      | panic msg => exact hnew
      | ret p => exact hs.getOrCreate hget
  | reconcile state nonceBatchSize =>
      simp only [step]
      split
      · exact hs
      · exact hnew
  | reboot => exact hnew
  | sign sessionId coord sessions nonceBatchSize =>
      have hleft := hs.slotsLeft d sign sessionId coord sessions
      simp only [step]
      cases hsign : s.slots.signGuaranteeingNoncesDestroyed d sign sessionId coord sessions
        nonceBatchSize with
      | panic msg => exact (hleft 0).congr fun _ => rfl
      | ret r =>
          cases r with
          | error err => exact hs
          | ok p => exact (hleft s.slots.lastUsed).congr (AbSlots.sign_slots hsign)

/-- **Every store a device reaches is ordinary**, from slots that have never been written. -/
theorem Store.run_ordinary [DecidableEq Seed] [DecidableEq Share]
    (d : NonceDerivation Seed SecretNonce Nonce) (sign : Item → SecretNonce → Share)
    {slots : List S} (h : ∀ slot ∈ slots, readSlot slot = none) (ops : List (SlotOp Seed Item)) :
    (run (Store.step d sign) (Store.fresh slots) ops).slots.Ordinary := by
  have hstart : (Store.fresh slots : Store S Seed Share).slots.Ordinary := AbSlots.Ordinary.new h
  exact @run_invariant _ _ (Store.step d sign) (fun s => s.slots.Ordinary) (fun _ => True)
    (fun _ _ _ => trivial) (fun _ op _ hs => Store.step_ordinary d sign hs op) _ ops trivial hstart

end Frostsnap
