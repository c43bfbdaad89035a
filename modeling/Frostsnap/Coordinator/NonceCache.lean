import Frostsnap.Core.FrostLib

/-!
# The nonce cache of the coordinator

For each device the public nonces of its streams that the coordinator has not used yet. This
module embeds `coord_nonces.rs`.

## Main results

* `NonceCache.extendSegment_cases`: what a segment of a device does to the cache.
-/

namespace Frostsnap

/-- A segment of public nonces. -/
abbrev NonceSegment := NonceStreamSegment Binonce

/-- The streams of a device. -/
abbrev DeviceStreams := BTreeMap NonceStreamId NonceSegment

/-- The public nonces that the coordinator has of every device. -/
structure NonceCache where
  byDevice : BTreeMap DeviceId DeviceStreams

/-- The streams of a device do not have the nonces for a signing session. -/
structure NotEnoughNonces where
  deviceId : DeviceId
  available : ℕ
  need : ℕ
  deriving DecidableEq

namespace NonceCache

/-- The streams of a device. -/
def streams (cache : NonceCache) (deviceId : DeviceId) : DeviceStreams :=
  cache.byDevice[deviceId]?.getD ∅

/-- The segment of a stream. -/
def segment? (cache : NonceCache) (deviceId : DeviceId) (streamId : NonceStreamId) :
    Option NonceSegment :=
  (cache.streams deviceId)[streamId]?

/-- Replace the segment of a stream. -/
def setSegment (cache : NonceCache) (deviceId : DeviceId) (streamId : NonceStreamId)
    (segment : NonceSegment) : NonceCache where
  byDevice := cache.byDevice.insert deviceId ((cache.streams deviceId).insert streamId segment)

/-- The segment a stream starts with. -/
def emptySegment (streamId : NonceStreamId) : NonceSegment where
  streamId := streamId
  nonces := []
  index := 0

/-- The segment of a stream, which is empty when there is none. -/
def ownSegment (cache : NonceCache) (deviceId : DeviceId) (streamId : NonceStreamId) :
    NonceSegment :=
  (cache.segment? deviceId streamId).getD (emptySegment streamId)

variable [Build]

/-- Extend the segment of a stream, which is created when there is none, and say whether it
changed. -/
def extendSegment (cache : NonceCache) (deviceId : DeviceId) (newSegment : NonceSegment) :
    Exec (Except NonceSegmentIncompatible Bool × NonceCache) := do
  let segment := cache.ownSegment deviceId newSegment.streamId
  match ← segment.extend newSegment with
  | .error e => return (.error e, cache.setSegment deviceId newSegment.streamId segment)
  | .ok (new, changed) => return (.ok changed, cache.setSegment deviceId newSegment.streamId new)

/-- Whether a segment could be extended; a stream that is not there yet always could. -/
def checkCanExtend (cache : NonceCache) (deviceId : DeviceId) (newSegment : NonceSegment) :
    Exec (Except NonceSegmentIncompatible Unit) :=
  match cache.segment? deviceId newSegment.streamId with
  | some segment => segment.checkCanExtend newSegment
  | none => .ret (.ok ())

omit [Build] in
/-- The loop over the streams of a device: the first one that is not used and has enough nonces,
or how many nonces there are at most. -/
def chooseStream (nNonces : ℕ) (usedStreams : BTreeSet NonceStreamId) :
    List (NonceStreamId × NonceSegment) → ℕ → Except ℕ (SigningReqSubSegment Binonce)
  | [], noncesAvailable => .error noncesAvailable
  | (streamId, streamSegment) :: rest, noncesAvailable =>
      if usedStreams.contains streamId then chooseStream nNonces usedStreams rest noncesAvailable
      else if streamSegment.indexAfterLast = none then
        chooseStream nNonces usedStreams rest noncesAvailable
      else
        match streamSegment.signingReqSubSegment nNonces with
        | some subSegment => .ok subSegment
        | none =>
            chooseStream nNonces usedStreams rest
              (max noncesAvailable streamSegment.nonces.length)

omit [Build] in
/-- The loop over the devices. -/
def chooseNonces (cache : NonceCache) (nNonces : ℕ) (usedStreams : BTreeSet NonceStreamId) :
    List DeviceId → BTreeMap DeviceId (SigningReqSubSegment Binonce) →
      Except NotEnoughNonces (BTreeMap DeviceId (SigningReqSubSegment Binonce))
  | [], noncesChosen => .ok noncesChosen
  | device :: rest, noncesChosen =>
      match chooseStream nNonces usedStreams (cache.streams device).toList 0 with
      | .ok subSegment =>
          cache.chooseNonces nNonces usedStreams rest (noncesChosen.insert device subSegment)
      | .error available =>
          .error { deviceId := device, available := available, need := nNonces }

omit [Build] in
/-- Nonces for a signing session, of a stream of each device that is not used. -/
def newSigningSession (cache : NonceCache) (devices : BTreeSet DeviceId) (nNonces : ℕ)
    (usedStreams : BTreeSet NonceStreamId) :
    Except NotEnoughNonces (BTreeMap DeviceId (SigningReqSubSegment Binonce)) :=
  cache.chooseNonces nNonces usedStreams devices.toList ∅

/-- Drop the nonces of a stream below an index. -/
def consume (cache : NonceCache) (deviceId : DeviceId) (streamId : NonceStreamId)
    (upToButNotIncluding : ℕ) : Exec (NonceCache × Bool) :=
  match cache.segment? deviceId streamId with
  | none => .ret (cache, false)
  | some localSegment => do
      Exec.assert (localSegment.index ≤ upToButNotIncluding)
        "tried to consume no nonces since counter was greater than consumption point"
      let (segment, changed) ← localSegment.deleteUpTo upToButNotIncluding
      return (cache.setSegment deviceId streamId segment, changed)

/-! ### What the operations do -/

omit [Build] in
theorem streams_setSegment (cache : NonceCache) (deviceId deviceId' : DeviceId)
    (streamId : NonceStreamId) (segment : NonceSegment) :
    (cache.setSegment deviceId streamId segment).streams deviceId' =
      if deviceId = deviceId' then (cache.streams deviceId).insert streamId segment
      else cache.streams deviceId' := by
  simp only [streams, setSegment, BTreeMap.getElem?_insert]
  split
  · rfl
  · rfl

omit [Build] in
theorem segment?_setSegment (cache : NonceCache) (deviceId deviceId' : DeviceId)
    (streamId streamId' : NonceStreamId) (segment : NonceSegment) :
    (cache.setSegment deviceId streamId segment).segment? deviceId' streamId' =
      if deviceId = deviceId' ∧ streamId = streamId' then some segment
      else cache.segment? deviceId' streamId' := by
  simp only [segment?, streams_setSegment]
  by_cases hd : deviceId = deviceId'
  · subst hd
    simp only [↓reduceIte, BTreeMap.getElem?_insert, true_and]
  · simp only [hd, ↓reduceIte, false_and]

omit [Build] in
/-- Setting a segment to what it is does nothing. -/
theorem setSegment_of_segment? {cache : NonceCache} {deviceId : DeviceId}
    {streamId : NonceStreamId} {segment : NonceSegment}
    (h : cache.segment? deviceId streamId = some segment) :
    cache.setSegment deviceId streamId segment = cache := by
  simp only [segment?, streams] at h
  cases hd : cache.byDevice[deviceId]? with
  | none => simp [hd] at h
  | some streams =>
      rw [hd, Option.getD_some] at h
      simp only [setSegment, NonceCache.streams, hd, Option.getD_some,
        BTreeMap.insert_of_getElem? h, BTreeMap.insert_of_getElem? hd]

/-- The cache of a device with a segment extends to one with its extension. -/
theorem extendSegment_cases {cache cache' : NonceCache} {deviceId : DeviceId}
    {newSegment : NonceSegment} {r : Except NonceSegmentIncompatible Bool}
    (h : cache.extendSegment deviceId newSegment = .ret (r, cache')) :
    (∃ e, (cache.ownSegment deviceId newSegment.streamId)._extend newSegment = .ret (.error e) ∧
      r = .error e ∧ cache' = cache.setSegment deviceId newSegment.streamId
        (cache.ownSegment deviceId newSegment.streamId)) ∨
    ∃ new, (cache.ownSegment deviceId newSegment.streamId)._extend newSegment = .ret (.ok new) ∧
      r = .ok (decide (new ≠ cache.ownSegment deviceId newSegment.streamId)) ∧
      cache' = cache.setSegment deviceId newSegment.streamId new := by
  obtain ⟨result, hresult, h⟩ := Exec.bind_eq_ret_iff.1 h
  match result with
  | .error e =>
      obtain ⟨rfl, rfl⟩ := Prod.mk.inj (Exec.ret.inj h)
      exact .inl ⟨e, NonceStreamSegment.extend_eq_error_iff.1 hresult, rfl, rfl⟩
  | .ok (new, changed) =>
      obtain ⟨rfl, rfl⟩ := Prod.mk.inj (Exec.ret.inj h)
      obtain ⟨hnew, rfl⟩ := NonceStreamSegment.extend_eq_ok_iff.1 hresult
      exact .inr ⟨new, hnew, rfl, rfl⟩

/-- An empty segment is replaced by any segment of its stream. -/
theorem emptySegment_extend (newSegment : NonceSegment) :
    (emptySegment newSegment.streamId)._extend newSegment =
      if newSegment.indexAfterLast = none then .ret (.error .overflows)
      else .ret (.ok newSegment) := by
  have hconnects : ∃ b, (emptySegment newSegment.streamId).connects newSegment = .ret b := by
    unfold NonceStreamSegment.connects
    split
    · exact ⟨_, rfl⟩
    · rename_i h
      have hindex : newSegment.index = 0 := by simpa [emptySegment] using h
      have hadd : newSegment.index + asU32 newSegment.nonces.length ≤ u32Max := by
        have hmod := Nat.mod_lt newSegment.nonces.length (Nat.succ_pos u32Max)
        rw [hindex, asU32, Nat.zero_add]
        exact Nat.le_of_lt_succ hmod
      rw [addU32_of_le hadd]
      exact ⟨_, rfl⟩
  obtain ⟨connect, hconnect⟩ := hconnects
  unfold NonceStreamSegment._extend
  rw [if_neg (by simp [emptySegment])]
  cases hlast : newSegment.indexAfterLast with
  | none => rfl
  | some last =>
      simp only [hconnect, Exec.ret_bind]
      rw [if_pos (.inr rfl), if_neg (by simp [emptySegment]), if_neg (Option.some_ne_none last)]
      rfl

/-! ### What the cache knows -/

/-- Every segment is one of the stream it is stored for. -/
def WellNamed (cache : NonceCache) : Prop :=
  ∀ deviceId streamId segment, cache.segment? deviceId streamId = some segment →
    segment.streamId = streamId

/-- The cache knows a stream, and has dropped its nonces below an index. -/
def IsPast (cache : NonceCache) (deviceId : DeviceId) (streamId : NonceStreamId) (index : ℕ) :
    Prop :=
  ∃ segment, cache.segment? deviceId streamId = some segment ∧ index ≤ segment.index

/-- A device's segment starts before what the cache has of its stream. -/
def ReachesBack (cache : NonceCache) (deviceId : DeviceId) (segment : NonceSegment) : Prop :=
  ∃ own, cache.segment? deviceId segment.streamId = some own ∧ segment.index < own.index

/-- No stream is forgotten, and none goes back. -/
def Grows (cache cache' : NonceCache) : Prop :=
  ∀ deviceId streamId index, cache.IsPast deviceId streamId index →
    cache'.IsPast deviceId streamId index

omit [Build] in
theorem Grows.trans {cache cache' cache'' : NonceCache} (h : Grows cache cache')
    (h' : Grows cache' cache'') : Grows cache cache'' :=
  fun deviceId streamId index hpast => h' deviceId streamId index (h deviceId streamId index hpast)

omit [Build] in
theorem wellNamed_setSegment {cache : NonceCache} (h : cache.WellNamed) (deviceId : DeviceId)
    {streamId : NonceStreamId} {segment : NonceSegment} (hsegment : segment.streamId = streamId) :
    (cache.setSegment deviceId streamId segment).WellNamed := by
  intro deviceId' streamId' segment' hget
  rw [segment?_setSegment] at hget
  split at hget
  · rename_i hsame
    obtain rfl := Option.some.inj hget
    rw [← hsame.2, hsegment]
  · exact h _ _ _ hget

omit [Build] in
theorem grows_setSegment (cache : NonceCache) {deviceId : DeviceId} {streamId : NonceStreamId}
    {segment : NonceSegment}
    (h : ∀ own, cache.segment? deviceId streamId = some own → own.index ≤ segment.index) :
    cache.Grows (cache.setSegment deviceId streamId segment) := by
  rintro deviceId' streamId' index ⟨own, hown, hindex⟩
  by_cases hsame : deviceId = deviceId' ∧ streamId = streamId'
  · obtain ⟨rfl, rfl⟩ := hsame
    refine ⟨segment, ?_, hindex.trans (h own hown)⟩
    rw [segment?_setSegment, if_pos ⟨rfl, rfl⟩]
  · exact ⟨own, by rw [segment?_setSegment, if_neg hsame, hown], hindex⟩

omit [Build] in
theorem ownSegment_streamId {cache : NonceCache} (h : cache.WellNamed) (deviceId : DeviceId)
    (streamId : NonceStreamId) : (cache.ownSegment deviceId streamId).streamId = streamId := by
  unfold ownSegment
  cases hget : cache.segment? deviceId streamId with
  | none => rfl
  | some segment => exact h _ _ _ hget

/-- Extending a segment keeps what the cache knows, when it does not reach back. -/
theorem extendSegment_grows {cache cache' : NonceCache} {deviceId : DeviceId}
    {newSegment : NonceSegment} {r : Except NonceSegmentIncompatible Bool}
    (h : cache.extendSegment deviceId newSegment = .ret (r, cache')) (hnamed : cache.WellNamed) :
    cache'.WellNamed ∧ (¬ cache.ReachesBack deviceId newSegment → cache.Grows cache') := by
  have hown := ownSegment_streamId hnamed deviceId newSegment.streamId
  obtain ⟨e, -, rfl, rfl⟩ | ⟨new, hnew, rfl, rfl⟩ := extendSegment_cases h
  · refine ⟨wellNamed_setSegment hnamed deviceId hown, fun _ => grows_setSegment _ ?_⟩
    intro own hget
    rw [ownSegment, hget, Option.getD_some]
  · obtain ⟨hid, hindex, -⟩ := NonceStreamSegment._extend_spec hnew
    refine ⟨wellNamed_setSegment hnamed deviceId (hid.trans hown), fun hback =>
      grows_setSegment _ ?_⟩
    intro own hget
    have hforward : own.index ≤ newSegment.index := by
      by_contra hlt
      exact hback ⟨own, hget, not_le.1 hlt⟩
    rw [ownSegment, hget, Option.getD_some] at hindex
    omega

/-- Consuming the nonces of a stream that is known leaves the cache past them. -/
theorem consume_grows {cache cache' : NonceCache} {deviceId : DeviceId} {streamId : NonceStreamId}
    {upTo : ℕ} {changed : Bool}
    (h : cache.consume deviceId streamId upTo = .ret (cache', changed)) (hnamed : cache.WellNamed) :
    cache'.WellNamed ∧ cache.Grows cache' ∧
      (cache.IsPast deviceId streamId 0 → cache'.IsPast deviceId streamId upTo) := by
  unfold consume at h
  split at h
  · rename_i hunknown
    obtain ⟨rfl, -⟩ := Prod.mk.inj (Exec.ret.inj h)
    refine ⟨hnamed, fun _ _ _ => id, ?_⟩
    rintro ⟨own, hown, -⟩
    rw [hunknown] at hown
    cases hown
  · rename_i own hown
    obtain ⟨u, hle, h⟩ := Exec.bind_eq_ret_iff.1 h
    rw [Exec.assert_eq_ret_iff] at hle
    obtain ⟨⟨new, changed'⟩, hnew, h⟩ := Exec.bind_eq_ret_iff.1 h
    obtain rfl := NonceStreamSegment.deleteUpTo_spec hnew hle
    obtain ⟨rfl, -⟩ := Prod.mk.inj (Exec.ret.inj h)
    have hname : own.streamId = streamId := hnamed _ _ _ hown
    refine ⟨wellNamed_setSegment hnamed deviceId hname, grows_setSegment _ ?_,
      fun _ => ⟨_, by rw [segment?_setSegment, if_pos ⟨rfl, rfl⟩], le_rfl⟩⟩
    intro own' hown'
    have hsame := Option.some.inj (hown.symm.trans hown')
    exact hsame ▸ hle

/-- The nonces of a stream can be consumed up to an index: those in the cache do not begin above it
and, where it is asserted, reach to it. -/
def ConsumableTo (cache : NonceCache) (deviceId : DeviceId) (streamId : NonceStreamId)
    (upTo : ℕ) : Prop :=
  ∀ segment, cache.segment? deviceId streamId = some segment → segment.index ≤ upTo ∧
    (Build.checks = true → upTo - segment.index ≤ segment.nonces.length ∧ upTo < u32Max)

/-- A stream is consumed exactly when it can be. -/
theorem consume_returns_iff {cache : NonceCache} {deviceId : DeviceId} {streamId : NonceStreamId}
    {upTo : ℕ} :
    (cache.consume deviceId streamId upTo).Returns ↔
      cache.ConsumableTo deviceId streamId upTo := by
  unfold consume ConsumableTo
  split
  · rename_i hunknown
    simp [hunknown]
  · rename_i segment hsegment
    rw [Exec.returns_assert_bind, Exec.returns_bind, hsegment]
    constructor
    · rintro ⟨hle, r, hdelete, -⟩ own hown
      obtain rfl := Option.some.inj hown
      exact ⟨hle, (NonceStreamSegment.deleteUpTo_returns_iff hle).1 ⟨r, hdelete⟩⟩
    · intro h
      obtain ⟨hle, hreaches⟩ := h segment rfl
      obtain ⟨r, hdelete⟩ := (NonceStreamSegment.deleteUpTo_returns_iff hle).2 hreaches
      exact ⟨hle, r, hdelete, Exec.returns_ret _⟩

/-- Consuming nonces of one device leaves those of another. -/
theorem consume_consumableTo_iff {cache cache' : NonceCache} {deviceId deviceId' : DeviceId}
    {streamId : NonceStreamId} {upTo : ℕ} {changed : Bool}
    (h : cache.consume deviceId streamId upTo = .ret (cache', changed)) (hne : deviceId ≠ deviceId')
    (streamId' : NonceStreamId) (upTo' : ℕ) :
    cache'.ConsumableTo deviceId' streamId' upTo' ↔
      cache.ConsumableTo deviceId' streamId' upTo' := by
  have hsegment : cache'.segment? deviceId' streamId' = cache.segment? deviceId' streamId' := by
    unfold consume at h
    split at h
    · rw [(Prod.mk.inj (Exec.ret.inj h)).1]
    · obtain ⟨-, -, h⟩ := Exec.bind_eq_ret_iff.1 h
      obtain ⟨⟨segment, changed'⟩, -, h⟩ := Exec.bind_eq_ret_iff.1 h
      rw [← (Prod.mk.inj (Exec.ret.inj h)).1, segment?_setSegment, if_neg fun heq => hne heq.1]
  rw [ConsumableTo, ConsumableTo, hsegment]

/-- Nonces are the first ones of a stream of a device that is not used. -/
def Supplies (cache : NonceCache) (nNonces : ℕ) (usedStreams : BTreeSet NonceStreamId)
    (deviceId : DeviceId) (subSegment : SigningReqSubSegment Binonce) : Prop :=
  ∃ streamId segment, cache.segment? deviceId streamId = some segment ∧
    streamId ∉ usedStreams ∧ segment.indexAfterLast ≠ none ∧
    segment.signingReqSubSegment nNonces = some subSegment

omit [Build] in
theorem Supplies.spec {cache : NonceCache} {nNonces : ℕ} {usedStreams : BTreeSet NonceStreamId}
    {deviceId : DeviceId} {subSegment : SigningReqSubSegment Binonce}
    (h : cache.Supplies nNonces usedStreams deviceId subSegment) (hnamed : cache.WellNamed) :
    subSegment.segment.streamId ∉ usedStreams ∧ nNonces ≤ u32Max ∧
      ∃ segment, cache.segment? deviceId subSegment.segment.streamId = some segment ∧
        segment.index = subSegment.segment.index := by
  obtain ⟨streamId, segment, hsegment, hunused, hlast, hsub⟩ := h
  obtain rfl : segment.streamId = streamId := hnamed _ _ _ hsegment
  obtain ⟨last, hlast⟩ := Option.ne_none_iff_exists'.1 hlast
  rw [NonceStreamSegment.indexAfterLast_eq_some_iff] at hlast
  unfold NonceStreamSegment.signingReqSubSegment at hsub
  split at hsub
  · rename_i hlength
    obtain rfl := Option.some.inj hsub
    exact ⟨hunused, by omega, segment, hsegment, rfl⟩
  · cases hsub

omit [Build] in
/-- A stream is chosen that is not used, and has the nonces. -/
theorem chooseStream_eq_ok {nNonces : ℕ} {usedStreams : BTreeSet NonceStreamId}
    {streams : List (NonceStreamId × NonceSegment)} {available : ℕ}
    {subSegment : SigningReqSubSegment Binonce}
    (h : chooseStream nNonces usedStreams streams available = .ok subSegment) :
    ∃ streamId segment, (streamId, segment) ∈ streams ∧ streamId ∉ usedStreams ∧
      segment.indexAfterLast ≠ none ∧ segment.signingReqSubSegment nNonces = some subSegment := by
  induction streams generalizing available with
  | nil => cases h
  | cons entry rest ih =>
      obtain ⟨streamId, segment⟩ := entry
      unfold chooseStream at h
      split at h
      · obtain ⟨streamId', segment', hmem, h⟩ := ih h
        exact ⟨streamId', segment', List.mem_cons_of_mem _ hmem, h⟩
      · rename_i hunused
        split at h
        · obtain ⟨streamId', segment', hmem, h⟩ := ih h
          exact ⟨streamId', segment', List.mem_cons_of_mem _ hmem, h⟩
        · rename_i hlast
          split at h
          · rename_i subSegment' hsub
            obtain rfl : subSegment' = subSegment := by simpa using h
            exact ⟨streamId, segment, List.mem_cons_self, by simpa using hunused, hlast, hsub⟩
          · obtain ⟨streamId', segment', hmem, h⟩ := ih h
            exact ⟨streamId', segment', List.mem_cons_of_mem _ hmem, h⟩

omit [Build] in
theorem chooseNonces_get {cache : NonceCache} {nNonces : ℕ} {usedStreams : BTreeSet NonceStreamId}
    {devices : List DeviceId} {chosen chosen' : BTreeMap DeviceId (SigningReqSubSegment Binonce)}
    (h : cache.chooseNonces nNonces usedStreams devices chosen = .ok chosen')
    {deviceId : DeviceId} {subSegment : SigningReqSubSegment Binonce}
    (hget : chosen'[deviceId]? = some subSegment) :
    chosen[deviceId]? = some subSegment ∨
      deviceId ∈ devices ∧ cache.Supplies nNonces usedStreams deviceId subSegment := by
  induction devices generalizing chosen with
  | nil =>
      obtain rfl : chosen = chosen' := by simpa [chooseNonces] using h
      exact .inl hget
  | cons device rest ih =>
      unfold chooseNonces at h
      split at h
      · rename_i subSegment' hstream
        obtain hfirst | ⟨hmem, h⟩ := ih h
        · rw [BTreeMap.getElem?_insert] at hfirst
          split at hfirst
          · rename_i hdevice
            subst hdevice
            obtain rfl := Option.some.inj hfirst
            obtain ⟨streamId, segment, hmem, hsupplies⟩ := chooseStream_eq_ok hstream
            rw [Std.ExtTreeMap.mem_toList_iff_getElem?_eq_some] at hmem
            exact .inr ⟨List.mem_cons_self, streamId, segment, hmem, hsupplies⟩
          · exact .inl hfirst
        · exact .inr ⟨List.mem_cons_of_mem _ hmem, h⟩
      · cases h

omit [Build] in
/-- The nonces of a signing session are the first ones of a stream that is not used. -/
theorem newSigningSession_get {cache : NonceCache} {devices : BTreeSet DeviceId} {nNonces : ℕ}
    {usedStreams : BTreeSet NonceStreamId}
    {chosen : BTreeMap DeviceId (SigningReqSubSegment Binonce)}
    (h : cache.newSigningSession devices nNonces usedStreams = .ok chosen)
    {deviceId : DeviceId} {subSegment : SigningReqSubSegment Binonce}
    (hget : chosen[deviceId]? = some subSegment) :
    deviceId ∈ devices ∧ cache.Supplies nNonces usedStreams deviceId subSegment := by
  obtain hempty | ⟨hmem, h⟩ := chooseNonces_get h hget
  · simp at hempty
  · exact ⟨by simpa using hmem, h⟩

/-- A segment that is not taken for a change makes the stream known nevertheless: the cache does
not know it, and the segment says nothing, or its indices overflow and the error is ignored. -/
def OpensSilently (cache : NonceCache) (deviceId : DeviceId) (newSegment : NonceSegment) : Prop :=
  cache.segment? deviceId newSegment.streamId = none ∧
    (newSegment = emptySegment newSegment.streamId ∨
      Build.checks = false ∧ newSegment.indexAfterLast = none)

/-! ### The check and the update -/

/-- What it is that the cache is extended, and says whether it changed. -/
theorem extendSegment_eq_ok_iff {cache cache' : NonceCache} {deviceId : DeviceId}
    {newSegment : NonceSegment} {changed : Bool} :
    cache.extendSegment deviceId newSegment = .ret (.ok changed, cache') ↔
      ∃ new, (cache.ownSegment deviceId newSegment.streamId)._extend newSegment = .ret (.ok new) ∧
        changed = decide (new ≠ cache.ownSegment deviceId newSegment.streamId) ∧
        cache' = cache.setSegment deviceId newSegment.streamId new := by
  constructor
  · intro h
    rcases extendSegment_cases h with ⟨e, -, hr, -⟩ | ⟨new, hnew, hr, hcache⟩
    · cases hr
    · exact ⟨new, hnew, Except.ok.inj hr, hcache⟩
  · rintro ⟨new, hnew, hchanged, rfl⟩
    refine Exec.bind_eq_ret_iff.2 ⟨.ok (new, changed), ?_, rfl⟩
    exact NonceStreamSegment.extend_eq_ok_iff.2 ⟨hnew, hchanged⟩

/-- A segment is accepted by the check exactly when the cache is extended with it, and where it
is not, or nothing changes, the cache is what it was. -/
def CheckAgrees (cache : NonceCache) (deviceId : DeviceId) (newSegment : NonceSegment) : Prop :=
  (cache.checkCanExtend deviceId newSegment = .ret (.ok ()) ↔
    ∃ changed cache', cache.extendSegment deviceId newSegment = .ret (.ok changed, cache')) ∧
  ∀ r cache', cache.extendSegment deviceId newSegment = .ret (r, cache') → r ≠ .ok true →
    cache' = cache

/-- The check and the update of a stream that is known join the same segments. -/
theorem checkAgrees_of_known {cache : NonceCache} {deviceId : DeviceId} {newSegment : NonceSegment}
    {own : NonceSegment} (h : cache.segment? deviceId newSegment.streamId = some own) :
    cache.CheckAgrees deviceId newSegment := by
  have hown : cache.ownSegment deviceId newSegment.streamId = own := by
    rw [ownSegment, h, Option.getD_some]
  have hset : cache.setSegment deviceId newSegment.streamId own = cache := setSegment_of_segment? h
  constructor
  · rw [checkCanExtend, h, NonceStreamSegment.checkCanExtend_eq_ok_iff]
    constructor
    · rintro ⟨new, hnew⟩
      exact ⟨_, _, extendSegment_eq_ok_iff.2 ⟨new, by rw [hown, hnew], rfl, rfl⟩⟩
    · rintro ⟨changed, cache', hextend⟩
      obtain ⟨new, hnew, -, -⟩ := extendSegment_eq_ok_iff.1 hextend
      exact ⟨new, hown ▸ hnew⟩
  · intro r cache' hextend hr
    rcases extendSegment_cases hextend with ⟨e, -, -, rfl⟩ | ⟨new, -, rfl, rfl⟩
    · rw [hown, hset]
    · obtain rfl : new = own := by
        by_contra hne
        exact hr (by rw [hown, decide_eq_true hne])
      exact hset

omit [Build] in
/-- The cache with a new stream is another one. -/
theorem setSegment_ne_of_unknown {cache : NonceCache} {deviceId : DeviceId}
    {streamId : NonceStreamId} (h : cache.segment? deviceId streamId = none)
    (segment : NonceSegment) : cache.setSegment deviceId streamId segment ≠ cache := by
  intro hsame
  have hget := cache.segment?_setSegment deviceId deviceId streamId streamId segment
  rw [hsame, h, if_pos ⟨rfl, rfl⟩] at hget
  cases hget

/-- A stream that is not known is opened by every segment whose indices do not overflow, also by
the empty one it starts with. -/
theorem checkAgrees_iff_of_unknown {cache : NonceCache} {deviceId : DeviceId}
    {newSegment : NonceSegment} (h : cache.segment? deviceId newSegment.streamId = none) :
    cache.CheckAgrees deviceId newSegment ↔
      newSegment.indexAfterLast ≠ none ∧ newSegment ≠ emptySegment newSegment.streamId := by
  have hown : cache.ownSegment deviceId newSegment.streamId = emptySegment newSegment.streamId := by
    rw [ownSegment, h, Option.getD_none]
  have hcheck : cache.checkCanExtend deviceId newSegment = .ret (.ok ()) := by
    rw [checkCanExtend, h]
  have hopen : newSegment.indexAfterLast ≠ none →
      cache.extendSegment deviceId newSegment =
        .ret (.ok (decide (newSegment ≠ emptySegment newSegment.streamId)),
          cache.setSegment deviceId newSegment.streamId newSegment) := by
    intro hlast
    refine extendSegment_eq_ok_iff.2 ⟨newSegment, ?_, by rw [hown], rfl⟩
    rw [hown, emptySegment_extend, if_neg hlast]
  constructor
  · rintro ⟨hok, hsame⟩
    obtain ⟨changed, cache', hextend⟩ := hok.1 hcheck
    obtain ⟨new, hnew, -, -⟩ := extendSegment_eq_ok_iff.1 hextend
    have hlast : newSegment.indexAfterLast ≠ none := by
      intro hnone
      rw [hown, emptySegment_extend, if_pos hnone] at hnew
      cases hnew
    refine ⟨hlast, fun hempty => ?_⟩
    refine setSegment_ne_of_unknown h newSegment (hsame _ _ (hopen hlast) ?_)
    rw [decide_eq_false (not_not.2 hempty)]
    nofun
  · rintro ⟨hlast, hempty⟩
    have hextend := hopen hlast
    rw [decide_eq_true hempty] at hextend
    refine ⟨⟨fun _ => ⟨_, _, hextend⟩, fun _ => hcheck⟩, fun r cache' hret hr => ?_⟩
    obtain ⟨rfl, -⟩ := Prod.mk.inj (Exec.ret.inj (hextend.symm.trans hret))
    exact absurd rfl hr

/-- **The check and the update agree** but where a segment opens a stream without saying so: the
cache does not know the stream, and the indices of the segment overflow, or it is the empty one
that a stream starts with. -/
theorem checkAgrees_iff (cache : NonceCache) (deviceId : DeviceId) (newSegment : NonceSegment) :
    cache.CheckAgrees deviceId newSegment ↔
      ¬ (cache.segment? deviceId newSegment.streamId = none ∧
        (newSegment.indexAfterLast = none ∨ newSegment = emptySegment newSegment.streamId)) := by
  cases h : cache.segment? deviceId newSegment.streamId with
  | none =>
      rw [checkAgrees_iff_of_unknown h]
      tauto
  | some own => exact iff_of_true (checkAgrees_of_known h) nofun

omit [Build] in
/-- A nonce of a new stream at the last index there is passes the check; the update then fails, and
leaves the stream in the cache. -/
theorem check_passes_update_fails :
    @checkCanExtend .release ⟨∅⟩ 1 ⟨7, [1], u32Max⟩ = .ret (.ok ()) ∧
      ∃ cache', @extendSegment .release ⟨∅⟩ 1 ⟨7, [1], u32Max⟩ =
        .ret (.error .overflows, cache') ∧ cache' ≠ ⟨∅⟩ := by
  have hunknown : (⟨∅⟩ : NonceCache).segment? 1 7 = none := by simp [segment?, streams]
  have hown : (⟨∅⟩ : NonceCache).ownSegment 1 7 = emptySegment 7 := by
    rw [ownSegment, hunknown, Option.getD_none]
  refine ⟨rfl, _, ?_, setSegment_ne_of_unknown hunknown (emptySegment 7)⟩
  have hextend := @emptySegment_extend .release ⟨7, [1], u32Max⟩
  rw [if_pos (by decide), ← @NonceStreamSegment.extend_eq_error_iff _ .release] at hextend
  refine (@Exec.bind_eq_ret_iff _ _ _ _ _).2 ⟨.error .overflows, ?_, ?_⟩
  · rw [hown]
    exact hextend
  · rw [hown]
    rfl

end NonceCache

end Frostsnap
