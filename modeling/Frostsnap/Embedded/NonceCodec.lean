import Frostsnap.Core.DeviceNonces
import Frostsnap.Embedded.Partition
import Frostsnap.Lib.Codec

/-!
# The encoding of a nonce slot

The `bincode` encoding of a `Versioned<SecretNonceSlot>` with fixed-size integers, which is
what the flash holds behind the index of an A/B slot. The fields up to the tag of
`signing_state` have a fixed size, and so have the session id and the number of shares that
follow when there is a state; after them come the shares.

## Main results

* `secretNonceSlotCodec`: the codec, with its round trip.
* `decode_of_agree`: bytes that agree with an encoding as far as they are not erased decode to
  nothing, or to the encoded slot with other share bytes.
-/

namespace Frostsnap

/-- The seed material of a ratchet, thirty-two bytes. -/
abbrev RatchetSeedMaterial := BitVec 256

/-- The version, the index, the stream, the seed material, the last use and the tag of the
signing state. -/
abbrev SlotHeader := ℕ × ℕ × NonceStreamId × RatchetSeedMaterial × ℕ × ℕ

/-- The fields of a slot that are always there. -/
def slotHeaderCodec : FixedCodec 61 SlotHeader :=
  (FixedCodec.uint 4).prod ((FixedCodec.uint 4).prod ((FixedCodec.bits 16).prod
    ((FixedCodec.bits 32).prod ((FixedCodec.uint 4).prod (FixedCodec.uint 1)))))

/-- The session id of a signing state, and the number of its shares. -/
def signingStateCodec : FixedCodec 40 (SignSessionId × ℕ) :=
  (FixedCodec.bits 32).prod (FixedCodec.uint 8)

/-- `usize::MAX` on the device. -/
abbrev usizeMax : ℕ := u32Max

variable {Share : Type}

/-- The header of a slot. -/
def slotHeader (v : SecretNonceSlot RatchetSeedMaterial Share) : SlotHeader :=
  (0, v.index, v.nonceStreamId, v.ratchetPrgSeedMaterial, v.lastUsed,
    if v.signingState.isSome then 1 else 0)

/-- The integers of a slot are `u32`s, and its shares can be written. -/
structure SlotValid (share : FixedCodec 32 Share)
    (v : SecretNonceSlot RatchetSeedMaterial Share) : Prop where
  index_le : v.index ≤ u32Max
  lastUsed_le : v.lastUsed ≤ u32Max
  shares_le : ∀ st, v.signingState = some st → st.signatureShares.length ≤ usizeMax
  shares_valid : ∀ st, v.signingState = some st → ∀ s ∈ st.signatureShares, share.Valid s

/-- The bytes of a signing state. -/
def encodeSigningState (share : FixedCodec 32 Share) (st : SigningState Share) : List UInt8 :=
  signingStateCodec.toBytes (st.sessionId, st.signatureShares.length) ++
    (st.signatureShares.map share.toBytes).flatten

/-- The bytes of a slot. -/
def encodeSlot (share : FixedCodec 32 Share) (v : SecretNonceSlot RatchetSeedMaterial Share) :
    List UInt8 :=
  slotHeaderCodec.toBytes (slotHeader v) ++
    match v.signingState with
    | none => []
    | some st => encodeSigningState share st

/-- Read a signing state. -/
def decodeSigningState (share : FixedCodec 32 Share) (bytes : List UInt8) :
    Option (SigningState Share × List UInt8) := do
  let ((sessionId, len), bytes) ← signingStateCodec.decode bytes
  if usizeMax < len then none
  else do
    let (signatureShares, bytes) ← share.toCodec.decodeList len bytes
    return ({ sessionId := sessionId, signatureShares := signatureShares }, bytes)

/-- The slot with a header and a signing state. -/
def slotOfHeader (h : SlotHeader) (st : Option (SigningState Share)) :
    SecretNonceSlot RatchetSeedMaterial Share where
  index := h.2.1
  nonceStreamId := h.2.2.1
  ratchetPrgSeedMaterial := h.2.2.2.1
  lastUsed := h.2.2.2.2.1
  signingState := st

/-- Read a slot. -/
def decodeSlot (share : FixedCodec 32 Share) (bytes : List UInt8) :
    Option (SecretNonceSlot RatchetSeedMaterial Share × List UInt8) := do
  let (h, bytes) ← slotHeaderCodec.decode bytes
  if h.1 ≠ 0 then none
  else if h.2.2.2.2.2 = 0 then return (slotOfHeader h none, bytes)
  else if h.2.2.2.2.2 = 1 then do
    let (st, bytes) ← decodeSigningState share bytes
    return (slotOfHeader h (some st), bytes)
  else none

theorem slotHeader_valid {share : FixedCodec 32 Share}
    {v : SecretNonceSlot RatchetSeedMaterial Share} (h : SlotValid share v) :
    slotHeaderCodec.Valid (slotHeader v) := by
  refine ⟨(by decide : 0 < 256 ^ 4), h.index_le.trans_lt (by decide), trivial, trivial,
    h.lastUsed_le.trans_lt (by decide), ?_⟩
  · show (if v.signingState.isSome then 1 else 0) < 256 ^ 1
    split <;> decide

/-- A signing state is read back. -/
theorem decodeSigningState_encode {share : FixedCodec 32 Share} {st : SigningState Share}
    (hlen : st.signatureShares.length ≤ usizeMax)
    (hvalid : ∀ s ∈ st.signatureShares, share.Valid s) (rest : List UInt8) :
    decodeSigningState share (encodeSigningState share st ++ rest) = some (st, rest) := by
  have hhead := signingStateCodec.decode_toBytes
    (a := (st.sessionId, st.signatureShares.length))
    ⟨trivial, hlen.trans_lt (by decide)⟩
    ((st.signatureShares.map share.toBytes).flatten ++ rest)
  have hshares : share.toCodec.decodeList st.signatureShares.length
      ((st.signatureShares.map share.toBytes).flatten ++ rest) =
        some (st.signatureShares, rest) :=
    share.toCodec.decodeList_encode hvalid rest
  rw [decodeSigningState, encodeSigningState, List.append_assoc, hhead]
  simp only [Option.bind_eq_bind, Option.bind_some, if_neg (not_lt.mpr hlen)]
  rw [hshares]
  rfl

/-- A slot is read back. -/
theorem decodeSlot_encode {share : FixedCodec 32 Share}
    {v : SecretNonceSlot RatchetSeedMaterial Share} (h : SlotValid share v)
    (rest : List UInt8) : decodeSlot share (encodeSlot share v ++ rest) = some (v, rest) := by
  have hhead := slotHeaderCodec.decode_toBytes (slotHeader_valid h)
  obtain ⟨index, nonceStreamId, seed, lastUsed, state⟩ := v
  rw [decodeSlot, encodeSlot, List.append_assoc, hhead]
  cases state with
  | none => rfl
  | some st =>
      have hst := decodeSigningState_encode (h.shares_le st rfl) (h.shares_valid st rfl) rest
      simp only [Option.bind_eq_bind, Option.bind_some, slotHeader, Option.isSome_some, if_true,
        ne_eq, not_true_eq_false, if_false, one_ne_zero, hst]
      rfl

theorem decodeSigningState_streams (share : FixedCodec 32 Share) :
    Streams (decodeSigningState share) :=
  signingStateCodec.streams.bind fun p => Streams.ite (usizeMax < p.2) Streams.fail
    ((share.toCodec.decodeList_streams p.2).bind fun shares =>
      Streams.done (SigningState.mk p.1 shares))

/-- Reading a slot looks no further than the slot. -/
theorem decodeSlot_streams (share : FixedCodec 32 Share) : Streams (decodeSlot share) :=
  slotHeaderCodec.streams.bind fun h => Streams.ite (h.1 ≠ 0) Streams.fail
    (Streams.ite (h.2.2.2.2.2 = 0) (Streams.done (slotOfHeader h none))
      (Streams.ite (h.2.2.2.2.2 = 1)
        ((decodeSigningState_streams share).bind fun st =>
          Streams.done (slotOfHeader h (some st)))
        Streams.fail))

/-- What is read as a signing state could have been written. -/
theorem valid_of_decodeSigningState {share : FixedCodec 32 Share} {bytes rest : List UInt8}
    {st : SigningState Share} (hd : decodeSigningState share bytes = some (st, rest)) :
    st.signatureShares.length ≤ usizeMax ∧ ∀ s ∈ st.signatureShares, share.Valid s := by
  cases hh : signingStateCodec.decode bytes with
  | none =>
      rw [decodeSigningState, hh] at hd
      cases hd
  | some p =>
      simp only [decodeSigningState, hh, Option.bind_eq_bind, Option.bind_some] at hd
      split at hd
      · cases hd
      · rename_i hle
        obtain ⟨q, hshares, heq⟩ := Option.bind_eq_some_iff.mp hd
        cases heq
        refine ⟨(Codec.length_of_decodeList hshares).le.trans (not_lt.mp hle), ?_⟩
        exact Codec.forall_of_decodeList (fun h => FixedCodec.valid_of_decode h) hshares

/-- What is read as a slot could have been written. -/
theorem slotValid_of_decode {share : FixedCodec 32 Share} {bytes rest : List UInt8}
    {v : SecretNonceSlot RatchetSeedMaterial Share}
    (hd : decodeSlot share bytes = some (v, rest)) : SlotValid share v := by
  cases hh : slotHeaderCodec.decode bytes with
  | none =>
      rw [decodeSlot, hh] at hd
      cases hd
  | some p =>
      obtain ⟨h, bs⟩ := p
      obtain ⟨-, hindex, -, -, hlast, -⟩ := FixedCodec.valid_of_decode hh
      have hi : h.2.1 ≤ u32Max := Nat.le_of_lt_succ hindex
      have hl : h.2.2.2.2.1 ≤ u32Max := Nat.le_of_lt_succ hlast
      simp only [decodeSlot, hh, Option.bind_eq_bind, Option.bind_some] at hd
      split at hd
      · cases hd
      · split at hd
        · cases hd
          exact ⟨hi, hl, nofun, nofun⟩
        · split at hd
          · obtain ⟨q, hstate, heq⟩ := Option.bind_eq_some_iff.mp hd
            cases heq
            obtain ⟨hlen, hvalid⟩ := valid_of_decodeSigningState hstate
            refine ⟨hi, hl, ?_, ?_⟩
            · rintro st ⟨⟩
              exact hlen
            · rintro st ⟨⟩
              exact hvalid
          · cases hd

/-- The codec of a nonce slot. -/
def secretNonceSlotCodec (share : FixedCodec 32 Share) :
    Codec (SecretNonceSlot RatchetSeedMaterial Share) where
  Valid := SlotValid share
  encode := encodeSlot share
  decode := decodeSlot share
  decode_encode := decodeSlot_encode
  streams := decodeSlot_streams share

theorem length_flatten_shares (share : FixedCodec 32 Share) (shares : List Share) :
    (shares.map share.toBytes).flatten.length = 32 * shares.length := by
  induction shares with
  | nil => rfl
  | cons s shares ih =>
      rw [List.map_cons, List.flatten_cons, List.length_append, share.length_toBytes, ih,
        List.length_cons]
      omega

/-- A slot takes sixty-one bytes, and with a signing state forty more and thirty-two for each
share. -/
theorem length_encodeSlot (share : FixedCodec 32 Share)
    (v : SecretNonceSlot RatchetSeedMaterial Share) :
    (encodeSlot share v).length =
      61 + (v.signingState.elim 0 fun st => 40 + 32 * st.signatureShares.length) := by
  rw [encodeSlot, List.length_append, slotHeaderCodec.length_toBytes]
  cases v.signingState with
  | none => rfl
  | some st =>
      rw [Option.elim_some]
      simp only [encodeSigningState, List.length_append, signingStateCodec.length_toBytes,
        length_flatten_shares]

/-! ### Slots that were not written to the end -/

/-- The slots that differ at most in the bytes of their cached shares. -/
structure SameButShares (v w : SecretNonceSlot RatchetSeedMaterial Share) : Prop where
  index : w.index = v.index
  nonceStreamId : w.nonceStreamId = v.nonceStreamId
  seed : w.ratchetPrgSeedMaterial = v.ratchetPrgSeedMaterial
  lastUsed : w.lastUsed = v.lastUsed
  state : w.signingState.map (fun st => (st.sessionId, st.signatureShares.length)) =
    v.signingState.map fun st => (st.sessionId, st.signatureShares.length)

theorem SameButShares.refl (v : SecretNonceSlot RatchetSeedMaterial Share) : SameButShares v v :=
  ⟨rfl, rfl, rfl, rfl, rfl⟩

theorem drop_take_fill (bytes : List UInt8) {n m j : ℕ} (hm : m ≤ j) (hj : j < n) :
    ((fill n (bytes.take m)).take (j + 1)).drop j = [0xff] := by
  have hle : (bytes.take m).length ≤ j := (List.length_take_le _ _).trans hm
  have hlen : (fill n (bytes.take m)).length = n := length_fill (hle.trans hj.le)
  apply List.ext_getElem
  · simp only [List.length_drop, List.length_take, hlen, List.length_singleton]
    omega
  · intro i h₁ h₂
    obtain rfl : i = 0 := by simpa using h₂
    simp only [List.getElem_drop, List.getElem_take, fill, Nat.add_zero]
    rw [List.getElem_append_right hle, List.getElem_replicate]
    rfl

/-- The tag of a header is its last byte. -/
theorem tag_of_ofBytes {bytes : List UInt8} {h : SlotHeader}
    (hb : slotHeaderCodec.ofBytes bytes = some h) :
    h.2.2.2.2.2 = ofLeBytes (bytes.drop 60) := by
  obtain rfl := Option.some.inj (show some (ofLeBytes (bytes.take 4), _, _, _, _,
    ofLeBytes (((((bytes.drop 4).drop 4).drop 16).drop 32).drop 4)) = some h from hb)
  simp only [List.drop_drop]

/-- The number of shares is in the last eight bytes of a state header. -/
theorem len_of_ofBytes {bytes : List UInt8} {p : SignSessionId × ℕ}
    (hb : signingStateCodec.ofBytes bytes = some p) : p.2 = ofLeBytes (bytes.drop 32) := by
  obtain rfl := Option.some.inj (show some (_, ofLeBytes (bytes.drop 32)) = some p from hb)
  rfl

/-- A state header that is not all there does not decode to a number of shares: the last byte
of the number is erased, which makes it more than a `usize`. -/
theorem usizeMax_lt_of_torn {bytes : List UInt8} {n m : ℕ} {p : SignSessionId × ℕ}
    {rest : List UInt8} (hm : m ≤ 39)
    (hd : signingStateCodec.decode (fill n (bytes.take m)) = some (p, rest)) :
    usizeMax < p.2 := by
  obtain ⟨hle, hp, -⟩ := FixedCodec.decode_eq_some_iff.mp hd
  have htake : (bytes.take m).length ≤ 39 := (List.length_take_le _ _).trans hm
  have hn : 39 < n := by
    simp only [fill, List.length_append, List.length_replicate] at hle
    omega
  have hlast := drop_take_fill bytes hm hn
  have hsplit : ((fill n (bytes.take m)).take 40).drop 32 =
      (((fill n (bytes.take m)).take 40).drop 32).take 7 ++ [0xff] := by
    rw [← hlast, show 39 = 32 + 7 from rfl, ← List.drop_drop, List.take_append_drop]
  have hseven : ((((fill n (bytes.take m)).take 40).drop 32).take 7).length = 7 := by
    rw [List.length_take, List.length_drop, List.length_take]
    omega
  rw [len_of_ofBytes hp, hsplit, ofLeBytes_append, hseven]
  have hff : ofLeBytes [0xff] = 255 := rfl
  rw [hff]
  exact (by decide : usizeMax < 256 ^ 7 * 255).trans_le (Nat.le_add_left _ _)

/-- A header that is not all there has a tag that is neither zero nor one. -/
theorem tag_of_torn {bytes : List UInt8} {n m : ℕ} {h : SlotHeader} {rest : List UInt8}
    (hm : m ≤ 60) (hd : slotHeaderCodec.decode (fill n (bytes.take m)) = some (h, rest)) :
    h.2.2.2.2.2 = 255 := by
  obtain ⟨hle, hp, -⟩ := FixedCodec.decode_eq_some_iff.mp hd
  have htake : (bytes.take m).length ≤ 60 := (List.length_take_le _ _).trans hm
  have hn : 60 < n := by
    simp only [fill, List.length_append, List.length_replicate] at hle
    omega
  rw [tag_of_ofBytes hp, drop_take_fill _ hm hn]
  rfl

/-- Part of a signing state decodes to nothing, or to as many shares of the same session. -/
theorem decodeSigningState_torn {share : FixedCodec 32 Share} {st st' : SigningState Share}
    (hlen : st.signatureShares.length ≤ usizeMax) {n m : ℕ} {rest : List UInt8}
    (hd : decodeSigningState share (fill n ((encodeSigningState share st).take m)) =
      some (st', rest)) :
    st'.sessionId = st.sessionId ∧ st'.signatureShares.length = st.signatureShares.length := by
  by_cases hm : m ≤ 39
  · cases hh : signingStateCodec.decode (fill n ((encodeSigningState share st).take m)) with
    | none =>
        rw [decodeSigningState, hh] at hd
        cases hd
    | some p =>
        have hlt := usizeMax_lt_of_torn hm hh
        simp only [decodeSigningState, hh, Option.bind_eq_bind, Option.bind_some,
          if_pos hlt] at hd
        cases hd
  · have hhead := signingStateCodec.decode_toBytes
      (a := (st.sessionId, st.signatureShares.length)) ⟨trivial, hlen.trans_lt (by decide)⟩
    rw [encodeSigningState, fill_take_append (signingStateCodec.length_toBytes _) (by omega),
      decodeSigningState, hhead] at hd
    simp only [Option.bind_eq_bind, Option.bind_some, if_neg (not_lt.mpr hlen),
      Option.bind_eq_some_iff] at hd
    obtain ⟨q, hshares, heq⟩ := hd
    cases heq
    exact ⟨rfl, Codec.length_of_decodeList hshares⟩

/-- **A slot that was not written to the end** decodes to nothing, or to the slot with other
shares: the tag of the signing state and the number of shares are read as what they are only
when everything before them is there. -/
theorem sameButShares_of_decode {share : FixedCodec 32 Share}
    {v w : SecretNonceSlot RatchetSeedMaterial Share} (hv : SlotValid share v) {n m : ℕ}
    {rest : List UInt8}
    (hd : decodeSlot share (fill n ((encodeSlot share v).take m)) = some (w, rest)) :
    SameButShares v w := by
  by_cases hm : m ≤ 60
  · cases hh : slotHeaderCodec.decode (fill n ((encodeSlot share v).take m)) with
    | none =>
        rw [decodeSlot, hh] at hd
        cases hd
    | some p =>
        have htag := tag_of_torn hm hh
        simp only [decodeSlot, hh, Option.bind_eq_bind, Option.bind_some, htag] at hd
        split at hd <;> cases hd
  · have hhead := slotHeaderCodec.decode_toBytes (slotHeader_valid hv)
    rw [encodeSlot, fill_take_append (slotHeaderCodec.length_toBytes _) (by omega), decodeSlot,
      hhead] at hd
    obtain ⟨index, nonceStreamId, seed, lastUsed, state⟩ := v
    cases state with
    | none =>
        cases hd
        exact SameButShares.refl _
    | some st =>
        simp only [Option.bind_eq_bind, Option.bind_some, slotHeader, Option.isSome_some, if_true,
          ne_eq, not_true_eq_false, if_false, one_ne_zero, Option.bind_eq_some_iff] at hd
        obtain ⟨q, hstate, heq⟩ := hd
        cases heq
        obtain ⟨hid, hlen⟩ := decodeSigningState_torn (hv.shares_le st rfl) hstate
        exact ⟨rfl, rfl, rfl, rfl, by simp [slotOfHeader, hid, hlen]⟩

end Frostsnap
