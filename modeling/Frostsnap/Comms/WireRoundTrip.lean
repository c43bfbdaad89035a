import Frostsnap.Comms.Wire
import Frostsnap.Coordinator.PlainLib

/-!
# What is sent is received

A coordinator or a device turns a body into one for the wire, most of them by encoding them into an
`EncapsV0`, and encodes the message into a frame (`frostsnap_comms/src/lib.rs`). The receiver has a
limit of `MAX_MESSAGE_ALLOC_SIZE` when it decodes the frame, and once more when it decodes what is
encapsulated. The sender has none, so that what it sends may be more than the receiver takes: then a
device panics, or ignores the message when only what is encapsulated is over the limit, and a
coordinator disconnects the port, or ignores it.

## Main results

* `receivedByDevice_iff`, `receivedByCoordinator_iff`: what is received is what is sent exactly when
  neither the frame nor what is encapsulated is over the limit.
* `wire_round_trip`: both.
-/

namespace Frostsnap.Wire

open Bincode Format

/-- Max memory we should use when decoding a message. -/
abbrev MAX_MESSAGE_ALLOC_SIZE : ℕ := 32768

/-! ### Frames -/

abbrev MAGIC_BYTES_LEN : ℕ := 7

inductive Direction where
  | upstream
  | downstream

namespace Direction

/-- `MAGIC_BYTES`. -/
def magicBytes : Direction → Vector UInt8 MAGIC_BYTES_LEN
  | downstream => #v[0xff, 0xe4, 0x31, 0xb8, 0x02, 0x8b, 0x06]
  | upstream => #v[0xff, 0x5d, 0xa3, 0x85, 0xd4, 0xee, 0x5a]

/-- `VERSION_SIGNAL`. -/
def versionSignal : Direction → UInt8
  | upstream => 0
  | downstream => 2

/-- The magic bytes that are written: the last one signals the version. -/
def signalBytes (d : Direction) : Vector UInt8 MAGIC_BYTES_LEN :=
  d.magicBytes.set 6 (d.magicBytes[6] + d.versionSignal)

end Direction

/-- We don't care about the version signal when magic bytes are decoded. -/
def magicBytesFormat (d : Direction) : Format Unit :=
  (rawBytes MAGIC_BYTES_LEN).partialMap
    (fun bytes => if bytes.toList.take 6 = d.magicBytes.toList.take 6 then some () else none)
    (fun _ => d.signalBytes) (by cases d <;> decide)

/-- What is received on a serial port. -/
inductive ReceiveSerial (M : Type) where
  | magicBytes
  | message (message : M)
  | conch
  | reset
  | unused8
  | unused7
  | unused6
  | unused5
  | unused4
  | unused3
  | unused2
  | unused1
  | unused0

def receiveSerial {M : Type} (d : Direction) (c : Format M) : Format (ReceiveSerial M) :=
  enum ![⟨Unit, magicBytesFormat d, fun _ => .magicBytes⟩, ⟨M, c, .message⟩, .plain .conch,
      .plain .reset, .plain .unused8, .plain .unused7, .plain .unused6, .plain .unused5,
      .plain .unused4, .plain .unused3, .plain .unused2, .plain .unused1, .plain .unused0]
    (fun
      | .magicBytes => ⟨0, ()⟩
      | .message message => ⟨1, message⟩
      | .conch => ⟨2, ()⟩
      | .reset => ⟨3, ()⟩
      | .unused8 => ⟨4, ()⟩
      | .unused7 => ⟨5, ()⟩
      | .unused6 => ⟨6, ()⟩
      | .unused5 => ⟨7, ()⟩
      | .unused4 => ⟨8, ()⟩
      | .unused3 => ⟨9, ()⟩
      | .unused2 => ⟨10, ()⟩
      | .unused1 => ⟨11, ()⟩
      | .unused0 => ⟨12, ()⟩)
    (by decide) (by rintro (_ | _ | _ | _ | _ | _ | _ | _ | _ | _ | _ | _ | _) <;> rfl)

/-- A frame is decoded exactly when what it claims is within the limit. -/
theorem decode_frame {M : Type} (d : Direction) (c : Format M) {m : M} (h : c.Valid m)
    (rest : List UInt8) :
    decodeFromSlice MAX_MESSAGE_ALLOC_SIZE (receiveSerial d c)
        ((receiveSerial d c).encode (.message m) ++ rest) =
      if 4 + c.peak m ≤ MAX_MESSAGE_ALLOC_SIZE then some (.message m, rest) else none :=
  @decodeFromSlice_encode _ MAX_MESSAGE_ALLOC_SIZE (receiveSerial d c) (.message m) h rest

variable {L : FrostLib} (W : WireLib L)

/-! ### From a coordinator to a device -/

/-- A message of a coordinator to devices. -/
abbrev ToDevices (L : FrostLib) := CoordinatorSendMessage (CoordinatorSendBody (payloads L))

/-- `WireCoordinatorSendBody::from`. -/
def toWireCoordinatorSendBody : CoordinatorSendBody (payloads L) → WireCoordinatorSendBody
  | .announceAck => .announceAck
  | .cancel => .cancel
  | .upgrade message => .upgrade message
  | body => .encapsV0 ((coordinatorSendBody W).encode body)

/-- `CoordinatorSendMessage::from`. -/
def ToDevices.toWire (m : ToDevices L) : CoordinatorSendMessage WireCoordinatorSendBody where
  targetDestinations := m.targetDestinations
  messageBody := toWireCoordinatorSendBody W m.messageBody

/-- The bytes that are sent. -/
def ToDevices.frame (m : ToDevices L) : List UInt8 :=
  (receiveSerial .upstream (coordinatorSendMessage W)).encode (.message (m.toWire W))

/-- What a device receives, and what is left to read. -/
def upstreamReceive (bytes : List UInt8) :
    Exec (ReceiveSerial (CoordinatorSendMessage WireCoordinatorSendBody) × List UInt8) :=
  match decodeFromSlice MAX_MESSAGE_ALLOC_SIZE (receiveSerial .upstream (coordinatorSendMessage W))
      bytes with
  | some received => .ret received
  | none => .panic "upstream read fail"

/-- What encapsulated bytes are decoded as. -/
def decodeEncaps (encaps : List UInt8) : Option (CoordinatorSendBody (payloads L)) :=
  (decodeFromSlice MAX_MESSAGE_ALLOC_SIZE (coordinatorSendBody W) encaps).map Prod.fst

/-- The values are those of the types in the program. -/
structure ToDevices.WellFormed (m : ToDevices L) : Prop where
  wire : (coordinatorSendMessage W).Valid (m.toWire W)
  body : (coordinatorSendBody W).Valid m.messageBody

/-- The body is not sent as it is. -/
def Encapsulated : CoordinatorSendBody (payloads L) → Prop
  | .announceAck | .cancel | .upgrade _ => False
  | _ => True

/-- **A round trip**: a device that receives the message does not panic, whatever comes after it,
and finds the destinations and the body that were sent. -/
def ToDevices.Received (m : ToDevices L) : Prop :=
  ∀ rest, ∃ received, upstreamReceive W (m.frame W ++ rest) = .ret (.message received, rest) ∧
    received.targetDestinations = m.targetDestinations ∧
    received.messageBody.decode (decodeEncaps W) = some m.messageBody

/-- Neither the frame nor what is encapsulated is over the limit. -/
structure ToDevices.Fits (m : ToDevices L) : Prop where
  frame : 4 + (coordinatorSendMessage W).peak (m.toWire W) ≤ MAX_MESSAGE_ALLOC_SIZE
  body : Encapsulated m.messageBody →
    (coordinatorSendBody W).peak m.messageBody ≤ MAX_MESSAGE_ALLOC_SIZE

variable {W}

theorem upstreamReceive_frame {m : ToDevices L} (h : m.WellFormed W) (rest : List UInt8) :
    upstreamReceive W (m.frame W ++ rest) =
      if 4 + (coordinatorSendMessage W).peak (m.toWire W) ≤ MAX_MESSAGE_ALLOC_SIZE then
        .ret (.message (m.toWire W), rest)
      else .panic "upstream read fail" := by
  rw [upstreamReceive, ToDevices.frame, decode_frame .upstream _ h.wire]
  by_cases hfits : 4 + (coordinatorSendMessage W).peak (m.toWire W) ≤ MAX_MESSAGE_ALLOC_SIZE
  · rw [if_pos hfits, if_pos hfits]
  · rw [if_neg hfits, if_neg hfits]

theorem decode_toWire {body : CoordinatorSendBody (payloads L)}
    (h : (coordinatorSendBody W).Valid body) :
    (toWireCoordinatorSendBody W body).decode (decodeEncaps W) = some body ↔
      (Encapsulated body → (coordinatorSendBody W).peak body ≤ MAX_MESSAGE_ALLOC_SIZE) := by
  have hencaps : decodeEncaps W ((coordinatorSendBody W).encode body) = some body ↔
      (coordinatorSendBody W).peak body ≤ MAX_MESSAGE_ALLOC_SIZE :=
    (coordinatorSendBody W).decodeFromSlice_encode_eq_some_iff h
  cases body with
  | announceAck | cancel | upgrade _ => exact iff_of_true rfl nofun
  | core _ | naming _ | dataErase | legacyChallenge _ | genuineCheck _ =>
      exact hencaps.trans ⟨fun hfits _ => hfits, fun hfits => hfits trivial⟩

/-- **What a device receives** is what the coordinator sends exactly when it fits. -/
theorem receivedByDevice_iff {m : ToDevices L} (h : m.WellFormed W) : m.Received W ↔ m.Fits W := by
  constructor
  · intro hreceived
    obtain ⟨received, hret, -, hbody⟩ := hreceived []
    rw [upstreamReceive_frame h] at hret
    by_cases hfits : 4 + (coordinatorSendMessage W).peak (m.toWire W) ≤ MAX_MESSAGE_ALLOC_SIZE
    · rw [if_pos hfits] at hret
      cases hret
      exact ⟨hfits, (decode_toWire h.body).1 hbody⟩
    · rw [if_neg hfits] at hret
      cases hret
  · intro hfits rest
    refine ⟨m.toWire W, ?_, rfl, (decode_toWire h.body).2 hfits.body⟩
    rw [upstreamReceive_frame h, if_pos hfits.frame]

/-! ### From a device to a coordinator -/

/-- A message of a device to the coordinator. -/
abbrev FromDevice (L : FrostLib) := DeviceSendMessage (DeviceSendBody (payloads L))

/-- What a body on the wire says: `WireDeviceSendBody::decode`. -/
def WireDeviceSendBody.decode (W : WireLib L) :
    WireDeviceSendBody → Option (DeviceSendBody (payloads L))
  | core => none
  | debug message => some (.debug message)
  | announce firmwareDigest => some (.announce firmwareDigest)
  | setName name => some (.setName name)
  | disconnectDownstream => some .disconnectDownstream
  | needName => some .needName
  | legacyAckUpgradeMode => some .legacyAckUpgradeMode
  | encapsV0 encaps =>
      (decodeFromSlice MAX_MESSAGE_ALLOC_SIZE (deviceSendBody W) encaps).map Prod.fst

namespace FromDevice

variable (W)

/-- `DeviceSendMessage::from` and `WireDeviceSendBody::from`, which encapsulates every body. -/
def toWire (m : FromDevice L) : DeviceSendMessage WireDeviceSendBody where
  from_ := m.from_
  body := .encapsV0 ((deviceSendBody W).encode m.body)

/-- The bytes that are sent. -/
def frame (m : FromDevice L) : List UInt8 :=
  (receiveSerial .downstream deviceSendMessage).encode (.message (m.toWire W))

end FromDevice

/-- What a coordinator reads from a port, and what is left to read; without it, it disconnects the
port. -/
def tryReadMessage (bytes : List UInt8) :
    Option (ReceiveSerial (DeviceSendMessage WireDeviceSendBody) × List UInt8) :=
  decodeFromSlice MAX_MESSAGE_ALLOC_SIZE (receiveSerial .downstream deviceSendMessage) bytes

namespace FromDevice

variable (W)

/-- The values are those of the types in the program. -/
structure WellFormed (m : FromDevice L) : Prop where
  wire : deviceSendMessage.Valid (m.toWire W)
  body : (deviceSendBody W).Valid m.body

/-- **A round trip**: a coordinator reads the message, whatever comes after it, and finds the
sender and the body that were sent. -/
def Received (m : FromDevice L) : Prop :=
  ∀ rest, ∃ received, tryReadMessage (m.frame W ++ rest) = some (.message received, rest) ∧
    received.from_ = m.from_ ∧ received.body.decode W = some m.body

/-- Neither the frame nor what is encapsulated is over the limit. -/
structure Fits (m : FromDevice L) : Prop where
  frame : 4 + deviceSendMessage.peak (m.toWire W) ≤ MAX_MESSAGE_ALLOC_SIZE
  body : (deviceSendBody W).peak m.body ≤ MAX_MESSAGE_ALLOC_SIZE

end FromDevice

/-- **What a coordinator receives** is what the device sends exactly when it fits. -/
theorem receivedByCoordinator_iff {m : FromDevice L} (h : m.WellFormed W) :
    m.Received W ↔ m.Fits W := by
  have hencaps : (m.toWire W).body.decode W = some m.body ↔
      (deviceSendBody W).peak m.body ≤ MAX_MESSAGE_ALLOC_SIZE :=
    (deviceSendBody W).decodeFromSlice_encode_eq_some_iff h.body
  constructor
  · intro hreceived
    obtain ⟨received, hread, -, hbody⟩ := hreceived []
    rw [tryReadMessage, FromDevice.frame, decode_frame .downstream _ h.wire] at hread
    by_cases hfits : 4 + deviceSendMessage.peak (m.toWire W) ≤ MAX_MESSAGE_ALLOC_SIZE
    · rw [if_pos hfits] at hread
      cases hread
      exact ⟨hfits, hencaps.1 hbody⟩
    · rw [if_neg hfits] at hread
      cases hread
  · intro hfits rest
    refine ⟨m.toWire W, ?_, rfl, hencaps.2 hfits.body⟩
    rw [tryReadMessage, FromDevice.frame, decode_frame .downstream _ h.wire, if_pos hfits.frame]

/-! ### What fits -/

theorem peak_destination (devices : BTreeSet DeviceId) :
    (destination W).peak (.particular devices) = 12 + devices.toList.length * W.sizes.deviceId := by
  have hle := @elemsPeak_le _ deviceId W.sizes.deviceId devices.toList fun _ => ⟨rfl, rfl⟩
  show 4 + (8 + max (devices.toList.length * W.sizes.deviceId)
    (deviceId.elemsPeak W.sizes.deviceId devices.toList)) = _
  omega

theorem net_destination (devices : BTreeSet DeviceId) :
    (destination W).net (.particular devices) = 12 := by
  show 4 + (8 + deviceId.elemsNet devices.toList) = 12
  rw [elemsNet_eq_zero deviceId fun _ => rfl]

theorem toWire_of_encapsulated {body : CoordinatorSendBody (payloads L)} (h : Encapsulated body) :
    toWireCoordinatorSendBody W body = .encapsV0 ((coordinatorSendBody W).encode body) := by
  cases body with
  | announceAck | cancel | upgrade _ => exact h.elim
  | core _ | naming _ | dataErase | legacyChallenge _ | genuineCheck _ => rfl

/-- **In numbers**: an encapsulated body that is for some devices. -/
theorem fits_particular_iff {m : ToDevices L} {devices : BTreeSet DeviceId}
    (hdevices : m.targetDestinations = .particular devices) (hbody : Encapsulated m.messageBody) :
    m.Fits W ↔
      16 + devices.toList.length * W.sizes.deviceId ≤ MAX_MESSAGE_ALLOC_SIZE ∧
      28 + ((coordinatorSendBody W).encode m.messageBody).length ≤ MAX_MESSAGE_ALLOC_SIZE ∧
      (coordinatorSendBody W).peak m.messageBody ≤ MAX_MESSAGE_ALLOC_SIZE := by
  have hpeak : 4 + (coordinatorSendMessage W).peak (m.toWire W) =
      max (16 + devices.toList.length * W.sizes.deviceId)
        (28 + ((coordinatorSendBody W).encode m.messageBody).length) := by
    show 4 + max ((destination W).peak m.targetDestinations)
      ((destination W).net m.targetDestinations +
        wireCoordinatorSendBody.peak (toWireCoordinatorSendBody W m.messageBody)) = _
    rw [hdevices, toWire_of_encapsulated hbody, peak_destination, net_destination]
    show 4 + max _ (12 + (4 + (8 + ((coordinatorSendBody W).encode m.messageBody).length))) = _
    omega
  constructor
  · rintro ⟨hframe, hfits⟩
    rw [hpeak] at hframe
    exact ⟨by omega, by omega, hfits hbody⟩
  · rintro ⟨hdest, hlen, hfits⟩
    refine ⟨?_, fun _ => hfits⟩
    rw [hpeak]
    omega

/-! ### Both ways -/

/-- **Round trips**: both ways, what is received is what is sent exactly when it fits. -/
theorem wire_round_trip :
    (∀ m : ToDevices L, m.WellFormed W → (m.Received W ↔ m.Fits W)) ∧
      ∀ m : FromDevice L, m.WellFormed W → (m.Received W ↔ m.Fits W) :=
  ⟨fun _ => receivedByDevice_iff, fun _ => receivedByCoordinator_iff⟩

theorem networks_fit : 5 ≤ 256 ^ 4 := by omega

/-- Formats to compute with. -/
def plainWire : WireLib plainLib where
  point := raw 33
  evenPoint := raw 32
  evenPointSerde := raw 32
  shareIndex := raw 32
  shareImage := ((raw 32).prod (raw 33)).map (fun (index, image) => ⟨index, image⟩)
    (fun s => (s.index, s.image)) fun _ => rfl
  sharedKey := (list 33 (raw 33)).map SharedKey.mk SharedKey.pointPolynomial fun _ => rfl
  nonce := raw 66
  aggNonce := raw 66
  signatureShare := raw 32
  signature := raw 64
  keygenInput := list 33 (raw 33)
  aggKeygenInput := list 33 (raw 33)
  certVrfProof := u64
  network := enum ![.plain .bitcoin, .plain .testnet, .plain .testnet4, .plain .signet,
      .plain .regtest]
    (fun
      | .bitcoin => ⟨0, ()⟩
      | .testnet => ⟨1, ()⟩
      | .testnet4 => ⟨2, ()⟩
      | .signet => ⟨3, ()⟩
      | .regtest => ⟨4, ()⟩)
    networks_fit (by rintro (_ | _ | _ | _ | _) <;> rfl)
  version := u32.ofBits 32
  lockTime := u32.ofBits 32
  sequence := u32.ofBits 32
  outPoint := ((raw 32).prod u32).map (fun (txid, vout) => ⟨txid, vout⟩)
    (fun o => (o.txid, o.vout)) fun _ => rfl
  script := bytes
  sizes :=
    { deviceId := 33, point := 33, shareIndex := 32, aggNonce := 66, nonce := 66,
      certificateEntry := 128, coordNonceStreamState := 24, nonceStreamSegment := 36,
      signatureShare := 32, heldShare := 160, heldShare2 := 168, input := 152, output := 104 }

/-- A request to sign a message, to one device. -/
def signTest (message : String) : ToDevices plainLib :=
  .to 1 (.core (.signing (.requestSign
    { groupSignReq := ⟨∅, [], .test message, 0⟩
      deviceSignReq := ⟨⟨0, 0, 0⟩, 1, 0⟩ })))

/-- It is well formed when the message is not longer than the limit. -/
theorem signTest_wellFormed {message : String}
    (hlen : message.toByteArray.data.toList.length ≤ 32768) :
    (signTest message).WellFormed plainWire := by
  have hempty : (∅ : BTreeSet ShareIndex).toList = [] := rfl
  have hone : ((∅ : BTreeSet DeviceId).insert 1).toList.length ≤ 1 := by
    rw [Std.ExtTreeSet.length_toList]
    exact Std.ExtTreeSet.size_insert_le
  have hbody : (coordinatorSendBody plainWire).Valid (signTest message).messageBody := by
    refine ⟨⟨⟨?_, fun _ _ => trivial⟩, ⟨?_, fun _ _ => trivial⟩, ?_, trivial⟩,
      ⟨trivial, ?_, ?_⟩, trivial, trivial⟩
    · show (∅ : BTreeSet ShareIndex).toList.length < 256 ^ 8
      rw [hempty, List.length_nil]
      omega
    · exact Nat.succ_pos _
    · show message.toByteArray.data.toList.length < 256 ^ 8
      omega
    · exact Nat.succ_pos _
    · exact Nat.succ_pos _
  have hencode : ((coordinatorSendBody plainWire).encode (signTest message).messageBody).length <
      256 ^ 8 := by
    show (encodeVarint 0 ++ (encodeVarint 1 ++ (encodeVarint 0 ++
      (((encodeVarint 0 ++ []) ++ ((encodeVarint 0 ++ []) ++
        ((encodeVarint 0 ++ (encodeVarint message.toByteArray.data.toList.length ++
          message.toByteArray.data.toList)) ++ (leBytes 32 _).reverse))) ++
      (((leBytes 16 _).reverse ++ (encodeVarint 0 ++ encodeVarint 0)) ++
        ((leBytes 33 _).reverse ++ (leBytes 32 _).reverse)))))).length < 256 ^ 8
    have hvarint := length_encodeVarint_le
    have hzero := hvarint 0
    have hmessage := hvarint message.toByteArray.data.toList.length
    simp only [List.length_append, List.length_reverse, length_leBytes, List.length_nil]
    have hone := hvarint 1
    omega
  refine ⟨⟨⟨?_, fun _ _ => trivial⟩, hencode⟩, hbody⟩
  show ((∅ : BTreeSet DeviceId).insert 1).toList.length < 256 ^ 8
  omega

/-- The shares of a device, and the nonces that come with them. -/
def signatureShares : FromDevice plainLib where
  from_ := 1
  body := .core (.signing (.signatureShare 7 [1, 2] (some
    { streamId := 1, nonces := [5, 6], index := 1 })))

theorem signatureShares_wellFormed : signatureShares.WellFormed plainWire := by
  have hbody : (deviceSendBody plainWire).Valid signatureShares.body := by
    refine ⟨trivial, ⟨?_, fun _ _ => trivial⟩, ?_⟩
    · show 2 < 256 ^ 8
      omega
    · intro segment hsegment
      obtain rfl := Option.some.inj hsegment
      refine ⟨trivial, ⟨?_, fun _ _ => trivial⟩, ?_⟩
      · show 2 < 256 ^ 8
        omega
      · show 1 < 256 ^ 4
        omega
  refine ⟨⟨trivial, ?_⟩, hbody⟩
  show ((deviceSendBody plainWire).encode signatureShares.body).length < 256 ^ 8
  decide +kernel

/-- A device is to sign a message, and sends its shares. -/
theorem wire_round_trip_signing :
    (signTest "pay").Received plainWire ∧ signatureShares.Received plainWire := by
  have hsign : (signTest "pay").WellFormed plainWire := signTest_wellFormed (by decide)
  have hlength : ((coordinatorSendBody plainWire).encode
      (signTest "pay").messageBody).length ≤ 200 := by
    decide +kernel
  have hpeak : (coordinatorSendBody plainWire).peak (signTest "pay").messageBody ≤ 200 := by
    decide +kernel
  have hone : ((∅ : BTreeSet DeviceId).insert 1).toList.length ≤ 1 := by
    rw [Std.ExtTreeSet.length_toList]
    exact Std.ExtTreeSet.size_insert_le
  have hencaps : Encapsulated (signTest "pay").messageBody := trivial
  constructor
  · refine (wire_round_trip.1 _ hsign).2 ((fits_particular_iff rfl hencaps).2 ⟨?_, ?_, ?_⟩)
    · show 16 + ((∅ : BTreeSet DeviceId).insert 1).toList.length * 33 ≤ 32768
      omega
    · show 28 + _ ≤ 32768
      omega
    · exact hpeak.trans (by decide)
  · refine (wire_round_trip.2 _ signatureShares_wellFormed).2 ⟨?_, ?_⟩
    · decide +kernel
    · decide +kernel

/-! ### What does not fit -/

theorem size_utf8Encode_replicate (n : ℕ) : (List.utf8Encode (List.replicate n 'a')).size = n := by
  induction n with
  | zero => simp
  | succ n ih =>
      rw [List.replicate_succ, List.utf8Encode_cons, ByteArray.size_append, ih,
        List.utf8Encode_singleton, Nat.add_comm]
      rfl

theorem length_utf8_replicate (n : ℕ) :
    (String.ofList (List.replicate n 'a')).toByteArray.data.toList.length = n := by
  rw [String.toByteArray_ofList]
  exact size_utf8Encode_replicate n

/-- A message of the length of the limit. -/
theorem signTest_not_received {message : String}
    (hlen : message.toByteArray.data.toList.length = 32768) :
    (signTest message).WellFormed plainWire ∧ ¬ (signTest message).Received plainWire := by
  have hwell := signTest_wellFormed hlen.le
  refine ⟨hwell, fun hreceived => ?_⟩
  have hfits := ((receivedByDevice_iff hwell).1 hreceived).body trivial
  change 4 + (4 + (4 + max (max _ (_ + max _ (_ + max (4 +
    (8 + message.toByteArray.data.toList.length)) _))) _)) ≤ 32768 at hfits
  omega

/-- A device panics when it is to sign a message of the length of the limit. -/
theorem sign_test_not_received :
    (signTest (String.ofList (List.replicate 32768 'a'))).WellFormed plainWire ∧
      ¬ (signTest (String.ofList (List.replicate 32768 'a'))).Received plainWire :=
  signTest_not_received (length_utf8_replicate 32768)

end Frostsnap.Wire
