import Frostsnap.Comms.GenuineCheck
import Frostsnap.Device.Messages
import Frostsnap.Lib.Bincode
import Frostsnap.Lib.Literals

/-!
# Messages as bytes

The formats of the messages between the coordinator and devices, as `bincode` derives them from the
types of `frostsnap_comms` and `frostsnap_core`, or as the source implements them. Identifiers and
hashes are byte arrays that are written and read without a claim (`macros.rs`).

The formats of the types of other libraries are parameters, and so are the sizes in memory of the
elements of containers, which the compiler chooses.
-/

namespace Frostsnap.Wire

open Bincode Format

/-! ### What is taken from elsewhere -/

/-- The sizes in memory of what containers hold. -/
structure Sizes where
  deviceId : ℕ
  point : ℕ
  shareIndex : ℕ
  aggNonce : ℕ
  nonce : ℕ
  certificateEntry : ℕ
  coordNonceStreamState : ℕ
  nonceStreamSegment : ℕ
  signatureShare : ℕ
  heldShare : ℕ
  heldShare2 : ℕ
  input : ℕ
  output : ℕ

/-- The formats of types of other libraries. -/
structure WireLib (L : FrostLib) where
  point : Format Point
  /-- `Point<EvenY>` -/
  evenPoint : Format Genuine.XOnly
  /-- the same, by way of `serde` -/
  evenPointSerde : Format Bitcoin.XOnlyPublicKey
  shareIndex : Format ShareIndex
  shareImage : Format ShareImage
  sharedKey : Format SharedKey
  /-- `binonce::Nonce` -/
  nonce : Format Binonce
  /-- `binonce::Nonce<Zero>` -/
  aggNonce : Format Binonce
  signatureShare : Format SignatureShare
  signature : Format Genuine.Signature
  keygenInput : Format L.KeygenInput
  aggKeygenInput : Format L.AggKeygenInput
  certVrfProof : Format L.CertVrfProof
  network : Format Network
  version : Format (BitVec 32)
  lockTime : Format (BitVec 32)
  sequence : Format (BitVec 32)
  outPoint : Format Bitcoin.OutPoint
  script : Format Bitcoin.Script
  sizes : Sizes

variable {L : FrostLib} (W : WireLib L)

/-! ### Identifiers and keys -/

/-- The compressed public key of the device, as it is. -/
def deviceId : Format DeviceId := raw 33

/-- Which access structure of which key. -/
def accessStructureRef : Format AccessStructureRef :=
  ((raw 32).prod (raw 32)).map (fun (keyId, accessStructureId) => ⟨keyId, accessStructureId⟩)
    (fun ref => (ref.keyId, ref.accessStructureId)) fun _ => rfl

/-- The first 33 bytes have to be those of a point. -/
def masterAppkey : Format MasterAppkey :=
  (raw 65).check fun key => L.isPoint (key.extractLsb' 256 264)

/-- Only a bitcoin key says for which network it is. -/
def keyPurpose : Format KeyPurpose :=
  enum ![.plain .test, ⟨Network, W.network, .bitcoin⟩, .plain .nostr]
    (fun
      | .test => ⟨0, ()⟩
      | .bitcoin network => ⟨1, network⟩
      | .nostr => ⟨2, ()⟩)
    (by decide) (by rintro (_ | _ | _) <;> rfl)

/-! ### Derivation paths -/

/-- A child number as a `u32`. A hardened one is an error. -/
def normalIndex : Format NormalIndex :=
  u32.partialMap NormalIndex.new NormalIndex.toU32 fun index => dif_pos index.isNormal

/-- So far there is one kind, but it has its tag. -/
def accountKind : Format AccountKind :=
  enum ![.plain .segwitv1] (fun _ => ⟨0, ()⟩) (by decide) fun _ => rfl

/-- External or internal, as a tag. -/
def keychain : Format Keychain :=
  enum ![.plain .external, .plain .internal]
    (fun
      | .external => ⟨0, ()⟩
      | .internal => ⟨1, ()⟩)
    (by decide) (by rintro (_ | _) <;> rfl)

/-- The kind first, then the index of the account. -/
def bitcoinAccount : Format BitcoinAccount :=
  (accountKind.prod normalIndex).map (fun (kind, index) => ⟨kind, index⟩)
    (fun account => (account.kind, account.index)) fun _ => rfl

/-- An account and one of its keychains. -/
def bitcoinAccountKeychain : Format BitcoinAccountKeychain :=
  (bitcoinAccount.prod keychain).map (fun (account, keychain) => ⟨account, keychain⟩)
    (fun k => (k.account, k.keychain)) fun _ => rfl

/-- The path of an address under the app key. -/
def bitcoinBip32Path : Format BitcoinBip32Path :=
  (bitcoinAccountKeychain.prod normalIndex).map
    (fun (accountKeychain, index) => ⟨accountKeychain, index⟩)
    (fun path => (path.accountKeychain, path.index)) fun _ => rfl

/-! ### Sign tasks -/

/-- A script of one of our keys: it is derived again from its path, and not sent. -/
def localSpk : Format Bitcoin.LocalSpk :=
  ((masterAppkey (L := L)).prod bitcoinBip32Path).map
    (fun (masterAppkey, bip32Path) => ⟨masterAppkey, bip32Path⟩)
    (fun owner => (owner.masterAppkey, owner.bip32Path)) fun _ => rfl

/-- Who owns what an input spends or an output pays to. -/
def spkOwner : Format Bitcoin.SpkOwner :=
  enum ![⟨Bitcoin.Script, W.script, .foreign⟩, ⟨Bitcoin.LocalSpk, localSpk (L := L), .local⟩]
    (fun
      | .foreign spk => ⟨0, spk⟩
      | .local owner => ⟨1, owner⟩)
    (by decide) (by rintro (_ | _) <;> rfl)

/-- An input of a template. The value is a plain `u64` and is not checked here. -/
def input : Format Bitcoin.Input :=
  (W.outPoint.prod ((u64.ofBits 64).prod ((spkOwner W).prod W.sequence))).map
    (fun (outpoint, value, owner, sequence) => ⟨outpoint, value, owner, sequence⟩)
    (fun input => (input.outpoint, input.value, input.owner, input.sequence)) fun _ => rfl

/-- An output of a template. -/
def output : Format Bitcoin.Output :=
  ((u64.ofBits 64).prod (spkOwner W)).map (fun (value, owner) => ⟨value, owner⟩)
    (fun output => (output.value, output.owner)) fun _ => rfl

/-- The claims for the two lists are those of their elements in memory. -/
def transactionTemplate : Format (Bitcoin.TransactionTemplate Bitcoin.Unscoped) :=
  (unit.prod (W.version.prod (W.lockTime.prod ((list W.sizes.input (input W)).prod
    (list W.sizes.output (output W)))))).map
    (fun (_, version, lockTime, inputs, outputs) => ⟨⟨⟩, version, lockTime, inputs, outputs⟩)
    (fun t => ((), t.version, t.lockTime, t.inputs, t.outputs)) fun _ => rfl

/-- By way of `serde`, which claims nothing for a container beforehand. -/
def unsignedEvent : Format Bitcoin.UnsignedEvent :=
  (string.prod (W.evenPointSerde.prod (i64.prod (u64.prod ((list 0 (list 0 string)).prod
    (string.prod (list 0 byte))))))).map
    (fun (id, pubkey, createdAt, kind, tags, content, hashBytes) =>
      ⟨id, pubkey, createdAt, kind, tags, content, hashBytes⟩)
    (fun e => (e.id, e.pubkey, e.createdAt, e.kind, e.tags, e.content, e.hashBytes)) fun _ => rfl

/-- What is to be signed, before the device has checked that it may be. -/
def wireSignTask : Format Bitcoin.WireSignTask :=
  enum ![⟨String, string, .test⟩, ⟨Bitcoin.UnsignedEvent, unsignedEvent W, .nostr⟩,
      ⟨Bitcoin.TransactionTemplate Bitcoin.Unscoped, transactionTemplate W, .bitcoinTransaction⟩]
    (fun
      | .test message => ⟨0, message⟩
      | .nostr event => ⟨1, event⟩
      | .bitcoinTransaction txTemplate => ⟨2, txTemplate⟩)
    (by decide) (by rintro (_ | _ | _) <;> rfl)

/-! ### Core messages of the coordinator -/

/-- The start of a key generation, with the devices in the order of their indexes. -/
def begin_ : Format Coordinator.Begin :=
  ((raw 16).prod ((list W.sizes.deviceId deviceId).prod (u16.prod (string.prod
    ((keyPurpose W).prod (list W.sizes.point W.point)))))).map
    (fun (keygenId, devices, threshold, keyName, purpose, coordinatorPublicKeys) =>
      ⟨keygenId, devices, threshold, keyName, purpose, coordinatorPublicKeys⟩)
    (fun b => (b.keygenId, b.devices, b.threshold, b.keyName, b.purpose, b.coordinatorPublicKeys))
    fun _ => rfl

/-- The four messages of a key generation, in the order in which they are sent. -/
def keygen : Format (Device.Keygen L) :=
  enum ![⟨Coordinator.Begin, begin_ W, .begin⟩,
      ⟨KeygenId × L.AggKeygenInput, (raw 16).prod W.aggKeygenInput,
        fun (keygenId, aggInput) => .certifyPlease keygenId aggInput⟩,
      ⟨KeygenId × BTreeMap Point L.CertVrfProof,
        (raw 16).prod (treeMap W.sizes.certificateEntry W.point W.certVrfProof),
        fun (keygenId, certificate) => .check keygenId certificate⟩,
      ⟨KeygenId, raw 16, .finalize⟩]
    (fun
      | .begin m => ⟨0, m⟩
      | .certifyPlease keygenId aggInput => ⟨1, (keygenId, aggInput)⟩
      | .check keygenId certificate => ⟨2, (keygenId, certificate)⟩
      | .finalize keygenId => ⟨3, keygenId⟩)
    (by decide) (by rintro (_ | _ | _ | _) <;> rfl)

/-- How far the coordinator has come in a nonce stream. -/
def coordNonceStreamState : Format CoordNonceStreamState :=
  ((raw 16).prod (u32.prod u32)).map
    (fun (streamId, index, remaining) => ⟨streamId, index, remaining⟩)
    (fun state => (state.streamId, state.index, state.remaining)) fun _ => rfl

/-- The part of a signing request that is the same for all devices. -/
def groupSignReq : Format (GroupSignReq Bitcoin.WireSignTask) :=
  ((set W.sizes.shareIndex W.shareIndex).prod ((list W.sizes.aggNonce W.aggNonce).prod
    ((wireSignTask W).prod (raw 32)))).map
    (fun (parties, aggNonces, signTask, accessStructureId) =>
      ⟨parties, aggNonces, signTask, accessStructureId⟩)
    (fun r => (r.parties, r.aggNonces, r.signTask, r.accessStructureId)) fun _ => rfl

/-- The part of a signing request that is for one device. -/
def deviceSignReq : Format Coordinator.DeviceSignReq :=
  (coordNonceStreamState.prod (W.point.prod (raw 32))).map
    (fun (nonces, rootkey, contrib) => ⟨nonces, rootkey, contrib⟩)
    (fun r => (r.nonces, r.rootkey, r.coordShareDecryptionContrib)) fun _ => rfl

/-- A signing request. -/
def requestSign : Format Device.RequestSign :=
  ((groupSignReq W).prod (deviceSignReq W)).map
    (fun (groupSignReq, deviceSignReq) => ⟨groupSignReq, deviceSignReq⟩)
    (fun r => (r.groupSignReq, r.deviceSignReq)) fun _ => rfl

/-- The messages about signing and about the nonces for it. -/
def coordinatorSigning : Format Device.CoordinatorSigning :=
  enum ![⟨Device.RequestSign, requestSign W, .requestSign⟩,
      ⟨List CoordNonceStreamState, list W.sizes.coordNonceStreamState coordNonceStreamState,
        .openNonceStreams⟩]
    (fun
      | .requestSign requestSign => ⟨0, requestSign⟩
      | .openNonceStreams streams => ⟨1, streams⟩)
    (by decide) (by rintro (_ | _) <;> rfl)

/-- Makes a saved backup a share of an access structure. -/
def consolidateBackup : Format Coordinator.ConsolidateBackup :=
  (W.shareIndex.prod (W.sharedKey.prod (string.prod (keyPurpose W)))).map
    (fun (shareIndex, rootSharedKey, keyName, purpose) =>
      ⟨shareIndex, rootSharedKey, keyName, purpose⟩)
    (fun m => (m.shareIndex, m.rootSharedKey, m.keyName, m.purpose)) fun _ => rfl

/-- What is known of a share. Everything but its image may be missing. -/
def heldShare2 : Format HeldShare2 :=
  ((option accessStructureRef).prod (W.shareImage.prod ((option u16).prod ((option string).prod
    ((option (keyPurpose W)).prod bool))))).map
    (fun (accessStructureRef, shareImage, threshold, keyName, purpose, needsConsolidation) =>
      ⟨accessStructureRef, shareImage, threshold, keyName, purpose, needsConsolidation⟩)
    (fun s => (s.accessStructureRef, s.shareImage, s.threshold, s.keyName, s.purpose,
      s.needsConsolidation))
    fun _ => rfl

/-- The messages about backups and about the shares a device holds. -/
def coordinatorRestoration : Format Device.CoordinatorRestoration :=
  enum ![⟨EnterPhysicalId, raw 16, .enterPhysicalBackup⟩,
      ⟨ShareImage × String × KeyPurpose × ℕ,
        W.shareImage.prod (string.prod ((keyPurpose W).prod u16)),
        fun (shareImage, keyName, purpose, threshold) =>
          .savePhysicalBackup shareImage keyName purpose threshold⟩,
      ⟨Coordinator.ConsolidateBackup, consolidateBackup W, .consolidate⟩,
      ⟨AccessStructureRef × CoordShareDecryptionContrib × ShareIndex × SharedKey,
        accessStructureRef.prod ((raw 32).prod (W.shareIndex.prod W.sharedKey)),
        fun (ref, contrib, shareIndex, rootSharedKey) =>
          .displayBackup ref contrib shareIndex rootSharedKey⟩,
      .plain .requestHeldShares,
      ⟨HeldShare2, heldShare2 W, .savePhysicalBackup2⟩,
      ⟨CoordShareDecryptionContrib × ShareIndex × SharedKey,
        (raw 32).prod (W.shareIndex.prod W.sharedKey),
        fun (contrib, shareIndex, rootSharedKey) => .checkBackup contrib shareIndex rootSharedKey⟩]
    (fun
      | .enterPhysicalBackup enterPhysicalId => ⟨0, enterPhysicalId⟩
      | .savePhysicalBackup shareImage keyName purpose threshold =>
          ⟨1, (shareImage, keyName, purpose, threshold)⟩
      | .consolidate consolidate => ⟨2, consolidate⟩
      | .displayBackup ref contrib shareIndex rootSharedKey =>
          ⟨3, (ref, contrib, shareIndex, rootSharedKey)⟩
      | .requestHeldShares => ⟨4, ()⟩
      | .savePhysicalBackup2 heldShare => ⟨5, heldShare⟩
      | .checkBackup contrib shareIndex rootSharedKey => ⟨6, (contrib, shareIndex, rootSharedKey)⟩)
    (by decide) (by rintro (_ | _ | _ | _ | _ | _ | _) <;> rfl)

/-- The address goes as the key and the index that it is derived from. -/
def screenVerify : Format Device.ScreenVerify :=
  enum ![⟨MasterAppkey × NormalIndex, (masterAppkey (L := L)).prod normalIndex,
      fun (masterAppkey, derivationIndex) => .verifyAddress masterAppkey derivationIndex⟩]
    (fun | .verifyAddress masterAppkey derivationIndex => ⟨0, (masterAppkey, derivationIndex)⟩)
    (by decide) (by rintro ⟨⟩; rfl)

/-- A core message to a device. -/
def coordinatorToDeviceMessage : Format (Device.CoordinatorToDeviceMessage L) :=
  enum ![⟨Device.Keygen L, keygen W, .keyGen⟩,
      ⟨Device.CoordinatorSigning, coordinatorSigning W, .signing⟩,
      ⟨Device.CoordinatorRestoration, coordinatorRestoration W, .restoration⟩,
      ⟨Device.ScreenVerify, screenVerify (L := L), .screenVerify⟩]
    (fun
      | .keyGen m => ⟨0, m⟩
      | .signing m => ⟨1, m⟩
      | .restoration m => ⟨2, m⟩
      | .screenVerify m => ⟨3, m⟩)
    (by decide) (by rintro (_ | _ | _ | _) <;> rfl)

/-! ### Core messages of devices -/

/-- The answers in a key generation. The session hash of an `Ack` goes before its identifier. -/
def deviceKeygen : Format (Coordinator.DeviceKeygen L) :=
  enum ![⟨KeygenId × L.KeygenInput, (raw 16).prod W.keygenInput,
        fun (keygenId, input) => .response keygenId input⟩,
      ⟨KeygenId × L.CertVrfProof, (raw 16).prod W.certVrfProof,
        fun (keygenId, vrfCert) => .certify keygenId vrfCert⟩,
      ⟨SessionHash × KeygenId, (raw 32).prod (raw 16),
        fun (ackSessionHash, keygenId) => .ack keygenId ackSessionHash⟩]
    (fun
      | .response keygenId input => ⟨0, (keygenId, input)⟩
      | .certify keygenId vrfCert => ⟨1, (keygenId, vrfCert)⟩
      | .ack keygenId ackSessionHash => ⟨2, (ackSessionHash, keygenId)⟩)
    (by decide) (by rintro (_ | _ | _) <;> rfl)

/-- A piece of a nonce stream, with the index of its first nonce last. -/
def nonceStreamSegment : Format (NonceStreamSegment Binonce) :=
  ((raw 16).prod ((list W.sizes.nonce W.nonce).prod u32)).map
    (fun (streamId, nonces, index) => ⟨streamId, nonces, index⟩)
    (fun s => (s.streamId, s.nonces, s.index)) fun _ => rfl

/-- Nonces, and signature shares with the nonces that replace the ones they used. -/
def deviceSigning : Format Coordinator.DeviceSigning :=
  enum ![⟨List (NonceStreamSegment Binonce),
        list W.sizes.nonceStreamSegment (nonceStreamSegment W), .nonceResponse⟩,
      ⟨SignSessionId × List SignatureShare × Option (NonceStreamSegment Binonce),
        (raw 32).prod ((list W.sizes.signatureShare W.signatureShare).prod
          (option (nonceStreamSegment W))),
        fun (sessionId, signatureShares, replenishNonces) =>
          .signatureShare sessionId signatureShares replenishNonces⟩]
    (fun
      | .nonceResponse segments => ⟨0, segments⟩
      | .signatureShare sessionId signatureShares replenishNonces =>
          ⟨1, (sessionId, signatureShares, replenishNonces)⟩)
    (by decide) (by rintro (_ | _) <;> rfl)

/-- A share as older firmware tells of it: every field is there. -/
def heldShare : Format Coordinator.HeldShare :=
  ((option accessStructureRef).prod (W.shareImage.prod (u16.prod (string.prod
    (keyPurpose W))))).map
    (fun (accessStructureRef, shareImage, threshold, keyName, purpose) =>
      ⟨accessStructureRef, shareImage, threshold, keyName, purpose⟩)
    (fun s => (s.accessStructureRef, s.shareImage, s.threshold, s.keyName, s.purpose))
    fun _ => rfl

/-- The backup itself stays on the device. Its share image is sent. -/
def enteredPhysicalBackup : Format Coordinator.EnteredPhysicalBackup :=
  ((raw 16).prod W.shareImage).map
    (fun (enterPhysicalId, shareImage) => ⟨enterPhysicalId, shareImage⟩)
    (fun b => (b.enterPhysicalId, b.shareImage)) fun _ => rfl

/-- The answers about backups and shares, those of older firmware included. -/
def deviceRestoration : Format Coordinator.DeviceRestoration :=
  enum ![⟨Coordinator.EnteredPhysicalBackup, enteredPhysicalBackup W, .physicalEntered⟩,
      ⟨ShareImage, W.shareImage, .physicalSaved⟩,
      ⟨AccessStructureRef × ShareIndex, accessStructureRef.prod W.shareIndex,
        fun (ref, shareIndex) => .finishedConsolidation ref shareIndex⟩,
      ⟨List Coordinator.HeldShare, list W.sizes.heldShare (heldShare W), .heldShares⟩,
      ⟨List HeldShare2, list W.sizes.heldShare2 (heldShare2 W), .heldShares2⟩]
    (fun
      | .physicalEntered backup => ⟨0, backup⟩
      | .physicalSaved shareImage => ⟨1, shareImage⟩
      | .finishedConsolidation ref shareIndex => ⟨2, (ref, shareIndex)⟩
      | .heldShares shares => ⟨3, shares⟩
      | .heldShares2 shares => ⟨4, shares⟩)
    (by decide) (by rintro (_ | _ | _ | _ | _) <;> rfl)

/-- A core message of a device. -/
def deviceToCoordinatorMessage : Format (Coordinator.DeviceToCoordinatorMessage L) :=
  enum ![⟨Coordinator.DeviceKeygen L, deviceKeygen W, .keyGen⟩,
      ⟨Coordinator.DeviceSigning, deviceSigning W, .signing⟩,
      ⟨Coordinator.DeviceRestoration, deviceRestoration W, .restoration⟩]
    (fun
      | .keyGen m => ⟨0, m⟩
      | .signing m => ⟨1, m⟩
      | .restoration m => ⟨2, m⟩)
    (by decide) (by rintro (_ | _ | _) <;> rfl)

/-! ### The genuine check -/

/-- The color as a `u32`. -/
def index : Genuine.CaseColor → UInt32
  | .black => 0
  | .orange => 1
  | .silver => 2
  | .blue => 3
  | .red => 4
  | .other index _ => index

/-- The color of a number. The numbers without a name are kept as they are. -/
def fromIndex (index : UInt32) : Genuine.CaseColor :=
  if h : 5 ≤ index then .other index h
  else if index = 0 then .black
  else if index = 1 then .orange
  else if index = 2 then .silver
  else if index = 3 then .blue
  else .red

/-- A color comes back from its number. -/
theorem fromIndex_index (color : Genuine.CaseColor) : fromIndex (index color) = color := by
  cases color with
  | other index unnamed => exact dif_pos unnamed
  | black | orange | silver | blue | red => rfl

/-- A color is written as its number, and no number is an error. -/
def caseColor : Format Genuine.CaseColor :=
  (u32.map UInt32.ofNat UInt32.toNat fun v => by simp).map fromIndex index fromIndex_index

/-- What the factory says of a device, versioned by its tag. -/
def certificateBody : Format Genuine.CertificateBody :=
  enum ![⟨List UInt8 × Genuine.CaseColor × String × String × UInt64,
      bytes.prod (caseColor.prod (string.prod (string.prod
        (u64.map UInt64.ofNat UInt64.toNat fun v => by simp)))),
      fun (dsPublicKey, caseColor, revision, serial, timestamp) =>
        ⟨dsPublicKey, caseColor, revision, serial, timestamp⟩⟩]
    (fun b => ⟨0, (b.dsPublicKey, b.caseColor, b.revision, b.serial, b.timestamp)⟩)
    (by decide) fun _ => rfl

/-- `Versioned`. -/
def versioned {α : Type} (c : Format α) : Format α :=
  enum ![⟨α, c, id⟩] (fun a => ⟨0, a⟩) (by decide) fun _ => rfl

/-- The key of the factory and its signature. -/
def frostsnapFactorySignature : Format Genuine.FrostsnapFactorySignature :=
  (W.evenPoint.prod W.signature).map (fun (factoryKey, signature) => ⟨factoryKey, signature⟩)
    (fun s => (s.factoryKey, s.signature)) fun _ => rfl

/-- A certificate is its body with the signature of the factory. -/
def certificate : Format Genuine.Certificate :=
  (certificateBody.prod (versioned (frostsnapFactorySignature W))).map
    (fun (body, factorySignature) => ⟨body, factorySignature⟩)
    (fun c => (c.body, c.factorySignature)) fun _ => rfl

/-- What a device attests: that it has this certificate. -/
def attestedDevice : Format Genuine.AttestedDevice :=
  enum ![⟨DeviceId × Genuine.Certificate, deviceId.prod (certificate W),
      fun (deviceId, certificate) => ⟨deviceId, certificate⟩⟩]
    (fun d => ⟨0, (d.deviceId, d.certificate)⟩) (by decide) fun _ => rfl

/-- The signature, by the name of its scheme. There is one so far. -/
def attestationSignature : Format Genuine.AttestationSignature :=
  enum ![⟨Genuine.DsSignature, raw 384, .mk⟩] (fun s => ⟨0, s.rsa3072⟩) (by decide) fun _ => rfl

/-- The two requests of the check, one for each of its phases. -/
def coordinatorMessage : Format Genuine.CoordinatorMessage :=
  enum ![⟨Genuine.GenuineChallenge, rawBytes 32, .requestFactoryAttestation⟩,
      ⟨Genuine.GenuineChallenge × Genuine.AttestedDeviceDigest, (rawBytes 32).prod (rawBytes 32),
        fun (challenge, attestedDigest) => .requestIdentityAttestation challenge attestedDigest⟩]
    (fun
      | .requestFactoryAttestation challenge => ⟨0, challenge⟩
      | .requestIdentityAttestation challenge attestedDigest => ⟨1, (challenge, attestedDigest)⟩)
    (by decide) (by rintro (_ | _) <;> rfl)

/-- The two answers, in the order of the requests. -/
def deviceMessage : Format Genuine.DeviceMessage :=
  enum ![⟨Genuine.AttestedDevice × Genuine.AttestationSignature,
        (attestedDevice W).prod attestationSignature,
        fun (attested, signature) => .factoryAttestation attested signature⟩,
      ⟨Genuine.Signature, W.signature, .identityAttestation⟩]
    (fun
      | .factoryAttestation attested signature => ⟨0, (attested, signature)⟩
      | .identityAttestation signature => ⟨1, signature⟩)
    (by decide) (by rintro (_ | _) <;> rfl)

/-! ### Bodies -/

/-- What messages carry. -/
abbrev payloads (L : FrostLib) : Payloads where
  toDevice := Device.CoordinatorToDeviceMessage L
  toCoordinator := Coordinator.DeviceToCoordinatorMessage L
  genuineRequest := Genuine.CoordinatorMessage
  genuineReply := Genuine.DeviceMessage
  checked := AccessStructureRef × ShareIndex
  challenge := Genuine.GenuineChallenge
  signedChallenge := Genuine.DsSignature × Genuine.Certificate

/-- `FixedString::truncate`. -/
def truncate (s : String) : DeviceName :=
  if h : s.length ≤ DEVICE_NAME_MAX_LENGTH then ⟨s, h⟩
  else ⟨String.ofList (s.toList.take DEVICE_NAME_MAX_LENGTH), by simp⟩

/-- Names that are too long are truncated, and not an error. -/
def deviceName : Format DeviceName :=
  string.map truncate DeviceName.inner fun name => dif_pos name.short

/-- The name to show. The second tag is kept for a rename that nothing sends any more. -/
def nameCommand : Format NameCommand :=
  enum ![⟨DeviceName, deviceName, .preview⟩, ⟨DeviceName, deviceName, .prompt⟩]
    (fun
      | .preview name => ⟨0, name⟩
      | .prompt name => ⟨1, name⟩)
    (by decide) (by rintro (_ | _) <;> rfl)

/-- The two kinds of upgrade have the same fields. They differ in their tags alone. -/
def coordinatorUpgradeMessage : Format CoordinatorUpgradeMessage :=
  enum ![⟨BitVec 32 × Sha256Digest, (u32.ofBits 32).prod (raw 32),
        fun (size, firmwareDigest) => .prepareUpgrade size firmwareDigest⟩,
      .plain .enterUpgradeMode,
      ⟨BitVec 32 × Sha256Digest, (u32.ofBits 32).prod (raw 32),
        fun (size, firmwareDigest) => .prepareUpgrade2 size firmwareDigest⟩]
    (fun
      | .prepareUpgrade size firmwareDigest => ⟨0, (size, firmwareDigest)⟩
      | .enterUpgradeMode => ⟨1, ()⟩
      | .prepareUpgrade2 size firmwareDigest => ⟨2, (size, firmwareDigest)⟩)
    (by decide) (by rintro (_ | _ | _) <;> rfl)

/-- A body before it is encapsulated. Its tags are those inside of the capsule. -/
def coordinatorSendBody : Format (CoordinatorSendBody (payloads L)) :=
  enum ![⟨Device.CoordinatorToDeviceMessage L, coordinatorToDeviceMessage W,
        .core (P := payloads L)⟩,
      ⟨NameCommand, nameCommand, .naming⟩,
      .plain .announceAck,
      .plain .cancel,
      ⟨CoordinatorUpgradeMessage, coordinatorUpgradeMessage, .upgrade⟩,
      .plain .dataErase,
      ⟨Genuine.GenuineChallenge, rawBytes 32, .legacyChallenge (P := payloads L)⟩,
      ⟨Genuine.CoordinatorMessage, coordinatorMessage, .genuineCheck (P := payloads L)⟩]
    (fun
      | .core message => ⟨0, message⟩
      | .naming command => ⟨1, command⟩
      | .announceAck => ⟨2, ()⟩
      | .cancel => ⟨3, ()⟩
      | .upgrade message => ⟨4, message⟩
      | .dataErase => ⟨5, ()⟩
      | .legacyChallenge challenge => ⟨6, challenge⟩
      | .genuineCheck message => ⟨7, message⟩)
    (by decide) (by rintro (_ | _ | _ | _ | _ | _ | _ | _) <;> rfl)

/-- The tags of the bodies that are now encapsulated are still taken, so they have no content. -/
def wireCoordinatorSendBody : Format WireCoordinatorSendBody :=
  enum ![.plain .core, .plain .naming, .plain .announceAck, .plain .cancel,
      ⟨CoordinatorUpgradeMessage, coordinatorUpgradeMessage, .upgrade⟩,
      ⟨List UInt8, bytes, .encapsV0⟩]
    (fun
      | .core => ⟨0, ()⟩
      | .naming => ⟨1, ()⟩
      | .announceAck => ⟨2, ()⟩
      | .cancel => ⟨3, ()⟩
      | .upgrade message => ⟨4, message⟩
      | .encapsV0 encaps => ⟨5, encaps⟩)
    (by decide) (by rintro (_ | _ | _ | _ | _ | _) <;> rfl)

/-- What a device confirms, and a backup that was checked. -/
def commsMisc : Format (CommsMisc (payloads L)) :=
  enum ![.plain .ackUpgradeMode, .plain .displayBackupConfirmed, .plain .backupRecorded,
      .plain .eraseConfirmed,
      ⟨AccessStructureRef × ShareIndex, accessStructureRef.prod W.shareIndex,
        .backupChecked (P := payloads L)⟩]
    (fun
      | .ackUpgradeMode => ⟨0, ()⟩
      | .displayBackupConfirmed => ⟨1, ()⟩
      | .backupRecorded => ⟨2, ()⟩
      | .eraseConfirmed => ⟨3, ()⟩
      | .backupChecked checked => ⟨4, checked⟩)
    (by decide) (by rintro (_ | _ | _ | _ | _) <;> rfl)

/-- A body of a device before it is encapsulated. -/
def deviceSendBody : Format (DeviceSendBody (payloads L)) :=
  enum ![⟨Coordinator.DeviceToCoordinatorMessage L, deviceToCoordinatorMessage W,
        .core (P := payloads L)⟩,
      ⟨String, string, .debug⟩,
      ⟨Sha256Digest, raw 32, .announce⟩,
      ⟨DeviceName, deviceName, .setName⟩,
      .plain .disconnectDownstream,
      .plain .needName,
      .plain .legacyAckUpgradeMode,
      ⟨CommsMisc (payloads L), commsMisc W, .misc⟩,
      ⟨Genuine.DsSignature × Genuine.Certificate, (raw 384).prod (certificate W),
        .legacySignedChallenge (P := payloads L)⟩,
      ⟨Genuine.DeviceMessage, deviceMessage W, .genuineCheck (P := payloads L)⟩]
    (fun
      | .core message => ⟨0, message⟩
      | .debug message => ⟨1, message⟩
      | .announce firmwareDigest => ⟨2, firmwareDigest⟩
      | .setName name => ⟨3, name⟩
      | .disconnectDownstream => ⟨4, ()⟩
      | .needName => ⟨5, ()⟩
      | .legacyAckUpgradeMode => ⟨6, ()⟩
      | .misc message => ⟨7, message⟩
      | .legacySignedChallenge signed => ⟨8, signed⟩
      | .genuineCheck message => ⟨9, message⟩)
    (by decide) (by rintro (_ | _ | _ | _ | _ | _ | _ | _ | _ | _) <;> rfl)

/-- A body of a device on the wire. -/
inductive WireDeviceSendBody where
  | core
  | debug (message : String)
  | announce (firmwareDigest : Sha256Digest)
  | setName (name : DeviceName)
  | disconnectDownstream
  | needName
  | legacyAckUpgradeMode
  | encapsV0 (encaps : List UInt8)

/-- What is read before the device has its own capsule is kept as it was. -/
def wireDeviceSendBody : Format WireDeviceSendBody :=
  enum ![.plain .core,
      ⟨String, string, .debug⟩,
      ⟨Sha256Digest, raw 32, .announce⟩,
      ⟨DeviceName, deviceName, .setName⟩,
      .plain .disconnectDownstream,
      .plain .needName,
      .plain .legacyAckUpgradeMode,
      ⟨List UInt8, bytes, .encapsV0⟩]
    (fun
      | .core => ⟨0, ()⟩
      | .debug message => ⟨1, message⟩
      | .announce firmwareDigest => ⟨2, firmwareDigest⟩
      | .setName name => ⟨3, name⟩
      | .disconnectDownstream => ⟨4, ()⟩
      | .needName => ⟨5, ()⟩
      | .legacyAckUpgradeMode => ⟨6, ()⟩
      | .encapsV0 encaps => ⟨7, encaps⟩)
    (by decide) (by rintro (_ | _ | _ | _ | _ | _ | _ | _) <;> rfl)

/-! ### Messages -/

/-- All devices, or those of a set. -/
def destination : Format Destination :=
  enum ![.plain .all,
      ⟨BTreeSet DeviceId, set W.sizes.deviceId deviceId, .particular⟩]
    (fun
      | .all => ⟨0, ()⟩
      | .particular devices => ⟨1, devices⟩)
    (by decide) (by rintro (_ | _) <;> rfl)

/-- Where a message goes stands before what it is. -/
def coordinatorSendMessage : Format (CoordinatorSendMessage WireCoordinatorSendBody) :=
  ((destination W).prod wireCoordinatorSendBody).map
    (fun (targetDestinations, messageBody) => ⟨targetDestinations, messageBody⟩)
    (fun m => (m.targetDestinations, m.messageBody)) fun _ => rfl

/-- A message of a device on the wire. -/
structure DeviceSendMessage (B : Type) where
  from_ : DeviceId
  body : B

/-- Who sends a message stands before what it is. -/
def deviceSendMessage : Format (DeviceSendMessage WireDeviceSendBody) :=
  (deviceId.prod wireDeviceSendBody).map (fun (from_, body) => ⟨from_, body⟩)
    (fun m => (m.from_, m.body)) fun _ => rfl

end Frostsnap.Wire
