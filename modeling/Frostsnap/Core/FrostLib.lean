import Frostsnap.Core.Device

/-!
# What is taken from libraries

Keys, ciphertexts and signing sessions as the coordinator sees them. The curve, the hashes, the
cipher, the key generation protocol and the signing protocol are libraries; `FrostLib` has the
types and functions of them that the coordinator calls. What a function does with the random
numbers it draws is a function of a value of `Rng` here.

A shared key is the list of the points of its polynomial, so that which of them a derivation
changes can be seen.
-/

namespace Frostsnap

/-- A public nonce, two points. -/
abbrev Binonce := BitVec 528

/-- The scalar of a signature share. -/
abbrev SignatureShare := BitVec 256

/-- An encoded signature. -/
abbrev EncodedSignature := BitVec 512

/-- A key that encrypts what the coordinator stores. -/
abbrev SymmetricKey := BitVec 256

/-- An encrypted root key, with its nonce and tag. -/
abbrev RootkeyCiphertext := BitVec 488

/-- A point and a chaincode. -/
abbrev MasterAppkey := BitVec 520

/-- The hash that the participants of a key generation compare. -/
abbrev SessionHash := BitVec 256

/-- The hash the coordinator contributes to the decryption of a share. -/
abbrev CoordShareDecryptionContrib := BitVec 256

/-- The number of zero bits that a polynomial is ground for, and where. -/
abbrev Fingerprint := ℕ

/-- A key shared by a polynomial. -/
structure SharedKey where
  pointPolynomial : List Point
  deriving DecidableEq

namespace SharedKey

/-- The constant term. -/
def publicKey (key : SharedKey) : Point := key.pointPolynomial.headD 0

/-- The number of coefficients. -/
def threshold (key : SharedKey) : ℕ := key.pointPolynomial.length

end SharedKey

/-- A key with the chaincode for deriving other keys from it. -/
structure Xpub (K : Type) where
  key : K
  chaincode : BitVec 256
  deriving DecidableEq

/-- A signing request for everyone who signs. -/
structure GroupSignReq (SignTask : Type) where
  parties : BTreeSet ShareIndex
  aggNonces : List Binonce
  signTask : SignTask
  accessStructureId : AccessStructureId

namespace GroupSignReq

/-- One aggregate nonce for each signature. -/
def nSignatures {SignTask : Type} (r : GroupSignReq SignTask) : ℕ := r.aggNonces.length

end GroupSignReq

/-- A participant of the key generation. -/
inductive Party where
  | auxContributor (index : ℕ)
  | receiver (index : ℕ)
  deriving DecidableEq

/-- The types and functions of the libraries that the coordinator uses. -/
structure FrostLib where
  /-- what is drawn from the random number generator -/
  Rng : Type
  SignTask : Type
  SignItem : Type
  SignTaskError : Type
  SignSession : Type
  KeyPair : Type
  KeygenInput : Type
  AggKeygenInput : Type
  InputAggregator : Type
  Contributer : Type
  Certifier : Type
  CertVrfProof : Type
  CertifiedKeygen : Type
  /-- the hash of a master appkey, with the prefix `KEY_ID` -/
  keyIdOfMasterAppkey : MasterAppkey → KeyId
  /-- the hash of a polynomial, with the prefix `ACCESS_STRUCTURE_ID` -/
  accessStructureIdOfAppPoly : List Point → AccessStructureId
  /-- the hash with the prefix `SHARE_DECRYPTION` -/
  shareDecryptionHash : DeviceId → ShareIndex → List Point → CoordShareDecryptionContrib
  /-- the HMAC of a key and a child index: a tweak and the next chaincode -/
  bip32Hmac : BitVec 256 → Point → ℕ → BitVec 256 × BitVec 256
  /-- a point plus a multiple of the generator -/
  tweakPoint : Point → BitVec 256 → Point
  /-- `Point::from_bytes` is not `None` -/
  isPoint : DeviceId → Bool
  generator : Point
  /-- the value of a polynomial at an index -/
  evalPolynomial : List Point → ShareIndex → Point
  encryptRootkey : SymmetricKey → Point → Rng → RootkeyCiphertext
  decryptRootkey : SymmetricKey → RootkeyCiphertext → Option Point
  sessionId : GroupSignReq SignTask → SignSessionId
  /-- `WireSignTask::check`, and the sign items of what it gives -/
  checkSignTask : SignTask → MasterAppkey → KeyPurpose → Except SignTaskError (List SignItem)
  /-- the key of a sign item -/
  deriveXonlyKey : SignItem → Xpub SharedKey → SharedKey
  randomizedCoordinatorSignSession :
    SharedKey → BTreeMap ShareIndex Binonce → SignItem → Rng → SignSession
  parties : SignSession → BTreeSet ShareIndex
  aggBinonce : SignSession → Binonce
  verifySignatureShare : SignSession → SharedKey → ShareIndex → SignatureShare → Bool
  combineSignatureShares : SignSession → List SignatureShare → EncodedSignature
  verifyFinalSignature : SignItem → MasterAppkey → EncodedSignature → Bool
  newKeyPair : Rng → KeyPair
  publicKeyOfPair : KeyPair → Point
  /-- `certpedpop::Coordinator::new` -/
  newInputAggregator : ℕ → ℕ → ℕ → InputAggregator
  genKeygenInput : ℕ → List Point → List Point → ℕ → Rng → Except String (Contributer × KeygenInput)
  addInput : InputAggregator → Party → KeygenInput → Except String InputAggregator
  aggregatorIsFinished : InputAggregator → Bool
  finishWithFingerprint : InputAggregator → Fingerprint → Option AggKeygenInput
  /-- `verify_agg_input`, and the certifier that holds what it verified -/
  verifyAggInput : Contributer → AggKeygenInput → KeyPair → Option (Certifier × CertVrfProof)
  receiveCertificate : Certifier → Point → CertVrfProof → Option Certifier
  certifierIsFinished : Certifier → Bool
  certifierFinish : Certifier → Option CertifiedKeygen
  certificate : CertifiedKeygen → List (Point × CertVrfProof)
  sessionHash : CertifiedKeygen → SessionHash
  sharedKeyOfKeygen : CertifiedKeygen → SharedKey
  nReceivers : CertifiedKeygen → ℕ
  receiverKeys : CertifiedKeygen → List (ShareIndex × Point)
  defaultFingerprint : Fingerprint
  /-- `frost_backup::recovery::find_valid_subset`, when the key it finds is not zero -/
  findValidSubset : List ShareImage → Fingerprint → Option ℕ → Option SharedKey

variable (L : FrostLib)

namespace SharedKey

/-- The image of the share at an index. -/
def shareImage (key : SharedKey) (index : ShareIndex) : ShareImage where
  index := index
  image := L.evalPolynomial key.pointPolynomial index

/-- Add a multiple of the generator to the constant term. -/
def tweak (key : SharedKey) (t : BitVec 256) : SharedKey where
  pointPolynomial := key.pointPolynomial.modifyHead (L.tweakPoint · t)

end SharedKey

/-- The bytes of a point and a chaincode. -/
def MasterAppkey.ofParts (key : Point) (chaincode : BitVec 256) : MasterAppkey :=
  key ++ chaincode

namespace Xpub

/-- A key that nothing was derived from yet. -/
def fromRootkey {K : Type} (rootkey : K) : Xpub K where
  key := rootkey
  chaincode := 0

/-- One step of a derivation from a shared key. -/
def deriveChild (x : Xpub SharedKey) (child : ℕ) : Xpub SharedKey :=
  let hmac := L.bip32Hmac x.chaincode x.key.publicKey child
  { key := x.key.tweak L hmac.1, chaincode := hmac.2 }

/-- One step of a derivation from a point. -/
def derivePointChild (x : Xpub Point) (child : ℕ) : Xpub Point :=
  let hmac := L.bip32Hmac x.chaincode x.key child
  { key := L.tweakPoint x.key hmac.1, chaincode := hmac.2 }

/-- `rootkey_to_master_appkey`. -/
def rootkeyToMasterAppkey (x : Xpub SharedKey) : Xpub SharedKey := x.deriveChild L 0

/-- `MasterAppkey::from_xpub_unchecked`. -/
def masterAppkey (x : Xpub SharedKey) : MasterAppkey :=
  MasterAppkey.ofParts x.key.publicKey x.chaincode

end Xpub

/-- `MasterAppkey::derive_from_rootkey`. -/
def MasterAppkey.deriveFromRootkey (rootkey : Point) : MasterAppkey :=
  let x := (Xpub.fromRootkey rootkey).derivePointChild L 0
  MasterAppkey.ofParts x.key x.chaincode

/-- `AccessStructureRef::from_root_shared_key`. -/
def AccessStructureRef.fromRootSharedKey (rootSharedKey : SharedKey) : AccessStructureRef :=
  let appSharedKey := (Xpub.fromRootkey rootSharedKey).rootkeyToMasterAppkey L
  { keyId := L.keyIdOfMasterAppkey appSharedKey.masterAppkey
    accessStructureId := L.accessStructureIdOfAppPoly appSharedKey.key.pointPolynomial }

/-- `CoordShareDecryptionContrib::for_master_share`. -/
def CoordShareDecryptionContrib.forMasterShare (deviceId : DeviceId) (shareIndex : ShareIndex)
    (sharedKey : SharedKey) : CoordShareDecryptionContrib :=
  L.shareDecryptionHash deviceId shareIndex sharedKey.pointPolynomial

/-- The public key of a device. An invalid device id has the generator for one, in a build
without debug assertions. -/
def DeviceId.pubkey [Build] (deviceId : DeviceId) : Exec Point := do
  Exec.debugAssert (L.isPoint deviceId) "assertion failed: point.is_some()"
  return if L.isPoint deviceId then deviceId else L.generator

end Frostsnap
