import Frostsnap.Bitcoin.SignTask
import Frostsnap.Coordinator.Messages
import Frostsnap.Core.OpenStreams

/-!
# Messages of a device

What a device receives, and what it sends to the coordinator and to its user: `message.rs`,
`device/device_to_user.rs` and the phases of `device.rs`, `device/keygen.rs` and
`device/restoration.rs`. A phase is what the user is asked about together with what the device
needs to go on once the user has agreed.

`DeviceLib` has what a device calls of libraries, next to what `FrostLib` has of them.
-/

namespace Frostsnap

namespace Device

/-- What a nonce slot is ratcheted with. -/
abbrev SeedMaterial := BitVec 256

/-- A pair of secret nonces. -/
abbrev SecretNonce := BitVec 512

/-- A share of a secret. -/
structure SecretShare where
  index : ShareIndex
  share : BitVec 256
  deriving DecidableEq

/-- A share of a secret, and the public key of the secret. -/
structure PairedSecretShare where
  secretShare : SecretShare
  publicKey : Point
  deriving DecidableEq

/-- `DeviceSecretDerivation`: what is derived from the secret in the chip. -/
structure DeviceSecretDerivation where
  getShareEncryptionKey :
    AccessStructureRef → ShareIndex → CoordShareDecryptionContrib → SymmetricKey
  nonces : NonceDerivation SeedMaterial SecretNonce Binonce

/-- The types and functions of libraries that devices use. -/
structure DeviceLib (L : FrostLib) where
  bitcoin : Bitcoin.BitcoinLib
  Cipher : Type
  Backup : Type
  Contributor : Type
  SecretShareReceiver : Type
  PartySignSession : Type
  /-- `Ciphertext::encrypt` and `decrypt` of a scalar -/
  encrypt : SymmetricKey → BitVec 256 → L.Rng → Cipher
  decrypt : SymmetricKey → Cipher → Option (BitVec 256)
  /-- the point of a scalar -/
  image : BitVec 256 → Point
  /-- `Contributor::gen_keygen_input` of a share receiver -/
  genKeygenInput :
    ℕ → List Point → List Point → ℕ → L.Rng → Except String (Contributor × L.KeygenInput)
  verifyAggInput : Contributor → L.AggKeygenInput → L.KeyPair →
    Except String (SecretShareReceiver × L.CertVrfProof)
  /-- the shared key of the verified input -/
  sharedKey : SecretShareReceiver → SharedKey
  /-- `SharedKey::check_fingerprint` -/
  checkFingerprint : SharedKey → Fingerprint → Option ℕ
  /-- `SecretShareReceiver::finalize` -/
  finalize :
    SecretShareReceiver → BTreeMap Point L.CertVrfProof →
      Except String (L.CertifiedKeygen × PairedSecretShare)
  /-- the hash of the encoding of a request -/
  sessionId : GroupSignReq Bitcoin.WireSignTask → SignSessionId
  /-- `rootkey_to_master_appkey` of a share that nothing was derived from yet -/
  shareToMasterAppkey : PairedSecretShare → Xpub PairedSecretShare
  /-- `AppTweak::derive_xonly_key` of a share -/
  deriveXonlyShare : AppTweak → Xpub PairedSecretShare → PairedSecretShare
  partySignSession :
    Point → BTreeSet ShareIndex → Binonce → Bitcoin.SignItem → PartySignSession
  sign : PartySignSession → PairedSecretShare → SecretNonce → SignatureShare
  backupShareImage : Backup → ShareImage
  /-- `ShareBackup::extract_secret` -/
  extractSecret : Backup → SharedKey → Option SecretShare
  /-- `ShareBackup::from_secret_share_and_shared_key` -/
  fromSecretShareAndSharedKey : SecretShare → SharedKey → Backup
  /-- how an identifier is written -/
  hex : {n : ℕ} → BitVec n → String

variable {L : FrostLib} (D : DeviceLib L)

instance : ShareBackup D.Backup where
  shareImage := D.backupShareImage

/-- The image of a share. -/
def SecretShare.shareImage (s : SecretShare) : ShareImage where
  index := s.index
  image := D.image s.share

/-! ### From the coordinator -/

/-- What the coordinator says in a key generation. -/
inductive Keygen (L : FrostLib) where
  | begin (m : Coordinator.Begin)
  | certifyPlease (keygenId : KeygenId) (aggInput : L.AggKeygenInput)
  | check (keygenId : KeygenId) (certificate : BTreeMap Point L.CertVrfProof)
  | finalize (keygenId : KeygenId)

/-- A signing request for a device. -/
structure RequestSign where
  groupSignReq : GroupSignReq Bitcoin.WireSignTask
  deviceSignReq : Coordinator.DeviceSignReq

/-- What the coordinator says about signing. -/
inductive CoordinatorSigning where
  | requestSign (requestSign : RequestSign)
  | openNonceStreams (streams : List CoordNonceStreamState)

/-- What the coordinator says about backups. -/
inductive CoordinatorRestoration where
  | enterPhysicalBackup (enterPhysicalId : EnterPhysicalId)
  | savePhysicalBackup (shareImage : ShareImage) (keyName : String) (purpose : KeyPurpose)
      (threshold : ℕ)
  | consolidate (consolidate : Coordinator.ConsolidateBackup)
  | displayBackup (accessStructureRef : AccessStructureRef)
      (coordShareDecryptionContrib : CoordShareDecryptionContrib) (shareIndex : ShareIndex)
      (rootSharedKey : SharedKey)
  | requestHeldShares
  | savePhysicalBackup2 (heldShare : HeldShare2)
  | checkBackup (coordShareDecryptionContrib : CoordShareDecryptionContrib)
      (shareIndex : ShareIndex) (rootSharedKey : SharedKey)

/-- What the coordinator asks a device to show. -/
inductive ScreenVerify where
  | verifyAddress (masterAppkey : MasterAppkey) (derivationIndex : NormalIndex)

/-- A message of the coordinator to a device. -/
inductive CoordinatorToDeviceMessage (L : FrostLib) where
  | keyGen (m : Keygen L)
  | signing (m : CoordinatorSigning)
  | restoration (m : CoordinatorRestoration)
  | screenVerify (m : ScreenVerify)

/-- The name of a message, for its errors. -/
def CoordinatorRestoration.kind : CoordinatorRestoration → String
  | .enterPhysicalBackup _ => "EnterPhysicalBackup"
  | .savePhysicalBackup .. => "SavePhysicalBackup"
  | .consolidate _ => "Consolidate"
  | .displayBackup .. => "DisplayBackup"
  | .requestHeldShares => "RequestHeldShares"
  | .savePhysicalBackup2 _ => "SavePhysicalBackup2"
  | .checkBackup .. => "CheckBackup"

/-! ### Phases -/

/-- After the device has contributed to a key generation. -/
structure KeyGenPhase1 where
  inputState : D.Contributor
  threshold : ℕ
  keyName : String
  keyPurpose : KeyPurpose

/-- After it has certified the aggregated input. -/
structure KeyGenPhase2 where
  keygenId : KeygenId
  shareReceiver : D.SecretShareReceiver
  keyName : String
  keyPurpose : KeyPurpose

/-- After everyone has, for the user to check. -/
structure KeyGenPhase3 where
  keygenId : KeygenId
  sessionHash : SessionHash
  keyName : String
  keyPurpose : KeyPurpose
  nReceivers : ℕ
  sharedKey : SharedKey
  secretShare : PairedSecretShare
  deriving DecidableEq

/-- After the user has agreed. -/
structure KeyGenPhase4 where
  keyName : String
  keyPurpose : KeyPurpose
  accessStructureRef : AccessStructureRef
  accessStructureKind : AccessStructureKind
  encryptedSecretShare : EncryptedSecretShare D.Cipher
  threshold : ℕ

/-- A signing request that was accepted, for the user to check. -/
structure SignPhase1 where
  groupSignReq : GroupSignReq Bitcoin.CheckedSignTask
  deviceSignReq : Coordinator.DeviceSignReq
  encryptedSecretShare : EncryptedSecretShare D.Cipher
  sessionId : SignSessionId

/-- A share with what is needed to save it. -/
structure CompleteSecretShare where
  accessStructureRef : AccessStructureRef
  keyName : String
  purpose : KeyPurpose
  threshold : ℕ
  secretShare : SecretShare
  deriving DecidableEq

/-- A backup that is to be consolidated. -/
structure ConsolidatePhase where
  completeShare : CompleteSecretShare
  coordContrib : CoordShareDecryptionContrib
  deriving DecidableEq

/-- A backup that is to be shown. -/
structure BackupDisplayPhase where
  accessStructureRef : AccessStructureRef
  shareIndex : ShareIndex
  encryptedSecretShare : D.Cipher
  coordShareDecryptionContrib : CoordShareDecryptionContrib
  keyName : String
  rootSharedKey : SharedKey

/-- A backup that is to be entered. -/
structure EnterBackupPhase where
  enterPhysicalId : EnterPhysicalId
  deriving DecidableEq

/-! ### To the user and the coordinator -/

/-- What the user is told about backups. -/
inductive ToUserRestoration where
  | enterBackup (phase : EnterBackupPhase)
  | backupSaved (shareImage : ShareImage) (keyName : Option String) (purpose : Option KeyPurpose)
      (threshold : Option ℕ)
  | consolidateBackup (phase : ConsolidatePhase)
  | displayBackup (keyName : String) (accessStructureRef : AccessStructureRef)
      (phase : BackupDisplayPhase D)
  | checkBackup (keyName : String) (accessStructureRef : AccessStructureRef)
      (phase : BackupDisplayPhase D)

/-- What the user is told. -/
inductive DeviceToUserMessage where
  | finalizeKeyGen (keyName : String)
  | checkKeyGen (phase : KeyGenPhase3)
  | signatureRequest (phase : SignPhase1 D)
  | verifyAddress (address : D.bitcoin.Address) (bip32Path : BitcoinBip32Path)
  | restoration (m : ToUserRestoration D)
  | nonceJobs (batch : NonceJobBatch SeedMaterial Binonce)

/-- What a device sends. -/
inductive DeviceSend where
  | toUser (message : DeviceToUserMessage D)
  | toCoordinator (message : Coordinator.DeviceToCoordinatorMessage L)

/-- The texts of the errors of a sign task. -/
def signTaskErrorText : Bitcoin.SignTaskError → String
  | .unwatchedAccount account =>
      "sign task has an output in an account this wallet doesn't use: " ++
        "BitcoinAccount \x7b kind: Segwitv1, index: NormalIndex(" ++
          toString account.index.toU32 ++ ") \x7d"
  | .outputIndexOutOfRange index =>
      "sign task has an output at index " ++ toString index.toU32 ++ ", past the limit of " ++
        toString Bitcoin.OUTPUT_INDEX_LIMIT
  | .invalidBitcoinTransaction => "Bitcoin transaction input value was less than outputs"
  | .nothingToSign => "Transaction has no inputs that belong to this wallet"
  | .wrongPurpose =>
      "Coordinator tried to use key for something other than its intended purpose"

end Device

end Frostsnap
