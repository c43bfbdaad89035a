import Frostsnap.Core.DeviceNonces
import Frostsnap.Core.Ids

/-!
# The keys of a device

The part of `FrostSigner` that mutations change: the keys with their access structures and
encrypted shares, and the physical backups that wait to be consolidated. This module embeds
`apply_mutation` of `device.rs` and `device/restoration.rs`.

## Main results

* `Keys.bare_newKey`, `Keys.bare_newAccessStructure`, `Keys.bare_saveShare`: forgetting the
  shares of the keys commutes with every mutation, and a mutation that carries a share then
  does nothing.
* `Keys.getEncryptedShare_saveShare`: which shares are held after one was saved.
* `Keys.eq_of_shares`: keys are what they are without their shares, and their shares.
-/

namespace Frostsnap

variable {S Cipher Backup : Type}

/-- A share encrypted with a key that the device cannot derive on its own, and its image. -/
structure EncryptedSecretShare (Cipher : Type) where
  shareImage : ShareImage
  ciphertext : Cipher
  deriving DecidableEq

/-- An access structure and the shares of it that the device holds. -/
structure AccessStructureData (Cipher : Type) where
  kind : AccessStructureKind
  threshold : ℕ
  shares : BTreeMap ShareIndex (EncryptedSecretShare Cipher)

/-- A key that the device has shares of. -/
structure KeyData (Cipher : Type) where
  accessStructures : BTreeMap AccessStructureId (AccessStructureData Cipher)
  purpose : KeyPurpose
  keyName : String
  verified : Bool

/-- The keys of a device. -/
abbrev Keys (Cipher : Type) := BTreeMap KeyId (KeyData Cipher)

/-- The share to save and where. -/
structure SaveShareMutation (Cipher : Type) where
  accessStructureRef : AccessStructureRef
  encryptedSecretShare : EncryptedSecretShare Cipher
  deriving DecidableEq

/-- A mutation of the keys. -/
inductive KeyMutation (Cipher : Type) where
  | newKey (keyId : KeyId) (keyName : String) (purpose : KeyPurpose)
  | newAccessStructure (accessStructureRef : AccessStructureRef) (threshold : ℕ)
      (kind : AccessStructureKind)
  | saveShare (mutation : SaveShareMutation Cipher)
  deriving DecidableEq

/-- A backup in the format that is no longer written. -/
structure SavedBackup (Backup : Type) where
  shareBackup : Backup
  threshold : ℕ
  purpose : KeyPurpose
  keyName : String
  deriving DecidableEq

/-- A physical backup that was entered and saved. -/
structure SavedBackup2 (Backup : Type) where
  shareBackup : Backup
  threshold : Option ℕ
  purpose : Option KeyPurpose
  keyName : Option String
  deriving DecidableEq

/-- `From<SavedBackup> for SavedBackup2`. -/
def SavedBackup.toSavedBackup2 (legacy : SavedBackup Backup) : SavedBackup2 Backup where
  shareBackup := legacy.shareBackup
  threshold := some legacy.threshold
  purpose := some legacy.purpose
  keyName := some legacy.keyName

/-- A mutation of the backups. -/
inductive RestorationMutation (Backup : Type) where
  | save (legacy : SavedBackup Backup)
  | unSave (shareImage : ShareImage)
  | save2 (savedBackup : SavedBackup2 Backup)
  deriving DecidableEq

/-- A mutation of a device. -/
inductive Mutation (Cipher Backup : Type) where
  | keygen (mutation : KeyMutation Cipher)
  | restoration (mutation : RestorationMutation Backup)
  deriving DecidableEq

/-- A share backup, of which the device uses the image of its share. -/
class ShareBackup (Backup : Type) where
  shareImage : Backup → ShareImage

export ShareBackup (shareImage)

/-- `restoration::State`. -/
structure Restoration (Backup : Type) where
  tmpLoadedBackups : BTreeMap ShareImage Backup
  savedBackups : BTreeMap ShareImage (SavedBackup2 Backup)

/-- A device: its nonce slots, its keys and backups, and the mutations it has staged. -/
structure FrostSigner (S Cipher Backup : Type) where
  deviceId : DeviceId
  keys : Keys Cipher
  nonceSlots : AbSlots S
  mutations : List (Mutation Cipher Backup)
  restoration : Restoration Backup
  nonceBatchSize : ℕ

/-- The number of nonces the device will give out at a time. -/
abbrev NONCE_BATCH_SIZE : ℕ := 30

/-! ### Keys -/

namespace Keys

/-- Insert a key without access structures. -/
def newKey (keys : Keys Cipher) (keyId : KeyId) (keyName : String) (purpose : KeyPurpose) :
    Keys Cipher :=
  keys.insert keyId
    { accessStructures := ∅, purpose := purpose, keyName := keyName, verified := false }

/-- Insert an access structure without shares, when the key is there. -/
def newAccessStructure (keys : Keys Cipher) (ref : AccessStructureRef) (threshold : ℕ)
    (kind : AccessStructureKind) : Keys Cipher :=
  keys.modify ref.keyId fun keyData =>
    { keyData with
      accessStructures := keyData.accessStructures.insert ref.accessStructureId
        { kind := kind, threshold := threshold, shares := ∅ } }

/-- Insert a share, when its key and access structure are there. -/
def saveShare (keys : Keys Cipher) (m : SaveShareMutation Cipher) : Keys Cipher :=
  keys.modify m.accessStructureRef.keyId fun keyData =>
    { keyData with
      accessStructures :=
        keyData.accessStructures.modify m.accessStructureRef.accessStructureId fun data =>
          { data with
            shares := data.shares.insert m.encryptedSecretShare.shareImage.index
              m.encryptedSecretShare } }

/-- The keys after a mutation of them. -/
def apply (keys : Keys Cipher) : KeyMutation Cipher → Keys Cipher
  | .newKey keyId keyName purpose => keys.newKey keyId keyName purpose
  | .newAccessStructure ref threshold kind => keys.newAccessStructure ref threshold kind
  | .saveShare m => keys.saveShare m

/-- An access structure of a key. -/
def accessStructure (keys : Keys Cipher) (ref : AccessStructureRef) :
    Option (AccessStructureData Cipher) := do
  let keyData ← keys[ref.keyId]?
  keyData.accessStructures[ref.accessStructureId]?

/-- The share of an access structure at an index. -/
def getEncryptedShare (keys : Keys Cipher) (ref : AccessStructureRef) (shareIndex : ShareIndex) :
    Option (EncryptedSecretShare Cipher) := do
  let data ← keys.accessStructure ref
  data.shares[shareIndex]?

end Keys

/-! ### Forgetting the shares -/

/-- An access structure without its shares. -/
def AccessStructureData.bare (data : AccessStructureData Cipher) : AccessStructureData Cipher :=
  { data with shares := ∅ }

/-- A key without the shares of its access structures. -/
def KeyData.bare (keyData : KeyData Cipher) : KeyData Cipher :=
  { keyData with
    accessStructures := keyData.accessStructures.map fun _ => AccessStructureData.bare }

namespace Keys

variable (keys : Keys Cipher)

/-- The keys without their shares. -/
def bare : Keys Cipher := keys.map fun _ => KeyData.bare

theorem bare_newKey (keyId : KeyId) (keyName : String) (purpose : KeyPurpose) :
    (keys.newKey keyId keyName purpose).bare = keys.bare.newKey keyId keyName purpose :=
  BTreeMap.map_insert _ _ _ _

theorem bare_newAccessStructure (ref : AccessStructureRef) (threshold : ℕ)
    (kind : AccessStructureKind) :
    (keys.newAccessStructure ref threshold kind).bare =
      keys.bare.newAccessStructure ref threshold kind := by
  refine BTreeMap.map_modify _ _ fun keyData => ?_
  have h := BTreeMap.map_insert keyData.accessStructures ref.accessStructureId
    { kind := kind, threshold := threshold, shares := ∅ } AccessStructureData.bare
  simp only [KeyData.bare, h]
  rfl

theorem bare_saveShare (m : SaveShareMutation Cipher) : (keys.saveShare m).bare = keys.bare := by
  refine BTreeMap.map_modify_eq _ _ fun keyData => ?_
  rw [KeyData.bare, KeyData.bare, KeyData.mk.injEq]
  exact ⟨BTreeMap.map_modify_eq _ _ fun _ => rfl, rfl, rfl, rfl⟩

theorem accessStructure_bare (ref : AccessStructureRef) :
    keys.bare.accessStructure ref = (keys.accessStructure ref).map AccessStructureData.bare := by
  simp only [accessStructure, bare, Std.ExtTreeMap.getElem?_map]
  cases keys[ref.keyId]? with
  | none => rfl
  | some keyData =>
      simp only [Option.map_some, Option.bind_eq_bind, Option.bind_some, KeyData.bare,
        Std.ExtTreeMap.getElem?_map]

theorem accessStructure_saveShare (m : SaveShareMutation Cipher) (ref : AccessStructureRef) :
    (keys.saveShare m).accessStructure ref =
      if m.accessStructureRef = ref then
        (keys.accessStructure ref).map fun data =>
          { data with
            shares := data.shares.insert m.encryptedSecretShare.shareImage.index
              m.encryptedSecretShare }
      else keys.accessStructure ref := by
  simp only [accessStructure, saveShare, BTreeMap.getElem?_modify]
  by_cases hkey : m.accessStructureRef.keyId = ref.keyId
  · rw [if_pos hkey]
    cases keys[ref.keyId]? with
    | none => simp
    | some keyData =>
        simp only [Option.map_some, Option.bind_eq_bind, Option.bind_some,
          BTreeMap.getElem?_modify]
        by_cases hid : m.accessStructureRef.accessStructureId = ref.accessStructureId
        · rw [if_pos hid, if_pos (AccessStructureRef.ext hkey hid)]
        · rw [if_neg hid, if_neg fun h => hid (congrArg _ h)]
  · rw [if_neg hkey, if_neg fun h => hkey (congrArg _ h)]

theorem accessStructure_newKey (keyId : KeyId) (keyName : String) (purpose : KeyPurpose)
    (ref : AccessStructureRef) :
    (keys.newKey keyId keyName purpose).accessStructure ref =
      if keyId = ref.keyId then none else keys.accessStructure ref := by
  simp only [accessStructure, newKey, BTreeMap.getElem?_insert]
  split
  · rfl
  · rfl

theorem accessStructure_newAccessStructure (ref : AccessStructureRef) (threshold : ℕ)
    (kind : AccessStructureKind) (ref' : AccessStructureRef) :
    (keys.newAccessStructure ref threshold kind).accessStructure ref' =
      if ref = ref' then
        keys[ref'.keyId]?.map fun _ => { kind := kind, threshold := threshold, shares := ∅ }
      else keys.accessStructure ref' := by
  simp only [accessStructure, newAccessStructure, BTreeMap.getElem?_modify]
  by_cases hkey : ref.keyId = ref'.keyId
  · rw [if_pos hkey]
    cases keys[ref'.keyId]? with
    | none => simp
    | some keyData =>
        simp only [Option.map_some, Option.bind_eq_bind, Option.bind_some,
          BTreeMap.getElem?_insert]
        by_cases hid : ref.accessStructureId = ref'.accessStructureId
        · rw [if_pos hid, if_pos (AccessStructureRef.ext hkey hid)]
        · rw [if_neg hid, if_neg fun h => hid (congrArg _ h)]
  · rw [if_neg hkey, if_neg fun h => hkey (congrArg _ h)]

theorem getEncryptedShare_newKey (keyId : KeyId) (keyName : String) (purpose : KeyPurpose)
    (ref : AccessStructureRef) (index : ShareIndex) :
    (keys.newKey keyId keyName purpose).getEncryptedShare ref index =
      if keyId = ref.keyId then none else keys.getEncryptedShare ref index := by
  rw [getEncryptedShare, getEncryptedShare, accessStructure_newKey]
  split
  · rfl
  · rfl

theorem getEncryptedShare_newAccessStructure (ref : AccessStructureRef) (threshold : ℕ)
    (kind : AccessStructureKind) (ref' : AccessStructureRef) (index : ShareIndex) :
    (keys.newAccessStructure ref threshold kind).getEncryptedShare ref' index =
      if ref = ref' then none else keys.getEncryptedShare ref' index := by
  rw [getEncryptedShare, getEncryptedShare, accessStructure_newAccessStructure]
  split
  · cases keys[ref'.keyId]? with
    | none => rfl
    | some keyData => rfl
  · rfl

theorem getEncryptedShare_bare (ref : AccessStructureRef) (index : ShareIndex) :
    keys.bare.getEncryptedShare ref index = none := by
  rw [getEncryptedShare, accessStructure_bare]
  cases keys.accessStructure ref with
  | none => rfl
  | some data => rfl

theorem getEncryptedShare_saveShare (m : SaveShareMutation Cipher) (ref : AccessStructureRef)
    (index : ShareIndex) :
    (keys.saveShare m).getEncryptedShare ref index =
      if m.accessStructureRef = ref ∧ m.encryptedSecretShare.shareImage.index = index ∧
          (keys.accessStructure ref).isSome then some m.encryptedSecretShare
      else keys.getEncryptedShare ref index := by
  rw [getEncryptedShare, getEncryptedShare, accessStructure_saveShare]
  by_cases href : m.accessStructureRef = ref
  · rw [if_pos href]
    cases keys.accessStructure ref with
    | none => simp
    | some data =>
        simp only [Option.map_some, Option.bind_eq_bind, Option.bind_some,
          BTreeMap.getElem?_insert, href, Option.isSome_some, and_true, true_and]
  · rw [if_neg href, if_neg fun h => href h.1]

/-- Keys are equal when they are without their shares, and hold the same shares. -/
theorem eq_of_shares {keys keys' : Keys Cipher} (hbare : keys.bare = keys'.bare)
    (hshares : ∀ ref index, keys.getEncryptedShare ref index = keys'.getEncryptedShare ref index) :
    keys = keys' := by
  refine BTreeMap.eq_of_map_eq hbare fun keyId keyData keyData' hk hk' hdata => ?_
  rw [KeyData.bare, KeyData.bare, KeyData.mk.injEq] at hdata
  rw [KeyData.mk.injEq]
  refine ⟨BTreeMap.eq_of_map_eq hdata.1 fun id data data' ha ha' hshape => ?_, hdata.2⟩
  rw [AccessStructureData.bare, AccessStructureData.bare, AccessStructureData.mk.injEq] at hshape
  have hshare := hshares ⟨keyId, id⟩
  simp only [getEncryptedShare, accessStructure, hk, hk', ha, ha', Option.bind_eq_bind,
    Option.bind_some] at hshare
  rw [AccessStructureData.mk.injEq]
  exact ⟨hshape.1, hshape.2.1, Std.ExtTreeMap.ext_getElem? fun {index} => hshare index⟩

end Keys

/-! ### Backups -/

namespace Restoration

variable [ShareBackup Backup]

/-- Save a backup under the image of its share. -/
def insertBackup (r : Restoration Backup) (savedBackup : SavedBackup2 Backup) :
    Restoration Backup :=
  { r with
    savedBackups := r.savedBackups.insert (shareImage savedBackup.shareBackup) savedBackup }

/-- `apply_mutation_restoration`, with the mutation to be persisted. A backup in the old format
is saved in the new one. `unSave` does nothing: cleaning up happens when a share is saved. -/
def applyMutationRestoration (r : Restoration Backup) :
    RestorationMutation Backup → Restoration Backup × RestorationMutation Backup
  | .save legacy => (r.insertBackup legacy.toSavedBackup2, .save2 legacy.toSavedBackup2)
  | .unSave image => (r, .unSave image)
  | .save2 savedBackup => (r.insertBackup savedBackup, .save2 savedBackup)

omit [ShareBackup Backup] in
/-- Forget the backups of a share. -/
def removeBackupsWithShareImage (r : Restoration Backup) (image : ShareImage) :
    Restoration Backup where
  tmpLoadedBackups := r.tmpLoadedBackups.erase image
  savedBackups := r.savedBackups.erase image

end Restoration

/-! ### Mutations -/

namespace FrostSigner

/-- A device without keys. -/
def new (deviceId : DeviceId) (nonceSlots : AbSlots S) : FrostSigner S Cipher Backup where
  deviceId := deviceId
  keys := ∅
  nonceSlots := nonceSlots
  mutations := []
  restoration := { tmpLoadedBackups := ∅, savedBackups := ∅ }
  nonceBatchSize := NONCE_BATCH_SIZE

variable [ShareBackup Backup]

/-- The device after a mutation, and the mutation to be persisted. -/
def applyMutation (s : FrostSigner S Cipher Backup) :
    Mutation Cipher Backup → FrostSigner S Cipher Backup × Option (Mutation Cipher Backup)
  | .keygen (.saveShare m) =>
      ({ s with
        keys := s.keys.apply (.saveShare m)
        restoration := s.restoration.removeBackupsWithShareImage
          m.encryptedSecretShare.shareImage },
        some (.keygen (.saveShare m)))
  | .keygen m => ({ s with keys := s.keys.apply m }, some (.keygen m))
  | .restoration m =>
      let (restoration, m) := s.restoration.applyMutationRestoration m
      ({ s with restoration := restoration }, some (.restoration m))

/-- Apply a mutation and stage it. -/
def mutate (s : FrostSigner S Cipher Backup) (m : Mutation Cipher Backup) :
    FrostSigner S Cipher Backup :=
  match s.applyMutation m with
  | (s, some m) => { s with mutations := s.mutations ++ [m] }
  | (s, none) => s

omit [ShareBackup Backup] in
/-- The share of an access structure at an index. -/
def getEncryptedShare (s : FrostSigner S Cipher Backup) (ref : AccessStructureRef)
    (shareIndex : ShareIndex) : Option (EncryptedSecretShare Cipher) :=
  s.keys.getEncryptedShare ref shareIndex

end FrostSigner

end Frostsnap
