import Frostsnap.Coordinator.PlainLib
import Frostsnap.Device.Steps

/-!
# A device to compute with

`plainDeviceLib` goes with `plainLib`: a scalar is the number of its point, a ciphertext is a key
next to a scalar, and a receiver of a share evaluates the polynomial of the key generation. The
concrete runs of devices are over it.
-/

namespace Frostsnap

namespace Device

namespace PlainDevice

/-- What a contributor keeps. -/
structure Contributor where
  threshold : ℕ
  receiverKeys : List Point
  mySlot : ℕ

/-- A verified key generation, and the index of the share in it. -/
structure ShareReceiver where
  certifier : PlainLib.Certifier
  index : ShareIndex

/-- The share of a polynomial of numbers. -/
def ShareReceiver.share (receiver : ShareReceiver) : PairedSecretShare where
  secretShare :=
    { index := receiver.index
      share := (plainLib.evalPolynomial receiver.certifier.polynomial receiver.index).setWidth 256 }
  publicKey := receiver.certifier.polynomial.headD 0

end PlainDevice

open PlainDevice

/-- What devices use of libraries, to compute with. -/
def plainDeviceLib : DeviceLib plainLib where
  bitcoin := Bitcoin.plainBitcoinLib
  Cipher := BitVec 512
  Backup := SecretShare
  Contributor := Contributor
  SecretShareReceiver := ShareReceiver
  PartySignSession := Binonce
  encrypt key scalar _ := key ++ scalar
  decrypt key ciphertext :=
    if ciphertext.extractLsb' 256 256 = key then some (ciphertext.setWidth 256) else none
  image scalar := scalar.setWidth 264
  genKeygenInput threshold _ receiverKeys mySlot (rng : ℕ) :=
    .ok ({ threshold := threshold, receiverKeys := receiverKeys, mySlot := mySlot },
      (List.range threshold).map fun i => BitVec.ofNat 264 (rng + i))
  verifyAggInput contributor (polynomial : List Point) _ :=
    if polynomial.length ≠ contributor.threshold then
      .error "the polynomial has the wrong length"
    else
      .ok ({ certifier :=
              { receiverKeys := contributor.receiverKeys
                polynomial := polynomial
                certificates := [] }
             index := BitVec.ofNat 256 (contributor.mySlot + 1) }, (0 : ℕ))
  sharedKey receiver := { pointPolynomial := receiver.certifier.polynomial }
  checkFingerprint _ _ := some 0
  finalize receiver certificate :=
    if certificate.size ≠ receiver.certifier.receiverKeys.length + 1 then
      .error "certificates are missing"
    else .ok ({ receiver.certifier with certificates := certificate.toList }, receiver.share)
  sessionId request :=
    PlainLib.hashPoints (request.aggNonces.map (·.setWidth 264)) + request.accessStructureId
  shareToMasterAppkey root :=
    let hmac := plainLib.bip32Hmac 0 root.publicKey 0
    { key :=
        { secretShare :=
            { index := root.secretShare.index
              share := root.secretShare.share + hmac.1 }
          publicKey := plainLib.tweakPoint root.publicKey hmac.1 }
      chaincode := hmac.2 }
  deriveXonlyShare _ xpub := xpub.key
  partySignSession publicKey _ aggNonce _ := aggNonce + publicKey.setWidth 528
  sign session share nonce :=
    session.setWidth 256 + share.secretShare.share + nonce.setWidth 256
  backupShareImage backup := { index := backup.index, image := backup.share.setWidth 264 }
  extractSecret backup _ := some backup
  fromSecretShareAndSharedKey share _ := share
  hex id := toString id.toNat

/-- What is derived from a secret in the chip that everyone knows. -/
def plainDerivation : DeviceSecretDerivation where
  getShareEncryptionKey ref index contrib := ref.keyId + ref.accessStructureId + index + contrib
  nonces :=
    { deriveNonceSeed := fun _ index seed => seed + BitVec.ofNat 256 index
      keystream := fun seed _ => (seed + 1, seed.setWidth 512)
      publicNonce := fun nonce => nonce.setWidth 528 }

section

attribute [local instance] Build.release

variable {L : FrostLib} {D : DeviceLib L} {S : Type} [NonceStreamSlot S SeedMaterial SignatureShare]

namespace Signer

variable (symmKeygen : DeviceSecretDerivation)

/-- The device after an operation that does not panic. -/
def after (s : Signer D S) (op : Op D) : Signer D S :=
  match s.step symmKeygen op with
  | .ret (_, s) => s
  | .panic _ => s

/-- What happens, with what is sent for it. -/
def entryOf (s : Signer D S) (op : Op D) : Entry D where
  op := op
  sends :=
    match s.step symmKeygen op with
    | .ret (sends, _) => sends
    | .panic _ => none

/-- The entries of a list of operations. -/
def entriesOf : Signer D S → List (Op D) → List (Entry D)
  | _, [] => []
  | s, op :: ops => s.entryOf symmKeygen op :: entriesOf (s.after symmKeygen op) ops

/-- No operation of a list panics, and all are allowed. -/
def Runs : Signer D S → List (Entry D) → List (Op D) → Prop
  | _, _, [] => True
  | s, trace, op :: ops =>
      op.Allowed trace ∧ (s.step symmKeygen op).Returns ∧
        Runs (s.after symmKeygen op) (trace ++ [s.entryOf symmKeygen op]) ops

end Signer

variable {symmKeygen : DeviceSecretDerivation} {s₀ : Signer D S}

theorem Reach.after {s : Signer D S} {trace : List (Entry D)} {op : Op D}
    (h : Reach symmKeygen s₀ s trace) (hop : op.Allowed trace)
    (hreturns : (s.step symmKeygen op).Returns) :
    Reach symmKeygen s₀ (s.after symmKeygen op) (trace ++ [s.entryOf symmKeygen op]) := by
  obtain ⟨⟨sends, s'⟩, hstep⟩ := hreturns
  rw [Signer.after, Signer.entryOf, hstep]
  exact h.step hop hstep

theorem Reach.runs {s : Signer D S} {trace : List (Entry D)} (h : Reach symmKeygen s₀ s trace)
    {ops : List (Op D)} (hops : s.Runs symmKeygen trace ops) :
    Reach symmKeygen s₀ (ops.foldl (Signer.after symmKeygen) s)
      (trace ++ s.entriesOf symmKeygen ops) := by
  induction ops generalizing s trace with
  | nil => simpa only [Signer.entriesOf, List.append_nil, List.foldl_nil] using h
  | cons op ops ih =>
      have h' := ih (h.after hops.1 hops.2.1) hops.2.2
      rwa [List.append_assoc] at h'

end

instance {α : Type} (x : Exec α) : Decidable x.Returns :=
  match x with
  | .ret a => isTrue ⟨a, rfl⟩
  | .panic msg => isFalse (Exec.not_returns_panic msg)

/-- Slots of nonces that are kept in memory. -/
abbrev PlainSlot := MemoryNonceSlot SeedMaterial SignatureShare

theorem publicKeyOfPair_one : (1 : DeviceId) = plainLib.publicKeyOfPair (1 : BitVec 256) := by
  decide +kernel

/-- A device with empty slots and no keys. -/
def plainSigner (slots : ℕ) : Signer plainDeviceLib PlainSlot where
  toFrostSigner := .new 1 (.new (List.replicate slots { inner := none }))
  keypair := (1 : BitVec 256)
  deviceIdOfKeypair := publicKeyOfPair_one
  keygen := KeygenState.clearTmpData plainDeviceLib
  keygenFingerprint := 0

theorem plainSigner_started (slots : ℕ) : Started (plainSigner slots) where
  ordinary := .new fun slot hslot => by
    rw [List.eq_of_mem_replicate hslot]
    rfl
  keygen := rfl
  tmpLoadedBackups := rfl

end Device

end Frostsnap
