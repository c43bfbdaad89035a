import Frostsnap.Core.FrostLib

/-!
# Deriving keys

The derivations of `frostsnap_core/src/tweak.rs`: BIP32 steps without hardened children, the paths
the wallet uses, and the x-only key of an `AppTweak`. They are written once for everything that
can be tweaked: the public polynomial of a shared key (the coordinator), a secret share together
with the public key (a device), and a point (whoever watches addresses).

The curve, shared keys, shares and hashes are a library's. A value of `E` is a point, where zero is
the point at infinity that no key may be, and a value of `F` is a scalar.
-/

namespace Frostsnap

/-! ### Paths -/

/-- A child index that is not hardened. -/
structure NormalIndex where
  toU32 : ℕ
  isNormal : toU32 < 2 ^ 31
  deriving DecidableEq

namespace NormalIndex

/-- The first child. -/
def zero : NormalIndex where
  toU32 := 0
  isNormal := by decide

/-- `NormalIndex::new`. -/
def new (index : ℕ) : Option NormalIndex :=
  if h : index < 2 ^ 31 then some ⟨index, h⟩ else none

end NormalIndex

/-- What the keys of an account are for. -/
inductive AccountKind where
  | segwitv1
  deriving DecidableEq

/-- The number of an account kind in a path. -/
def AccountKind.toU32 : AccountKind → ℕ
  | .segwitv1 => 0

/-- Addresses to receive on, and addresses for change. -/
inductive Keychain where
  | external
  | internal
  deriving DecidableEq

/-- The number of a keychain in a path. -/
def Keychain.toU32 : Keychain → ℕ
  | .external => 0
  | .internal => 1

/-- An account of a wallet. -/
structure BitcoinAccount where
  kind : AccountKind
  index : NormalIndex
  deriving DecidableEq

namespace BitcoinAccount

/-- The account that a wallet starts with. -/
def default : BitcoinAccount where
  kind := .segwitv1
  index := .zero

/-- The path of an account. -/
def pathSegmentsFromBitcoinAppkey (account : BitcoinAccount) : List ℕ :=
  [account.kind.toU32, account.index.toU32]

end BitcoinAccount

/-- A keychain of an account. -/
structure BitcoinAccountKeychain where
  account : BitcoinAccount
  keychain : Keychain
  deriving DecidableEq

namespace BitcoinAccountKeychain

/-- The addresses to receive on of the default account. -/
def external : BitcoinAccountKeychain where
  account := .default
  keychain := .external

/-- The addresses for change of the default account. -/
def internal : BitcoinAccountKeychain where
  account := .default
  keychain := .internal

/-- The path of a keychain. -/
def pathSegmentsFromBitcoinAppkey (k : BitcoinAccountKeychain) : List ℕ :=
  k.account.pathSegmentsFromBitcoinAppkey ++ [k.keychain.toU32]

end BitcoinAccountKeychain

/-- The path of an address. -/
structure BitcoinBip32Path where
  accountKeychain : BitcoinAccountKeychain
  index : NormalIndex
  deriving DecidableEq

namespace BitcoinBip32Path

/-- The segments of the path. -/
def pathSegmentsFromBitcoinAppkey (path : BitcoinBip32Path) : List ℕ :=
  path.accountKeychain.pathSegmentsFromBitcoinAppkey ++ [path.index.toU32]

/-- `BitcoinBip32Path::from_u32_slice`. -/
def fromU32Slice : List ℕ → Option BitcoinBip32Path
  | [kind, account, keychain, index] => do
      let accountKind ← match kind with
        | 0 => some AccountKind.segwitv1
        | _ => none
      let keychain ← match keychain with
        | 0 => some Keychain.external
        | 1 => some Keychain.internal
        | _ => none
      let account := { kind := accountKind, index := ← NormalIndex.new account }
      return { accountKeychain := { account := account, keychain := keychain }
               index := ← NormalIndex.new index }
  | _ => none

end BitcoinBip32Path

/-- What a key signs for. -/
inductive AppTweak where
  | testMessage
  | bitcoin (path : BitcoinBip32Path)
  | nostr
  deriving DecidableEq

/-- The kinds of `AppTweak`. -/
inductive AppTweakKind where
  | bitcoin
  | testMessage
  | nostr
  deriving DecidableEq

/-- The number of a kind in a path. -/
def AppTweakKind.toU32 : AppTweakKind → ℕ
  | .bitcoin => 0
  | .testMessage => 1
  | .nostr => 2

/-- The kind of a tweak. -/
def AppTweak.kind : AppTweak → AppTweakKind
  | .bitcoin _ => .bitcoin
  | .nostr => .nostr
  | .testMessage => .testMessage

/-! ### What can be tweaked -/

/-- The functions of the libraries that derivation calls, of which `K` are the shared keys and
`S` the secret shares that know their public key. -/
structure KeyLib (F E K S : Type) where
  /-- the generator -/
  generator : E
  /-- `Point::is_y_even` -/
  isYEven : E → Bool
  /-- `SharedKey::point_polynomial` -/
  pointPolynomial : K → List E
  /-- `SharedKey::homomorphic_add` -/
  homomorphicAdd : K → F → K
  /-- `SharedKey::into_xonly` -/
  intoXonly : K → K
  /-- the index of a share -/
  shareIndex : S → F
  /-- the scalar of a share -/
  secretShare : S → F
  /-- `PairedSecretShare::public_key` -/
  sharePublicKey : S → E
  /-- `PairedSecretShare::homomorphic_add` -/
  shareHomomorphicAdd : S → F → S
  /-- `PairedSecretShare::into_xonly` -/
  shareIntoXonly : S → S
  /-- the HMAC-SHA512 of a key and a child index under a chaincode: its first half as a scalar, and
  its second half -/
  bip32Hmac : BitVec 256 → E → ℕ → F × BitVec 256
  /-- `to_libsecp_xonly` -/
  xonlyBytes : E → BitVec 256
  /-- `TapTweakHash::from_key_and_tweak` without a merkle root, as a scalar -/
  tapTweak : BitVec 256 → F

/-- `TweakableKey`: what a key needs to be derived from. -/
structure TweakableKey (F E K : Type) where
  toKey : K → E
  tweak : K → F → Exec K
  intoXonlyWithTweak : K → F → Exec K
  intoXonly : K → K

namespace KeyLib

variable {F E K S : Type} [AddCommGroup E] (L : KeyLib F E K S)

/-- `SharedKey::public_key`, the constant coefficient. -/
def publicKey (key : K) : E := (L.pointPolynomial key).headD 0

/-- `into_point_with_even_y`, without saying whether the point was negated. -/
def evenY (P : E) : E := if L.isYEven P then P else -P

variable [DecidableEq E]

/-- `non_zero` and `expect`. -/
def nonZero {T : Type} (toKey : T → E) (key : T) : Exec T :=
  if toKey key = 0 then .panic "computationally unreachable" else .ret key

/-- `impl TweakableKey for SharedKey`. -/
def sharedKey : TweakableKey F E K where
  toKey := L.publicKey
  tweak key tweak := nonZero L.publicKey (L.homomorphicAdd key tweak)
  intoXonlyWithTweak key tweak := do
    let tweaked ← nonZero L.publicKey (L.homomorphicAdd (L.intoXonly key) tweak)
    return L.intoXonly tweaked
  intoXonly := L.intoXonly

/-- `impl TweakableKey for PairedSecretShare`. -/
def pairedSecretShare : TweakableKey F E S where
  toKey := L.sharePublicKey
  tweak share tweak := nonZero L.sharePublicKey (L.shareHomomorphicAdd share tweak)
  intoXonlyWithTweak share tweak := do
    let tweaked ← nonZero L.sharePublicKey (L.shareHomomorphicAdd (L.shareIntoXonly share) tweak)
    return L.shareIntoXonly tweaked
  intoXonly := L.shareIntoXonly

/-- `impl TweakableKey for Point`. -/
def point [Field F] [Module F E] : TweakableKey F E E where
  toKey := id
  tweak P tweak := nonZero id (P + tweak • L.generator)
  intoXonlyWithTweak P tweak := do
    let tweaked ← nonZero id (L.evenY P + tweak • L.generator)
    return L.evenY tweaked
  intoXonly := L.evenY

end KeyLib

/-! ### Derivation -/

namespace TweakableKey

variable {F E K S T : Type} (L : KeyLib F E K S) (t : TweakableKey F E T)

/-- `derive_bip32`. -/
def deriveBip32 : List ℕ → Xpub T → Exec (Xpub T)
  | [], x => .ret x
  | child :: segments, x => do
      let hmac := L.bip32Hmac x.chaincode (t.toKey x.key) child
      let key ← t.tweak x.key hmac.1
      deriveBip32 segments { key := key, chaincode := hmac.2 }

/-- `rootkey_to_master_appkey`. -/
def rootkeyToMasterAppkey (x : Xpub T) : Exec (Xpub T) := t.deriveBip32 L [0] x

/-- `AppTweak::derive_xonly_key`. -/
def deriveXonlyKey [Zero F] [DecidableEq F] (tweak : AppTweak) (masterAppkey : Xpub T) :
    Exec T := do
  let appkey ← t.deriveBip32 L [tweak.kind.toU32] masterAppkey
  match tweak with
  | .bitcoin path => do
      let concreteInternalKey ← t.deriveBip32 L path.pathSegmentsFromBitcoinAppkey appkey
      let tapTweak := L.tapTweak (L.xonlyBytes (t.toKey concreteInternalKey.key))
      if tapTweak = 0 then .panic "computationally unreachable"
      else t.intoXonlyWithTweak concreteInternalKey.key tapTweak
  | .nostr => return t.intoXonly appkey.key
  | .testMessage => return t.intoXonly appkey.key

end TweakableKey

end Frostsnap
