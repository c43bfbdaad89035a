import Frostsnap.Core.Tweak
import Frostsnap.Lib.Literals
import Frostsnap.Lib.PointPolynomial

/-!
# Tweaking commutes with sharing

The three implementations of a derivation, on the public polynomial, on a secret share and on a
point, carry tweaks and negations in their own ways. They agree (`tweak_homomorphism`): from the
same public key and chaincode they arrive at the same public key and chaincode, or all of them
panic, and the share stays the value of the polynomial at its index.

The proof is in layers. `Matches` says what the three keys have in common. One tweak keeps it, and
so does one negation; a derivation is a list of tweaks; an x-only key is two derivations and a
tweak between two negations.
-/

namespace Frostsnap

/-! ### Outcomes that agree -/

/-- All of three calls panic, or all return and what they return is related. -/
def Agree {α β γ : Type} (R : α → β → γ → Prop) (x : Exec α) (y : Exec β) (z : Exec γ) : Prop :=
  (∃ m n o, x = .panic m ∧ y = .panic n ∧ z = .panic o) ∨
    ∃ a b c, x = .ret a ∧ y = .ret b ∧ z = .ret c ∧ R a b c

namespace Agree

variable {α β γ α' β' γ' : Type} {R : α → β → γ → Prop} {x : Exec α} {y : Exec β} {z : Exec γ}

theorem ret {a : α} {b : β} {c : γ} (h : R a b c) : Agree R (.ret a) (.ret b) (.ret c) :=
  .inr ⟨a, b, c, rfl, rfl, rfl, h⟩

theorem panic (m n o : String) : Agree R (.panic m) (.panic n) (.panic o) :=
  .inl ⟨m, n, o, rfl, rfl, rfl⟩

theorem mono {R' : α → β → γ → Prop} (h : Agree R x y z) (hmono : ∀ a b c, R a b c → R' a b c) :
    Agree R' x y z := by
  rcases h with hpanic | ⟨a, b, c, hx, hy, hz, hR⟩
  · exact .inl hpanic
  · exact .inr ⟨a, b, c, hx, hy, hz, hmono a b c hR⟩

/-- What agrees goes on from what agrees. -/
theorem bind {R' : α' → β' → γ' → Prop} {f : α → Exec α'} {g : β → Exec β'} {k : γ → Exec γ'}
    (h : Agree R x y z) (hnext : ∀ a b c, R a b c → Agree R' (f a) (g b) (k c)) :
    Agree R' (x >>= f) (y >>= g) (z >>= k) := by
  rcases h with ⟨m, n, o, rfl, rfl, rfl⟩ | ⟨a, b, c, rfl, rfl, rfl, hR⟩
  · exact panic m n o
  · exact hnext a b c hR

end Agree

/-! ### What the library does -/

variable {F E K S : Type} [Field F] [AddCommGroup E] [Module F E]

/-- What the library for shared keys does. -/
structure KeyLib.Lawful (L : KeyLib F E K S) : Prop where
  /-- of a point and its negation, one has an even y-coordinate -/
  isYEven_neg : ∀ P : E, P ≠ 0 → L.isYEven (-P) = !L.isYEven P
  pointPolynomial_add : ∀ key t, L.pointPolynomial (L.homomorphicAdd key t) =
    (L.pointPolynomial key).modifyHead (· + t • L.generator)
  pointPolynomial_xonly : ∀ key, L.pointPolynomial (L.intoXonly key) =
    if L.isYEven (L.publicKey key) then L.pointPolynomial key
    else (L.pointPolynomial key).map fun c => -c
  shareIndex_add : ∀ share t, L.shareIndex (L.shareHomomorphicAdd share t) = L.shareIndex share
  secretShare_add : ∀ share t,
    L.secretShare (L.shareHomomorphicAdd share t) = L.secretShare share + t
  sharePublicKey_add : ∀ share t, L.sharePublicKey (L.shareHomomorphicAdd share t) =
    L.sharePublicKey share + t • L.generator
  shareIndex_xonly : ∀ share, L.shareIndex (L.shareIntoXonly share) = L.shareIndex share
  secretShare_xonly : ∀ share, L.secretShare (L.shareIntoXonly share) =
    if L.isYEven (L.sharePublicKey share) then L.secretShare share else -L.secretShare share
  sharePublicKey_xonly : ∀ share, L.sharePublicKey (L.shareIntoXonly share) =
    L.evenY (L.sharePublicKey share)

namespace KeyLib

variable {L : KeyLib F E K S}

/-- A shared key, a share of it and its public key. -/
structure Matches (L : KeyLib F E K S) (key : K) (share : S) (P : E) : Prop where
  ne_nil : L.pointPolynomial key ≠ []
  publicKey : L.publicKey key = P
  sharePublicKey : L.sharePublicKey share = P
  /-- the share is the value of the polynomial at its index -/
  share : L.secretShare share • L.generator =
    evalAt (L.pointPolynomial key) (L.shareIndex share)

/-- The polynomial `secret` is behind a shared key, and the share is its value. -/
structure IsSecret (L : KeyLib F E K S) (secret : List F) (key : K) (share : S) : Prop where
  key : L.pointPolynomial key = secret.map fun c => c • L.generator
  share : L.secretShare share = evalAt secret (L.shareIndex share)

/-- What a derivation keeps of a key and a share: the index, the threshold, and that there is a
polynomial behind them. -/
structure Follows (L : KeyLib F E K S) (key : K) (share : S) (key' : K) (share' : S) : Prop where
  index : L.shareIndex share' = L.shareIndex share
  threshold : (L.pointPolynomial key').length = (L.pointPolynomial key).length
  secret : ∀ secret, L.IsSecret secret key share → ∃ secret', L.IsSecret secret' key' share'

theorem Follows.refl (key : K) (share : S) : L.Follows key share key share :=
  ⟨rfl, rfl, fun secret h => ⟨secret, h⟩⟩

theorem Follows.trans {key key' key'' : K} {share share' share'' : S}
    (h : L.Follows key share key' share') (h' : L.Follows key' share' key'' share'') :
    L.Follows key share key'' share'' where
  index := h'.index.trans h.index
  threshold := h'.threshold.trans h.threshold
  secret secret hs := by
    obtain ⟨secret', hs'⟩ := h.secret secret hs
    exact h'.secret secret' hs'

/-! ### One tweak and one negation -/

omit [Field F] [Module F E] in
theorem publicKey_eq_headD (key : K) {P : E} {l : List E} (h : L.pointPolynomial key = P :: l) :
    L.publicKey key = P := by
  rw [KeyLib.publicKey, h, List.headD_cons]

section

variable {key : K} {share : S} {P : E}

/-- A tweak is added to the secret, to each share and to the public key. -/
theorem Matches.add (hL : L.Lawful) (h : L.Matches key share P) (t : F) :
    L.Matches (L.homomorphicAdd key t) (L.shareHomomorphicAdd share t) (P + t • L.generator) := by
  obtain ⟨c, l, hpoly⟩ := List.exists_cons_of_ne_nil h.ne_nil
  have hadd : L.pointPolynomial (L.homomorphicAdd key t) = (c + t • L.generator) :: l := by
    rw [hL.pointPolynomial_add, hpoly, List.modifyHead_cons]
  have hc : c = P := by rw [← h.publicKey, publicKey_eq_headD key hpoly]
  refine ⟨?_, ?_, ?_, ?_⟩
  · rw [hadd]
    exact List.cons_ne_nil _ _
  · rw [publicKey_eq_headD _ hadd, hc]
  · rw [hL.sharePublicKey_add, h.sharePublicKey]
  · rw [hL.secretShare_add, hL.shareIndex_add, hL.pointPolynomial_add,
      evalAt_modifyHead_add h.ne_nil, add_smul, h.share]

theorem follows_add (hL : L.Lawful) (hne : L.pointPolynomial key ≠ []) (share : S) (t : F) :
    L.Follows key share (L.homomorphicAdd key t) (L.shareHomomorphicAdd share t) where
  index := hL.shareIndex_add share t
  threshold := by rw [hL.pointPolynomial_add, List.length_modifyHead]
  secret secret hs := by
    have hsecret : secret ≠ [] := by
      rintro rfl
      exact hne hs.key
    refine ⟨secret.modifyHead (· + t), ?_, ?_⟩
    · obtain ⟨a, l, rfl⟩ := List.exists_cons_of_ne_nil hsecret
      rw [hL.pointPolynomial_add, hs.key, List.map_cons, List.modifyHead_cons,
        List.modifyHead_cons, List.map_cons, add_smul]
    · rw [hL.secretShare_add, hL.shareIndex_add, hs.share, evalAt_modifyHead_add hsecret]

/-- The negation that makes the public key even is of the secret and of each share. -/
theorem Matches.xonly (hL : L.Lawful) (h : L.Matches key share P) :
    L.Matches (L.intoXonly key) (L.shareIntoXonly share) (L.evenY P) := by
  obtain ⟨c, l, hpoly⟩ := List.exists_cons_of_ne_nil h.ne_nil
  have hc : c = P := by rw [← h.publicKey, publicKey_eq_headD key hpoly]
  have hxonly := hL.pointPolynomial_xonly key
  have hshare := hL.secretShare_xonly share
  have hpublic := hL.sharePublicKey_xonly share
  rw [h.publicKey] at hxonly
  rw [h.sharePublicKey] at hshare hpublic
  cases heven : L.isYEven P with
  | true =>
      rw [heven, if_pos rfl] at hxonly hshare
      have hP : L.evenY P = P := by rw [evenY, heven, if_pos rfl]
      rw [hP] at hpublic ⊢
      refine ⟨hxonly ▸ h.ne_nil, ?_, hpublic, ?_⟩
      · rw [KeyLib.publicKey, hxonly]
        exact h.publicKey
      · rw [hshare, hL.shareIndex_xonly, hxonly, h.share]
  | false =>
      rw [heven, if_neg Bool.false_ne_true] at hxonly hshare
      have hP : L.evenY P = -P := by rw [evenY, heven, if_neg Bool.false_ne_true]
      rw [hP] at hpublic ⊢
      rw [hpoly, List.map_cons] at hxonly
      refine ⟨hxonly ▸ List.cons_ne_nil _ _, ?_, hpublic, ?_⟩
      · rw [publicKey_eq_headD _ hxonly, hc]
      · rw [hshare, hL.shareIndex_xonly, hxonly, neg_smul, h.share, hpoly, ← List.map_cons,
          evalAt_map_neg]

theorem follows_xonly (hL : L.Lawful) (h : L.Matches key share P) :
    L.Follows key share (L.intoXonly key) (L.shareIntoXonly share) := by
  have hxonly := hL.pointPolynomial_xonly key
  have hshare := hL.secretShare_xonly share
  rw [h.publicKey] at hxonly
  rw [h.sharePublicKey] at hshare
  cases heven : L.isYEven P with
  | true =>
      rw [heven, if_pos rfl] at hxonly hshare
      refine ⟨hL.shareIndex_xonly share, by rw [hxonly], fun secret hs => ⟨secret, ?_, ?_⟩⟩
      · rw [hxonly, hs.key]
      · rw [hshare, hL.shareIndex_xonly, hs.share]
  | false =>
      rw [heven, if_neg Bool.false_ne_true] at hxonly hshare
      refine ⟨hL.shareIndex_xonly share, by rw [hxonly, List.length_map], fun secret hs =>
        ⟨secret.map fun c => -c, ?_, ?_⟩⟩
      · rw [hxonly, hs.key, List.map_map, List.map_map]
        refine List.map_congr_left fun c _ => ?_
        rw [Function.comp_apply, Function.comp_apply, neg_smul]
      · rw [hshare, hL.shareIndex_xonly, hs.share, evalAt_map_neg]

/-- A point with an even y-coordinate. -/
theorem isYEven_evenY (hL : L.Lawful) (hP : P ≠ 0) : L.isYEven (L.evenY P) = true := by
  rw [evenY]
  cases heven : L.isYEven P with
  | true => rw [if_pos rfl, heven]
  | false => rw [if_neg Bool.false_ne_true, hL.isYEven_neg P hP, heven, Bool.not_false]

end

/-! ### Derivations -/

/-- What the three implementations have in common after a derivation from `key` and `share`. -/
def Derived (L : KeyLib F E K S) (key : K) (share : S) (key' : K) (share' : S) (P' : E) : Prop :=
  L.Matches key' share' P' ∧ P' ≠ 0 ∧ L.Follows key share key' share'

theorem Derived.of_follows {key key' key'' : K} {share share' share'' : S} {P'' : E}
    (h : L.Derived key' share' key'' share'' P'') (hfollows : L.Follows key share key' share') :
    L.Derived key share key'' share'' P'' := ⟨h.1, h.2.1, hfollows.trans h.2.2⟩

variable [DecidableEq E]

/-- The three tweaks. -/
theorem tweak_agree (hL : L.Lawful) {key : K} {share : S} {P : E} (h : L.Matches key share P)
    (t : F) :
    Agree (L.Derived key share) (L.sharedKey.tweak key t) (L.pairedSecretShare.tweak share t)
      (L.point.tweak P t) := by
  have hadd := h.add hL t
  simp only [sharedKey, pairedSecretShare, point, nonZero, hadd.publicKey, hadd.sharePublicKey,
    id_eq]
  split
  · exact .panic _ _ _
  · rename_i hne
    exact .ret ⟨hadd, hne, follows_add hL h.ne_nil share t⟩

/-- The three tweaks of an x-only key. -/
theorem intoXonlyWithTweak_agree (hL : L.Lawful) {key : K} {share : S} {P : E}
    (h : L.Matches key share P) (t : F) :
    Agree (fun key' share' P' => L.Derived key share key' share' P' ∧ L.isYEven P' = true)
      (L.sharedKey.intoXonlyWithTweak key t) (L.pairedSecretShare.intoXonlyWithTweak share t)
      (L.point.intoXonlyWithTweak P t) := by
  have hxonly := h.xonly hL
  refine (tweak_agree hL hxonly t).bind fun key' share' P' ⟨hmatch, hne, hfollows⟩ => ?_
  have hfollows' := ((follows_xonly hL h).trans hfollows).trans (follows_xonly hL hmatch)
  have heven := isYEven_evenY hL hne
  refine .ret ⟨⟨hmatch.xonly hL, ?_, hfollows'⟩, heven⟩
  rw [evenY]
  split
  · exact hne
  · exact neg_ne_zero.2 hne

/-- Keys with a common chaincode. -/
def DerivedXpub (L : KeyLib F E K S) (key : K) (share : S) (x : Xpub K) (y : Xpub S)
    (z : Xpub E) : Prop :=
  L.Derived key share x.key y.key z.key ∧ x.chaincode = z.chaincode ∧ y.chaincode = z.chaincode

/-- The three derivations, by induction on the path. -/
theorem deriveBip32_agree (hL : L.Lawful) (segments : List ℕ) {key : K} {share : S} {P : E}
    (h : L.Matches key share P) (hP : P ≠ 0) (chaincode : BitVec 256) :
    Agree (L.DerivedXpub key share)
      (L.sharedKey.deriveBip32 L segments { key := key, chaincode := chaincode })
      (L.pairedSecretShare.deriveBip32 L segments { key := share, chaincode := chaincode })
      (L.point.deriveBip32 L segments { key := P, chaincode := chaincode }) := by
  induction segments generalizing key share P chaincode with
  | nil => exact .ret ⟨⟨h, hP, .refl key share⟩, rfl, rfl⟩
  | cons child segments ih =>
      have hkey : L.sharedKey.toKey key = P := h.publicKey
      have hshare : L.pairedSecretShare.toKey share = P := h.sharePublicKey
      have hpoint : L.point.toKey P = P := rfl
      rw [TweakableKey.deriveBip32, TweakableKey.deriveBip32, TweakableKey.deriveBip32, hkey,
        hshare, hpoint]
      -- The HMAC is of the same public key, so it is the same tweak and the same chaincode.
      refine (tweak_agree hL h _).bind fun key' share' P' ⟨hmatch, hne, hfollows⟩ => ?_
      exact (ih hmatch hne _).mono fun x y z ⟨hderived, hchaincode⟩ =>
        ⟨hderived.of_follows hfollows, hchaincode⟩

variable [DecidableEq F]

/-- The three x-only keys. -/
theorem deriveXonlyKey_agree (hL : L.Lawful) (tweak : AppTweak) {key : K} {share : S} {P : E}
    (h : L.Matches key share P) (hP : P ≠ 0) (chaincode : BitVec 256) :
    Agree (fun key' share' P' => L.Derived key share key' share' P' ∧ L.isYEven P' = true)
      (L.sharedKey.deriveXonlyKey L tweak { key := key, chaincode := chaincode })
      (L.pairedSecretShare.deriveXonlyKey L tweak { key := share, chaincode := chaincode })
      (L.point.deriveXonlyKey L tweak { key := P, chaincode := chaincode }) := by
  have hxonly : ∀ {key' : K} {share' : S} {P' : E}, L.Derived key share key' share' P' →
      Agree (fun key'' share'' P'' => L.Derived key share key'' share'' P'' ∧
        L.isYEven P'' = true) (.ret (L.intoXonly key')) (.ret (L.shareIntoXonly share'))
          (.ret (L.evenY P')) := by
    intro key' share' P' ⟨hmatch, hne, hfollows⟩
    refine .ret ⟨⟨hmatch.xonly hL, ?_, hfollows.trans (follows_xonly hL hmatch)⟩,
      isYEven_evenY hL hne⟩
    rw [evenY]
    split
    · exact hne
    · exact neg_ne_zero.2 hne
  refine (deriveBip32_agree hL _ h hP chaincode).bind fun x y z hx => ?_
  obtain ⟨xkey, xchain⟩ := x
  obtain ⟨ykey, ychain⟩ := y
  obtain ⟨zkey, zchain⟩ := z
  obtain ⟨hderived, rfl, rfl⟩ := hx
  cases tweak with
  | nostr => exact hxonly hderived
  | testMessage => exact hxonly hderived
  | bitcoin path =>
      refine (deriveBip32_agree hL _ hderived.1 hderived.2.1 _).bind fun x y z hx => ?_
      obtain ⟨⟨hmatch, hne, hfollows⟩, -⟩ := hx
      have hkey : L.sharedKey.toKey x.key = z.key := hmatch.publicKey
      have hshare : L.pairedSecretShare.toKey y.key = z.key := hmatch.sharePublicKey
      have hpoint : L.point.toKey z.key = z.key := rfl
      simp only [hkey, hshare, hpoint]
      split_ifs
      · exact .panic _ _ _
      · exact (intoXonlyWithTweak_agree hL hmatch _).mono fun key' share' P' ⟨h', heven⟩ =>
          ⟨h'.of_follows (hderived.2.2.trans hfollows), heven⟩

/-- **Tweak homomorphism.** From a shared key, a share of it and its public key, with a common
chaincode, every derivation arrives at a shared key, a share of it and its public key with a common
chaincode, and every x-only key at ones whose public key is even; or all three panic, because a
key or a tweak is zero. -/
theorem tweak_homomorphism (hL : L.Lawful) {key : K} {share : S} {P : E}
    (h : L.Matches key share P) (hP : P ≠ 0) (chaincode : BitVec 256) :
    (∀ segments : List ℕ,
      Agree (fun x y z => L.publicKey x.key = z.key ∧ L.sharePublicKey y.key = z.key ∧
          x.chaincode = z.chaincode ∧ y.chaincode = z.chaincode ∧
          L.secretShare y.key • L.generator =
            evalAt (L.pointPolynomial x.key) (L.shareIndex y.key) ∧
          L.Follows key share x.key y.key)
        (L.sharedKey.deriveBip32 L segments { key := key, chaincode := chaincode })
        (L.pairedSecretShare.deriveBip32 L segments { key := share, chaincode := chaincode })
        (L.point.deriveBip32 L segments { key := P, chaincode := chaincode })) ∧
    ∀ tweak : AppTweak,
      Agree (fun key' share' P' => L.publicKey key' = P' ∧ L.sharePublicKey share' = P' ∧
          L.isYEven P' = true ∧
          L.secretShare share' • L.generator =
            evalAt (L.pointPolynomial key') (L.shareIndex share') ∧
          L.Follows key share key' share')
        (L.sharedKey.deriveXonlyKey L tweak { key := key, chaincode := chaincode })
        (L.pairedSecretShare.deriveXonlyKey L tweak { key := share, chaincode := chaincode })
        (L.point.deriveXonlyKey L tweak { key := P, chaincode := chaincode }) := by
  constructor
  · intro segments
    exact (deriveBip32_agree hL segments h hP chaincode).mono
      fun x y z ⟨⟨hmatch, _, hfollows⟩, hx, hy⟩ =>
        ⟨hmatch.publicKey, hmatch.sharePublicKey, hx, hy, hmatch.share, hfollows⟩
  · intro tweak
    exact (deriveXonlyKey_agree hL tweak h hP chaincode).mono
      fun key' share' P' ⟨⟨hmatch, _, hfollows⟩, heven⟩ =>
        ⟨hmatch.publicKey, hmatch.sharePublicKey, heven, hmatch.share, hfollows⟩

end KeyLib

/-! ### A library to compute with -/

instance prime_eleven : Fact (Nat.Prime 11) := ⟨by norm_num⟩

/-- The group of order eleven: a point is even if it is at most five, and shared keys are their
polynomials. -/
def sampleLib : KeyLib (ZMod 11) (ZMod 11) (List (ZMod 11)) (ZMod 11 × ZMod 11 × ZMod 11) where
  generator := 2
  isYEven P := P.val ≤ 5
  pointPolynomial key := key
  homomorphicAdd key t := key.modifyHead (· + t • 2)
  intoXonly key := if (key.headD 0).val ≤ 5 then key else key.map fun c => -c
  shareIndex share := share.1
  secretShare share := share.2.1
  sharePublicKey share := share.2.2
  shareHomomorphicAdd share t := (share.1, share.2.1 + t, share.2.2 + t • 2)
  shareIntoXonly share :=
    if share.2.2.val ≤ 5 then share else (share.1, -share.2.1, -share.2.2)
  bip32Hmac chaincode P child := (3 * P + child + 1, chaincode + BitVec.ofNat 256 P.val)
  xonlyBytes P := BitVec.ofNat 256 (min P.val (-P).val)
  tapTweak bytes := bytes.toNat + 1

theorem sampleLib_lawful : sampleLib.Lawful where
  isYEven_neg := by decide
  pointPolynomial_add _ _ := rfl
  pointPolynomial_xonly key := by
    simp only [sampleLib, KeyLib.publicKey, decide_eq_true_eq]
  shareIndex_add _ _ := rfl
  secretShare_add _ _ := rfl
  sharePublicKey_add _ _ := rfl
  shareIndex_xonly share := by
    simp only [sampleLib]
    split <;> rfl
  secretShare_xonly share := by
    simp only [sampleLib, decide_eq_true_eq]
    split <;> rfl
  sharePublicKey_xonly share := by
    simp only [sampleLib, KeyLib.evenY, decide_eq_true_eq]
    split <;> rfl

/-- The secrets are four and three: the key is `[8, 6]`, and the share of index one is seven. -/
theorem tweak_homomorphism_of_sample :
    ∃ key share, sampleLib.sharedKey.deriveXonlyKey sampleLib (.bitcoin ⟨.external, .zero⟩)
        { key := [8, 6], chaincode := 0 } = .ret key ∧
      sampleLib.pairedSecretShare.deriveXonlyKey sampleLib (.bitcoin ⟨.external, .zero⟩)
        { key := (1, 7, 8), chaincode := 0 } = .ret share ∧
      sampleLib.secretShare share • sampleLib.generator =
        evalAt (sampleLib.pointPolynomial key) (sampleLib.shareIndex share) := by
  have hmatches : sampleLib.Matches [8, 6] (1, 7, 8) 8 :=
    ⟨List.cons_ne_nil _ _, rfl, rfl, by decide⟩
  rcases (KeyLib.tweak_homomorphism sampleLib_lawful hmatches (by decide) 0).2
      (.bitcoin ⟨.external, .zero⟩) with
      ⟨m, n, o, -, -, hpanic⟩ | ⟨key, share, P, hkey, hshare, -, h⟩
  · have hreturns : sampleLib.point.deriveXonlyKey sampleLib (.bitcoin ⟨.external, .zero⟩)
        { key := 8, chaincode := 0 } = .ret 5 := by decide +kernel
    cases hpanic.symm.trans hreturns
  · exact ⟨key, share, hkey, hshare, h.2.2.2.1⟩

end Frostsnap
