import Frostsnap.Coordinator.Restoring

/-!
# Where a share is

`iter_shares` and `find_share` of `coordinator.rs`. The first goes over what devices hold, and the
second looks an image up by the polynomials. A share belongs to an access structure of a wallet or
to a restoration, and a state has any number of both.

## Main results

* `findShare_of_wallet`, `findShare_of_restorations`: which of them `find_share` finds.
* `lookup_agrees`: what is enumerated is found, and what is found belongs to something.
-/

namespace Frostsnap.Coordinator

/-! ### Lazy iterators -/

/-- A lazy iterator: the items it gives, and whether it then ends or panics. -/
structure Items (α : Type) where
  items : List α
  ending : Exec Unit

namespace Items

variable {α β : Type}

/-- `flat_map`, by a function that may panic. -/
def flatMap (f : α → Exec (List β)) : List α → Items β
  | [] => { items := [], ending := .ret () }
  | a :: rest =>
      match f a with
      | .panic msg => { items := [], ending := .panic msg }
      | .ret bs => { flatMap f rest with items := bs ++ (flatMap f rest).items }

/-- `chain`, with items that are there already. -/
def chain (x : Items α) (rest : List α) : Items α :=
  match x.ending with
  | .ret () => { x with items := x.items ++ rest }
  | .panic _ => x

/-- An item is of the first iterator, or that has ended. -/
theorem mem_chain {x : Items α} {rest : List α} {a : α} (h : a ∈ (x.chain rest).items) :
    a ∈ x.items ∨ x.ending = .ret () ∧ a ∈ rest := by
  rw [chain] at h
  split at h
  · next hend =>
    rcases List.mem_append.1 h with h | h
    · exact Or.inl h
    · exact Or.inr ⟨hend, h⟩
  · exact Or.inl h

/-- What is in front of an item has returned. -/
theorem mem_flatMap {f : α → Exec (List β)} {l : List α} {b : β} (h : b ∈ (flatMap f l).items) :
    ∃ l₁ a l₂ bs, l = l₁ ++ a :: l₂ ∧ (∀ c ∈ l₁, (f c).Returns) ∧ f a = .ret bs ∧ b ∈ bs := by
  induction l with
  | nil => exact absurd h List.not_mem_nil
  | cons a rest ih =>
      rw [flatMap] at h
      cases hf : f a with
      | panic msg =>
          rw [hf] at h
          exact absurd h List.not_mem_nil
      | ret bs =>
          rw [hf] at h
          rcases List.mem_append.1 h with hb | hrest
          · exact ⟨[], a, rest, bs, rfl, fun c hc => absurd hc List.not_mem_nil, hf, hb⟩
          · obtain ⟨l₁, c, l₂, cs, rfl, hbefore, hc, hb⟩ := ih hrest
            refine ⟨a :: l₁, c, l₂, cs, rfl, fun d hd => ?_, hc, hb⟩
            rcases List.mem_cons.1 hd with rfl | hd
            · exact ⟨bs, hf⟩
            · exact hbefore d hd

theorem returns_of_ending {f : α → Exec (List β)} {l : List α}
    (h : (flatMap f l).ending = .ret ()) : ∀ a ∈ l, (f a).Returns := by
  induction l with
  | nil => exact fun a ha => absurd ha List.not_mem_nil
  | cons a rest ih =>
      rw [flatMap] at h
      cases hf : f a with
      | panic msg =>
          rw [hf] at h
          cases h
      | ret bs =>
          rw [hf] at h
          intro c hc
          rcases List.mem_cons.1 hc with rfl | hc
          · exact ⟨bs, hf⟩
          · exact ih h c hc

end Items

variable {L : FrostLib}

namespace Persistent

/-! ### Enumeration -/

/-- `iter_access_structures`. -/
def iterAccessStructures (p : Persistent L) : List CoordAccessStructure :=
  p.keys.values.flatMap fun key => key.completeKey.accessStructures.values

/-- The shares of a restoration. -/
def restorationShares (restoration : RestorationState) : List (ShareImage × ShareLocation) :=
  restoration.accessStructure.shareImageToDevices.toList.map fun (shareImage, deviceIds) =>
    (shareImage,
      { deviceIds
        shareIndex := shareImage.index
        keyName := restoration.keyName
        keyPurpose := restoration.keyPurpose
        keyState := .restoring restoration.restorationId })

section

variable [Build]

/-- The shares of an access structure, when its root key can be decrypted. -/
def completeWalletShares (p : Persistent L) (encryptionKey : SymmetricKey)
    (accessStructure : CoordAccessStructure) : Exec (List (ShareImage × ShareLocation)) := do
  let ref := accessStructure.accessStructureRef L
  match ← p.rootSharedKey ref encryptionKey with
  | none => return []
  | some rootSharedKey =>
      let key ← Exec.expect (p.keys[ref.keyId]?) "must exist"
      return accessStructure.shareIndexToDevices.toList.map fun (shareIndex, deviceIds) =>
        (rootSharedKey.shareImage L shareIndex,
          { deviceIds
            shareIndex
            keyName := key.keyName
            keyPurpose := key.purpose
            keyState := .complete ref })

/-- `iter_shares`. -/
def iterShares (p : Persistent L) (encryptionKey : SymmetricKey) :
    Items (ShareImage × ShareLocation) :=
  (Items.flatMap (p.completeWalletShares encryptionKey) p.iterAccessStructures).chain
    (p.restorations.values.flatMap restorationShares)

end

/-! ### What a share belongs to -/

/-- A share that is held in a restoration. -/
def HeldIn (restoration : RestorationState) (image : ShareImage) : Prop :=
  ∃ recoverShare ∈ restoration.accessStructure.heldShares,
    recoverShare.heldShare.shareImage = image

/-- A share of the key that a restoration has found. -/
def OnKnownPolynomial (restoration : RestorationState) (image : ShareImage) : Prop :=
  ∃ sharedKey, restoration.accessStructure.sharedKey = some sharedKey ∧
    sharedKey.shareImage L image.index = image

/-- An access structure of a wallet, or a restoration. -/
inductive Holder where
  | wallet (accessStructure : CoordAccessStructure)
  | restoration (state : RestorationState)

/-- What the location of a share says that it belongs to. -/
def Holder.keyState (L : FrostLib) : Holder → KeyLocationState
  | .wallet accessStructure => .complete (accessStructure.accessStructureRef L)
  | .restoration state => .restoring state.restorationId

/-- The wallets and restorations of a state. -/
def holders (p : Persistent L) : List Holder :=
  p.iterAccessStructures.map .wallet ++ p.restorations.values.map .restoration

/-! ### Looking up in restorations -/

/-- The shares that are held are listed with their devices. -/
theorem mem_shareImageToDevices {image : ShareImage} {a : RecoveringAccessStructure} :
    image ∈ a.shareImageToDevices ↔
      ∃ recoverShare ∈ a.heldShares, recoverShare.heldShare.shareImage = image := by
  have hfold : ∀ (l : List RecoverShare) (map : BTreeMap ShareImage (List DeviceId)),
      image ∈ l.foldl
          (fun map recoverShare =>
            map.insert recoverShare.heldShare.shareImage
              (map[recoverShare.heldShare.shareImage]?.getD [] ++ [recoverShare.heldBy])) map ↔
        image ∈ map ∨ ∃ recoverShare ∈ l, recoverShare.heldShare.shareImage = image := by
    intro l
    induction l with
    | nil => simp
    | cons recoverShare l ih =>
        intro map
        rw [List.foldl_cons, ih, BTreeMap.mem_insert, List.exists_mem_cons_iff, or_assoc,
          or_left_comm, eq_comm]
  rw [RecoveringAccessStructure.shareImageToDevices, hfold]
  exact or_iff_right Std.ExtTreeMap.not_mem_empty

/-- A share that is listed is where it is listed. -/
theorem findInRestoration_of_held {image : ShareImage} {restoration : RestorationState}
    {deviceIds : List DeviceId}
    (h : restoration.accessStructure.shareImageToDevices[image]? = some deviceIds) :
    findInRestoration (L := L) image restoration = some
      { deviceIds
        shareIndex := image.index
        keyName := restoration.keyName
        keyPurpose := restoration.keyPurpose
        keyState := .restoring restoration.restorationId } := by
  rw [findInRestoration, h]

theorem findInRestoration_spec {image : ShareImage} {restoration : RestorationState}
    {location : ShareLocation}
    (h : findInRestoration (L := L) image restoration = some location) :
    location.keyState = .restoring restoration.restorationId ∧
      (HeldIn restoration image ∨ OnKnownPolynomial (L := L) restoration image) := by
  rw [findInRestoration] at h
  dsimp only at h
  split at h
  · next deviceIds hheld =>
    obtain rfl := Option.some.inj h
    have hmem := BTreeMap.mem_iff_getElem?.2 ⟨deviceIds, hheld⟩
    exact ⟨rfl, Or.inl (mem_shareImageToDevices.1 hmem)⟩
  · split at h
    · next sharedKey hkey =>
      split at h
      · next himage =>
        obtain rfl := Option.some.inj h
        exact ⟨rfl, Or.inr ⟨sharedKey, hkey, himage⟩⟩
      · cases h
    · cases h

theorem mem_restorationShares {image : ShareImage} {restoration : RestorationState}
    {location : ShareLocation}
    (h : (image, location) ∈ restorationShares restoration) :
    HeldIn restoration image ∧ findInRestoration (L := L) image restoration = some location := by
  obtain ⟨⟨shareImage, deviceIds⟩, hmem, heq⟩ := List.mem_map.1 h
  obtain ⟨rfl, rfl⟩ := Prod.mk.inj heq
  have hheld := Std.ExtTreeMap.mem_toList_iff_getElem?_eq_some.1 hmem
  exact ⟨mem_shareImageToDevices.1 (BTreeMap.mem_iff_getElem?.2 ⟨deviceIds, hheld⟩),
    findInRestoration_of_held hheld⟩

theorem wallet_mem_holders {p : Persistent L} {a : CoordAccessStructure} :
    .wallet a ∈ p.holders ↔ a ∈ p.iterAccessStructures := by
  simp [holders]

theorem restoration_mem_holders {p : Persistent L} {state : RestorationState} :
    .restoration state ∈ p.holders ↔ state ∈ p.restorations.values := by
  simp [holders]

/-! ### Looking up in wallets -/

variable [Build] (p : Persistent L) (encryptionKey : SymmetricKey)

/-- A share of the polynomial of a wallet. -/
def OnWallet (image : ShareImage) (accessStructure : CoordAccessStructure) : Prop :=
  ∃ rootSharedKey,
    p.rootSharedKey (accessStructure.accessStructureRef L) encryptionKey =
      .ret (some rootSharedKey) ∧ rootSharedKey.shareImage L image.index = image

/-- A share belongs to a wallet or a restoration. -/
def BelongsTo (image : ShareImage) : Holder → Prop
  | .wallet accessStructure => p.OnWallet encryptionKey image accessStructure
  | .restoration state => HeldIn state image ∨ OnKnownPolynomial (L := L) state image

section

variable {p encryptionKey} {image : ShareImage}

theorem OnWallet.findAccessStructure_eq {a : CoordAccessStructure} {rest}
    (h : p.OnWallet encryptionKey image a) :
    p.findAccessStructure image encryptionKey (a :: rest) = .ret (some a) := by
  obtain ⟨rootSharedKey, hroot, himage⟩ := h
  rw [findAccessStructure, hroot, Exec.ret_bind]
  dsimp only
  rw [if_pos himage]
  rfl

/-- An access structure that does not have the share is passed over. -/
theorem findAccessStructure_of_not {a : CoordAccessStructure} {rest}
    (hret : (p.rootSharedKey (a.accessStructureRef L) encryptionKey).Returns)
    (h : ¬p.OnWallet encryptionKey image a) :
    p.findAccessStructure image encryptionKey (a :: rest) =
      p.findAccessStructure image encryptionKey rest := by
  obtain ⟨found, hroot⟩ := hret
  rw [findAccessStructure, hroot, Exec.ret_bind]
  cases found with
  | none => rfl
  | some rootSharedKey =>
      dsimp only
      rw [if_neg fun himage => h ⟨rootSharedKey, hroot, himage⟩]

/-- The search goes no further than the first access structure that has the share. -/
theorem findAccessStructure_of_mem {l₁ l₂ : List CoordAccessStructure} {a : CoordAccessStructure}
    (hbefore : ∀ b ∈ l₁, (p.rootSharedKey (b.accessStructureRef L) encryptionKey).Returns)
    (h : p.OnWallet encryptionKey image a) :
    ∃ b, p.findAccessStructure image encryptionKey (l₁ ++ a :: l₂) = .ret (some b) := by
  induction l₁ with
  | nil => exact ⟨a, h.findAccessStructure_eq⟩
  | cons b l₁ ih =>
      rw [List.cons_append]
      by_cases hb : p.OnWallet encryptionKey image b
      · exact ⟨b, hb.findAccessStructure_eq⟩
      · rw [findAccessStructure_of_not (hbefore b (List.mem_cons_self ..)) hb]
        exact ih fun c hc => hbefore c (List.mem_cons_of_mem b hc)

/-- What the search gives. -/
theorem findAccessStructure_spec {l : List CoordAccessStructure}
    {found : Option CoordAccessStructure}
    (h : p.findAccessStructure image encryptionKey l = .ret found) :
    (∀ a, found = some a → a ∈ l ∧ p.OnWallet encryptionKey image a) ∧
      (found = none → ∀ a ∈ l, ¬p.OnWallet encryptionKey image a) := by
  induction l with
  | nil =>
      obtain rfl := Exec.ret.inj h
      exact ⟨nofun, fun _ a ha => absurd ha List.not_mem_nil⟩
  | cons b rest ih =>
      by_cases hb : p.OnWallet encryptionKey image b
      · rw [hb.findAccessStructure_eq] at h
        obtain rfl := Exec.ret.inj h
        refine ⟨fun a ha => ?_, nofun⟩
        obtain rfl := Option.some.inj ha
        exact ⟨List.mem_cons_self .., hb⟩
      · have hret : (p.rootSharedKey (b.accessStructureRef L) encryptionKey).Returns := by
          rw [findAccessStructure] at h
          obtain ⟨root, hroot, -⟩ := Exec.bind_eq_ret_iff.1 h
          exact ⟨root, hroot⟩
        rw [findAccessStructure_of_not hret hb] at h
        obtain ⟨hsome, hnone⟩ := ih h
        refine ⟨fun a ha => ?_, fun hfound a ha => ?_⟩
        · exact ⟨List.mem_cons_of_mem b (hsome a ha).1, (hsome a ha).2⟩
        · rcases List.mem_cons.1 ha with rfl | ha
          · exact hb
          · exact hnone hfound a ha

theorem findAccessStructure_eq_none {l : List CoordAccessStructure}
    (hret : ∀ a ∈ l, (p.rootSharedKey (a.accessStructureRef L) encryptionKey).Returns)
    (h : ∀ a ∈ l, ¬p.OnWallet encryptionKey image a) :
    p.findAccessStructure image encryptionKey l = .ret none := by
  induction l with
  | nil => rfl
  | cons a rest ih =>
      rw [findAccessStructure_of_not (hret a (List.mem_cons_self ..)) (h a (List.mem_cons_self ..))]
      exact ih (fun b hb => hret b (List.mem_cons_of_mem a hb))
        fun b hb => h b (List.mem_cons_of_mem a hb)

/-- The key of an access structure that has a share. -/
theorem OnWallet.exists_key {a : CoordAccessStructure} (h : p.OnWallet encryptionKey image a) :
    ∃ key, p.keys[(a.accessStructureRef L).keyId]? = some key := by
  obtain ⟨rootSharedKey, hroot, -⟩ := h
  rw [Persistent.rootSharedKey] at hroot
  cases hkey : p.getFrostKey (a.accessStructureRef L).keyId with
  | none =>
      rw [hkey] at hroot
      cases hroot
  | some key => exact ⟨key, hkey⟩

/-- **A wallet that is found** is where the share is. -/
theorem findShare_of_wallet {a : CoordAccessStructure} {key : CoordFrostKey}
    (hfind : p.findAccessStructure image encryptionKey p.iterAccessStructures = .ret (some a))
    (hkey : p.keys[(a.accessStructureRef L).keyId]? = some key) :
    p.findShare image encryptionKey = .ret (some
      { deviceIds := (a.shareIndexToDevices[image.index]?).getD []
        shareIndex := image.index
        keyName := key.keyName
        keyPurpose := key.purpose
        keyState := .complete (a.accessStructureRef L) }) := by
  rw [iterAccessStructures] at hfind
  rw [findShare]
  dsimp only
  rw [hfind, Exec.ret_bind]
  dsimp only
  rw [hkey, Exec.expect_some, Exec.ret_bind]
  rfl

/-- **Without a wallet that has the share** the restorations are searched. -/
theorem findShare_of_restorations
    (hfind : p.findAccessStructure image encryptionKey p.iterAccessStructures = .ret none) :
    p.findShare image encryptionKey =
      .ret (p.restorations.values.findSome? (findInRestoration (L := L) image)) := by
  rw [iterAccessStructures] at hfind
  rw [findShare]
  dsimp only
  rw [hfind, Exec.ret_bind]
  rfl

/-! ### Agreement -/

/-- An item for a wallet is for a share of its polynomial. -/
theorem mem_completeWalletShares {a : CoordAccessStructure} {location : ShareLocation}
    {shares : List (ShareImage × ShareLocation)}
    (hshares : p.completeWalletShares encryptionKey a = .ret shares)
    (h : (image, location) ∈ shares) :
    p.OnWallet encryptionKey image a ∧ ∃ key deviceIds,
      p.keys[(a.accessStructureRef L).keyId]? = some key ∧
        a.shareIndexToDevices[image.index]? = some deviceIds ∧ location =
          { deviceIds
            shareIndex := image.index
            keyName := key.keyName
            keyPurpose := key.purpose
            keyState := .complete (a.accessStructureRef L) } := by
  rw [completeWalletShares] at hshares
  obtain ⟨found, hroot, hshares⟩ := Exec.bind_eq_ret_iff.1 hshares
  cases found with
  | none =>
      obtain rfl := Exec.ret.inj hshares
      exact absurd h List.not_mem_nil
  | some rootSharedKey =>
      obtain ⟨key, hkey, hshares⟩ := Exec.bind_eq_ret_iff.1 hshares
      obtain rfl := Exec.ret.inj hshares
      obtain ⟨⟨shareIndex, deviceIds⟩, hmem, heq⟩ := List.mem_map.1 h
      obtain ⟨rfl, rfl⟩ := Prod.mk.inj heq
      exact ⟨⟨rootSharedKey, hroot, rfl⟩, key, deviceIds, Exec.expect_eq_ret_iff.1 hkey,
        Std.ExtTreeMap.mem_toList_iff_getElem?_eq_some.1 hmem, rfl⟩

/-- The decryption of a root key returns when the shares of the wallet are listed. -/
theorem returns_of_completeWalletShares {a : CoordAccessStructure}
    (h : (p.completeWalletShares encryptionKey a).Returns) :
    (p.rootSharedKey (a.accessStructureRef L) encryptionKey).Returns := by
  obtain ⟨found, hroot, -⟩ := Exec.returns_bind.1 h
  exact ⟨found, hroot⟩

/-- A share is found, and where it is said to be if nothing else has it. -/
def FoundAt (p : Persistent L) (encryptionKey : SymmetricKey) (image : ShareImage)
    (location : ShareLocation) : Prop :=
  ∃ found, p.findShare image encryptionKey = .ret (some found) ∧
    ∃ holder ∈ p.holders, holder.keyState L = location.keyState ∧
      p.BelongsTo encryptionKey image holder ∧
        ((∀ other ∈ p.holders, p.BelongsTo encryptionKey image other → other = holder) →
          found = location)

/-- **A share of a wallet that is listed** is found. -/
theorem foundAt_of_wallet {l₁ l₂ : List CoordAccessStructure} {a : CoordAccessStructure}
    {location : ShareLocation} {shares : List (ShareImage × ShareLocation)}
    (hsplit : p.iterAccessStructures = l₁ ++ a :: l₂)
    (hbefore : ∀ b ∈ l₁, (p.completeWalletShares encryptionKey b).Returns)
    (hshares : p.completeWalletShares encryptionKey a = .ret shares)
    (h : (image, location) ∈ shares) : p.FoundAt encryptionKey image location := by
  obtain ⟨hon, key, deviceIds, hkey, hdevices, hlocation⟩ := mem_completeWalletShares hshares h
  have hmem : a ∈ p.iterAccessStructures := by
    rw [hsplit]
    exact List.mem_append_right l₁ (List.mem_cons_self ..)
  obtain ⟨b, hfind⟩ := @findAccessStructure_of_mem _ _ p encryptionKey image l₁ l₂ a
    (fun c hc => returns_of_completeWalletShares (hbefore c hc)) hon
  rw [← hsplit] at hfind
  obtain ⟨hmem', hon'⟩ := (findAccessStructure_spec hfind).1 b rfl
  obtain ⟨key', hkey'⟩ := hon'.exists_key
  refine ⟨_, findShare_of_wallet hfind hkey', .wallet a, wallet_mem_holders.2 hmem, ?_, hon,
    fun honly => ?_⟩
  · rw [hlocation]
    rfl
  · obtain rfl := Holder.wallet.inj (honly (.wallet b) (wallet_mem_holders.2 hmem') hon')
    obtain rfl := Option.some.inj (hkey.symm.trans hkey')
    rw [hlocation, hdevices]
    rfl

/-- **A share of a restoration that is listed** is found. -/
theorem foundAt_of_restoration {restoration : RestorationState} {location : ShareLocation}
    (hret : ∀ a ∈ p.iterAccessStructures, (p.completeWalletShares encryptionKey a).Returns)
    (hmem : restoration ∈ p.restorations.values)
    (h : (image, location) ∈ restorationShares restoration) :
    p.FoundAt encryptionKey image location := by
  obtain ⟨hheld, hlocation⟩ := mem_restorationShares (L := L) h
  have hroots := fun a ha => returns_of_completeWalletShares (hret a ha)
  have hstate : Holder.keyState L (.restoration restoration) = location.keyState :=
    (findInRestoration_spec hlocation).1.symm
  by_cases hwallet : ∃ a ∈ p.iterAccessStructures, p.OnWallet encryptionKey image a
  · -- A wallet has the share as well, and comes first.
    obtain ⟨a, ha, hon⟩ := hwallet
    obtain ⟨l₁, l₂, hsplit⟩ := List.append_of_mem ha
    obtain ⟨b, hfind⟩ := @findAccessStructure_of_mem _ _ p encryptionKey image l₁ l₂ a
      (fun c hc => hroots c (by rw [hsplit]; exact List.mem_append_left _ hc)) hon
    rw [← hsplit] at hfind
    obtain ⟨key, hkey⟩ := ((findAccessStructure_spec hfind).1 b rfl).2.exists_key
    refine ⟨_, findShare_of_wallet hfind hkey, .restoration restoration,
      restoration_mem_holders.2 hmem, hstate, Or.inl hheld, fun honly => ?_⟩
    exact absurd (honly (.wallet a) (wallet_mem_holders.2 ha) hon) nofun
  · have hnone := findAccessStructure_eq_none hroots fun a ha hon => hwallet ⟨a, ha, hon⟩
    obtain ⟨found, hfound⟩ : ∃ found,
        p.restorations.values.findSome? (findInRestoration (L := L) image) = some found := by
      rw [← Option.isSome_iff_exists, List.findSome?_isSome_iff]
      exact ⟨restoration, hmem, by rw [hlocation]; rfl⟩
    have hret := findShare_of_restorations hnone
    rw [hfound] at hret
    refine ⟨found, hret, .restoration restoration, restoration_mem_holders.2 hmem, hstate,
      Or.inl hheld, fun honly => ?_⟩
    obtain ⟨other, hother, hin⟩ := List.exists_of_findSome?_eq_some hfound
    obtain rfl := Holder.restoration.inj (honly (.restoration other)
      (restoration_mem_holders.2 hother) (findInRestoration_spec hin).2)
    exact Option.some.inj (hin.symm.trans hlocation)

/-- `find_share` agrees with `iter_shares`. -/
structure LookupAgrees (p : Persistent L) (encryptionKey : SymmetricKey) : Prop where
  enumerated : ∀ image location, (image, location) ∈ (p.iterShares encryptionKey).items →
    p.FoundAt encryptionKey image location
  found : ∀ image location, p.findShare image encryptionKey = .ret (some location) →
    ∃ holder ∈ p.holders, holder.keyState L = location.keyState ∧
      p.BelongsTo encryptionKey image holder
  precedence : ∀ image, (∃ a ∈ p.iterAccessStructures, p.OnWallet encryptionKey image a) →
    ∀ result, p.findShare image encryptionKey = .ret result →
      ∃ location ref, result = some location ∧ location.keyState = .complete ref

/-- What `find_share` gives. -/
theorem findShare_spec {result : Option ShareLocation}
    (h : p.findShare image encryptionKey = .ret result) :
    (∃ a ∈ p.iterAccessStructures, p.OnWallet encryptionKey image a ∧ ∃ location,
      result = some location ∧ location.keyState = .complete (a.accessStructureRef L)) ∨
    (∀ a ∈ p.iterAccessStructures, ¬p.OnWallet encryptionKey image a) ∧
      result = p.restorations.values.findSome? (findInRestoration (L := L) image) := by
  have hfind : ∃ found,
      p.findAccessStructure image encryptionKey p.iterAccessStructures = .ret found := by
    rw [findShare] at h
    obtain ⟨found, hfind, -⟩ := Exec.bind_eq_ret_iff.1 h
    exact ⟨found, hfind⟩
  obtain ⟨found, hfind⟩ := hfind
  obtain ⟨hsome, hnone⟩ := findAccessStructure_spec hfind
  cases found with
  | some a =>
      obtain ⟨hmem, hon⟩ := hsome a rfl
      obtain ⟨key, hkey⟩ := hon.exists_key
      rw [findShare_of_wallet hfind hkey] at h
      exact Or.inl ⟨a, hmem, hon, _, (Exec.ret.inj h).symm, rfl⟩
  | none =>
      rw [findShare_of_restorations hfind] at h
      exact Or.inr ⟨hnone rfl, (Exec.ret.inj h).symm⟩

end

/-- **Looking a share up agrees with enumerating the shares**, in every state. -/
theorem lookup_agrees : p.LookupAgrees encryptionKey where
  enumerated image location h := by
    rcases Items.mem_chain h with hwallet | ⟨hend, hrest⟩
    · obtain ⟨l₁, a, l₂, shares, hsplit, hbefore, hshares, hmem⟩ := Items.mem_flatMap hwallet
      exact foundAt_of_wallet hsplit hbefore hshares hmem
    · obtain ⟨restoration, hmem, hshare⟩ := List.mem_flatMap.1 hrest
      exact foundAt_of_restoration (Items.returns_of_ending hend) hmem hshare
  found image location h := by
    rcases findShare_spec h with ⟨a, hmem, hon, location', hresult, hstate⟩ | ⟨-, hresult⟩
    · obtain rfl := Option.some.inj hresult
      exact ⟨.wallet a, wallet_mem_holders.2 hmem, hstate.symm, hon⟩
    · obtain ⟨state, hmem, hin⟩ := List.exists_of_findSome?_eq_some hresult.symm
      obtain ⟨hstate, hbelongs⟩ := findInRestoration_spec hin
      exact ⟨.restoration state, restoration_mem_holders.2 hmem, hstate.symm, hbelongs⟩
  precedence image hwallet result h := by
    rcases findShare_spec h with ⟨a, -, -, location, hresult, hstate⟩ | ⟨hnone, -⟩
    · exact ⟨location, _, hresult, hstate⟩
    · obtain ⟨a, hmem, hon⟩ := hwallet
      exact absurd hon (hnone a hmem)

end Persistent

end Frostsnap.Coordinator
