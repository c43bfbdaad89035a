import Frostsnap.Backup.ValidSubset
import Frostsnap.Coordinator.Sessions
import Frostsnap.Lib.Run

/-!
# A key that was determined stays

A restoration looks for its key anew whenever a share is added or removed. `Collected` access
structures are those that this leads to, and every restoration of the coordinator has one
(`reachable_collected`). Once a key was found, it is searched for with its own threshold, and
`restoration_keeps_key` says what keeps it: additions keep it unless another key of the same
threshold passes the check of the fingerprint as well, and removals of shares that are not on it
always do.
-/

namespace Frostsnap

open Backup

/-! ### Changes of the shares of a restoration -/

/-- A change of the shares. -/
inductive ShareChange where
  | add (recoverShare : RecoverShare)
  | remove (deviceId : DeviceId) (image : ShareImage)

namespace ShareChange

/-- The image that a change adds. -/
def added : ShareChange → List ShareImage
  | .add recoverShare => [recoverShare.heldShare.shareImage]
  | .remove _ _ => []

/-- A change removes shares only that are not on a key. -/
def SparesKey (L : FrostLib) (key : SharedKey) : ShareChange → Prop
  | .add _ => True
  | .remove _ image => key.shareImage L image.index ≠ image

end ShareChange

namespace RecoveringAccessStructure

variable (L : FrostLib) (fingerprint : Fingerprint)

/-- No shares yet. -/
def fresh (startingThreshold : Option ℕ) : RecoveringAccessStructure where
  startingThreshold := startingThreshold
  heldShares := []
  sharedKey := none

/-- Make a change. -/
def apply (a : RecoveringAccessStructure) : ShareChange → RecoveringAccessStructure
  | .add recoverShare => a.addShare L recoverShare fingerprint
  | .remove deviceId image => (a.removeShare L deviceId image fingerprint).getD a

/-- What changes from an empty one lead to. -/
def Collected (a : RecoveringAccessStructure) : Prop :=
  ∃ startingThreshold changes, a = run (apply L fingerprint) (fresh startingThreshold) changes

/-- The images of the shares. -/
def images (a : RecoveringAccessStructure) : List ShareImage :=
  a.heldShares.map fun recoverShare => recoverShare.heldShare.shareImage

/-- The threshold that was said, at the start or by a share. -/
def toldThreshold (a : RecoveringAccessStructure) : Option ℕ :=
  a.startingThreshold.or
    (a.heldShares.findSome? fun recoverShare => recoverShare.heldShare.threshold)

variable {L fingerprint}

theorem Collected.fresh (startingThreshold : Option ℕ) :
    (fresh startingThreshold).Collected L fingerprint := ⟨startingThreshold, [], rfl⟩

theorem Collected.apply {a : RecoveringAccessStructure} (h : a.Collected L fingerprint)
    (change : ShareChange) : (a.apply L fingerprint change).Collected L fingerprint := by
  obtain ⟨t, changes, rfl⟩ := h
  exact ⟨t, changes ++ [change], by rw [run_append, run_cons, run_nil]⟩

theorem Collected.removeShare {a a' : RecoveringAccessStructure} (h : a.Collected L fingerprint)
    {deviceId : DeviceId} {image : ShareImage}
    (hremove : a.removeShare L deviceId image fingerprint = some a') :
    a'.Collected L fingerprint := by
  have happly := h.apply (.remove deviceId image)
  rwa [RecoveringAccessStructure.apply, hremove, Option.getD_some] at happly

theorem effectiveThreshold_of_none {a : RecoveringAccessStructure} (h : a.sharedKey = none) :
    a.effectiveThreshold = a.toldThreshold := by
  rw [effectiveThreshold, h]
  rfl

theorem effectiveThreshold_of_some {a : RecoveringAccessStructure} {key : SharedKey}
    (h : a.sharedKey = some key) : a.effectiveThreshold = some (key.threshold % 65536) := by
  rw [effectiveThreshold, h]

end RecoveringAccessStructure

/-! ### The restorations of the coordinator -/

namespace Coordinator

variable {L : FrostLib} [Build]

/-- The shares of every restoration were collected. -/
def Persistent.AllCollected (p : Persistent L) (fingerprint : Fingerprint) : Prop :=
  ∀ (restorationId : RestorationId) (state : RestorationState),
    p.restorations[restorationId]? = some state →
      state.fingerprint = fingerprint ∧ state.accessStructure.Collected L fingerprint

namespace Persistent.AllCollected

variable {p p' : Persistent L} {fingerprint : Fingerprint}

omit [Build] in
theorem of_same (h : p.AllCollected fingerprint) (hsame : p'.restorations = p.restorations) :
    p'.AllCollected fingerprint := by
  intro restorationId state hstate
  rw [hsame] at hstate
  exact h restorationId state hstate

omit [Build] in
theorem insert (h : p.AllCollected fingerprint) {restorationId : RestorationId}
    {state : RestorationState} (hstate : state.fingerprint = fingerprint)
    (hcollected : state.accessStructure.Collected L fingerprint)
    (hinsert : p'.restorations = p.restorations.insert restorationId state) :
    p'.AllCollected fingerprint := by
  intro other state' hother
  rw [hinsert, BTreeMap.getElem?_insert] at hother
  split at hother
  · obtain rfl := Option.some.inj hother
    exact ⟨hstate, hcollected⟩
  · exact h other state' hother

omit [Build] in
theorem setRestoration (h : p.AllCollected fingerprint) {state : RestorationState}
    {a : RecoveringAccessStructure} (restorationId : RestorationId)
    (hstate : state.fingerprint = fingerprint) (ha : a.Collected L fingerprint) :
    (p.setRestoration state a restorationId).AllCollected fingerprint :=
  @insert L p _ fingerprint h restorationId { state with accessStructure := a } hstate ha rfl

theorem restorationProgress2 (h : p.AllCollected fingerprint) {restorationId : RestorationId}
    {deviceId : DeviceId} {heldShare : HeldShare2} {changed : Bool}
    (hstep : p.restorationProgress2 fingerprint restorationId deviceId heldShare =
      .ret (changed, p')) : p'.AllCollected fingerprint := by
  rw [Persistent.restorationProgress2] at hstep
  split at hstep
  · rwa [(fail_eq hstep).2]
  · rename_i state hstate
    obtain ⟨hfingerprint, hcollected⟩ := h restorationId state hstate
    split at hstep
    · rwa [← (Prod.mk.inj (Exec.ret.inj hstep)).2]
    · split at hstep
      · rwa [(fail_eq hstep).2]
      · rw [← (Prod.mk.inj (Exec.ret.inj hstep)).2]
        exact h.setRestoration _ hfingerprint (hcollected.apply (.add _))

/-- A mutation of the restorations starts one, changes the shares of one, or deletes one. -/
theorem change_restoration (h : p.AllCollected fingerprint) {m : RestorationMutation}
    {changed : Bool} (hstep : p.change fingerprint (.restoration m) = .ret (changed, p')) :
    p'.AllCollected fingerprint := by
  cases m with
  | newRestoration | newRestoration2 =>
      rw [← (Prod.mk.inj (Exec.ret.inj hstep)).2]
      exact h.insert rfl (.fresh _) rfl
  | restorationProgress | restorationProgress2 => exact h.restorationProgress2 hstep
  | deleteRestoration restorationId =>
      rw [← (Prod.mk.inj (Exec.ret.inj hstep)).2]
      intro other state hother
      have hget : (p.restorations.erase restorationId)[other]? = some state := hother
      rw [BTreeMap.getElem?_erase] at hget
      split at hget
      · cases hget
      · exact h other state hget
  | deviceNeedsConsolidation =>
      rw [← (Prod.mk.inj (Exec.ret.inj hstep)).2]
      exact h.of_same rfl
  | deviceFinishedConsolidation =>
      simp only [change, deviceFinishedConsolidation] at hstep
      split at hstep
      · rw [← (Prod.mk.inj (Exec.ret.inj hstep)).2]
        exact h.of_same rfl
      · rwa [(fail_eq hstep).2]
  | deleteRestorationShare restorationId deviceId image =>
      simp only [change, deleteRestorationShare] at hstep
      split at hstep
      · rwa [(fail_eq hstep).2]
      · rename_i state hstate
        obtain ⟨hfingerprint, hcollected⟩ := h restorationId state hstate
        split at hstep
        · rwa [← (Prod.mk.inj (Exec.ret.inj hstep)).2]
        · rename_i a hremove
          rw [← (Prod.mk.inj (Exec.ret.inj hstep)).2]
          rw [hfingerprint] at hremove
          exact h.setRestoration _ hfingerprint (hcollected.removeShare hremove)

theorem closeSignSessions {sessions : List SignSessionId} (h : p.AllCollected fingerprint)
    (hstep : Persistent.closeSignSessions sessions p = .ret p') : p'.AllCollected fingerprint := by
  induction sessions generalizing p with
  | nil => rwa [← Exec.ret.inj hstep]
  | cons sessionId rest ih =>
      obtain ⟨⟨changed, q⟩, hclose, hrest⟩ := Exec.bind_eq_ret_iff.1 hstep
      refine ih ?_ hrest
      rcases closeSignSession_eq hclose with ⟨-, -, rfl⟩ | ⟨-, -, session, nonceCache, -, -, rfl⟩
      · exact h
      · exact h.of_same rfl

theorem change (h : p.AllCollected fingerprint) {m : Mutation L} {changed : Bool}
    (hstep : p.change fingerprint m = .ret (changed, p')) : p'.AllCollected fingerprint := by
  cases m with
  | restoration m => exact h.change_restoration hstep
  | keygen m =>
      by_cases hm : ∃ keyId, m = .deleteKey keyId
      · obtain ⟨keyId, rfl⟩ := hm
        simp only [Persistent.change, Persistent.deleteKey] at hstep
        split at hstep
        · obtain ⟨q, hclose, hret⟩ := Exec.bind_eq_ret_iff.1 hstep
          rw [← (Prod.mk.inj (Exec.ret.inj hret)).2]
          refine closeSignSessions ?_ hclose
          exact h.of_same rfl
        · rwa [← (Prod.mk.inj (Exec.ret.inj hstep)).2]
      · rw [change_keygen (fun keyId hkey => hm ⟨keyId, hkey⟩) hstep]
        exact h.of_same rfl
  | signing m =>
      cases m with
      | newNonces =>
          rw [(change_newNonces hstep).1]
          exact h.of_same rfl
      | newSigningSession | forgetFinishedSignSession =>
          rw [← (Prod.mk.inj (Exec.ret.inj hstep)).2]
          exact h.of_same rfl
      | gotSignatureSharesFromDevice =>
          rw [← (Prod.mk.inj (Exec.ret.inj hstep)).2, gotSignatureShares]
          split
          · exact h
          · exact h.of_same rfl
      | sentSignReq sessionId deviceId =>
          have hp' : p' = (p.sentSignReq sessionId deviceId).2 := by
            rw [Exec.ret.inj hstep]
          rw [hp', sentSignReq]
          split
          · exact h
          · exact h.of_same rfl
      | closeSignSession =>
          rcases closeSignSession_eq hstep with
            ⟨-, -, rfl⟩ | ⟨-, -, session, nonceCache, -, -, rfl⟩
          · exact h
          · exact h.of_same rfl

end Persistent.AllCollected

theorem Chain.allCollected {A : Assumptions L} {p q : Persistent L} {fingerprint : Fingerprint}
    {ms : List (Mutation L)} (h : Chain A fingerprint p ms q) (hp : p.AllCollected fingerprint) :
    q.AllCollected fingerprint := by
  have hstep : ∀ {p p' : Persistent L} {m : Mutation L} {r : Option (Mutation L)},
      p.AllCollected fingerprint → p.applyMutation fingerprint m = .ret (r, p') →
      p'.AllCollected fingerprint := by
    intro p p' m r hp happly
    obtain ⟨⟨changed, q⟩, hchange, hret⟩ := Exec.bind_eq_ret_iff.1 happly
    rw [← (Prod.mk.inj (Exec.ret.inj hret)).2]
    exact hp.change hchange
  induction h with
  | nil p => exact hp
  | recorded _ applied _ ih => exact ih (hstep hp applied)
  | ignored _ applied _ ih => exact ih (hstep hp applied)

/-- **Every restoration** of a coordinator has collected its shares. -/
theorem reachable_collected {s : FrostCoordinator L} (h : Reachable s) :
    s.toPersistent.AllCollected s.keygenFingerprint := by
  induction h with
  | new => exact fun _ _ hstate => by cases hstate
  | perform h hop ih =>
      obtain ⟨ms, hms⟩ := FrostCoordinator.perform_mutates (Op.satisfies_none _ _) _ hop
      rw [hms.fingerprint]
      exact hms.chain.allCollected ih
  | takeStagedMutations h ih => exact ih

end Coordinator

/-! ### What was determined -/

namespace RecoveringAccessStructure

variable {L : FrostLib} {R : RecoveryLib} {fingerprint : Fingerprint}

/-- The search for the threshold of the key finds the key, and it is the key of the
restoration. -/
structure Settled (R : RecoveryLib) (fingerprint : Fingerprint) (a : RecoveringAccessStructure)
    (key : SharedKey) : Prop where
  sharedKey : a.sharedKey = some key
  finds : R.Finds a.images fingerprint (some key.threshold) key
  isNonZero : R.isNonZero key

/-- A key was found by a search, for the threshold that was said if there was no key before. -/
def Searched (R : RecoveryLib) (fingerprint : Fingerprint) (a : RecoveringAccessStructure) : Prop :=
  ∀ key, a.sharedKey = some key → ∃ knownThreshold,
    R.Finds a.images fingerprint knownThreshold key ∧ R.isNonZero key ∧
      (knownThreshold = none → a.toldThreshold = none)

/-- What is found when the shares have been changed. -/
theorem searched_of_recovery (a : RecoveringAccessStructure) :
    Searched R fingerprint
      { a with sharedKey := a.tryFuzzyRecovery (L.withRecovery R) fingerprint } := by
  intro key hkey
  obtain ⟨hfinds, hnonzero⟩ := RecoveryLib.withRecovery_findValidSubset.1 hkey
  refine ⟨a.effectiveThreshold, hfinds, hnonzero, fun hnone => ?_⟩
  cases hold : a.sharedKey with
  | none => rwa [effectiveThreshold_of_none hold] at hnone
  | some old =>
      rw [effectiveThreshold_of_some hold] at hnone
      cases hnone

theorem Searched.apply {a : RecoveringAccessStructure} (h : Searched R fingerprint a)
    (change : ShareChange) :
    Searched R fingerprint (a.apply (L.withRecovery R) fingerprint change) := by
  cases change with
  | add recoverShare => exact searched_of_recovery _
  | remove deviceId image =>
      rw [RecoveringAccessStructure.apply, removeShare]
      split
      · exact searched_of_recovery _
      · exact h

theorem Collected.searched {a : RecoveringAccessStructure}
    (h : a.Collected (L.withRecovery R) fingerprint) : Searched R fingerprint a := by
  obtain ⟨t, changes, rfl⟩ := h
  exact @run_invariant _ _ _ (Searched R fingerprint) (fun _ => True) (fun _ _ _ => trivial)
    (fun _ change _ h => h.apply change) _ _ trivial fun _ h => nomatch h

/-- **Settled.** A key that was determined is what the search for its threshold finds, if a
threshold was said or it has at least two. -/
theorem Collected.settled {a : RecoveringAccessStructure}
    (h : a.Collected (L.withRecovery R) fingerprint) {key : SharedKey}
    (hkey : a.sharedKey = some key) (htold : 2 ≤ key.threshold ∨ a.toldThreshold.isSome)
    (hR : R.InterpolatesOn L a.images) : a.Settled R fingerprint key := by
  obtain ⟨knownThreshold, hfinds, hnonzero, hnone⟩ := h.searched key hkey
  refine ⟨hkey, ?_, hnonzero⟩
  cases knownThreshold with
  | some t =>
      rw [hfinds.threshold_eq]
      exact hfinds
  | none =>
      refine hfinds.settle hR (htold.resolve_right ?_)
      rw [hnone rfl]
      exact Bool.false_ne_true

/-! ### What keeps it -/

/-- No other key that the images interpolate to with the threshold of `key` passes the check of
the fingerprint as well as it, where more bits than the fingerprint has do not count. -/
def Unrivalled (R : RecoveryLib) (fingerprint : Fingerprint) (images : List ShareImage)
    (key : SharedKey) : Prop :=
  ∀ c, IsChoice images c → c.length = key.threshold → R.fromShareImages c ≠ key →
    (R.fromShareImages c).threshold = key.threshold →
      score (R.maxBitsTotal fingerprint) (R.checkFingerprint (R.fromShareImages c) fingerprint) <
        score (R.maxBitsTotal fingerprint) (R.checkFingerprint key fingerprint)

theorem Unrivalled.mono {images images' : List ShareImage} {key : SharedKey}
    (h : Unrivalled R fingerprint images' key) (hmem : ∀ image ∈ images, image ∈ images') :
    Unrivalled R fingerprint images key :=
  fun c hc => h c (hc.mono fun image hi => hmem image (hc.mem image hi))

/-- Erasing an element does not change what is left of a list without it. -/
theorem filter_eraseP {α : Type} {p q : α → Bool} {l : List α} (h : ∀ x, p x → q x = false) :
    (l.eraseP p).filter q = l.filter q := by
  rcases List.exists_or_eq_self_of_eraseP p l with heq | ⟨x, l₁, l₂, -, hx, rfl, heq⟩
  · rw [heq]
  · rw [heq, List.filter_append, List.filter_append,
      List.filter_cons_of_neg (by rw [h x hx]; exact Bool.false_ne_true)]

namespace Settled

variable {a : RecoveringAccessStructure} {key : SharedKey}

/-- What is searched for with a key that is settled. -/
theorem of_recovery {heldShares : List RecoverShare} (h : a.Settled R fingerprint key)
    (hthreshold : key.threshold < 65536)
    (hfinds : R.Finds (images { a with heldShares := heldShares }) fingerprint
      (some key.threshold) key) :
    Settled R fingerprint
      { a with
        heldShares := heldShares
        sharedKey := RecoveringAccessStructure.tryFuzzyRecovery (L.withRecovery R)
          { a with heldShares := heldShares } fingerprint } key := by
  refine ⟨?_, hfinds, h.isNonZero⟩
  have heffective : effectiveThreshold { a with heldShares := heldShares } =
      some key.threshold := by
    have hsame : RecoveringAccessStructure.sharedKey { a with heldShares := heldShares } =
        some key := h.sharedKey
    rw [effectiveThreshold_of_some hsame, Nat.mod_eq_of_lt hthreshold]
  rw [tryFuzzyRecovery, heffective]
  exact RecoveryLib.withRecovery_findValidSubset.2 ⟨hfinds, h.isNonZero⟩

theorem addShare (h : a.Settled R fingerprint key) (hthreshold : key.threshold < 65536)
    {recoverShare : RecoverShare}
    (hrivals : Unrivalled R fingerprint (a.images ++ [recoverShare.heldShare.shareImage]) key) :
    (a.addShare (L.withRecovery R) recoverShare fingerprint).Settled R fingerprint key := by
  refine h.of_recovery hthreshold ?_
  have himages : images { a with heldShares := a.heldShares ++ [recoverShare] } =
      a.images ++ [recoverShare.heldShare.shareImage] := List.map_append
  rw [himages]
  exact h.finds.grow (fun image hi => List.mem_append_left _ hi) hrivals

theorem removeShare {a' : RecoveringAccessStructure} (h : a.Settled R fingerprint key)
    (hthreshold : key.threshold < 65536) (hR : R.InterpolatesOn L a.images) {deviceId : DeviceId}
    {image : ShareImage} (himage : key.shareImage L image.index ≠ image)
    (hremove : a.removeShare (L.withRecovery R) deviceId image fingerprint = some a') :
    a'.Settled R fingerprint key := by
  rw [RecoveringAccessStructure.removeShare] at hremove
  split at hremove
  · rw [← Option.some.inj hremove]
    refine h.of_recovery hthreshold (h.finds.shrink hR himage ?_ ?_)
    · exact (List.eraseP_sublist).map _
    · -- The share that is removed has the image.
      rw [images, images, List.filter_map, List.filter_map]
      refine congrArg _ (filter_eraseP fun recoverShare hshare => ?_)
      have himage' : recoverShare.heldShare.shareImage = image :=
        beq_iff_eq.1 (Bool.and_eq_true_iff.1 hshare).2
      simpa using himage'
  · cases hremove

/-- **A run of changes** keeps a key that has no rival among all of the images. -/
theorem run {all : List ShareImage} (h : a.Settled R fingerprint key)
    (hthreshold : key.threshold < 65536) (hR : R.InterpolatesOn L all)
    (hrivals : Unrivalled R fingerprint all key) {changes : List ShareChange}
    (himages : ∀ image ∈ a.images, image ∈ all)
    (hadded : ∀ change ∈ changes, ∀ image ∈ change.added, image ∈ all)
    (hspares : ∀ change ∈ changes, change.SparesKey L key) :
    (Frostsnap.run (apply (L.withRecovery R) fingerprint) a changes).Settled R fingerprint key := by
  induction changes generalizing a with
  | nil => exact h
  | cons change changes ih =>
      obtain ⟨hadded, hadded'⟩ := List.forall_mem_cons.1 hadded
      obtain ⟨hspares, hspares'⟩ := List.forall_mem_cons.1 hspares
      rw [run_cons]
      cases change with
      | add recoverShare =>
          have hall : ∀ image ∈ a.images ++ [recoverShare.heldShare.shareImage], image ∈ all := by
            intro image hi
            rcases List.mem_append.1 hi with hi | hi
            · exact himages image hi
            · exact hadded image hi
          refine ih (h.addShare hthreshold (hrivals.mono hall)) ?_ hadded' hspares'
          intro image hi
          refine hall image ?_
          have happend : images (a.addShare (L.withRecovery R) recoverShare fingerprint) =
              a.images ++ [recoverShare.heldShare.shareImage] := List.map_append
          rwa [← happend]
      | remove deviceId image =>
          rw [RecoveringAccessStructure.apply]
          cases hremove : a.removeShare (L.withRecovery R) deviceId image fingerprint with
          | none => exact ih h himages hadded' hspares'
          | some a' =>
              refine ih (h.removeShare hthreshold (hR.mono himages) hspares hremove) ?_ hadded'
                hspares'
              intro image' hi
              refine himages image' ?_
              rw [RecoveringAccessStructure.removeShare] at hremove
              split at hremove
              · rw [Option.getD_some, ← Option.some.inj hremove] at hi
                exact ((List.eraseP_sublist).map _).subset hi
              · cases hremove

end Settled

/-- The images that changes add. -/
def addedBy (changes : List ShareChange) : List ShareImage := changes.flatMap ShareChange.added

/-- **Restoration stability.** A determined key of threshold `t`, where `t` is at least two or was
said, stays under all changes that remove only shares which are not on it, if no other key that
`t` of the images interpolate to passes the check of the fingerprint as well as it; a removal
alone needs no such condition. A key that passes better would have replaced it. The compatible
shares are those on the key. -/
theorem restoration_keeps_key {a : RecoveringAccessStructure}
    (hcollected : a.Collected (L.withRecovery R) fingerprint) {key : SharedKey}
    (hkey : a.sharedKey = some key) (hthreshold : key.threshold < 65536)
    (htold : 2 ≤ key.threshold ∨ a.toldThreshold.isSome) (hR : R.InterpolatesOn L a.images) :
    (∀ changes : List ShareChange, R.InterpolatesOn L (a.images ++ addedBy changes) →
      Unrivalled R fingerprint (a.images ++ addedBy changes) key →
      (∀ change ∈ changes, change.SparesKey L key) →
      (Frostsnap.run (apply (L.withRecovery R) fingerprint) a changes).sharedKey = some key) ∧
    (∀ (deviceId : DeviceId) (image : ShareImage) (a' : RecoveringAccessStructure),
      key.shareImage L image.index ≠ image →
      a.removeShare (L.withRecovery R) deviceId image fingerprint = some a' →
      a'.sharedKey = some key) ∧
    (∀ c, IsChoice a.images c → c.length = key.threshold →
      (R.fromShareImages c).threshold = key.threshold →
      score (R.maxBitsTotal fingerprint) (R.checkFingerprint (R.fromShareImages c) fingerprint) ≤
        score (R.maxBitsTotal fingerprint) (R.checkFingerprint key fingerprint)) ∧
    ∀ image, a.compatibility (L.withRecovery R) image = .compatible ↔
      key.shareImage L image.index = image := by
  have hsettled := hcollected.settled hkey htold hR
  refine ⟨fun changes hR' hrivals hspares => ?_, fun deviceId image a' himage hremove => ?_,
    fun c hc hlen hthreshold' => hsettled.finds.score_le hc hlen hthreshold', fun image => ?_⟩
  · refine (hsettled.run hthreshold hR' hrivals (fun image hi => List.mem_append_left _ hi) ?_
      hspares).sharedKey
    intro change hchange image hi
    exact List.mem_append_right _ (List.mem_flatMap.2 ⟨change, hchange, hi⟩)
  · exact (hsettled.removeShare hthreshold hR himage hremove).sharedKey
  · have hsame : key.shareImage (L.withRecovery R) image.index = key.shareImage L image.index := rfl
    simp only [compatibility, hkey, hsame]
    split
    · rename_i heq
      exact ⟨fun _ => heq, fun _ => rfl⟩
    · rename_i hne
      exact ⟨fun h => (nomatch h), fun h => absurd h hne⟩

end RecoveringAccessStructure

/-! ### A search to compute with -/

/-- Interpolation of the images of indices one and two, and a fingerprint of the second
coefficient: what is divisible by four has two bits. A key with one coefficient has none to
check. -/
def plainRecovery : RecoveryLib where
  fromShareImages := fun
    | [a] => { pointPolynomial := [a.image] }
    | [a, b] =>
        if b.image = a.image then { pointPolynomial := [a.image] }
        else { pointPolynomial := [a.image - (b.image - a.image), b.image - a.image] }
    | _ => { pointPolynomial := [] }
  checkFingerprint key _ :=
    match key.pointPolynomial with
    | [_, slope] => if slope.toNat % 4 = 0 then some 2 else none
    | _ => some 0
  maxBitsTotal _ := 2
  isNonZero key := key.publicKey ≠ 0

/-- A choice of images with the indices one and two. -/
theorem isChoice_cases {images c : List ShareImage}
    (himages : ∀ image ∈ images, image.index = 1 ∨ image.index = 2) (h : IsChoice images c) :
    (∃ x, c = [⟨1, x⟩] ∨ c = [⟨2, x⟩]) ∨ ∃ x y, c = [⟨1, x⟩, ⟨2, y⟩] := by
  have hindex : ∀ image ∈ c, ∃ x, image = ⟨1, x⟩ ∨ image = ⟨2, x⟩ := by
    rintro ⟨index, x⟩ hi
    rcases himages _ (h.mem _ hi) with rfl | rfl
    · exact ⟨x, .inl rfl⟩
    · exact ⟨x, .inr rfl⟩
  have hnot : ∀ i : ShareIndex, i = 1 ∨ i = 2 → compare 2 i ≠ .lt := by
    rintro i (rfl | rfl)
    · decide
    · decide
  have hself : compare (1 : ShareIndex) 1 ≠ .lt := by decide
  match c, h.ne_nil, h.sorted, hindex with
  | [a], _, _, hindex =>
      obtain ⟨x, rfl | rfl⟩ := hindex a (by simp)
      · exact .inl ⟨x, .inl rfl⟩
      · exact .inl ⟨x, .inr rfl⟩
  | a :: b :: rest, _, hsorted, hindex =>
      simp only [List.map_cons, List.pairwise_cons, List.mem_cons] at hsorted
      obtain ⟨x, rfl | rfl⟩ := hindex a (by simp)
      · obtain ⟨y, rfl | rfl⟩ := hindex b (by simp)
        · exact absurd (hsorted.1 1 (.inl rfl)) hself
        · cases rest with
          | nil => exact .inr ⟨x, y, rfl⟩
          | cons d rest =>
              refine absurd (hsorted.2.1 d.index (by simp)) (hnot d.index ?_)
              obtain ⟨z, rfl | rfl⟩ := hindex d (by simp)
              · exact .inl rfl
              · exact .inr rfl
      · refine absurd (hsorted.1 b.index (by simp)) (hnot b.index ?_)
        obtain ⟨y, rfl | rfl⟩ := hindex b (by simp)
        · exact .inl rfl
        · exact .inr rfl

/-- The values of a key with one or two coefficients at one and two. -/
theorem plain_shareImage_one (a b : Point) :
    (SharedKey.mk [a]).shareImage plainLib 1 = ⟨1, a⟩ ∧
      (SharedKey.mk [a]).shareImage plainLib 2 = ⟨2, a⟩ ∧
      (SharedKey.mk [a, b]).shareImage plainLib 1 = ⟨1, a + b⟩ ∧
      (SharedKey.mk [a, b]).shareImage plainLib 2 = ⟨2, a + 2 * b⟩ := by
  have h1 : (1 : ShareIndex).setWidth 264 = 1 := by decide
  have h2 : (2 : ShareIndex).setWidth 264 = 2 := by decide
  refine ⟨?_, ?_, ?_, ?_⟩ <;>
    simp only [SharedKey.shareImage, plainLib, List.foldr_cons, List.foldr_nil, h1, h2, mul_zero,
      add_zero, one_mul]

theorem interpolatesOn_plainRecovery {images : List ShareImage}
    (himages : ∀ image ∈ images, image.index = 1 ∨ image.index = 2) :
    plainRecovery.InterpolatesOn plainLib images := by
  have hline : ∀ x y : Point, x - (y - x) + (y - x) = x ∧ x - (y - x) + 2 * (y - x) = y :=
    fun x y => ⟨by ring, by ring⟩
  have hone : ∀ x : Point, plainRecovery.fromShareImages [⟨1, x⟩] = ⟨[x]⟩ ∧
      plainRecovery.fromShareImages [⟨2, x⟩] = ⟨[x]⟩ := fun x => ⟨rfl, rfl⟩
  have htwo : ∀ x y : Point, plainRecovery.fromShareImages [⟨1, x⟩, ⟨2, y⟩] =
      if y = x then ⟨[x]⟩ else ⟨[x - (y - x), y - x]⟩ := fun x y => rfl
  refine ⟨fun c hc => ?_, fun c hc => ?_, fun c c' hc hc' => ?_⟩
  · rcases isChoice_cases himages hc with ⟨x, rfl | rfl⟩ | ⟨x, y, rfl⟩
    · rw [(hone x).1, List.forall_mem_singleton]
      exact (plain_shareImage_one x 0).1
    · rw [(hone x).2, List.forall_mem_singleton]
      exact (plain_shareImage_one x 0).2.1
    · rw [htwo, List.forall_mem_cons, List.forall_mem_singleton]
      split
      · rename_i heq
        rw [heq]
        exact ⟨(plain_shareImage_one x 0).1, (plain_shareImage_one x 0).2.1⟩
      · obtain ⟨h1, h2⟩ := (plain_shareImage_one (x - (y - x)) (y - x)).2.2
        rw [h1, h2, (hline x y).1, (hline x y).2]
        exact ⟨rfl, rfl⟩
  · rcases isChoice_cases himages hc with ⟨x, rfl | rfl⟩ | ⟨x, y, rfl⟩
    · exact le_rfl
    · exact le_rfl
    · rw [htwo]
      split
      · exact Nat.le_succ 1
      · exact le_rfl
  · have hform : ∃ a, plainRecovery.fromShareImages c' = ⟨[a]⟩ ∨
        ∃ b, b ≠ 0 ∧ plainRecovery.fromShareImages c' = ⟨[a, b]⟩ := by
      rcases isChoice_cases himages hc' with ⟨x, rfl | rfl⟩ | ⟨x, y, rfl⟩
      · exact ⟨x, .inl rfl⟩
      · exact ⟨x, .inl rfl⟩
      · rw [htwo]
        split
        · exact ⟨x, .inl rfl⟩
        · rename_i hne
          exact ⟨_, .inr ⟨y - x, sub_ne_zero.2 hne, rfl⟩⟩
    obtain ⟨a, hkey | ⟨b, hb, hkey⟩⟩ := hform
    · rw [hkey]
      obtain ⟨h1, h2, -⟩ := plain_shareImage_one a 0
      rcases isChoice_cases himages hc with ⟨x, rfl | rfl⟩ | ⟨x, y, rfl⟩
      · rw [List.forall_mem_singleton, h1, (hone x).1]
        rintro hx -
        rw [(ShareImage.mk.inj hx).2]
      · rw [List.forall_mem_singleton, h2, (hone x).2]
        rintro hx -
        rw [(ShareImage.mk.inj hx).2]
      · rw [List.forall_mem_cons, List.forall_mem_singleton, h1, h2, htwo]
        rintro ⟨hx, hy⟩ -
        rw [← (ShareImage.mk.inj hx).2, ← (ShareImage.mk.inj hy).2, if_pos rfl]
    · rw [hkey]
      obtain ⟨h1, h2⟩ := (plain_shareImage_one a b).2.2
      rcases isChoice_cases himages hc with ⟨x, rfl | rfl⟩ | ⟨x, y, rfl⟩
      · exact fun _ h => absurd h (Nat.not_succ_le_self 1)
      · exact fun _ h => absurd h (Nat.not_succ_le_self 1)
      · rw [List.forall_mem_cons, List.forall_mem_singleton, h1, h2, htwo]
        rintro ⟨hx, hy⟩ -
        have hslope : y - x = b := by
          rw [← (ShareImage.mk.inj hx).2, ← (ShareImage.mk.inj hy).2]
          ring
        have hconst : x - (y - x) = a := by
          rw [hslope, ← (ShareImage.mk.inj hx).2]
          ring
        rw [if_neg (sub_ne_zero.1 (hslope ▸ hb)), hconst, hslope]

/-! ### Restorations to compute with -/

/-- A share of the first device. -/
def shareOf (index : ShareIndex) (image : Point) : RecoverShare where
  heldBy := 1
  heldShare :=
    { accessStructureRef := none
      shareImage := { index := index, image := image }
      threshold := none
      keyName := none
      purpose := none
      needsConsolidation := false }

/-- Two shares of the key with the coefficients one and four. -/
def determined : RecoveringAccessStructure :=
  run (.apply (plainLib.withRecovery plainRecovery) 0) (.fresh none)
    [.add (shareOf 1 5), .add (shareOf 2 9)]

/-- A share that is not on the key is added and removed again. -/
def strayShare : List ShareChange := [.add (shareOf 1 6), .remove 1 ⟨1, 6⟩]

theorem restoration_keeps_key_of_strayShare :
    (run (.apply (plainLib.withRecovery plainRecovery) 0) determined strayShare).sharedKey =
      some ⟨[1, 4]⟩ := by
  have hR : ∀ images : List ShareImage, (∀ image ∈ images, image.index = 1 ∨ image.index = 2) →
      plainRecovery.InterpolatesOn plainLib images := fun _ h => interpolatesOn_plainRecovery h
  have hcollected : determined.Collected (plainLib.withRecovery plainRecovery) 0 :=
    ⟨none, _, rfl⟩
  have hkey : determined.sharedKey = some ⟨[1, 4]⟩ := by decide +kernel
  have himages : determined.images ++ RecoveringAccessStructure.addedBy strayShare =
      [⟨1, 5⟩, ⟨2, 9⟩, ⟨1, 6⟩] := by decide +kernel
  have hindices : ∀ image ∈ determined.images ++ RecoveringAccessStructure.addedBy strayShare,
      image.index = 1 ∨ image.index = 2 := by
    rw [himages]
    decide
  refine (RecoveringAccessStructure.restoration_keeps_key hcollected hkey (by decide)
    (.inl (by decide)) (hR _ fun image hi => hindices image (List.mem_append_left _ hi))).1
      strayShare (hR _ hindices) ?_ ?_
  · intro c hc hlen hne _
    rcases isChoice_cases hindices hc with ⟨x, rfl | rfl⟩ | ⟨x, y, rfl⟩
    · cases hlen
    · cases hlen
    · have hx : (⟨1, x⟩ : ShareImage) ∈ [(⟨1, 5⟩ : ShareImage), ⟨2, 9⟩, ⟨1, 6⟩] :=
        himages ▸ hc.mem _ (by simp)
      have hy : (⟨2, y⟩ : ShareImage) ∈ [(⟨1, 5⟩ : ShareImage), ⟨2, 9⟩, ⟨1, 6⟩] :=
        himages ▸ hc.mem _ (by simp)
      obtain rfl : y = 9 := by simpa using hy
      obtain rfl | rfl : x = 5 ∨ x = 6 := by simpa using hx
      · exact absurd (by decide) hne
      · decide
  · rintro change hchange
    obtain rfl | rfl : change = .add (shareOf 1 6) ∨ change = .remove 1 ⟨1, 6⟩ := by
      simpa [strayShare] using hchange
    · trivial
    · exact (by decide : (SharedKey.mk [1, 4]).shareImage plainLib 1 ≠ ⟨1, 6⟩)

/-- A key of one share, of the second index. -/
def determinedByOne : RecoveringAccessStructure :=
  run (.apply (plainLib.withRecovery plainRecovery) 0) (.fresh (some 1)) [.add (shareOf 2 7)]

/-- A share of another wallet with a smaller index replaces the key of a restoration whose
threshold is one. -/
theorem another_share_replaces_key :
    ¬ ∀ (L : FrostLib) (R : RecoveryLib) (fingerprint : Fingerprint)
      (a : RecoveringAccessStructure) (key : SharedKey) (recoverShare : RecoverShare),
      a.Collected (L.withRecovery R) fingerprint → a.sharedKey = some key →
      R.InterpolatesOn L (a.images ++ [recoverShare.heldShare.shareImage]) →
      (a.addShare (L.withRecovery R) recoverShare fingerprint).sharedKey = some key := by
  intro h
  have hkey : determinedByOne.sharedKey = some ⟨[7]⟩ := by decide +kernel
  have hlost : (determinedByOne.addShare (plainLib.withRecovery plainRecovery) (shareOf 1 8)
      0).sharedKey = some ⟨[8]⟩ := by decide +kernel
  have hindices : ∀ image ∈ determinedByOne.images ++ [(shareOf 1 8).heldShare.shareImage],
      image.index = 1 ∨ image.index = 2 := by decide +kernel
  have hkept := h plainLib plainRecovery 0 determinedByOne ⟨[7]⟩ (shareOf 1 8)
    ⟨some 1, _, rfl⟩ hkey (interpolatesOn_plainRecovery hindices)
  rw [hlost] at hkept
  exact absurd hkept (by decide)

end Frostsnap
