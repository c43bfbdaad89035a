import Frostsnap.Embedded.NonceSlots
import Frostsnap.Lib.Run

/-!
# Nonce safety across power loss

The slots of a device outlive its runs: power may be lost inside any write, and the device
then starts again from whatever the flash holds. A slot that was interrupted may have a copy
from before the request and a copy from after it, or one whose shares are cut short, or none
that can be read.

`NonceStore` is the flash together with three ledgers: the fresh seeds drawn so far, the
requests that signed, and the slot values whose signature shares have left the device. A
request that is interrupted adds nothing to the last, since its shares are only returned at
the end.

## Main results

* `NonceStore.Inv`: no copy of a slot can still derive a nonce whose share has left the
  device, and copies that cache shares for the same nonces cache them for the same session.
* `NonceStore.step_inv`: every operation keeps it, at every point it may be interrupted.
* `flash_nonce_safety`: over every run of requests, crashes and reboots, no nonce has given
  shares for two sessions, and when a request returns shares both copies of the slot hold the
  value past the nonces just used and nothing else.
-/

namespace Frostsnap

variable {SecretNonce Nonce Share Item : Type}

/-- The nonce slots of a device and what has happened to them. -/
structure NonceStore (Share : Type) where
  flash : Flash
  /-- the clock of `AbSlots` -/
  lastUsed : ℕ
  /-- the fresh seeds, with the streams they were drawn for -/
  drawn : List (NonceStreamId × RatchetSeedMaterial)
  /-- the requests that signed, also those that were then interrupted -/
  signed : List (SigningEvent RatchetSeedMaterial Share)
  /-- the slot values whose shares have left the device, oldest first -/
  released : List (NonceSlotValue Share)

/-- An operation on the slots, and where power is lost inside it: after how many flash
operations, and how many units of the next. -/
inductive NonceOp (Item : Type) where
  | getOrCreate (streamId : NonceStreamId) (seed : RatchetSeedMaterial) (crash : Option (ℕ × ℕ))
  | sign (sessionId : SignSessionId) (coord : CoordNonceStreamState) (sessions : List Item)
      (nonceBatchSize : ℕ) (crash : Option (ℕ × ℕ))
  | reboot

namespace SecretNonceSlot

variable {Seed : Type}

/-- How many shares a slot caches. -/
def shareCount (v : SecretNonceSlot Seed Share) : ℕ :=
  v.signingState.elim 0 fun st => st.signatureShares.length

/-- The session a slot caches shares for. -/
def cachedSession (v : SecretNonceSlot Seed Share) : Option SignSessionId :=
  v.signingState.map SigningState.sessionId

/-- The shares the slot caches were made with the nonce at an index of a lineage: they used
the nonces just below the index of the slot. -/
def Spent (d : NonceDerivation Seed SecretNonce Nonce) (v : SecretNonceSlot Seed Share)
    (seed : Seed) (index : ℕ) : Prop :=
  v.OnLineage d seed ∧ index < v.index ∧ v.index ≤ index + v.shareCount

/-- The seed material in a slot gives the nonce at an index of a lineage: the ratchet goes
forward only. -/
def Derives (d : NonceDerivation Seed SecretNonce Nonce) (v : SecretNonceSlot Seed Share)
    (seed : Seed) (index : ℕ) : Prop :=
  v.OnLineage d seed ∧ v.index ≤ index

/-- A slot caches for the session of an event, and the nonces it has spent on it are those the
event used. -/
structure CachedFrom (d : NonceDerivation Seed SecretNonce Nonce)
    (v : SecretNonceSlot Seed Share) (e : SigningEvent Seed Share) : Prop where
  stream : e.streamId = v.nonceStreamId
  session : v.cachedSession = some e.sessionId
  nonces : ∀ seed index, v.Spent d seed index ↔ e.Uses d seed index

end SecretNonceSlot

/-! ### Slots that differ in share bytes -/

namespace SameButShares

variable {d : NonceDerivation RatchetSeedMaterial SecretNonce Nonce} {v w : NonceSlotValue Share}

theorem onLineage_iff (h : SameButShares v w) {seed : RatchetSeedMaterial} :
    w.OnLineage d seed ↔ v.OnLineage d seed := by
  simp only [SecretNonceSlot.OnLineage, h.index, h.nonceStreamId, h.seed]

theorem shareCount_eq (h : SameButShares v w) : w.shareCount = v.shareCount := by
  have hstate := h.state
  simp only [SecretNonceSlot.shareCount]
  cases hv : v.signingState <;> cases hw : w.signingState <;>
    simp_all

theorem cachedSession_eq (h : SameButShares v w) : w.cachedSession = v.cachedSession := by
  have hstate := h.state
  simp only [SecretNonceSlot.cachedSession]
  cases hv : v.signingState <;> cases hw : w.signingState <;>
    simp_all

theorem spent_iff (h : SameButShares v w) {seed : RatchetSeedMaterial} {index : ℕ} :
    w.Spent d seed index ↔ v.Spent d seed index := by
  simp only [SecretNonceSlot.Spent, h.onLineage_iff, h.shareCount_eq, h.index]

theorem cachedFrom (h : SameButShares v w) {e : SigningEvent RatchetSeedMaterial Share}
    (he : v.CachedFrom d e) : w.CachedFrom d e :=
  ⟨he.stream.trans h.nonceStreamId.symm, h.cachedSession_eq.trans he.session,
    fun _ _ => h.spent_iff.trans (he.nonces _ _)⟩

end SameButShares

/-- The fixed part of a device: its flash, its slots and its primitives. -/
structure NonceDevice (SecretNonce Nonce Share Item : Type) where
  geometry : FlashGeometry
  forSlots : geometry.ForSlots
  slots : List AbSlot
  inOrder : slots.Pairwise AbSlot.Before
  derivation : NonceDerivation RatchetSeedMaterial SecretNonce Nonce
  sign : Item → SecretNonce → Share
  share : FixedCodec 32 Share
  sign_valid : ∀ item nonce, share.Valid (sign item nonce)

namespace NonceDevice

variable (dev : NonceDevice SecretNonce Nonce Share Item)

/-- `AbSlots::new`: the clock starts at the newest stamp among the slots. -/
def bootClock (f : Flash) : ℕ :=
  (AbSlots.new (NonceSlots.view dev.share dev.slots 0 f).slots).lastUsed

/-- A device whose flash is erased. -/
def fresh : NonceStore Share where
  flash := fun _ => 0xff
  lastUsed := 0
  drawn := []
  signed := []
  released := []

variable [DecidableEq Share]

/-- One operation, and what it adds to the ledgers. A panic or a crash restarts the device. -/
def step (s : NonceStore Share) : NonceOp Item → NonceStore Share
  | .getOrCreate streamId seed crash =>
      let m := NonceSlots.getOrCreate dev.share dev.slots s.lastUsed streamId seed
      let flash := m.flashAfter dev.geometry s.flash crash
      { s with
        flash := flash
        lastUsed :=
          match crash, (m s.flash).result with
          | none, .ret (_, lastUsed) => lastUsed
          | _, _ => dev.bootClock flash
        drawn :=
          if (NonceSlots.view dev.share dev.slots s.lastUsed s.flash).Creates streamId then
            s.drawn ++ [(streamId, seed)]
          else s.drawn }
  | .sign sessionId coord sessions nonceBatchSize crash =>
      let m := NonceSlots.signGuaranteeingNoncesDestroyed dev.derivation dev.sign dev.share
        dev.slots s.lastUsed sessionId coord sessions nonceBatchSize
      let flash := m.flashAfter dev.geometry s.flash crash
      { s with
        flash := flash
        lastUsed :=
          match crash, (m s.flash).result with
          | none, .ret (.ok (_, lastUsed)) => lastUsed
          | none, .ret (.error _) => s.lastUsed
          | _, _ => dev.bootClock flash
        signed := s.signed ++ (NonceSlots.signingEvent dev.derivation dev.sign dev.share
          dev.slots sessionId coord sessions s.flash).toList
        released :=
          match crash, (m s.flash).result with
          | none, .ret (.ok _) =>
              s.released ++ ((NonceSlots.signingWrite dev.derivation dev.sign dev.share dev.slots
                s.lastUsed sessionId coord sessions s.flash).map Prod.snd).toList
          | _, _ => s.released }
  | .reboot => { s with lastUsed := dev.bootClock s.flash }

end NonceDevice

namespace NonceStore

variable (dev : NonceDevice SecretNonce Nonce Share Item) (s s' : NonceStore Share)

/-- A slot value that one of the two copies of the slot at a position holds. -/
def Copy (i : ℕ) (u : NonceSlotValue Share) : Prop :=
  ∃ a j index, dev.slots[i]? = some a ∧
    (a.slots j).read (secretNonceSlotCodec dev.share) s.flash = some (index, u)

/-- What holds of the slots of a device and their history. -/
structure Inv : Prop where
  valid : ∀ i u, s.Copy dev i u → SlotValid dev.share u
  copy_lineage : ∀ i u, s.Copy dev i u →
    ∃ seed, (u.nonceStreamId, seed) ∈ s.drawn ∧ u.OnLineage dev.derivation seed
  released_lineage : ∀ r ∈ s.released,
    ∃ seed, (r.nonceStreamId, seed) ∈ s.drawn ∧ r.OnLineage dev.derivation seed
  apart : ∀ i j u v seed, s.Copy dev i u → s.Copy dev j v → u.nonceStreamId = v.nonceStreamId →
    u.OnLineage dev.derivation seed → v.OnLineage dev.derivation seed → i = j
  destroyed : ∀ i u r seed, s.Copy dev i u → r ∈ s.released →
    r.nonceStreamId = u.nonceStreamId → r.OnLineage dev.derivation seed →
    u.OnLineage dev.derivation seed → r.index ≤ u.index
  copy_session : ∀ i u r seed index, s.Copy dev i u → r ∈ s.released →
    r.nonceStreamId = u.nonceStreamId → r.Spent dev.derivation seed index →
    u.Spent dev.derivation seed index → r.cachedSession = u.cachedSession
  copy_event : ∀ i u, s.Copy dev i u → u.cachedSession.isSome →
    ∃ e ∈ s.signed, u.CachedFrom dev.derivation e
  released_event : ∀ r ∈ s.released, ∃ e ∈ s.signed, r.CachedFrom dev.derivation e
  released_session : ∀ r ∈ s.released, ∀ r' ∈ s.released, ∀ seed index,
    r.nonceStreamId = r'.nonceStreamId → r.Spent dev.derivation seed index →
    r'.Spent dev.derivation seed index → r.cachedSession = r'.cachedSession

/-- What one operation can do. -/
inductive Effect : Prop where
  | idle (flash : s'.flash = s.flash) (drawn : s.drawn ⊆ s'.drawn)
      (signed : s.signed ⊆ s'.signed) (released : s'.released = s.released)
  | create (a : AbSlot) (mem : a ∈ dev.slots) (n k : ℕ) (streamId : NonceStreamId)
      (lastUsed : ℕ) (seed : RatchetSeedMaterial) (clock : lastUsed ≤ u32Max)
      (flash : s'.flash = (a.writeNonceSlot dev.share (.initial streamId lastUsed seed)).crash
        dev.geometry s.flash n k)
      (drawn : s'.drawn = s.drawn ++ [(streamId, seed)]) (signed : s'.signed = s.signed)
      (released : s'.released = s.released)
  | sign (a : AbSlot) (mem : a ∈ dev.slots) (v w : NonceSlotValue Share)
      (sessionId : SignSessionId) (coord : CoordNonceStreamState) (sessions : List Item)
      (lastUsed : ℕ) (clock : lastUsed ≤ u32Max)
      (read : a.readNonceSlot dev.share s.flash = some v)
      (value : v.withSignatures dev.derivation dev.sign sessionId coord lastUsed sessions =
        .ret (.ok w))
      (flash : (∃ n k, s'.flash = (a.writeNonceSlot dev.share w).crash dev.geometry s.flash n k) ∧
          s'.released = s.released ∨
        s'.flash = (a.writeNonceSlot dev.share w).after s.flash ∧
          (a.writeNonceSlot dev.share w s.flash).result = .ret () ∧
          s'.released = s.released ++ [w])
      (drawn : s'.drawn = s.drawn)
      (signed : s'.signed =
        s.signed ++ (v.signingEvent dev.derivation dev.sign sessionId coord sessions).toList)

variable {dev s s'}

theorem nextLastUsed_le {S : Type} (ab : AbSlots S) : ab.nextLastUsed ≤ u32Max :=
  Nat.le_of_lt_succ (Nat.mod_lt _ (by decide))

/-- **Every step is one of the effects.** -/
theorem step_effect [DecidableEq Share] (s : NonceStore Share) (op : NonceOp Item) :
    Effect dev s (dev.step s op) := by
  cases op with
  | reboot => exact .idle rfl (List.Subset.refl _) (List.Subset.refl _) rfl
  | getOrCreate streamId seed crash =>
      rcases NonceSlots.getOrCreate_trace dev.share dev.slots s.lastUsed s.flash streamId seed
        with hnil | ⟨hc, a, ha, hops⟩
      · refine .idle (FlashM.flashAfter_of_nil hnil crash) ?_ (List.Subset.refl _) rfl
        simp only [NonceDevice.step]
        split
        · exact List.subset_append_left _ _
        · exact List.Subset.refl _
      · obtain ⟨n, k, hflash⟩ := FlashM.flashAfter_eq_crash (g := dev.geometry) hops crash
        refine .create a ha n k streamId _ seed (nextLastUsed_le _) hflash ?_ rfl rfl
        simp only [NonceDevice.step, if_pos hc]
  | sign sessionId coord sessions nonceBatchSize crash =>
      rcases NonceSlots.sign_trace dev.derivation dev.sign dev.share dev.slots s.lastUsed s.flash
          sessionId coord sessions nonceBatchSize with
          ⟨hwrite, hnil, hret⟩ | ⟨a, w, hwrite, hops, hret⟩
      · refine .idle (FlashM.flashAfter_of_nil hnil crash) (List.Subset.refl _)
          (List.subset_append_left _ _) ?_
        simp only [NonceDevice.step]
        split
        · rename_i out hr
          exact absurd hr (hret out)
        · rfl
      · obtain ⟨ha, v, hv, -, hw, hevent⟩ := NonceSlots.signingWrite_eq_some hwrite
        refine .sign a ha v w sessionId coord sessions _ (nextLastUsed_le _) hv hw ?_ rfl
          (by rw [← hevent]; rfl)
        have hflash := FlashM.flashAfter_eq_crash (g := dev.geometry) hops crash
        simp only [NonceDevice.step]
        split
        · rename_i out hr
          refine .inr ⟨?_, (hret out hr).1, ?_⟩
          · simp only [FlashM.flashAfter, FlashM.after, hops]
          · rw [hwrite]
            rfl
        · exact .inl ⟨hflash, rfl⟩

/-! ### The copies after a write -/

/-- A slot has one position. -/
theorem index_unique {a : AbSlot} {i j : ℕ} (hi : dev.slots[i]? = some a)
    (hj : dev.slots[j]? = some a) : i = j := by
  have hself : ¬ a.Before a := by
    intro hb
    have h₀ := a.slot_within 0
    have hpos := (a.slots 0).four_le_size
    simp only [AbSlot.Before] at hb
    omega
  obtain ⟨hil, hi⟩ := List.getElem?_eq_some_iff.mp hi
  obtain ⟨hjl, hj⟩ := List.getElem?_eq_some_iff.mp hj
  have hord := List.pairwise_iff_getElem.mp dev.inOrder
  rcases lt_trichotomy i j with h | h | h
  · have hb := hord i j hil hjl h
    rw [hi, hj] at hb
    exact absurd hb hself
  · exact h
  · have hb := hord j i hjl hil h
    rw [hi, hj] at hb
    exact absurd hb hself

theorem before_of_ne {a b : AbSlot} (ha : a ∈ dev.slots) (hb : b ∈ dev.slots) (hne : b ≠ a) :
    a.Before b ∨ b.Before a := by
  obtain ⟨i, hi, rfl⟩ := List.mem_iff_getElem.mp ha
  obtain ⟨j, hj, rfl⟩ := List.mem_iff_getElem.mp hb
  have hord := List.pairwise_iff_getElem.mp dev.inOrder
  rcases lt_trichotomy i j with h | rfl | h
  · exact .inl (hord i j hi hj h)
  · exact absurd rfl hne
  · exact .inr (hord j i hj hi h)

/-- A copy after an interrupted write is one from before, or the new value with other share
bytes, in the slot that was written. -/
theorem copy_of_crash {a : AbSlot} (ha : a ∈ dev.slots) {w u : NonceSlotValue Share}
    (hw : SlotValid dev.share w) {n k : ℕ}
    (hflash : s'.flash = (a.writeNonceSlot dev.share w).crash dev.geometry s.flash n k) {i : ℕ}
    (h : s'.Copy dev i u) :
    s.Copy dev i u ∨ dev.slots[i]? = some a ∧ SameButShares w u := by
  obtain ⟨b, j, index, hb, hread⟩ := h
  rw [hflash] at hread
  by_cases hba : b = a
  · subst hba
    rcases AbSlot.copies_of_crash dev.forSlots hw hread with hold | hsame
    · exact .inl ⟨b, j, index, hb, hold⟩
    · exact .inr ⟨hb, hsame⟩
  · rw [AbSlot.read_other (before_of_ne ha (List.mem_of_getElem? hb) hba)] at hread
    exact .inl ⟨b, j, index, hb, hread⟩

variable (dev s) in
/-- A value that may be written over a slot: it is on a drawn lineage that no other slot is
on, it has passed what was released, it caches shares for a spent nonce only for the session
they were released for, and the shares are from a request that signed. -/
structure MayWrite (drawn : List (NonceStreamId × RatchetSeedMaterial))
    (signed : List (SigningEvent RatchetSeedMaterial Share)) (a : AbSlot)
    (w : NonceSlotValue Share) : Prop where
  valid : SlotValid dev.share w
  lineage : ∃ seed, (w.nonceStreamId, seed) ∈ drawn ∧ w.OnLineage dev.derivation seed
  apart : ∀ i u seed, s.Copy dev i u → u.nonceStreamId = w.nonceStreamId →
    u.OnLineage dev.derivation seed → w.OnLineage dev.derivation seed → dev.slots[i]? = some a
  destroyed : ∀ r seed, r ∈ s.released → r.nonceStreamId = w.nonceStreamId →
    r.OnLineage dev.derivation seed → w.OnLineage dev.derivation seed → r.index ≤ w.index
  session : ∀ r seed index, r ∈ s.released → r.nonceStreamId = w.nonceStreamId →
    r.Spent dev.derivation seed index → w.Spent dev.derivation seed index →
    r.cachedSession = w.cachedSession
  event : w.cachedSession.isSome → ∃ e ∈ signed, w.CachedFrom dev.derivation e

/-- Writing over a slot keeps the invariant, at every point it may be interrupted. -/
theorem Inv.overwrite (hs : s.Inv dev) {a : AbSlot} (ha : a ∈ dev.slots)
    {w : NonceSlotValue Share} (hw : s.MayWrite dev s'.drawn s'.signed a w) {n k : ℕ}
    (hflash : s'.flash = (a.writeNonceSlot dev.share w).crash dev.geometry s.flash n k)
    (hdrawn : s.drawn ⊆ s'.drawn) (hsigned : s.signed ⊆ s'.signed)
    (hreleased : s'.released = s.released) : s'.Inv dev := by
  have hcopy : ∀ {i u}, s'.Copy dev i u →
      s.Copy dev i u ∨ dev.slots[i]? = some a ∧ SameButShares w u :=
    fun h => copy_of_crash ha hw.valid hflash h
  constructor
  · intro i u hu
    obtain ⟨b, j, index, -, hread⟩ := hu
    simp only [Slot.read, Option.bind_eq_bind, Option.bind_eq_some_iff, Prod.exists] at hread
    obtain ⟨x, rest, -, u', rest', hd, heq⟩ := hread
    split at heq
    · cases heq
    · cases heq
      exact slotValid_of_decode hd
  · intro i u hu
    rcases hcopy hu with hu | ⟨-, hsame⟩
    · obtain ⟨seed, hmem, hseed⟩ := hs.copy_lineage i u hu
      exact ⟨seed, hdrawn hmem, hseed⟩
    · obtain ⟨seed, hmem, hseed⟩ := hw.lineage
      exact ⟨seed, by rwa [hsame.nonceStreamId], hsame.onLineage_iff.mpr hseed⟩
  · intro r hr
    rw [hreleased] at hr
    obtain ⟨seed, hmem, hseed⟩ := hs.released_lineage r hr
    exact ⟨seed, hdrawn hmem, hseed⟩
  · intro i j u v seed hu hv hid hseed hseed'
    rcases hcopy hu with hu | ⟨hi, hsame⟩ <;> rcases hcopy hv with hv | ⟨hj, hsame'⟩
    · exact hs.apart i j u v seed hu hv hid hseed hseed'
    · exact index_unique (hw.apart i u seed hu (hid.trans hsame'.nonceStreamId) hseed
        (hsame'.onLineage_iff.mp hseed')) hj
    · exact index_unique hi (hw.apart j v seed hv (hid.symm.trans hsame.nonceStreamId) hseed'
        (hsame.onLineage_iff.mp hseed))
    · exact index_unique hi hj
  · intro i u r seed hu hr hid hrs hus
    rw [hreleased] at hr
    rcases hcopy hu with hu | ⟨-, hsame⟩
    · exact hs.destroyed i u r seed hu hr hid hrs hus
    · rw [hsame.index]
      exact hw.destroyed r seed hr (hid.trans hsame.nonceStreamId) hrs
        (hsame.onLineage_iff.mp hus)
  · intro i u r seed index hu hr hid hrs hus
    rw [hreleased] at hr
    rcases hcopy hu with hu | ⟨-, hsame⟩
    · exact hs.copy_session i u r seed index hu hr hid hrs hus
    · rw [hsame.cachedSession_eq]
      exact hw.session r seed index hr (hid.trans hsame.nonceStreamId) hrs
        (hsame.spent_iff.mp hus)
  · intro i u hu hsome
    rcases hcopy hu with hu | ⟨-, hsame⟩
    · obtain ⟨e, he, hfrom⟩ := hs.copy_event i u hu hsome
      exact ⟨e, hsigned he, hfrom⟩
    · obtain ⟨e, he, hfrom⟩ := hw.event (by rwa [← hsame.cachedSession_eq])
      exact ⟨e, he, hsame.cachedFrom hfrom⟩
  · intro r hr
    rw [hreleased] at hr
    obtain ⟨e, he, hfrom⟩ := hs.released_event r hr
    exact ⟨e, hsigned he, hfrom⟩
  · rw [hreleased]
    exact hs.released_session

/-- Releasing the shares of a slot keeps the invariant, when every copy on its lineage is the
value that is released. -/
theorem Inv.release (hs : s.Inv dev) {i : ℕ} {w : NonceSlotValue Share} (hw : s.Copy dev i w)
    (hboth : ∀ j u seed, s.Copy dev j u → u.nonceStreamId = w.nonceStreamId →
      u.OnLineage dev.derivation seed → w.OnLineage dev.derivation seed → u = w)
    (hsome : w.cachedSession.isSome) (hflash : s'.flash = s.flash) (hdrawn : s'.drawn = s.drawn)
    (hsigned : s'.signed = s.signed) (hreleased : s'.released = s.released ++ [w]) :
    s'.Inv dev := by
  have hcopy : ∀ {j u}, s'.Copy dev j u → s.Copy dev j u := by
    rintro j u ⟨b, x, index, hb, hread⟩
    exact ⟨b, x, index, hb, by rwa [hflash] at hread⟩
  have hmem : ∀ {r}, r ∈ s'.released → r ∈ s.released ∨ r = w := by
    intro r hr
    simpa [hreleased] using hr
  constructor
  · exact fun j u hu => hs.valid j u (hcopy hu)
  · intro j u hu
    rw [hdrawn]
    exact hs.copy_lineage j u (hcopy hu)
  · intro r hr
    rw [hdrawn]
    rcases hmem hr with hr | rfl
    · exact hs.released_lineage r hr
    · exact hs.copy_lineage i r hw
  · exact fun j k u v seed hu hv => hs.apart j k u v seed (hcopy hu) (hcopy hv)
  · intro j u r seed hu hr hid hrs hus
    rcases hmem hr with hr | rfl
    · exact hs.destroyed j u r seed (hcopy hu) hr hid hrs hus
    · rw [hboth j u seed (hcopy hu) hid.symm hus hrs]
  · intro j u r seed index hu hr hid hrs hus
    rcases hmem hr with hr | rfl
    · exact hs.copy_session j u r seed index (hcopy hu) hr hid hrs hus
    · rw [hboth j u seed (hcopy hu) hid.symm hus.1 hrs.1]
  · rw [hsigned]
    exact fun j u hu => hs.copy_event j u (hcopy hu)
  · intro r hr
    rw [hsigned]
    rcases hmem hr with hr | rfl
    · exact hs.released_event r hr
    · exact hs.copy_event i r hw hsome
  · intro r hr r' hr' seed index hid hrs hrs'
    rcases hmem hr with hr | rfl <;> rcases hmem hr' with hr' | rfl
    · exact hs.released_session r hr r' hr' seed index hid hrs hrs'
    · exact hs.copy_session i r' r seed index hw hr hid hrs hrs'
    · exact (hs.copy_session i r r' seed index hw hr' hid.symm hrs' hrs).symm
    · rfl

/-! ### What may be written -/

/-- The seeds drawn so far are pairwise distinct. -/
def FreshSeeds (s : NonceStore Share) : Prop := (s.drawn.map Prod.snd).Nodup

/-- The initial value of a slot may be written anywhere, when its seed is fresh. -/
theorem Inv.mayWrite_initial (hd : dev.derivation.NeverRepeats) (hs : s.Inv dev)
    {streamId : NonceStreamId} {seed : RatchetSeedMaterial}
    (hdrawn : s'.drawn = s.drawn ++ [(streamId, seed)]) (hfresh : s'.FreshSeeds) {lastUsed : ℕ}
    (hclock : lastUsed ≤ u32Max) (a : AbSlot) :
    s.MayWrite dev s'.drawn s'.signed a (.initial streamId lastUsed seed) := by
  have hline : (SecretNonceSlot.initial streamId lastUsed seed :
      NonceSlotValue Share).OnLineage dev.derivation seed :=
    SecretNonceSlot.initial_onLineage streamId lastUsed seed
  have hnew : ∀ id, (id, seed) ∉ s.drawn := by
    intro id hmem
    simp only [FreshSeeds, hdrawn, List.map_append, List.nodup_append] at hfresh
    exact hfresh.2.2 seed (List.mem_map_of_mem hmem) seed (by simp) rfl
  constructor
  case valid => exact ⟨Nat.zero_le _, hclock, nofun, nofun⟩
  case lineage => exact ⟨seed, by simp [hdrawn, SecretNonceSlot.initial], hline⟩
  case apart =>
    intro i u t hu _ hut ht
    obtain rfl := ht.eq hd hline
    obtain ⟨t', hmem, ht'⟩ := hs.copy_lineage i u hu
    obtain rfl := hut.eq hd ht'
    exact absurd hmem (hnew _)
  case destroyed =>
    intro r t hr _ hrt ht
    obtain rfl := ht.eq hd hline
    obtain ⟨t', hmem, ht'⟩ := hs.released_lineage r hr
    obtain rfl := hrt.eq hd ht'
    exact absurd hmem (hnew _)
  case session =>
    rintro r t index - - - ⟨-, hlt, -⟩
    exact absurd hlt (Nat.not_lt_zero _)
  case event => rintro ⟨⟩

/-- The value a signing request computes for a slot may be written there: it is the value of
the slot, or it has passed it and caches shares only for nonces the slot had not passed. -/
theorem Inv.mayWrite_signed (hd : dev.derivation.NeverRepeats) (hs : s.Inv dev) {a : AbSlot}
    (ha : a ∈ dev.slots) {v w : NonceSlotValue Share} {sessionId : SignSessionId}
    {coord : CoordNonceStreamState} {sessions : List Item} {lastUsed : ℕ}
    (hclock : lastUsed ≤ u32Max) (hread : a.readNonceSlot dev.share s.flash = some v)
    (hvalue : v.withSignatures dev.derivation dev.sign sessionId coord lastUsed sessions =
      .ret (.ok w)) :
    w.cachedSession.isSome ∧ s.MayWrite dev s.drawn
      (s.signed ++ (v.signingEvent dev.derivation dev.sign sessionId coord sessions).toList)
      a w := by
  obtain ⟨i, hi⟩ := List.mem_iff_getElem?.mp ha
  obtain ⟨j, index, hcopy⟩ := AbSlot.copy_of_read hread
  have hv : s.Copy dev i v := ⟨a, j, index, hi, hcopy⟩
  obtain ⟨seed, hmem, hline⟩ := hs.copy_lineage i v hv
  have hat : ∀ {k u t}, s.Copy dev k u → u.nonceStreamId = v.nonceStreamId →
      u.OnLineage dev.derivation t → v.OnLineage dev.derivation t → dev.slots[k]? = some a := by
    intro k u t hu hid hut hvt
    rwa [hs.apart k i u v t hu hv hid hut hvt]
  rcases SecretNonceSlot.withSignatures_cases dev.derivation dev.sign sessionId coord lastUsed
      sessions hline with ⟨hcached, -, hok⟩ | ⟨-, hno⟩ |
        ⟨e, w', he, hok, hid, hstate, -, -, hwline, hidx, hmax, hlast, hshares⟩
  · rw [hvalue] at hok
    cases hok
    have hsome : v.cachedSession.isSome := by
      rw [SecretNonceSlot.cachedSession, hcached]
      rfl
    refine ⟨hsome, hs.valid i v hv, ⟨seed, hmem, hline⟩,
      fun k u t hu hid hut hwt => hat hu hid hut hwt,
      fun r t hr hid hrt hwt => hs.destroyed i v r t hv hr hid hrt hwt,
      fun r t n hr hid hrs hws => hs.copy_session i v r t n hv hr hid hrs hws, fun _ => ?_⟩
    obtain ⟨e, he, hfrom⟩ := hs.copy_event i v hv hsome
    exact ⟨e, List.mem_append_left _ he, hfrom⟩
  · exact absurd hvalue (hno w)
  · rw [hvalue] at hok
    cases hok
    obtain ⟨hstream, hsession, hstart, heline⟩ :=
      SecretNonceSlot.signingAttempt_spec hline (SecretNonceSlot.signingAttempt_of_event he)
    have hcachedSession : w.cachedSession = some sessionId := by
      simp only [SecretNonceSlot.cachedSession, hstate, Option.map_some]
    have hcount : w.shareCount = e.shares.length := by
      simp only [SecretNonceSlot.shareCount, hstate, Option.elim_some]
    have hstop : w.index = e.start + e.shares.length := hidx
    have hpassed : ∀ {r t}, r ∈ s.released → r.nonceStreamId = w.nonceStreamId →
        r.OnLineage dev.derivation t → w.OnLineage dev.derivation t → r.index ≤ v.index := by
      intro r t hr hrid hrt hwt
      obtain rfl := hwt.eq hd hwline
      exact hs.destroyed i v r t hv hr (hrid.trans hid) hrt hline
    refine ⟨by rw [hcachedSession]; rfl, ?_⟩
    constructor
    case valid =>
      refine ⟨hmax, hlast.trans_le hclock, fun st hst => ?_, fun st hst share hmem => ?_⟩
      · cases hstate.symm.trans hst
        show e.shares.length ≤ u32Max
        omega
      · cases hstate.symm.trans hst
        obtain ⟨item, nonce, rfl⟩ := hshares share hmem
        exact dev.sign_valid item nonce
    case lineage => exact ⟨seed, by rwa [hid], hwline⟩
    case apart =>
      intro k u t hu huid hut hwt
      obtain rfl := hwt.eq hd hwline
      exact hat hu (huid.trans hid) hut hline
    case destroyed =>
      intro r t hr hrid hrt hwt
      have hle := hpassed hr hrid hrt hwt
      omega
    case session =>
      rintro r t n hr hrid ⟨hrt, hrlt, -⟩ ⟨hwt, -, hwle⟩
      have hle := hpassed hr hrid hrt hwt
      omega
    case event =>
      refine fun _ => ⟨e, by simp [he], hstream.trans hid.symm, hcachedSession.trans ?_, ?_⟩
      · rw [hsession]
      · intro t n
        have hiff : w.OnLineage dev.derivation t ↔ e.OnLineage dev.derivation t := by
          constructor
          · intro ht
            rwa [ht.eq hd hwline]
          · intro ht
            rwa [ht.eq hd heline]
        simp only [SecretNonceSlot.Spent, SigningEvent.Uses, SigningEvent.stop, hiff, hstop,
          hcount]
        refine and_congr_right fun _ => ?_
        omega

/-! ### Every step keeps the invariant -/

/-- **Every step keeps the invariant**, as long as the seeds it draws are fresh. -/
theorem Effect.inv (hd : dev.derivation.NeverRepeats) (hs : s.Inv dev) (heff : Effect dev s s')
    (hfresh : s'.FreshSeeds) : s'.Inv dev := by
  cases heff with
  | idle flash drawn signed released =>
      have hcopy : ∀ {i u}, s'.Copy dev i u → s.Copy dev i u := by
        rintro i u ⟨b, x, index, hb, hread⟩
        exact ⟨b, x, index, hb, by rwa [flash] at hread⟩
      constructor
      · exact fun i u hu => hs.valid i u (hcopy hu)
      · intro i u hu
        obtain ⟨seed, hmem, hline⟩ := hs.copy_lineage i u (hcopy hu)
        exact ⟨seed, drawn hmem, hline⟩
      · intro r hr
        rw [released] at hr
        obtain ⟨seed, hmem, hline⟩ := hs.released_lineage r hr
        exact ⟨seed, drawn hmem, hline⟩
      · exact fun i j u v seed hu hv => hs.apart i j u v seed (hcopy hu) (hcopy hv)
      · rw [released]
        exact fun i u r seed hu => hs.destroyed i u r seed (hcopy hu)
      · rw [released]
        exact fun i u r seed index hu => hs.copy_session i u r seed index (hcopy hu)
      · intro i u hu hsome
        obtain ⟨e, he, hfrom⟩ := hs.copy_event i u (hcopy hu) hsome
        exact ⟨e, signed he, hfrom⟩
      · intro r hr
        rw [released] at hr
        obtain ⟨e, he, hfrom⟩ := hs.released_event r hr
        exact ⟨e, signed he, hfrom⟩
      · rw [released]
        exact hs.released_session
  | create a mem n k streamId lastUsed seed clock flash drawn signed released =>
      refine hs.overwrite mem (hs.mayWrite_initial hd drawn hfresh clock a) flash ?_ ?_ released
      · rw [drawn]
        exact List.subset_append_left _ _
      · rw [signed]
        exact List.Subset.refl _
  | sign a mem v w sessionId coord sessions lastUsed clock read value flash drawn signed =>
      obtain ⟨hsome, hw⟩ := hs.mayWrite_signed hd mem clock read value
      rw [← drawn, ← signed] at hw
      have hdrawn : s.drawn ⊆ s'.drawn := by
        rw [drawn]
        exact List.Subset.refl _
      have hsigned : s.signed ⊆ s'.signed := by
        rw [signed]
        exact List.subset_append_left _ _
      rcases flash with ⟨⟨n, k, flash⟩, released⟩ | ⟨flash, ret, released⟩
      · exact hs.overwrite mem hw flash hdrawn hsigned released
      · -- the write ends, and only then are the shares returned
        have hmid : NonceStore.Inv dev { s' with released := s.released } := by
          refine hs.overwrite mem hw (n := (a.writeNonceSlot dev.share w s.flash).ops.length)
            (k := 0) ?_ hdrawn hsigned rfl
          rw [flash, FlashM.crash, Flash.crashAt_of_length_le (le_refl _), FlashM.after]
        obtain ⟨i, hi⟩ := List.mem_iff_getElem?.mp mem
        obtain ⟨index, hread⟩ := AbSlot.read_of_write hw.valid ret 0
        have hcopy : NonceStore.Copy dev { s' with released := s.released } i w :=
          ⟨a, 0, index, hi, by rwa [flash]⟩
        refine hmid.release hcopy ?_ hsome rfl rfl rfl released
        rintro j u seed hu hid hline hline'
        obtain rfl := hmid.apart j i u w seed hu hcopy hid hline hline'
        obtain ⟨b, x, index', hb, hread'⟩ := hu
        obtain rfl : a = b := Option.some.inj (hi.symm.trans hb)
        rw [flash] at hread'
        exact AbSlot.copies_of_write hw.valid ret hread'

/-! ### Runs -/

/-- Nothing has happened to a fresh device. -/
theorem fresh_inv : NonceStore.Inv dev NonceDevice.fresh := by
  have hnone : ∀ {i u}, ¬ NonceStore.Copy dev NonceDevice.fresh i u := by
    rintro i u ⟨a, j, index, -, hread⟩
    have hblank := Slot.readIndex_of_fill_nil (FlashPartition.contents_erased (a.slots j).flash)
    rw [NonceDevice.fresh, Slot.read_eq_none hblank] at hread
    cases hread
  constructor
  case released_lineage => rintro r ⟨⟩
  case released_event => rintro r ⟨⟩
  case released_session => rintro r ⟨⟩
  all_goals
    intro i
    simp [hnone]

variable [DecidableEq Share]

/-- The seeds drawn before a step are among those drawn after it. -/
theorem freshSeeds_of_step (s : NonceStore Share) (op : NonceOp Item)
    (h : (dev.step s op).FreshSeeds) : s.FreshSeeds := by
  cases op with
  | getOrCreate streamId seed crash =>
      simp only [FreshSeeds, NonceDevice.step] at h
      split at h
      · rw [List.map_append] at h
        exact (List.nodup_append.mp h).1
      · exact h
  | sign sessionId coord sessions nonceBatchSize crash => exact h
  | reboot => exact h

theorem step_inv (hd : dev.derivation.NeverRepeats) (s : NonceStore Share) (op : NonceOp Item)
    (hfresh : (dev.step s op).FreshSeeds) (hs : s.Inv dev) : (dev.step s op).Inv dev :=
  (step_effect s op).inv hd hs hfresh

/-- The invariant holds at the end of every run. -/
theorem run_inv (hd : dev.derivation.NeverRepeats) {s : NonceStore Share} (hs : s.Inv dev)
    {ops : List (NonceOp Item)} (hfresh : (run dev.step s ops).FreshSeeds) :
    (run dev.step s ops).Inv dev :=
  run_invariant freshSeeds_of_step (step_inv hd) hfresh hs

/-! ### What a request that returns leaves -/

/-- A request that returns has released the value it wrote: shares for its session, in a slot
both copies of which hold that value and nothing else. -/
theorem Inv.returned (hs : s.Inv dev) {sessionId : SignSessionId}
    {coord : CoordNonceStreamState} {sessions : List Item} {nonceBatchSize : ℕ}
    {out : SignOutput RatchetSeedMaterial Nonce Share × ℕ}
    (h : (NonceSlots.signGuaranteeingNoncesDestroyed dev.derivation dev.sign dev.share dev.slots
      s.lastUsed sessionId coord sessions nonceBatchSize s.flash).result = .ret (.ok out)) :
    ∃ a ∈ dev.slots, ∃ w : NonceSlotValue Share, w.nonceStreamId = coord.streamId ∧
      w.signingState = some ⟨sessionId, out.1.1⟩ ∧
      (dev.step s (.sign sessionId coord sessions nonceBatchSize none)).released =
        s.released ++ [w] ∧
      ∀ j, ∃ index, (a.slots j).Holds (secretNonceSlotCodec dev.share) index w
        (dev.step s (.sign sessionId coord sessions nonceBatchSize none)).flash := by
  rcases NonceSlots.sign_trace dev.derivation dev.sign dev.share dev.slots s.lastUsed s.flash
      sessionId coord sessions nonceBatchSize with ⟨-, -, hret⟩ | ⟨a, w, hwrite, hops, hret⟩
  · exact absurd h (hret out)
  obtain ⟨hdone, st, hst, hout⟩ := hret out h
  obtain ⟨ha, v, hread, hvid, hvalue, -⟩ := NonceSlots.signingWrite_eq_some hwrite
  obtain ⟨i, hi⟩ := List.mem_iff_getElem?.mp ha
  obtain ⟨j, index, hcopy⟩ := AbSlot.copy_of_read hread
  obtain ⟨seed, -, hline⟩ := hs.copy_lineage i v ⟨a, j, index, hi, hcopy⟩
  have hw : w.nonceStreamId = v.nonceStreamId ∧ st.sessionId = sessionId := by
    rcases SecretNonceSlot.withSignatures_cases dev.derivation dev.sign sessionId coord
        (NonceSlots.view dev.share dev.slots s.lastUsed s.flash).nextLastUsed sessions hline with
      ⟨hcached, -, hok⟩ | ⟨-, hno⟩ | ⟨e, w', -, hok, hid, hstate, -⟩
    · cases hvalue.symm.trans hok
      rw [SecretNonceSlot.IsCached, hst, Option.map_some, Option.some.injEq] at hcached
      exact ⟨rfl, hcached⟩
    · exact absurd hvalue (hno w)
    · cases hvalue.symm.trans hok
      rw [hst, Option.some.injEq] at hstate
      exact ⟨hid, by rw [hstate]⟩
  refine ⟨a, ha, w, hw.1.trans hvid, ?_, ?_, ?_⟩
  · rw [hst, ← hw.2, hout]
  · simp only [NonceDevice.step, h, hwrite]
    rfl
  · obtain ⟨i, next, -, -, hholds⟩ := AbSlot.write_holds hdone
    intro j
    refine ⟨next, ?_⟩
    have hflash : (dev.step s (.sign sessionId coord sessions nonceBatchSize none)).flash =
        (a.writeNonceSlot dev.share w).after s.flash := by
      simp only [NonceDevice.step, FlashM.flashAfter, FlashM.after, hops]
    rw [hflash]
    exact hholds j

end NonceStore

/-- The nonce safety of a device whose slots are on flash. -/
structure FlashNonceSafety [DecidableEq Share] (dev : NonceDevice SecretNonce Nonce Share Item)
    (s : NonceStore Share) : Prop where
  /-- no nonce has given shares that left the device for two sessions -/
  one_session : ∀ r ∈ s.released, ∀ r' ∈ s.released, ∀ seed index,
    r.nonceStreamId = r'.nonceStreamId → r.Spent dev.derivation seed index →
    r'.Spent dev.derivation seed index → r.cachedSession = r'.cachedSession
  /-- what has left the device is from a request that signed, and has spent its nonces -/
  from_event : ∀ r ∈ s.released, ∃ e ∈ s.signed, r.CachedFrom dev.derivation e
  /-- a request that returns releases the value that both copies of a slot then hold, and no
  copy of any slot gives one of the nonces it has spent -/
  destroyed : ∀ sessionId coord sessions nonceBatchSize out,
    (NonceSlots.signGuaranteeingNoncesDestroyed dev.derivation dev.sign dev.share dev.slots
      s.lastUsed sessionId coord sessions nonceBatchSize s.flash).result = .ret (.ok out) →
    ∃ a ∈ dev.slots, ∃ w : NonceSlotValue Share, w.nonceStreamId = coord.streamId ∧
      w.signingState = some ⟨sessionId, out.1.1⟩ ∧
      (dev.step s (.sign sessionId coord sessions nonceBatchSize none)).released =
        s.released ++ [w] ∧
      (∀ j, ∃ index, (a.slots j).Holds (secretNonceSlotCodec dev.share) index w
        (dev.step s (.sign sessionId coord sessions nonceBatchSize none)).flash) ∧
      ∀ i u seed index,
        (dev.step s (.sign sessionId coord sessions nonceBatchSize none)).Copy dev i u →
        u.nonceStreamId = w.nonceStreamId → w.Spent dev.derivation seed index →
        ¬ u.Derives dev.derivation seed index

/-- **Nonce safety across power loss.** From an erased flash, over every run of requests,
each of which may be interrupted anywhere, and reboots, as long as the seeds drawn are
distinct and the ratchet never repeats one. -/
theorem flash_nonce_safety [DecidableEq Share] (dev : NonceDevice SecretNonce Nonce Share Item)
    (hd : dev.derivation.NeverRepeats) (ops : List (NonceOp Item))
    (hfresh : (run dev.step NonceDevice.fresh ops).FreshSeeds) :
    FlashNonceSafety dev (run dev.step NonceDevice.fresh ops) := by
  have hs := NonceStore.run_inv hd NonceStore.fresh_inv hfresh
  constructor
  case one_session => exact hs.released_session
  case from_event => exact hs.released_event
  case destroyed =>
    intro sessionId coord sessions nonceBatchSize out h
    obtain ⟨a, ha, w, hid, hstate, hreleased, hholds⟩ := hs.returned h
    refine ⟨a, ha, w, hid, hstate, hreleased, hholds, ?_⟩
    rintro i u seed index hu huid ⟨hline, hlt, -⟩ ⟨huline, hle⟩
    have hs' := NonceStore.step_inv hd _ (.sign sessionId coord sessions nonceBatchSize none)
      hfresh hs
    have hpassed := hs'.destroyed i u w seed hu (by simp [hreleased]) huid.symm hline huline
    omega

/-- A keystream over seed material: the next seed is the successor, the nonce is the seed. -/
def successorDerivation : NonceDerivation RatchetSeedMaterial (BitVec 256) (BitVec 256) where
  deriveNonceSeed _ _ seed := seed
  keystream seed _ := (seed + 1, seed)
  publicNonce nonce := nonce

/-- A device with one nonce slot. -/
def oneSlotDevice : NonceDevice (BitVec 256) (BitVec 256) (BitVec 256) (BitVec 256) where
  geometry := ⟨256, 4096⟩
  forSlots := ⟨rfl, by decide, by decide⟩
  slots := [twoSectors]
  inOrder := List.pairwise_singleton _ _
  derivation := successorDerivation
  sign item nonce := item + nonce
  share := FixedCodec.bits 32
  sign_valid _ _ := trivial

/-- A session is interrupted between the two copies, asked for again after the reboot, and a
second session follows it. -/
theorem flash_nonce_safety_of_interrupted :
    FlashNonceSafety oneSlotDevice (run oneSlotDevice.step NonceDevice.fresh
      [.getOrCreate 1 10 none, .sign 5 ⟨1, 0, 3⟩ [7, 8] 1 (some (2, 0)), .reboot,
        .sign 5 ⟨1, 0, 3⟩ [7, 8] 1 none, .sign 6 ⟨1, 2, 3⟩ [9] 1 none]) := by
  refine flash_nonce_safety oneSlotDevice ?_ _ ?_
  · intro _ _ s t h
    exact (BitVec.add_left_inj 1).mp h
  · simp only [run_cons, run_nil, NonceStore.FreshSeeds, NonceDevice.step]
    split
    · exact List.nodup_singleton _
    · exact List.nodup_nil

end Frostsnap
