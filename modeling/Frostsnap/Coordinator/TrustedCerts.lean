import Frostsnap.Comms.Messages
import Frostsnap.Lib.Table

/-!
# The trusted certificates of the electrum servers

This module embeds `trusted_certs.rs`: for each network a store that maps servers to the
certificates the user trusts for them, one table that the stores of all networks are written to,
and a migration that adds a row for the server that is trusted from the start.

A call changes the store in memory and persists what it staged. A launch migrates the table and
loads every store from it.

## Main results

* `load_certificates`: what is loaded from a table.
* `World.Agrees.call`, `World.Agrees.restart`: the stores agree with the table after every step.
* `trustedCertificates_kept_iff`: the stores survive every restart exactly when the table has a
  row for the server that is trusted from the start.
* `removed_certificate_returns`: they do not when the user has removed its certificate.
-/

namespace Frostsnap

/-- `Network::to_string`. -/
def Network.toString : Network → String
  | bitcoin => "bitcoin"
  | testnet => "testnet"
  | testnet4 => "testnet4"
  | signet => "signet"
  | regtest => "regtest"

theorem Network.toString_injective : Function.Injective Network.toString := by
  intro n m h
  revert h
  cases n <;> cases m <;> decide

namespace Tofu

/-! ### The store -/

abbrev CertificateDer := List UInt8

structure TrustedCertificate where
  certificate : CertificateDer
  /-- Unix timestamp -/
  addedAt : Int64

structure TrustedCertificates where
  /-- The network this certificate store is for -/
  network : Network
  /-- Maps server_url -> trusted certificate -/
  certificates : BTreeMap String TrustedCertificate

inductive CertificateMutation where
  | add (network : Network) (certificate : CertificateDer) (serverUrl : String)
  | remove (network : Network) (serverUrl : String)

/-- `SystemTime::now().duration_since(UNIX_EPOCH)` in seconds, which a clock behind the epoch
does not give. -/
abbrev Clock := Option ℕ

namespace TrustedCertificates

def applyMutation (store : TrustedCertificates) (now : Clock) :
    CertificateMutation → TrustedCertificates × Bool
  | .add _ certificate serverUrl =>
      let addedAt := (now.map Int64.ofNat).getD 0
      ({ store with
          certificates := store.certificates.insert serverUrl
            { certificate := certificate, addedAt := addedAt } }, true)
  | .remove _ serverUrl =>
      ({ store with certificates := store.certificates.erase serverUrl },
        store.certificates[serverUrl]?.isSome)

def mutate (store : TrustedCertificates) (now : Clock) (mutation : CertificateMutation)
    (mutations : List CertificateMutation) : TrustedCertificates × List CertificateMutation :=
  let (store, applied) := store.applyMutation now mutation
  (store, if applied then mutations ++ [mutation] else mutations)

def addCertificate (store : TrustedCertificates) (now : Clock) (cert : CertificateDer)
    (serverUrl : String) (mutations : List CertificateMutation) :
    TrustedCertificates × List CertificateMutation :=
  store.mutate now (.add store.network cert serverUrl) mutations

def removeCertificate (store : TrustedCertificates) (now : Clock) (serverUrl : String)
    (mutations : List CertificateMutation) : TrustedCertificates × List CertificateMutation :=
  store.mutate now (.remove store.network serverUrl) mutations

def getCertificateForServer (store : TrustedCertificates) (serverUrl : String) :
    Option CertificateDer :=
  store.certificates[serverUrl]?.map TrustedCertificate.certificate

end TrustedCertificates

/-! ### The table -/

/-- What a `TEXT` column holds: text, or a blob or bytes that are not UTF-8. -/
inductive TextColumn where
  | text (s : String)
  | other (isBlob : Bool) (bytes : List UInt8)
  deriving DecidableEq

/-- The other columns of a row, where they hold a value of the type that is loaded. -/
structure CertificateRow where
  certificate : Option CertificateDer
  addedAt : Option Int64

/-- `fs_trusted_certificates`, by network and server. -/
abbrev Disk := Table (TextColumn × TextColumn) CertificateRow

/-- The server whose certificate is trusted from the start. -/
abbrev ELECTRUM_FROSTSN_APP_URL : String := "electrum.frostsn.app"

def rowKey (network : Network) (serverUrl : String) : TextColumn × TextColumn :=
  (.text network.toString, .text serverUrl)

/-- The key of the row that `migrate` adds. -/
def seedKey : TextColumn × TextColumn := (.text "bitcoin", .text ELECTRUM_FROSTSN_APP_URL)

/-- The row of a certificate. -/
def certificateRow (certificate : CertificateDer) (secs : ℕ) : CertificateRow where
  certificate := some certificate
  addedAt := some (Int64.ofNat secs)

/-- Adds the pre-trusted certificate, whose bytes are a file of the build, when there is no row
for its server. -/
def migrate (electrumCert : CertificateDer) (now : Clock) (disk : Disk) : Option Disk :=
  if (disk.get? seedKey).isSome then some disk
  else do
    let secs ← now
    disk.insert seedKey (certificateRow electrumCert secs)

/-- A mapped row, unless a column has another type. -/
def CertificateRow.trusted (row : CertificateRow) : Option TrustedCertificate := do
  let certificate ← row.certificate
  let addedAt ← row.addedAt
  return { certificate := certificate, addedAt := addedAt }

/-- Insert a loaded row. One that cannot be read is skipped with a warning. -/
def loadRow (store : TrustedCertificates) (row : (TextColumn × TextColumn) × CertificateRow) :
    TrustedCertificates :=
  match row.1.2, row.2.trusted with
  | .text serverUrl, some cert =>
      { store with certificates := store.certificates.insert serverUrl cert }
  | _, _ => store

/-- The rows are selected in some order. -/
def load (network : Network) (disk : Disk)
    (order : HashOrder ((TextColumn × TextColumn) × CertificateRow)) : TrustedCertificates :=
  ((order.order disk.rows).filter fun row => row.1.1 = .text network.toString).foldl loadRow
    { network := network, certificates := ∅ }

def persistMutation (now : Clock) (disk : Disk) : CertificateMutation → Option Disk
  | .add network certificate serverUrl => do
      let secs ← now
      return disk.insertOrReplace (rowKey network serverUrl) (certificateRow certificate secs)
  | .remove network serverUrl => some (disk.deleteWhere (· = rowKey network serverUrl))

def persistUpdate (now : Clock) (disk : Disk) (update : List CertificateMutation) : Option Disk :=
  update.foldlM (persistMutation now) disk

/-! ### The process -/

/-- A process, with a store for every network, and what is on file. -/
structure World where
  disk : Disk
  stores : Network → TrustedCertificates

inductive Change where
  | add (certificate : CertificateDer) (serverUrl : String)
  | remove (serverUrl : String)

/-- How a launch finds the clock and the order of the rows it selects. -/
structure Launch where
  now : Clock
  order : Network → HashOrder ((TextColumn × TextColumn) × CertificateRow)

inductive Op where
  /-- A call on the store of a network, the clock it reads, and the clock when it persists. -/
  | call (network : Network) (change : Change) (now saved : Clock)
  | restart (launch : Launch)

def Change.apply (store : TrustedCertificates) (now : Clock) :
    Change → TrustedCertificates × List CertificateMutation
  | .add certificate serverUrl => store.addCertificate now certificate serverUrl []
  | .remove serverUrl => store.removeCertificate now serverUrl []

namespace World

variable (electrumCert : CertificateDer)

/-- `Persisted::new` for every network. Each of them migrates, and finds what the first left. -/
def launch (disk : Disk) (l : Launch) : Option World := do
  let disk ← migrate electrumCert l.now disk
  return { disk := disk, stores := fun network => load network disk (l.order network) }

/-- A call that is persisted. -/
def call (w : World) (network : Network) (change : Change) (now saved : Clock) : Option World := do
  let (store, mutations) := change.apply (w.stores network) now
  let disk ← persistUpdate saved w.disk mutations
  return { disk := disk, stores := Function.update w.stores network store }

def step (w : World) : Op → Option World
  | .call network change now saved => w.call network change now saved
  | .restart l => launch electrumCert w.disk l

def run (w : World) (ops : List Op) : Option World := ops.foldlM (step electrumCert) w

/-- A number of restarts. -/
def restarts (w : World) (ls : List Launch) : Option World := w.run electrumCert (ls.map .restart)

/-- The certificate that is trusted for a server. -/
def certificate (w : World) (network : Network) (serverUrl : String) : Option CertificateDer :=
  (w.stores network).getCertificateForServer serverUrl

/-- The table has a row for the server that is trusted from the start. -/
def Seeded (w : World) : Prop := (w.disk.get? seedKey).isSome

/-- Every store trusts what is on file for its network. -/
structure Agrees (w : World) : Prop where
  network : ∀ network, (w.stores network).network = network
  certificates : ∀ network serverUrl, w.certificate network serverUrl =
    (w.disk.get? (rowKey network serverUrl)).bind fun row =>
      row.trusted.map TrustedCertificate.certificate

end World

/-! ### What is loaded -/

theorem rowKey_inj {network network' : Network} {serverUrl serverUrl' : String} :
    rowKey network serverUrl = rowKey network' serverUrl' ↔
      network = network' ∧ serverUrl = serverUrl' := by
  simp only [rowKey, Prod.mk.injEq, TextColumn.text.injEq, Network.toString_injective.eq_iff]

theorem loadRow_certificates (store : TrustedCertificates)
    (row : (TextColumn × TextColumn) × CertificateRow) (serverUrl : String) :
    (loadRow store row).certificates[serverUrl]? =
      if row.1.2 = .text serverUrl then row.2.trusted.or store.certificates[serverUrl]?
      else store.certificates[serverUrl]? := by
  obtain ⟨⟨network, column⟩, row⟩ := row
  rw [loadRow]
  dsimp only
  rcases column with s | ⟨isBlob, bytes⟩
  · cases htrusted : row.trusted with
    | none => simp only [Option.none_or, ite_self]
    | some cert =>
        simp only [BTreeMap.getElem?_insert, TextColumn.text.injEq, Option.some_or]
  · simp only [reduceCtorEq, if_false]

@[simp] theorem loadRow_network (store : TrustedCertificates)
    (row : (TextColumn × TextColumn) × CertificateRow) :
    (loadRow store row).network = store.network := by
  rw [loadRow]
  split <;> rfl

@[simp] theorem load_network (network : Network) (disk : Disk)
    (order : HashOrder ((TextColumn × TextColumn) × CertificateRow)) :
    (load network disk order).network = network := by
  have hrows : ∀ (rows : List ((TextColumn × TextColumn) × CertificateRow)) store,
      (rows.foldl loadRow store).network = store.network := by
    intro rows
    induction rows with
    | nil => exact fun _ => rfl
    | cons row rows ih => exact fun store => (ih _).trans (loadRow_network store row)
  rw [load, hrows]

/-- Rows that say the same of a server, loaded one after the other. -/
theorem foldl_loadRow_certificates {rows : List ((TextColumn × TextColumn) × CertificateRow)}
    {serverUrl : String} {t : Option TrustedCertificate}
    (h : ∀ row ∈ rows, row.1.2 = .text serverUrl → row.2.trusted = t)
    (store : TrustedCertificates) :
    (rows.foldl loadRow store).certificates[serverUrl]? =
      if ∃ row ∈ rows, row.1.2 = .text serverUrl then t.or store.certificates[serverUrl]?
      else store.certificates[serverUrl]? := by
  induction rows generalizing store with
  | nil => simp
  | cons row rows ih =>
      rw [List.foldl_cons, ih fun row hrow => h row (List.mem_cons_of_mem _ hrow),
        loadRow_certificates]
      by_cases hurl : row.1.2 = .text serverUrl
      · have hall : ∃ row' ∈ row :: rows, row'.1.2 = .text serverUrl :=
          ⟨row, List.mem_cons_self, hurl⟩
        rw [if_pos hurl, if_pos hall, h row List.mem_cons_self hurl]
        cases t <;> simp
      · rw [if_neg hurl]
        simp only [List.mem_cons, exists_eq_or_imp, hurl, false_or]

/-- **What is loaded**: for every server what its row says. -/
theorem load_certificates (network : Network) (disk : Disk)
    (order : HashOrder ((TextColumn × TextColumn) × CertificateRow)) (serverUrl : String) :
    (load network disk order).certificates[serverUrl]? =
      (disk.get? (rowKey network serverUrl)).bind CertificateRow.trusted := by
  have hrows : ∀ row, row ∈ (order.order disk.rows).filter
      (fun row => row.1.1 = .text network.toString) ∧ row.1.2 = .text serverUrl ↔
        row.1 = rowKey network serverUrl ∧
          disk.get? (rowKey network serverUrl) = some row.2 := by
    rintro ⟨⟨column, column'⟩, row⟩
    rw [List.mem_filter, (order.perm _).mem_iff, Table.mem_rows_iff, rowKey, Prod.mk.injEq]
    constructor
    · rintro ⟨⟨hget, hnetwork⟩, rfl⟩
      obtain rfl : column = .text network.toString := by simpa using hnetwork
      exact ⟨⟨rfl, rfl⟩, hget⟩
    · rintro ⟨⟨rfl, rfl⟩, hget⟩
      exact ⟨⟨hget, by simp⟩, rfl⟩
  rw [load, @foldl_loadRow_certificates _ serverUrl
    ((disk.get? (rowKey network serverUrl)).bind CertificateRow.trusted)]
  · cases hget : disk.get? (rowKey network serverUrl) with
    | none => simp
    | some row =>
        rw [if_pos ⟨(rowKey network serverUrl, row), (hrows _).2 ⟨rfl, hget⟩⟩]
        simp
  · intro row hrow hurl
    rw [((hrows row).1 ⟨hrow, hurl⟩).2]
    rfl

/-! ### What is on file -/

variable {electrumCert : CertificateDer}

/-- **The migration** adds a row when there is none for its server, and changes no other. -/
theorem get?_migrate {now : Clock} {disk disk' : Disk}
    (h : migrate electrumCert now disk = some disk') (key : TextColumn × TextColumn) :
    disk'.get? key =
      if disk.get? seedKey = none ∧ seedKey = key then now.map (certificateRow electrumCert)
      else disk.get? key := by
  rw [migrate] at h
  split at h
  · rename_i hseeded
    obtain rfl := Option.some.inj h
    rw [if_neg]
    rintro ⟨hnone, -⟩
    rw [hnone] at hseeded
    cases hseeded
  · rename_i hnone
    rw [Bool.not_eq_true, Option.isSome_eq_false_iff, Option.isNone_iff_eq_none] at hnone
    cases now with
    | none => cases h
    | some secs =>
        rw [Table.get?_insert h, hnone]
        simp only [true_and, Option.map_some]

theorem migrate_of_seeded {now : Clock} {disk : Disk} (h : (disk.get? seedKey).isSome) :
    migrate electrumCert now disk = some disk := if_pos h

/-- Only a clock behind the epoch makes the migration fail. -/
theorem exists_migrate (electrumCert : CertificateDer) (secs : ℕ) (disk : Disk) :
    ∃ disk', migrate electrumCert (some secs) disk = some disk' := by
  rw [migrate]
  split
  · exact ⟨disk, rfl⟩
  · rename_i hnone
    refine Option.ne_none_iff_exists'.1 fun hfail => hnone ?_
    obtain ⟨row, hrow⟩ := Table.insert_eq_none_iff.1 hfail
    rw [hrow]
    rfl

namespace World

variable {w w' : World} {network : Network} {change : Change} {now saved : Clock}

/-! ### One step -/

/-- What a call does to a store, and to the table. -/
theorem call_cases (h : w.call network change now saved = some w') :
    (∃ certificate serverUrl secs, change = .add certificate serverUrl ∧
      w' =
        { disk := w.disk.insertOrReplace (rowKey (w.stores network).network serverUrl)
            (certificateRow certificate secs)
          stores := Function.update w.stores network
            { w.stores network with
              certificates := (w.stores network).certificates.insert serverUrl
                { certificate := certificate, addedAt := (now.map Int64.ofNat).getD 0 } } }) ∨
      ∃ serverUrl, change = .remove serverUrl ∧
        w' =
          { disk :=
              if (w.stores network).certificates[serverUrl]?.isSome then
                w.disk.deleteWhere (· = rowKey (w.stores network).network serverUrl)
              else w.disk
            stores := Function.update w.stores network
              { w.stores network with
                certificates := (w.stores network).certificates.erase serverUrl } } := by
  rcases change with ⟨certificate, serverUrl⟩ | serverUrl
  · cases saved with
    | none => cases h
    | some secs =>
        refine .inl ⟨certificate, serverUrl, secs, rfl, ?_⟩
        exact (Option.some.inj h).symm
  · refine .inr ⟨serverUrl, rfl, ?_⟩
    have hstaged : (w.stores network).removeCertificate now serverUrl [] =
        ({ w.stores network with
            certificates := (w.stores network).certificates.erase serverUrl },
          if (w.stores network).certificates[serverUrl]?.isSome then
            [.remove (w.stores network).network serverUrl]
          else []) := rfl
    rw [call, Change.apply, hstaged] at h
    by_cases hsome : (w.stores network).certificates[serverUrl]?.isSome = true
    · rw [if_pos hsome] at h ⊢
      exact (Option.some.inj h).symm
    · rw [if_neg hsome] at h ⊢
      exact (Option.some.inj h).symm

/-- What a launch makes of a table. -/
theorem launch_cases {disk : Disk} {l : Launch} (h : launch electrumCert disk l = some w') :
    migrate electrumCert l.now disk = some w'.disk ∧
      w'.stores = fun network => load network w'.disk (l.order network) := by
  obtain ⟨disk', hmigrate, h⟩ := Option.bind_eq_some_iff.1 h
  obtain rfl := Option.some.inj h
  exact ⟨hmigrate, rfl⟩

/-- **A launch** leaves every store as its rows are. -/
theorem agrees_launch {disk : Disk} {l : Launch} (h : launch electrumCert disk l = some w') :
    w'.Agrees := by
  obtain ⟨-, hstores⟩ := launch_cases h
  refine ⟨fun network => by rw [hstores, load_network], fun network serverUrl => ?_⟩
  rw [certificate, TrustedCertificates.getCertificateForServer, hstores, load_certificates,
    Option.map_bind]
  rfl

/-- **A call** on one network changes nothing of another. -/
theorem Agrees.call_other (hagrees : w.Agrees) (h : w.call network change now saved = some w')
    {other : Network} (hother : other ≠ network) :
    w'.stores other = w.stores other ∧ ∀ serverUrl,
      w'.disk.get? (rowKey other serverUrl) = w.disk.get? (rowKey other serverUrl) := by
  have hkey : ∀ url serverUrl,
      ¬ rowKey (w.stores network).network url = rowKey other serverUrl := by
    intro url serverUrl heq
    rw [hagrees.network, rowKey_inj] at heq
    exact hother heq.1.symm
  rcases call_cases h with ⟨cert, url, secs, -, rfl⟩ | ⟨url, -, rfl⟩
  · refine ⟨Function.update_of_ne hother _ _, fun serverUrl => ?_⟩
    dsimp only
    rw [Table.get?_insertOrReplace, if_neg (hkey url serverUrl)]
  · refine ⟨Function.update_of_ne hother _ _, fun serverUrl => ?_⟩
    dsimp only
    split
    · rw [Table.get?_deleteWhere, if_neg]
      exact fun heq => hkey url serverUrl (of_decide_eq_true heq).symm
    · rfl

/-- **A call** does to the table what it does to the store. -/
theorem Agrees.call (hagrees : w.Agrees) (h : w.call network change now saved = some w') :
    w'.Agrees := by
  have hnetwork := hagrees.network network
  refine ⟨fun other => ?_, fun other serverUrl => ?_⟩
  · by_cases hother : other = network
    · subst hother
      rcases call_cases h with ⟨cert, url, secs, -, rfl⟩ | ⟨url, -, rfl⟩
      · dsimp only
        rw [Function.update_self]
        exact hnetwork
      · dsimp only
        rw [Function.update_self]
        exact hnetwork
    · rw [(hagrees.call_other h hother).1]
      exact hagrees.network other
  · have hold := hagrees.certificates other serverUrl
    rw [certificate] at hold ⊢
    by_cases hother : other = network
    · subst hother
      rw [TrustedCertificates.getCertificateForServer] at hold ⊢
      rcases call_cases h with ⟨cert, url, secs, -, rfl⟩ | ⟨url, -, rfl⟩
      · dsimp only
        rw [Function.update_self, BTreeMap.getElem?_insert, Table.get?_insertOrReplace, hnetwork]
        by_cases hurl : url = serverUrl
        · rw [if_pos hurl, if_pos (by rw [hurl])]
          rfl
        · rw [if_neg hurl, if_neg fun hkey => hurl (rowKey_inj.1 hkey).2]
          exact hold
      · dsimp only
        rw [Function.update_self, BTreeMap.getElem?_erase, hnetwork]
        by_cases hurl : url = serverUrl
        · subst hurl
          rw [if_pos rfl]
          split
          · rw [Table.get?_deleteWhere, if_pos (decide_eq_true rfl)]
            rfl
          · -- a row that is there could not be read
            rename_i hnone
            rw [Bool.not_eq_true, Option.isSome_eq_false_iff, Option.isNone_iff_eq_none] at hnone
            rw [← hold, hnone]
        · rw [if_neg hurl, hold]
          split
          · rw [Table.get?_deleteWhere, if_neg]
            exact fun heq => hurl (rowKey_inj.1 (of_decide_eq_true heq)).2.symm
          · rfl
    · obtain ⟨hstore, hrows⟩ := hagrees.call_other h hother
      rw [hstore, hrows]
      exact hold

/-- What every step preserves. -/
theorem Agrees.step (hagrees : w.Agrees) {op : Op} (h : w.step electrumCert op = some w') :
    w'.Agrees := by
  rcases op with ⟨network, change, now, saved⟩ | l
  · exact hagrees.call h
  · exact agrees_launch h

theorem run_cons_eq_some {op : Op} {ops : List Op} :
    w.run electrumCert (op :: ops) = some w' ↔
      ∃ w₁, w.step electrumCert op = some w₁ ∧ w₁.run electrumCert ops = some w' := by
  rw [World.run, List.foldlM_cons]
  exact Option.bind_eq_some_iff

theorem restarts_cons_eq_some {l : Launch} {ls : List Launch} :
    w.restarts electrumCert (l :: ls) = some w' ↔
      ∃ w₁, launch electrumCert w.disk l = some w₁ ∧ w₁.restarts electrumCert ls = some w' := by
  rw [World.restarts, List.map_cons, run_cons_eq_some]
  rfl

theorem Agrees.run (hagrees : w.Agrees) {ops : List Op} (h : w.run electrumCert ops = some w') :
    w'.Agrees := by
  induction ops generalizing w with
  | nil =>
      obtain rfl := Option.some.inj h
      exact hagrees
  | cons op ops ih =>
      obtain ⟨w₁, hstep, h⟩ := run_cons_eq_some.1 h
      exact ih (hagrees.step hstep) h

/-! ### Restarts -/

/-- A store that finds the row is loaded as it was. -/
theorem Agrees.restarts (hagrees : w.Agrees) (hseeded : w.Seeded) {ls : List Launch}
    (h : w.restarts electrumCert ls = some w') : w'.disk = w.disk ∧ w'.Agrees := by
  induction ls generalizing w with
  | nil =>
      obtain rfl := Option.some.inj h
      exact ⟨rfl, hagrees⟩
  | cons l ls ih =>
      obtain ⟨w₁, hlaunch, h⟩ := restarts_cons_eq_some.1 h
      have hdisk : w₁.disk = w.disk := by
        have hmigrate := (launch_cases hlaunch).1
        rw [migrate_of_seeded hseeded] at hmigrate
        exact (Option.some.inj hmigrate).symm
      obtain ⟨hrest, hinv⟩ := ih (agrees_launch hlaunch) (by rw [Seeded, hdisk]; exact hseeded) h
      exact ⟨hrest.trans hdisk, hinv⟩

/-- Tables that agree on a network are loaded alike for it. -/
theorem restarts_congr {w₁ w₁' : World} (hagrees : w.Agrees) (hagrees₁ : w₁.Agrees)
    (hrows : ∀ serverUrl, w.disk.get? (rowKey network serverUrl) =
      w₁.disk.get? (rowKey network serverUrl)) {ls : List Launch}
    (h : w.restarts electrumCert ls = some w') (h₁ : w₁.restarts electrumCert ls = some w₁')
    (serverUrl : String) : w'.certificate network serverUrl =
      w₁'.certificate network serverUrl := by
  induction ls generalizing w w₁ with
  | nil =>
      obtain rfl := Option.some.inj h
      obtain rfl := Option.some.inj h₁
      rw [hagrees.certificates, hagrees₁.certificates, hrows]
  | cons l ls ih =>
      obtain ⟨w₂, hlaunch, h⟩ := restarts_cons_eq_some.1 h
      obtain ⟨w₃, hlaunch₁, h₁⟩ := restarts_cons_eq_some.1 h₁
      refine ih (agrees_launch hlaunch) (agrees_launch hlaunch₁) (fun serverUrl => ?_) h h₁
      rw [get?_migrate (launch_cases hlaunch).1, get?_migrate (launch_cases hlaunch₁).1]
      by_cases hseed : seedKey = rowKey network serverUrl
      · rw [hseed, hrows]
      · rw [if_neg fun hkey => hseed hkey.2, if_neg fun hkey => hseed hkey.2]
        exact hrows serverUrl

/-! ### The server that is trusted from the start -/

/-- A launch leaves a row for it. -/
theorem seeded_launch {disk : Disk} {l : Launch} (h : launch electrumCert disk l = some w') :
    w'.Seeded := by
  have hmigrate := (launch_cases h).1
  rw [Seeded, get?_migrate hmigrate]
  cases hrow : disk.get? seedKey with
  | some row =>
      rw [if_neg (by simp)]
      rfl
  | none =>
      rw [migrate, hrow, if_neg (by simp)] at hmigrate
      obtain ⟨secs, hnow, -⟩ := Option.bind_eq_some_iff.1 hmigrate
      rw [if_pos ⟨rfl, rfl⟩, hnow]
      rfl

/-- Only the removal of its certificate takes the row away. -/
theorem Seeded.step (hseeded : w.Seeded) (hagrees : w.Agrees) {op : Op}
    (hop : ∀ now saved, op ≠ .call .bitcoin (.remove ELECTRUM_FROSTSN_APP_URL) now saved)
    (h : w.step electrumCert op = some w') : w'.Seeded := by
  rcases op with ⟨network, change, now, saved⟩ | l
  · rw [Seeded] at hseeded ⊢
    have hseed : seedKey = rowKey .bitcoin ELECTRUM_FROSTSN_APP_URL := rfl
    rw [hseed] at hseeded ⊢
    by_cases hnetwork : Network.bitcoin = network
    · subst hnetwork
      rcases call_cases h with ⟨cert, url, secs, -, rfl⟩ | ⟨url, rfl, rfl⟩
      · dsimp only
        rw [Table.get?_insertOrReplace]
        split
        · rfl
        · exact hseeded
      · dsimp only
        split
        · rw [Table.get?_deleteWhere, if_neg]
          · exact hseeded
          · intro heq
            rw [hagrees.network, decide_eq_true_eq, rowKey_inj] at heq
            exact hop now saved (by rw [← heq.2])
        · exact hseeded
    · rw [(hagrees.call_other h hnetwork).2]
      exact hseeded
  · exact seeded_launch h

/-- **A run in which its certificate is never removed** keeps the row. -/
theorem Seeded.run (hseeded : w.Seeded) (hagrees : w.Agrees) {ops : List Op}
    (hops : ∀ now saved, .call .bitcoin (.remove ELECTRUM_FROSTSN_APP_URL) now saved ∉ ops)
    (h : w.run electrumCert ops = some w') : w'.Seeded := by
  induction ops generalizing w with
  | nil =>
      obtain rfl := Option.some.inj h
      exact hseeded
  | cons op ops ih =>
      obtain ⟨w₁, hstep, h⟩ := run_cons_eq_some.1 h
      refine ih (hseeded.step hagrees (fun now saved heq => ?_) hstep) (hagrees.step hstep)
        (fun now saved hmem => hops now saved (List.mem_cons_of_mem _ hmem)) h
      exact hops now saved (by rw [heq]; exact List.mem_cons_self)

/-- Removing its certificate takes the row away. -/
theorem get?_of_remove (hagrees : w.Agrees) {cert : CertificateDer}
    (hcert : w.certificate .bitcoin ELECTRUM_FROSTSN_APP_URL = some cert)
    (h : w.call .bitcoin (.remove ELECTRUM_FROSTSN_APP_URL) now saved = some w') :
    w'.disk.get? seedKey = none := by
  rcases call_cases h with ⟨_, _, _, hchange, -⟩ | ⟨url, hchange, rfl⟩
  · cases hchange
  · obtain rfl := Change.remove.inj hchange
    have hsome : (w.stores .bitcoin).certificates[ELECTRUM_FROSTSN_APP_URL]?.isSome := by
      obtain ⟨trusted, htrusted, -⟩ := Option.map_eq_some_iff.1 hcert
      rw [htrusted]
      rfl
    dsimp only
    rw [if_pos hsome, hagrees.network, Table.get?_deleteWhere, if_pos]
    exact decide_eq_true rfl

theorem certificate_of_add {certificate : CertificateDer} {serverUrl : String}
    (h : w.call network (.add certificate serverUrl) now saved = some w') :
    w'.certificate network serverUrl = some certificate := by
  rcases call_cases h with ⟨_, _, secs, hchange, rfl⟩ | ⟨_, hchange, -⟩
  · obtain ⟨rfl, rfl⟩ := Change.add.inj hchange
    rw [World.certificate, TrustedCertificates.getCertificateForServer]
    dsimp only
    rw [Function.update_self, BTreeMap.getElem?_insert, if_pos rfl]
    rfl
  · cases hchange

theorem certificate_of_remove {serverUrl : String}
    (h : w.call network (.remove serverUrl) now saved = some w') :
    w'.certificate network serverUrl = none := by
  rcases call_cases h with ⟨_, _, _, hchange, -⟩ | ⟨_, hchange, rfl⟩
  · cases hchange
  · obtain rfl := Change.remove.inj hchange
    rw [World.certificate, TrustedCertificates.getCertificateForServer]
    dsimp only
    rw [Function.update_self, BTreeMap.getElem?_erase, if_pos rfl]
    rfl

/-- Only a clock behind the epoch makes a launch fail. -/
theorem exists_launch (electrumCert : CertificateDer) (disk : Disk) (secs : ℕ)
    (order : Network → HashOrder ((TextColumn × TextColumn) × CertificateRow)) :
    ∃ w, launch electrumCert disk { now := some secs, order := order } = some w := by
  obtain ⟨disk', hmigrate⟩ := exists_migrate electrumCert secs disk
  exact ⟨_, Option.bind_eq_some_iff.2 ⟨disk', hmigrate, rfl⟩⟩

/-- Only a clock behind the epoch makes a call fail. -/
theorem exists_call (w : World) (network : Network) (change : Change) (now : Clock) (secs : ℕ) :
    ∃ w', w.call network change now (some secs) = some w' := by
  have hupdate : ∀ (disk : Disk) (update : List CertificateMutation),
      ∃ disk', persistUpdate (some secs) disk update = some disk' := by
    intro disk update
    induction update generalizing disk with
    | nil => exact ⟨disk, rfl⟩
    | cons mutation update ih =>
        rcases mutation with ⟨_, _, _⟩ | ⟨_, _⟩
        · exact ih _
        · exact ih _
  obtain ⟨disk', hdisk⟩ := hupdate w.disk (change.apply (w.stores network) now).2
  exact ⟨_, Option.bind_eq_some_iff.2 ⟨disk', hdisk, rfl⟩⟩

/-- A launch finds the certificate that the migration adds. -/
theorem launch_certificate {disk : Disk} {l : Launch} (hnone : disk.get? seedKey = none)
    (h : launch electrumCert disk l = some w') :
    w'.certificate .bitcoin ELECTRUM_FROSTSN_APP_URL = some electrumCert := by
  have hseed : rowKey .bitcoin ELECTRUM_FROSTSN_APP_URL = seedKey := rfl
  have hseeded := seeded_launch h
  rw [Seeded, get?_migrate (launch_cases h).1, if_pos ⟨hnone, rfl⟩] at hseeded
  rw [(agrees_launch h).certificates, hseed, get?_migrate (launch_cases h).1,
    if_pos ⟨hnone, rfl⟩]
  cases hnow : l.now with
  | none =>
      rw [hnow] at hseeded
      cases hseeded
  | some secs => rfl

end World

open World in
/-- **The trusted certificates across restarts.** In every state that a launch from any table and
any calls and restarts lead to: the stores of all networks trust the same certificates after every
number of restarts, exactly when the table has a row for the server that is trusted from the
start. And in every such state a call on one network changes nothing for another, now and after
restarts. -/
theorem trustedCertificates_kept_iff {electrumCert : CertificateDer} {disk : Disk} {l : Launch}
    {w₀ w : World} {ops : List Op} (hlaunch : launch electrumCert disk l = some w₀)
    (hrun : w₀.run electrumCert ops = some w) :
    ((∀ ls w', w.restarts electrumCert ls = some w' → ∀ network serverUrl,
        w'.certificate network serverUrl = w.certificate network serverUrl) ↔ w.Seeded) ∧
      ∀ network change now saved w₁, w.call network change now saved = some w₁ →
        ∀ other ≠ network, ∀ ls w' w₁', w.restarts electrumCert ls = some w' →
          w₁.restarts electrumCert ls = some w₁' →
            ∀ serverUrl, w₁'.certificate other serverUrl = w'.certificate other serverUrl := by
  have hagrees : w.Agrees := (agrees_launch hlaunch).run hrun
  refine ⟨⟨fun hkept => ?_, fun hseeded ls w' hls network serverUrl => ?_⟩, ?_⟩
  · -- without the row the next launch adds it, and finds a certificate that was not trusted
    by_contra hnone
    rw [Seeded, Bool.not_eq_true, Option.isSome_eq_false_iff, Option.isNone_iff_eq_none] at hnone
    obtain ⟨w', hw'⟩ := exists_launch electrumCert w.disk 0 fun _ => .asListed _
    have hrestart : w.restarts electrumCert [{ now := some 0, order := fun _ => .asListed _ }] =
        some w' := restarts_cons_eq_some.2 ⟨w', hw', rfl⟩
    have hcert := hkept _ w' hrestart .bitcoin ELECTRUM_FROSTSN_APP_URL
    rw [launch_certificate hnone hw', hagrees.certificates,
      show rowKey .bitcoin ELECTRUM_FROSTSN_APP_URL = seedKey from rfl, hnone] at hcert
    cases hcert
  · obtain ⟨hdisk, hagrees'⟩ := hagrees.restarts hseeded hls
    rw [hagrees'.certificates, hagrees.certificates, hdisk]
  · intro network change now saved w₁ hcall other hother ls w' w₁' hw' hw₁' serverUrl
    exact (restarts_congr hagrees (hagrees.call hcall)
      (fun serverUrl => ((hagrees.call_other hcall hother).2 serverUrl).symm) hw' hw₁'
      serverUrl).symm

/-- A certificate is trusted for a server of the signet, and is there after all restarts. -/
theorem trustedCertificates_kept_of_signet :
    ∃ w₀ w : World,
      World.launch [0x30] .empty { now := some 0, order := fun _ => .asListed _ } = some w₀ ∧
      w₀.run [0x30] [.call .signet (.add [0x31] "test.example.com") (some 1) (some 1)] = some w ∧
      ∀ ls w', w.restarts [0x30] ls = some w' →
        w'.certificate .signet "test.example.com" = some [0x31] := by
  obtain ⟨w₀, hlaunch⟩ := World.exists_launch [0x30] .empty 0 fun _ => .asListed _
  obtain ⟨w, hcall⟩ := w₀.exists_call .signet (.add [0x31] "test.example.com") (some 1) 1
  have hrun : w₀.run [0x30] [.call .signet (.add [0x31] "test.example.com") (some 1) (some 1)] =
      some w := World.run_cons_eq_some.2 ⟨w, hcall, rfl⟩
  have hseeded : w.Seeded := by
    refine (World.seeded_launch hlaunch).run (World.agrees_launch hlaunch) ?_ hrun
    simp
  refine ⟨w₀, w, hlaunch, hrun, fun ls w' hw' => ?_⟩
  rw [(trustedCertificates_kept_iff hlaunch hrun).1.2 hseeded ls w' hw']
  exact World.certificate_of_add hcall

/-- The user removes the certificate that is trusted from the start, and it is trusted again after
a restart. -/
theorem removed_certificate_returns :
    ∃ w₀ w w' : World,
      World.launch [0x30] .empty { now := some 0, order := fun _ => .asListed _ } = some w₀ ∧
      w₀.run [0x30] [.call .bitcoin (.remove ELECTRUM_FROSTSN_APP_URL) (some 1) (some 1)] =
        some w ∧
      w.certificate .bitcoin ELECTRUM_FROSTSN_APP_URL = none ∧
      w.restarts [0x30] [{ now := some 2, order := fun _ => .asListed _ }] = some w' ∧
      w'.certificate .bitcoin ELECTRUM_FROSTSN_APP_URL = some [0x30] := by
  obtain ⟨w₀, hlaunch⟩ := World.exists_launch [0x30] .empty 0 fun _ => .asListed _
  obtain ⟨w, hcall⟩ :=
    w₀.exists_call .bitcoin (.remove ELECTRUM_FROSTSN_APP_URL) (some 1) 1
  obtain ⟨w', hrestart⟩ := World.exists_launch [0x30] w.disk 2 fun _ => .asListed _
  have hcert := World.launch_certificate (Table.get?_empty _) hlaunch
  have hgone := World.get?_of_remove (World.agrees_launch hlaunch) hcert hcall
  exact ⟨w₀, w, w', hlaunch, World.run_cons_eq_some.2 ⟨w, hcall, rfl⟩,
    World.certificate_of_remove hcall, World.restarts_cons_eq_some.2 ⟨w', hrestart, rfl⟩,
    World.launch_certificate hgone hrestart⟩

end Tofu

end Frostsnap
