import BigDb.Lib.Chain
import BigDb.Lib.Disk
import BigDb.Lib.OrderedMap
import BigDb.Lib.Reach
import BigDb.Pager.Freelist
import BigDb.Pager.Snapshots

/-!
# Pages

What a page of the file can hold: one of the two meta pages, a part of one of the four chains the
meta page names, or data of the trees, which this layer does not look into beyond the pages a page
names. A page whose checksum does not match is `damaged`. Opening a file reads the meta pages, takes
the newer of the two, and loads its chains.
-/

namespace BigDb.Pager
open Lib

/-- The page numbers inside a page, where 0 stands for none. -/
def present (pgno : Nat) : Option Nat := if pgno = 0 then none else some pgno

def metaPages : Nat := 2

structure MetaPage where
  txnId : Nat
  pageCount : Nat
  rootRecords : Option Nat
  freelist : Option Nat
  snapshots : Option Nat
  catalog : Option Nat
  flags : Nat
deriving DecidableEq, Repr

def MetaPage.slot (m : MetaPage) : Nat := m.txnId % metaPages

/-- A catalog record, which this layer does not read. -/
abbrev Record := List UInt8

/-- The entries of one page of a chain. -/
inductive Entries (κ : Type) where
  | rootRecords (l : List (κ × Nat))
  | freelist (l : List FreeRun)
  | snapshots (l : List Snapshot)
  | catalog (l : List Record)
deriving DecidableEq, Repr

/-- A page. `next` is the number of the next page of the chain, or 0. -/
inductive Page (κ α : Type) where
  | info (m : MetaPage)
  | chain (next : Nat) (entries : Entries κ)
  | data (a : α)
  | damaged
  | zeroed
deriving DecidableEq, Repr

instance {κ α : Type} : Inhabited (Page κ α) := ⟨.zeroed⟩

inductive PageError where
  | badChecksum
  | badMagic
  | typeMismatch
  | cellCountOverflow (count : Nat)
deriving DecidableEq, Repr

inductive StoreError where
  | page (e : PageError)
  | outOfBounds (pgno pageCount : Nat)
  | mapSizeExhausted (need mapsize : Nat)
  | noValidMeta
  | chainCycle (root : Nat)
  | snapshotNotFound (id : Nat)
  | unallocatedPage (pgno : Nat)
  | readersActive
deriving DecidableEq, Repr

variable {κ α β : Type}

/-- What a torn write leaves: a meta page that is torn does not pass its checksum. -/
def spoil : Page κ α → Page κ α → Page κ α
  | .info _, _ => .damaged
  | _, garbage => garbage

def readPage (file : List (Page κ α)) (pgno : Nat) : Except StoreError (Page κ α) :=
  match file[pgno]? with
  | some page => .ok page
  | none => .error (.outOfBounds pgno file.length)

/-! ## The meta pages -/

def MetaPage.encode (m : MetaPage) : Page κ α :=
  .info { m with
    rootRecords := present (m.rootRecords.getD 0)
    freelist := present (m.freelist.getD 0)
    snapshots := present (m.snapshots.getD 0)
    catalog := present (m.catalog.getD 0) }

def MetaPage.decode : Page κ α → Except PageError MetaPage
  | .info m => .ok m
  | .damaged | .zeroed => .error .badChecksum
  | _ => .error .badMagic

def readMeta (file : List (Page κ α)) (slot : Nat) : Except StoreError MetaPage := do
  let page ← readPage file slot
  (MetaPage.decode page).mapError .page

def pickMeta : Except StoreError MetaPage → Except StoreError MetaPage → Except StoreError MetaPage
  | .ok x, .ok y => .ok (if x.txnId ≥ y.txnId then x else y)
  | .ok x, .error _ => .ok x
  | .error _, .ok y => .ok y
  | .error _, .error _ => .error .noValidMeta

/-! ## Chains -/

def pageSize : Nat := 8192

def chainCapacity (stride : Nat) : Nat := (pageSize - 4 - 16) / stride

/-- How a list of entries is kept on the pages of a chain. -/
structure Format (κ β : Type) where
  capacity : Nat
  positive : 0 < capacity
  entries : List β → Entries κ
  parse : Entries κ → Option (List β)
  parse_entries : ∀ l, parse (entries l) = some l

def rootFormat : Format κ (κ × Nat) where
  capacity := chainCapacity 24
  positive := by decide
  entries := .rootRecords
  parse
    | .rootRecords l => some l
    | _ => none
  parse_entries _ := rfl

def freeFormat : Format κ FreeRun where
  capacity := chainCapacity 16
  positive := by decide
  entries := .freelist
  parse
    | .freelist l => some l
    | _ => none
  parse_entries _ := rfl

def snapshotFormat : Format κ Snapshot where
  capacity := chainCapacity 64
  positive := by decide
  entries := .snapshots
  parse
    | .snapshots l => some l
    | _ => none
  parse_entries _ := rfl

def catalogFormat : Format κ Record where
  capacity := chainCapacity 128
  positive := by decide
  entries := .catalog
  parse
    | .catalog l => some l
    | _ => none
  parse_entries _ := rfl

variable (format : Format κ β) (file : List (Page κ α))

/-- One page of a chain, read and parsed. -/
def fetch (pgno : Nat) : Except StoreError (Option Nat × List β) := do
  match ← readPage file pgno with
  | .chain next entries =>
    match format.parse entries with
    | some l =>
      if l.length ≤ format.capacity then .ok (present next, l)
      else .error (.page (.cellCountOverflow l.length))
    | none => .error (.page .typeMismatch)
  | .damaged | .zeroed => .error (.page .badChecksum)
  | _ => .error (.page .typeMismatch)

def loadEntries (head : Option Nat) : Except StoreError (List β) :=
  loadChain (fetch format file) (.chainCycle (head.getD 0)) (file.length + 1) head

/-- The pages of a chain. The walk that recycles a chain does not verify checksums; here a damaged
page stops it as any page of another type does. -/
def chainPgnos (head : Option Nat) : Except StoreError (List Nat) :=
  chainPages (fetch format file) (.chainCycle (head.getD 0)) (file.length + 2) head

/-- One page of a chain, to be written. -/
def Format.page (next : Option Nat) (l : List β) : Page κ α :=
  .chain (next.getD 0) (format.entries l)

def buildPages (entries : List β) (pgnos : List Nat) : List (Nat × Page κ α) :=
  buildChain format.capacity format.page entries pgnos

/-! ## What a file holds -/

/-- What is in memory of an open file. -/
structure StoreState (κ : Type) [LinearOrder κ] where
  info : MetaPage
  roots : OrderedMap κ Nat
  snapshots : SnapshotRegistry
  catalog : List Record
  freelist : Freelist
deriving DecidableEq

/-- Opens a file: the newer meta page that can be read, and the four chains it names. -/
def load [LinearOrder κ] (file : List (Page κ α)) : Except StoreError (StoreState κ) := do
  if file.length < metaPages then .error .noValidMeta
  else
    let info ← pickMeta (readMeta file 0) (readMeta file 1)
    let roots ← loadEntries rootFormat file info.rootRecords
    let snapshots ← loadEntries snapshotFormat file info.snapshots
    let catalog ← loadEntries catalogFormat file info.catalog
    let freelist ← loadEntries freeFormat file info.freelist
    return ⟨info, .ofEntries roots, .fromEntries snapshots, catalog, .fromEntries freelist⟩

section Trees
variable (kids : α → List Nat) (file : List (Page κ α))

def links (pgno : Nat) : List Nat :=
  match file[pgno]? with
  | some (.data a) => kids a
  | _ => []

def Tree (roots : List Nat) (pgno : Nat) : Prop :=
  Reachable (links kids file) roots pgno

variable {kids} {file file' : List (Page κ α)} {roots : List Nat} {pgno : Nat}

lemma Tree.congr (agree : ∀ p, Tree kids file roots p → file'[p]? = file[p]?) :
    Tree kids file' roots pgno ↔ Tree kids file roots pgno := by
  refine Reachable.congr fun p hp => ?_
  rw [links, links, agree p hp]

end Trees

/-! ## Chains in a file -/

variable {format} {file file' : List (Page κ α)} {head : Option Nat} {pgnos : List Nat}
  {entries : List β} {pgno : Nat}

variable {info : MetaPage} {here : List β} {m : MetaPage} {next : Option Nat}

lemma length_of_fetch (h : fetch format file pgno = .ok (next, here)) : here.length ≤ format.capacity := by
  obtain ⟨page, -, h⟩ := bind_ok.1 h
  cases page with
  | chain next entries =>
    simp only at h
    split at h
    · split_ifs at h with short
      cases h
      exact short
    · cases h
  | info | data | damaged | zeroed => cases h

section
variable (h : Chain (fetch format file) head pgnos entries)
include h

lemma lt_of_chain : ∀ p ∈ pgnos, p < file.length := by
  intro p hp
  obtain ⟨x, found⟩ := h.fetched hp
  by_contra outside
  have none : file[p]? = none := List.getElem?_eq_none_iff.2 (by omega)
  simp only [fetch, readPage, none] at found
  cases found

lemma length_le_of_chain : pgnos.length ≤ file.length := by
  have sub : pgnos ⊆ List.range file.length := fun p hp => List.mem_range.2 (lt_of_chain h p hp)
  have fits := (List.subperm_of_subset h.nodup sub).length_le
  rwa [List.length_range] at fits

lemma loadEntries_of_chain : loadEntries format file head = .ok entries :=
  (h.load (by have := length_le_of_chain h; omega)).1

lemma chainPgnos_of_chain : chainPgnos format file head = .ok pgnos :=
  (h.load (by have := length_le_of_chain h; omega)).2

/-- A chain is left alone by whatever leaves its pages alone. -/
lemma chain_congr (same : ∀ p ∈ pgnos, file'[p]? = file[p]?) : Chain (fetch format file') head pgnos entries := by
  refine h.congr fun p hp => ?_
  have there : file[p]? = some _ := List.getElem?_eq_getElem (lt_of_chain h p hp)
  simp only [fetch, readPage, same p hp, there]

end

lemma keys_buildPages : (buildPages format entries pgnos : List (Nat × Page κ α)).map Prod.fst = pgnos :=
  map_fst_buildChain

lemma present_getD {head : Option Nat} (real : ∀ p ∈ head, p ≠ 0) : present (head.getD 0) = head := by
  cases head with
  | none => rfl
  | some p => exact if_neg (real p rfl)

/-- A page that was written can be read. -/
lemma fetch_page (there : file[pgno]? = some (format.page next here))
    (short : here.length ≤ format.capacity) (real : ∀ q ∈ next, q ≠ 0) : fetch format file pgno = .ok (next, here) := by
  simp only [fetch, readPage, there, Format.page, bind, Except.bind, format.parse_entries, if_pos short,
    present_getD real]

lemma chain_of_written (room : entries.length ≤ format.capacity * pgnos.length) (real : ∀ p ∈ pgnos, p ≠ 0)
    (written : ∀ x ∈ buildPages format entries pgnos, file[x.1]? = some x.2) :
    Chain (fetch format file) pgnos.head? pgnos entries :=
  Chain.build (format.page : Option Nat → List β → Page κ α) room fun _ _ _ placed short inside =>
    fetch_page (written _ placed) short fun q hq => real q (inside q hq)

/-- What is laid out on pages other than page 0 reads back from any file it is written to. A walk of any
pages whatsoever gives the entries of a chain that ends in the file, or an error if there is none. -/
theorem chains_round_trip (format : Format κ β) (file : List (Page κ α)) (nodup : pgnos.Nodup)
    (real : ∀ p ∈ pgnos, p ≠ 0) (room : pagesNeeded format.capacity entries.length ≤ pgnos.length) :
    loadEntries format (writeAll file (buildPages format entries pgnos)) pgnos.head? = .ok entries ∧
    chainPgnos format (writeAll file (buildPages format entries pgnos)) pgnos.head? = .ok pgnos ∧
    ∀ head, (∃ pages found, Chain (fetch format file) head pages found ∧ pages.length ≤ file.length ∧
        loadEntries format file head = .ok found) ∨
      ∃ e, loadEntries format file head = .error e ∧ ∀ pages found, ¬Chain (fetch format file) head pages found := by
  have chain : Chain (fetch format (writeAll file (buildPages format entries pgnos))) pgnos.head? pgnos entries := by
    refine chain_of_written ?_ real fun x hx => ?_
    · exact (le_mul_pagesNeeded format.positive).trans (Nat.mul_le_mul_left _ room)
    · apply getElem?_writeAll_mem _ hx
      rwa [keys_buildPages]
  refine ⟨loadEntries_of_chain chain, chainPgnos_of_chain chain, fun head => ?_⟩
  cases result : loadEntries format file head with
  | ok found =>
    obtain ⟨pages, walked⟩ := Chain.of_load result
    exact .inl ⟨pages, found, walked, length_le_of_chain walked, rfl⟩
  | error e =>
    refine .inr ⟨e, rfl, fun pages found walked => ?_⟩
    rw [loadEntries_of_chain walked] at result
    cases result

theorem chains_round_trip_two :
    loadEntries catalogFormat (writeAll ([] : List (Page Nat Nat)) (buildPages catalogFormat [[1], [2]] [3, 2]))
      (some 3) = .ok [[1], [2]] :=
  (chains_round_trip catalogFormat [] (by decide) (by decide) (by decide)).1

/-- A chain that goes on to page 0 ends before it. -/
theorem chain_ends_at_page_zero :
    loadEntries catalogFormat (writeAll ([] : List (Page Nat Nat))
      (buildPages catalogFormat (List.replicate 64 []) [2, 0])) (some 2) = .ok (List.replicate 63 []) := by
  decide +kernel

/-! ## The meta pages of a file -/

variable (file info) in
/-- The meta pages: the state's own, and an older one or none. -/
structure Slots : Prop where
  here : file[info.slot]? = some info.encode
  other : ∀ m, file[1 - info.slot]? = some (.info m) → m.txnId < info.txnId

lemma Slots.congr (slots : Slots file info) (same : ∀ p < metaPages, file'[p]? = file[p]?) : Slots file' info where
  here := (same _ (Nat.mod_lt _ (by decide))).trans slots.here
  other m h := slots.other m ((same _ (Nat.lt_of_le_of_lt (Nat.sub_le ..) (by decide))).symm.trans h)

lemma slot_lt (m : MetaPage) : m.slot < 2 := Nat.mod_lt _ (by decide)

/-- A meta page is written over the older one. -/
lemma Slots.flip {info next : MetaPage} (slots : Slots file info) (later : next.txnId = info.txnId + 1)
    (long : metaPages ≤ file.length) : Slots (DiskOp.apply file (.write next.slot next.encode)) next where
  here := getElem?_write_self
  other m h := by
    have two := slot_lt next
    have across : 1 - next.slot = info.slot := by
      simp only [MetaPage.slot, later, metaPages] at two ⊢
      omega
    have inside : info.slot < file.length := (slot_lt info).trans_le long
    rw [across, getElem?_write_ne (by omega) inside, slots.here] at h
    simp only [MetaPage.encode, Option.some.injEq, Page.info.injEq] at h
    rw [← h, later]
    exact Nat.lt_succ_self _

lemma Slots.torn {info next : MetaPage} (slots : Slots file info) (later : next.txnId = info.txnId + 1)
    (long : metaPages ≤ file.length) : Slots (DiskOp.apply file (.write next.slot .damaged)) info where
  here := by
    have ne : info.slot ≠ next.slot := by
      simp only [MetaPage.slot, later, metaPages]
      omega
    rw [getElem?_write_ne ne ((slot_lt info).trans_le long)]
    exact slots.here
  other m h := by
    have across : 1 - info.slot = next.slot := by
      simp only [MetaPage.slot, later, metaPages]
      omega
    rw [across, getElem?_write_self] at h
    cases h

lemma readMeta_info {slot : Nat} (h : file[slot]? = some (.info m)) : readMeta file slot = .ok m := by
  simp only [readMeta, readPage, h]
  rfl

lemma readMeta_ok {slot : Nat} (h : readMeta file slot = .ok m) : file[slot]? = some (.info m) := by
  obtain ⟨page, found, h⟩ := bind_ok.1 h
  have decoded := mapError_ok h
  rw [readPage] at found
  cases there : file[slot]? with
  | none => rw [there] at found; cases found
  | some x =>
    rw [there] at found
    cases found
    cases page with
    | info m' => cases decoded; rfl
    | chain | data | damaged | zeroed => cases decoded

lemma Slots.pick (slots : Slots file info) (real : (info.encode : Page κ α) = .info info) :
    pickMeta (readMeta file 0) (readMeta file 1) = .ok info := by
  have mine := readMeta_info (slots.here.trans (congrArg some real))
  have less : ∀ m, readMeta file (1 - info.slot) = .ok m → m.txnId < info.txnId := fun m h =>
    slots.other m (readMeta_ok h)
  have two := slot_lt info
  obtain zero | one : info.slot = 0 ∨ info.slot = 1 := by omega
  · rw [zero] at mine less
    rw [mine]
    cases second : readMeta file 1 with
    | error => rfl
    | ok m =>
      have := less m second
      simp only [pickMeta, ge_iff_le, Except.ok.injEq]
      rw [if_pos (by omega)]
  · rw [one] at mine less
    rw [mine]
    cases first : readMeta file 0 with
    | error => rfl
    | ok m =>
      have := less m first
      simp only [pickMeta, ge_iff_le, Except.ok.injEq]
      rw [if_neg (by omega)]

end BigDb.Pager
