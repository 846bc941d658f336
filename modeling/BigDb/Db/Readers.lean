import BigDb.Db.Catalog
import BigDb.Lib.Runs
import Mathlib.Data.List.FinRange

/-!
# Readers and the two halves of a commit

A read takes the roots of the last page commit, and then copies the catalog the database shares. A
commit stores its catalog with its pages, and then puts it in the place of the shared one. The read
transaction underneath has been given the catalog that goes with its roots; `Db::read` does not use it.

What a writer does to its catalog and to the trees under its roots is any change at all here. `versions`
is a history variable: what every commit stored, the database that was opened first.
-/

namespace BigDb.Db
open Lib Function List
variable {κ ρ α : Type} {n m : Nat}

/-! ## Reading an integer -/

abbrev RecordId := Nat
abbrev RowId := Nat

def existsRow : RowId := 0
def standardView : ViewId := 0

/-- `1 << SHARD_WIDTH_EXPONENT`. -/
def shardWidth : Nat := 2 ^ 20

def shardOf (record : RecordId) : Nat := record / shardWidth

/-- The bits that are set in a fragment. -/
abbrev Bits := List (RowId × RecordId)

/-- The trees under the root records. -/
abbrev Roots := FragmentKey → Option Bits

namespace Bsi

/-- The row of bit `i` of a value. -/
def planeRow (i : Nat) : RowId := 1 + i

def get (bitDepth : Nat) (f : Bits) (record : RecordId) : Option Nat :=
  if (existsRow, record) ∈ f then
    some ((range bitDepth).foldl (fun v i => if (planeRow i, record) ∈ f then v + 2 ^ i else v) 0)
  else none

/-- `write_bits` of what `bits_for` gives for a value that fits: every plane below the depth is set or cleared. -/
def writeBits (bitDepth : Nat) (f : Bits) (record : RecordId) (value : Nat) : Bits :=
  let planes := (range bitDepth).map fun i => ((planeRow i, record), value.testBit i)
  let rest := f.filter fun b => b ∉ planes.map Prod.fst ∧ b ≠ (existsRow, record)
  (existsRow, record) :: (planes.filter Prod.snd).map Prod.fst ++ rest

end Bsi

/-- `DbRead::get_int`, of a catalog and the roots of a read transaction. -/
def getInt (catalog : Catalog) (roots : Roots) (table : TableRef) (field : String) (record : RecordId) :
    Except DbError (Option Nat) := do
  let (t, d) ← catalog.resolve table field
  let key : FragmentKey := ⟨t, d.id, standardView, shardOf record⟩
  match roots key with
  | none => .ok none
  | some f =>
    let depth := ((catalog.fragments.lookup key).map FragmentMeta.bitDepth).getD d.bitDepth
    .ok (Bsi.get (max depth 1) f record)

/-- What one `set_int` and the flush leave of the catalog and the roots. -/
def setInt (catalog : Catalog) (roots : Roots) (table : TableRef) (field : String) (record : RecordId) (value : Nat) :
    Except DbError (Catalog × Roots) := do
  let (t, d) ← catalog.resolve table field
  let key : FragmentKey := ⟨t, d.id, standardView, shardOf record⟩
  let catalog := catalog.editFragment key fun zone => zone.observe value
  let depth := ((catalog.fragments.lookup key).map FragmentMeta.bitDepth).getD 1
  .ok (catalog, update roots key (some (Bsi.writeBits (max depth 1) ((roots key).getD []) record value)))

/-! ## Sessions -/

inductive WriteSession (κ ρ : Type) where
  | idle
  /-- it has the writer slot -/
  | opened
  | writing (catalog : κ) (roots : ρ)
  /-- its pages are committed and its catalog is not published yet -/
  | committed (catalog : κ)

def WriteSession.unpublished : WriteSession κ ρ → Bool
  | .committed _ => true
  | _ => false

def WriteSession.within : WriteSession κ ρ → Bool
  | .opened | .writing .. => true
  | _ => false

inductive ReadSession (κ ρ : Type) where
  | idle
  /-- it has its roots, and no catalog yet -/
  | begun (txn : Nat) (roots : ρ)
  | reading (txn : Nat) (roots : ρ) (catalog : κ)

def ReadSession.halfway : ReadSession κ ρ → Bool
  | .begun .. => true
  | _ => false

structure Sessions (κ ρ : Type) (n m : Nat) where
  shared : κ
  /-- what the last page commit stored -/
  stored : κ × ρ
  slot : Option (Fin n)
  writer : Fin n → WriteSession κ ρ
  reader : Fin m → ReadSession κ ρ
  versions : List (κ × ρ)

inductive SessionAction (κ ρ : Type) (n m : Nat) where
  | beginWrite (t : Fin n)
  | copy (t : Fin n)
  /-- any operation of the transaction -/
  | change (t : Fin n) (catalog : κ) (roots : ρ)
  /-- `ok` is whether the pages were committed -/
  | commit (t : Fin n) (ok : Bool)
  | publish (t : Fin n)
  | drop (t : Fin n)
  | beginRead (r : Fin m)
  | copyCatalog (r : Fin m)
  | endRead (r : Fin m)

namespace Sessions

/-- A database that was just opened. -/
def start (catalog : κ) (roots : ρ) : Sessions κ ρ n m :=
  ⟨catalog, (catalog, roots), none, fun _ => .idle, fun _ => .idle, [(catalog, roots)]⟩

variable (s : Sessions κ ρ n m)

def setWriter (t : Fin n) (w : WriteSession κ ρ) : Sessions κ ρ n m :=
  { s with writer := update s.writer t w }

def setReader (r : Fin m) (session : ReadSession κ ρ) : Sessions κ ρ n m :=
  { s with reader := update s.reader r session }

def step : SessionAction κ ρ n m → Sessions κ ρ n m
  | .beginWrite t =>
    match s.writer t, s.slot with
    | .idle, none => { s.setWriter t .opened with slot := some t }
    | _, _ => s
  | .copy t =>
    match s.writer t with
    | .opened => s.setWriter t (.writing s.shared s.stored.2)
    | _ => s
  | .change t catalog roots =>
    match s.writer t with
    | .writing .. => s.setWriter t (.writing catalog roots)
    | _ => s
  | .commit t ok =>
    match s.writer t with
    | .writing catalog roots =>
      if ok then
        { s.setWriter t (.committed catalog) with
          slot := none
          stored := (catalog, roots)
          versions := s.versions ++ [(catalog, roots)] }
      else { s.setWriter t .idle with slot := none }
    | _ => s
  | .publish t =>
    match s.writer t with
    | .committed catalog => { s.setWriter t .idle with shared := catalog }
    | _ => s
  | .drop t =>
    match s.writer t with
    | .opened | .writing .. => { s.setWriter t .idle with slot := none }
    | _ => s
  | .beginRead r =>
    match s.reader r with
    | .idle => s.setReader r (.begun (s.versions.length - 1) s.stored.2)
    | _ => s
  | .copyCatalog r =>
    match s.reader r with
    | .begun txn roots => s.setReader r (.reading txn roots s.shared)
    | _ => s
  | .endRead r =>
    match s.reader r with
    | .reading .. => s.setReader r .idle
    | _ => s

/-- Nobody copies the shared catalog to write, and no read begins, while what somebody has committed is not
published; and nothing is committed while a read has its roots and not its catalog. -/
def apart : SessionAction κ ρ n m → Bool
  | .copy _ | .beginRead _ => (finRange n).all fun u => !(s.writer u).unpublished
  | .commit _ _ => (finRange m).all fun r => !(s.reader r).halfway
  | _ => true

/-! ## What a reader holds -/

/-- Everything that is committed is published. -/
def Published : Prop := ∀ u, (s.writer u).unpublished = false

structure Paired : Prop where
  last : ∃ older, s.versions = older ++ [s.stored]
  slot : ∀ t, (s.writer t).within = true → s.slot = some t
  writing : ∀ t catalog roots, s.writer t = .writing catalog roots → s.Published
  shared : s.Published → s.shared = s.stored.1
  committed : ∀ t catalog, s.writer t = .committed catalog →
    catalog = s.stored.1 ∧ ∀ u, (s.writer u).unpublished = true → u = t
  begun : ∀ r txn roots, s.reader r = .begun txn roots → s.Published ∧ txn + 1 = s.versions.length ∧ roots = s.stored.2
  reading : ∀ r txn roots catalog, s.reader r = .reading txn roots catalog → s.versions[txn]? = some (catalog, roots)

variable {s}

lemma Paired.start (catalog : κ) (roots : ρ) : (start catalog roots : Sessions κ ρ n m).Paired where
  last := ⟨[], rfl⟩
  slot t h := by cases h
  writing t catalog roots h := by cases h
  shared _ := rfl
  committed t catalog h := by cases h
  begun r txn roots h := by cases h
  reading r txn roots catalog h := by cases h

section
variable (p : s.Paired)
include p

variable {t : Fin n}

/-- A writer moves without committing or publishing anything. -/
lemma Paired.moves {w : WriteSession κ ρ} {slot : Option (Fin n)}
    (was : (s.writer t).unpublished = false) (now : w.unpublished = false)
    (hslot : ∀ u, (update s.writer t w u).within = true → slot = some u)
    (writing : ∀ catalog roots, w = .writing catalog roots → s.Published) : Paired { s.setWriter t w with slot } := by
  have same : ∀ u, (update s.writer t w u).unpublished = (s.writer u).unpublished := by
    intro u
    by_cases hu : u = t
    · rw [hu, update_self, was, now]
    · rw [update_of_ne hu]
  have published : Published { s.setWriter t w with slot } ↔ s.Published :=
    ⟨fun h u => (same u).symm.trans (h u), fun h u => (same u).trans (h u)⟩
  refine ⟨p.last, hslot, fun u catalog roots hu => published.2 ?_, fun h => p.shared (published.1 h),
    fun u catalog hu => ?_, fun r txn roots hr => ?_, p.reading⟩
  · by_cases here : u = t
    · subst here
      exact writing catalog roots (by simpa [setWriter] using hu)
    · exact p.writing u catalog roots (by simpa [setWriter, update_of_ne here] using hu)
  · have ne : u ≠ t := by
      rintro rfl
      have hw : w = .committed catalog := by simpa [setWriter] using hu
      rw [hw] at now
      cases now
    obtain ⟨eq, only⟩ := p.committed u catalog (by simpa [setWriter, update_of_ne ne] using hu)
    exact ⟨eq, fun v hv => only v ((same v).symm.trans hv)⟩
  · obtain ⟨h, rest⟩ := p.begun r txn roots hr
    exact ⟨published.2 h, rest⟩

/-- A reader moves. -/
lemma Paired.reads {r : Fin m} {session : ReadSession κ ρ}
    (begun : ∀ txn roots, session = .begun txn roots → s.Published ∧ txn + 1 = s.versions.length ∧ roots = s.stored.2)
    (reading : ∀ txn roots catalog, session = .reading txn roots catalog → s.versions[txn]? = some (catalog, roots)) :
    (s.setReader r session).Paired := by
  refine ⟨p.last, p.slot, p.writing, p.shared, p.committed, fun r' txn roots hr => ?_, fun r' txn roots catalog hr => ?_⟩
  · by_cases here : r' = r
    · subst here
      exact begun txn roots (by simpa [setReader] using hr)
    · exact p.begun r' txn roots (by simpa [setReader, update_of_ne here] using hr)
  · by_cases here : r' = r
    · subst here
      exact reading txn roots catalog (by simpa [setReader] using hr)
    · exact p.reading r' txn roots catalog (by simpa [setReader, update_of_ne here] using hr)

/-- Nobody else has the slot. -/
lemma Paired.alone {t u : Fin n} (ht : (s.writer t).within = true) (hu : (s.writer u).within = true) : u = t :=
  Option.some.inj ((p.slot u hu).symm.trans (p.slot t ht))

lemma Paired.commits {catalog : κ} {roots : ρ} (writes : s.writer t = .writing catalog roots)
    (waiting : ∀ r, (s.reader r).halfway = false) : Paired { s.setWriter t (.committed catalog) with
      slot := none, stored := (catalog, roots), versions := s.versions ++ [(catalog, roots)] } := by
  have published := p.writing t catalog roots writes
  have within : (s.writer t).within = true := by rw [writes]; rfl
  have others : ∀ u, (update s.writer t (.committed catalog) u).within = true → False := by
    intro u hu
    by_cases here : u = t
    · rw [here, update_self] at hu
      cases hu
    · rw [update_of_ne here] at hu
      exact here (p.alone within hu)
  have only : ∀ u, (update s.writer t (.committed catalog) u).unpublished = true → u = t := by
    intro u hu
    by_contra here
    rw [update_of_ne here, published u] at hu
    cases hu
  refine ⟨⟨s.versions, rfl⟩, fun u hu => (others u hu).elim, fun u c ρ hu => (others u ?_).elim, fun h => ?_,
    fun u c hu => ?_, fun r txn roots hr => ?_, fun r txn roots c hr => ?_⟩
  · have hu : update s.writer t (.committed catalog) u = .writing c ρ := hu
    rw [hu]
    rfl
  · have := h t
    simp [setWriter, WriteSession.unpublished] at this
  · have hu : update s.writer t (.committed catalog) u = .committed c := hu
    obtain rfl := only u (by rw [hu]; rfl)
    rw [update_self] at hu
    cases hu
    exact ⟨rfl, only⟩
  · have hr : s.reader r = .begun txn roots := hr
    have := waiting r
    rw [hr] at this
    cases this
  · have held := p.reading r txn roots c hr
    have lt := lt_of_getElem? held
    rw [getElem?_append_left lt]
    exact held

lemma Paired.publishes {catalog : κ} (committed : s.writer t = .committed catalog) :
    Paired { s.setWriter t .idle with shared := catalog } := by
  obtain ⟨eq, only⟩ := p.committed t catalog committed
  have unpublished : (s.writer t).unpublished = true := by rw [committed]; rfl
  have published : ∀ u, (update s.writer t .idle u).unpublished = false := by
    intro u
    by_cases here : u = t
    · rw [here, update_self]
      rfl
    · rw [update_of_ne here]
      by_contra hu
      exact here (only u (by simpa using hu))
  refine ⟨p.last, fun u hu => ?_, fun _ _ _ _ => published, fun _ => eq, fun u c hu => ?_, fun r txn roots hr => ?_, p.reading⟩
  · by_cases here : u = t
    · subst here
      simp [setWriter, WriteSession.within] at hu
    · exact p.slot u (by simpa [setWriter, update_of_ne here] using hu)
  · have := published u
    have hu : update s.writer t .idle u = .committed c := hu
    rw [hu] at this
    cases this
  · have := (p.begun r txn roots hr).1 t
    rw [unpublished] at this
    cases this

end

lemma published_of_all (h : ((finRange n).all fun u => !(s.writer u).unpublished) = true) : s.Published := by
  intro u
  simpa using all_eq_true.1 h u (mem_finRange u)

/-- **One step.** -/
lemma Paired.step (p : s.Paired) {a : SessionAction κ ρ n m} (ok : s.apart a = true) : (s.step a).Paired := by
  -- a writer that has the slot keeps it or gives it back
  have keeps : ∀ {t w}, (s.writer t).within = true →
      ∀ u, (update s.writer t w u).within = true → s.slot = some u := by
    intro t w ht u hu
    by_cases here : u = t
    · rw [here]
      exact p.slot t ht
    · rw [update_of_ne here] at hu
      exact p.slot u hu
  have leaves : ∀ {t}, (s.writer t).within = true →
      ∀ u, (update s.writer t .idle u).within = true → (none : Option (Fin n)) = some u := by
    intro t ht u hu
    by_cases here : u = t
    · rw [here, update_self] at hu
      cases hu
    · rw [update_of_ne here] at hu
      exact (here (p.alone ht hu)).elim
  cases a with
  | beginWrite t =>
    simp only [Sessions.step]
    split
    · next idle free =>
      refine p.moves (by rw [idle]; rfl) rfl (fun u hu => ?_) nofun
      by_cases here : u = t
      · rw [here]
      rw [update_of_ne here] at hu
      have := p.slot u hu
      rw [free] at this
      cases this
    · exact p
  | copy t =>
    simp only [Sessions.step]
    split
    · next opened =>
      exact p.moves (by rw [opened]; rfl) rfl (keeps (by rw [opened]; rfl)) fun _ _ _ => published_of_all ok
    · exact p
  | change t catalog roots =>
    simp only [Sessions.step]
    split
    · next c ρ writes =>
      exact p.moves (by rw [writes]; rfl) rfl (keeps (by rw [writes]; rfl)) fun _ _ _ => p.writing t c ρ writes
    · exact p
  | commit t done =>
    simp only [Sessions.step]
    split
    · next c ρ writes =>
      split
      · refine p.commits writes fun r => ?_
        simpa using all_eq_true.1 ok r (mem_finRange r)
      · exact p.moves (by rw [writes]; rfl) rfl (leaves (by rw [writes]; rfl)) nofun
    · exact p
  | publish t =>
    simp only [Sessions.step]
    split
    · next committed => exact p.publishes committed
    · exact p
  | drop t =>
    simp only [Sessions.step]
    split
    · next opened => exact p.moves (by rw [opened]; rfl) rfl (leaves (by rw [opened]; rfl)) nofun
    · next writes => exact p.moves (by rw [writes]; rfl) rfl (leaves (by rw [writes]; rfl)) nofun
    · exact p
  | beginRead r =>
    simp only [Sessions.step]
    split
    · refine p.reads (fun txn roots h => ?_) nofun
      cases h
      obtain ⟨older, eq⟩ := p.last
      exact ⟨published_of_all ok, by rw [eq, length_append, length_singleton]; omega, rfl⟩
    · exact p
  | copyCatalog r =>
    simp only [Sessions.step]
    split
    · next txn roots begun =>
      refine p.reads nofun fun txn' roots' catalog h => ?_
      cases h
      obtain ⟨published, now, rfl⟩ := p.begun r txn roots begun
      obtain ⟨older, eq⟩ := p.last
      rw [p.shared published]
      have here : txn = older.length := by
        rw [eq, length_append, length_singleton] at now
        omega
      rw [eq, here, getElem?_concat_length]
    · exact p
  | endRead r =>
    simp only [Sessions.step]
    split
    · exact p.reads nofun nofun
    · exact p

end Sessions

/-- A reader's catalog is the one that was committed with its roots, so that everything it answers is what
the database answered after that commit. -/
theorem reader_sees_one_commit (catalog : κ) (roots : ρ) {s : Sessions κ ρ n m}
    (run : Run Sessions.step (fun s a => s.apart a = true) (.start catalog roots) s) (r : Fin m) {txn : Nat} {seen : ρ}
    {copied : κ} (reads : s.reader r = .reading txn seen copied) :
    s.versions[txn]? = some (copied, seen) ∧
      ∀ (α : Type) (answer : κ → ρ → α), ∃ v, s.versions[txn]? = some v ∧ answer copied seen = answer v.1 v.2 := by
  have paired : s.Paired := run.run (.start catalog roots) fun s a ok p => p.step ok
  have held := paired.reading r txn seen copied reads
  exact ⟨held, fun α answer => ⟨_, held, rfl⟩⟩

/-! ## Reading between the two halves -/

namespace Sessions

def table : TableRef := ⟨defaultDatabaseName, "t"⟩

/-- A database with one table, which has one integer field. -/
def oneField : Catalog :=
  match Catalog.empty.internTableWith defaultDatabase "t" .bitmap with
  | .ok (_, c) =>
    match c.addField table ⟨0, 0, "v", .int, 0, 0, [], []⟩ with
    | .ok (_, _, c) => c
    | .error _ => c
  | .error _ => .empty

abbrev Script := List (Sessions Catalog Roots 1 1 → SessionAction Catalog Roots 1 1)

def sets (value : Nat) : Sessions Catalog Roots 1 1 → SessionAction Catalog Roots 1 1 := fun s =>
  match s.writer 0 with
  | .writing catalog roots =>
    match setInt catalog roots table "v" 0 value with
    | .ok (catalog, roots) => .change 0 catalog roots
    | .error _ => .drop 0
  | _ => .drop 0

/-- A transaction up to its page commit. -/
def writes (value : Nat) : Script := [fun _ => .beginWrite 0, fun _ => .copy 0, sets value, fun _ => .commit 0 true]

def published : Script := writes 1 ++ [fun _ => .publish 0]

def reads : Script := [fun _ => .beginRead 0, fun _ => .copyCatalog 0]

/-- What the reader answers for record 0. -/
def answered (s : Sessions Catalog Roots 1 1) : Option (Option Nat) :=
  match s.reader 0 with
  | .reading _ roots catalog => (getInt catalog roots table "v" 0).toOption
  | _ => none

end Sessions

theorem reader_sees_one_commit_published :
    let s := play Sessions.step (.start Sessions.oneField fun _ => none) (Sessions.published ++ Sessions.reads)
    s.answered = some (some 1) ∧ ∀ txn seen copied, s.reader 0 = .reading txn seen copied →
      s.versions[txn]? = some (copied, seen) := by
  intro s
  have run : Run Sessions.step (fun s a => s.apart a = true) (.start Sessions.oneField fun _ => none) s :=
    Run.play (fun s a => s.apart a) _ (by decide +kernel) fun _ _ h => h
  exact ⟨by decide +kernel, fun txn seen copied reads => (reader_sees_one_commit _ _ run 0 reads).1⟩

/-- The value was 1 and then 2. A read that begins before the second catalog is published reads it at the depth
of the first, and answers 0. -/
theorem read_between_the_halves :
    let s := play Sessions.step (.start Sessions.oneField fun _ => none)
      (Sessions.published ++ Sessions.writes 2 ++ Sessions.reads)
    s.answered = some (some 0) ∧
      s.versions.map (fun v => (getInt v.1 v.2 Sessions.table "v" 0).toOption) = [some none, some (some 1), some (some 2)] := by
  intro s
  exact ⟨by decide +kernel, by decide +kernel⟩

end BigDb.Db
