import BigDb.Db.Ids
import BigDb.Lib.Runs

/-!
# Writers and the catalog they share

A write transaction takes the writer slot, then copies the catalog the database shares, changes the
copy, commits it with its pages, and then puts it in the place of the shared one. The slot is part
of the page transaction, so that it is free again before the copy is published: the next writer may
copy a catalog that lacks what was just committed, and commit that.

`commits` is a history variable: what every commit started from and stored, and the ids its
operations gave out.
-/

namespace BigDb.Db
open Lib Cluster List Function

inductive Writer where
  | idle
  /-- it has the slot -/
  | opened
  /-- it has copied the catalog, and changed the copy -/
  | writing (base current : Catalog) (issued : List Issue)
  /-- its pages are committed and its catalog is not published yet -/
  | committed (catalog : Catalog)

def Writer.unpublished : Writer → Bool
  | .committed _ => true
  | _ => false

/-- Whether a writer has the slot. -/
def Writer.within : Writer → Bool
  | .opened | .writing .. => true
  | _ => false

structure Commit where
  base : Catalog
  result : Catalog
  issued : List Issue

structure Writers (n : Nat) where
  shared : Catalog
  /-- the catalog of the last page commit -/
  stored : Catalog
  slot : Option (Fin n)
  writer : Fin n → Writer
  commits : List Commit

inductive WriterAction (n : Nat) where
  | beginWrite (t : Fin n)
  | copy (t : Fin n)
  | apply (t : Fin n) (op : Op)
  /-- `ok` is whether the pages were committed -/
  | commit (t : Fin n) (ok : Bool)
  | publish (t : Fin n)
  /-- a transaction that is dropped -/
  | drop (t : Fin n)

namespace Writers
variable {n : Nat}

/-- A database that was just opened. -/
def start (c : Catalog) : Writers n := ⟨c, c, none, fun _ => .idle, []⟩

variable (s : Writers n)

def set (t : Fin n) (w : Writer) : Writers n :=
  { s with writer := update s.writer t w }

def step : WriterAction n → Writers n
  | .beginWrite t =>
    match s.writer t, s.slot with
    | .idle, none => { s.set t .opened with slot := some t }
    | _, _ => s
  | .copy t =>
    match s.writer t with
    | .opened => s.set t (.writing s.shared s.shared [])
    | _ => s
  | .apply t op =>
    match s.writer t with
    | .writing base current issued =>
      match current.apply op with
      | .ok (next, more) => s.set t (.writing base next (issued ++ more))
      | .error _ => s
    | _ => s
  | .commit t ok =>
    match s.writer t with
    | .writing base current issued =>
      if ok then
        { s.set t (.committed current) with
          slot := none
          stored := current
          commits := s.commits ++ [⟨base, current, issued⟩] }
      else { s.set t .idle with slot := none }
    | _ => s
  | .publish t =>
    match s.writer t with
    | .committed catalog => { s.set t .idle with shared := catalog }
    | _ => s
  | .drop t =>
    match s.writer t with
    | .opened | .writing .. => { s.set t .idle with slot := none }
    | _ => s

/-- Nobody copies the shared catalog while what somebody has committed is not published, and
fewer saved queries are made than there are ids for them. -/
def apart : WriterAction n → Bool
  | .copy _ => (finRange n).all fun u => !(s.writer u).unpublished
  | .apply t op =>
    match s.writer t with
    | .writing _ current _ => current.room op
    | _ => true
  | _ => true

end Writers

/-! ## What commits leave -/

/-- What the catalog has an entry for. -/
inductive Object where
  | database (id : DatabaseId)
  | table (id : TableId)
  | field (table : TableId) (id : FieldId)
  | key (e : RowKey)
  | view (id : ViewId) (name : String)
  | savedQuery (id : QueryId)
  | fragment (key : FragmentKey)
  | role (id : RoleId)
deriving DecidableEq, Repr

def Catalog.Holds (c : Catalog) : Object → Prop
  | .database id => id ∈ c.databases
  | .table id => id ∈ c.tables
  | .field table id => (table, id) ∈ c.fields
  | .key e => e ∈ c.keys.entries
  | .view id name => c.views.lookup id = some name
  | .savedQuery id => id ∈ c.savedQueries
  | .fragment key => key ∈ c.fragments
  | .role id => id ∈ c.roles

instance (c : Catalog) (o : Object) : Decidable (c.Holds o) :=
  match o with
  | .database id => inferInstanceAs (Decidable (id ∈ c.databases.keys))
  | .table id => inferInstanceAs (Decidable (id ∈ c.tables.keys))
  | .field table id => inferInstanceAs (Decidable ((table, id) ∈ c.fields.keys))
  | .key e => inferInstanceAs (Decidable (e ∈ c.keys.entries))
  | .view id name => inferInstanceAs (Decidable (c.views.lookup id = some name))
  | .savedQuery id => inferInstanceAs (Decidable (id ∈ c.savedQueries.keys))
  | .fragment key => inferInstanceAs (Decidable (key ∈ c.fragments.keys))
  | .role id => inferInstanceAs (Decidable (id ∈ c.roles.keys))

def Commit.Removes (c : Commit) (o : Object) : Prop := c.base.Holds o ∧ ¬ c.result.Holds o

instance (c : Commit) (o : Object) : Decidable (c.Removes o) :=
  inferInstanceAs (Decidable (c.base.Holds o ∧ ¬ c.result.Holds o))

/-- Commits each of which started from what the one before stored. -/
inductive Linked (first : Catalog) : List Commit → Catalog → Prop where
  | nil : Linked first [] first
  | snoc {l : List Commit} {c next : Catalog} {issued : List Issue} (h : Linked first l c)
      (gives : Catalog.Gives c next issued) : Linked first (l ++ [⟨c, next, issued⟩]) next

namespace Linked
variable {first c : Catalog} {l : List Commit}

section
variable (h : Linked first l c)
include h

variable {a : Commit} {i : Issue} {j : Nat}

/-- What one of them stored and none after it removed is there at the end. -/
lemma kept (ha : l[j]? = some a) {o : Object}
    (held : a.result.Holds o) (left : ∀ i d, j < i → l[i]? = some d → ¬ d.Removes o) : c.Holds o := by
  induction h with
  | nil => cases ha
  | @snoc l mid next issued h gives ih =>
    rcases getElem?_concat_some ha with ⟨hj, ha⟩ | ⟨rfl, rfl⟩
    · have hmid : mid.Holds o := by
        refine ih ha fun i d hi hd => left i d hi ?_
        rw [List.getElem?_append_left (lt_of_getElem? hd)]
        exact hd
      by_contra hno
      exact left l.length _ hj (getElem?_concat_length) ⟨hmid, hno⟩
    · exact held

/-- What one of them gave out is given out at the end. -/
lemma covers (ha : l[j]? = some a) (hi : i ∈ a.issued) : c.Covers i := by
  induction h with
  | nil => cases ha
  | @snoc l mid next issued h gives ih =>
    rcases getElem?_concat_some ha with ⟨-, ha⟩ | ⟨rfl, rfl⟩
    · exact gives.within i (ih ha)
    · exact (gives.fresh i hi).2

/-- No two of them give out one id. -/
lemma issued_once {j k : Nat} {a b : Commit} (hjk : j < k)
    (ha : l[j]? = some a) (hb : l[k]? = some b) (hi : i ∈ a.issued) : i ∉ b.issued := by
  induction h with
  | nil => cases ha
  | @snoc l mid next issued h gives ih =>
    rcases getElem?_concat_some hb with ⟨hk, hb⟩ | ⟨rfl, rfl⟩
    · rw [getElem?_append_left (hjk.trans hk)] at ha
      exact ih ha hb
    · rw [getElem?_append_left hjk] at ha
      exact fun hb => (gives.fresh i hb).1 (h.covers ha hi)

lemma upTo {k : Nat} {b : Commit} (hb : l[k]? = some b) : Linked first (l.take (k + 1)) b.result := by
  induction h with
  | nil => cases hb
  | @snoc l mid next issued h gives ih =>
    rcases getElem?_concat_some hb with ⟨hk, hb⟩ | ⟨rfl, rfl⟩
    · rw [take_append_of_le_length hk]
      exact ih hb
    · rw [take_of_length_le (by rw [length_append, length_singleton])]
      exact h.snoc gives

end

end Linked

/-! ## Runs -/

namespace Writers
variable {n : Nat} {first : Catalog} {s : Writers n}

/-- Everything that is committed is published. -/
def Published (s : Writers n) : Prop := ∀ u, (s.writer u).unpublished = false

/-- The commits are linked, whoever writes started from the last of them, and the shared catalog is
the last one's or, while that is not published, the one's before. -/
structure Steady (first : Catalog) (s : Writers n) : Prop where
  linked : Linked first s.commits s.stored
  slot : ∀ t, (s.writer t).within = true → s.slot = some t
  writing : ∀ t base current issued, s.writer t = .writing base current issued →
    base = s.stored ∧ base.Gives current issued ∧ s.Published
  shared : s.Published ∧ s.shared = s.stored ∨
    ∃ t, (∀ u, (s.writer u).unpublished = true → u = t) ∧ s.writer t = .committed s.stored ∧
      ∃ l d, s.commits = l ++ [d] ∧ Linked first l s.shared

lemma set_writer (t u : Fin n) (w : Writer) : (s.set t w).writer u = if u = t then w else s.writer u := by
  unfold set
  dsimp only
  by_cases h : u = t
  · rw [if_pos h, h, update_self]
  · rw [if_neg h, update_of_ne h]

lemma Steady.start (first : Catalog) : Steady first (start first : Writers n) where
  linked := .nil
  slot t h := by cases h
  writing t base current issued h := by cases h
  shared := .inl ⟨fun _ => rfl, rfl⟩

section
variable (S : Steady first s)
include S

variable {t : Fin n}

/-- A writer moves without publishing or committing anything. -/
lemma Steady.moves {w : Writer} {slot : Option (Fin n)}
    (was : (s.writer t).unpublished = false) (now : w.unpublished = false)
    (hslot : ∀ u, (if u = t then w else s.writer u).within = true → slot = some u)
    (writing : ∀ base current issued, w = .writing base current issued →
      base = s.stored ∧ base.Gives current issued ∧ s.Published) :
    Steady first { s.set t w with slot } := by
  have same : ∀ u, (if u = t then w else s.writer u).unpublished = (s.writer u).unpublished := by
    intro u
    by_cases hu : u = t
    · rw [if_pos hu, hu, was, now]
    · rw [if_neg hu]
  have hpub : s.Published → Published { s.set t w with slot } := by
    intro h u
    show ((s.set t w).writer u).unpublished = false
    rw [set_writer, same]
    exact h u
  refine ⟨S.linked, fun u hu => hslot u ?_, fun u base current issued hu => ?_, ?_⟩
  · rw [← set_writer]
    exact hu
  · have hu : (if u = t then w else s.writer u) = .writing base current issued := by
      rw [← set_writer]
      exact hu
    split at hu
    · obtain ⟨hbase, hgives, h⟩ := writing base current issued hu
      exact ⟨hbase, hgives, hpub h⟩
    · obtain ⟨hbase, hgives, h⟩ := S.writing u base current issued hu
      exact ⟨hbase, hgives, hpub h⟩
  · rcases S.shared with ⟨h, heq⟩ | ⟨t', honly, hcommitted, hl⟩
    · exact .inl ⟨hpub h, heq⟩
    have hne : t' ≠ t := by
      rintro rfl
      rw [hcommitted] at was
      cases was
    refine .inr ⟨t', fun u hu => honly u ?_, ?_, hl⟩
    · rw [← same, ← set_writer]
      exact hu
    · show (s.set t w).writer t' = _
      rw [set_writer, if_neg hne]
      exact hcommitted

/-- What is published when nobody has anything left to publish. -/
lemma Steady.shared_eq (h : s.Published) : s.shared = s.stored := by
  rcases S.shared with ⟨-, heq⟩ | ⟨t, -, hcommitted, -⟩
  · exact heq
  have := h t
  rw [hcommitted] at this
  cases this

/-- Nobody else has the slot. -/
lemma Steady.alone {t u : Fin n} (ht : (s.writer t).within = true) (hu : (s.writer u).within = true) : u = t :=
  Option.some.inj ((S.slot u hu).symm.trans (S.slot t ht))

lemma Steady.committing {base current : Catalog} {issued : List Issue}
    (hw : s.writer t = .writing base current issued) : Steady first { s.set t (.committed current) with
      slot := none, stored := current, commits := s.commits ++ [⟨base, current, issued⟩] } := by
  obtain ⟨rfl, hgives, hpub⟩ := S.writing t _ _ _ hw
  have within : (s.writer t).within = true := by rw [hw]; rfl
  -- nobody else has the slot, so nobody else is writing
  have others : ∀ u, ((s.set t (.committed current)).writer u).within = true → False := by
    intro u hu
    rw [set_writer] at hu
    split at hu
    · cases hu
    · next hne => exact hne (S.alone within hu)
  refine ⟨S.linked.snoc hgives, fun u hu => (others u hu).elim, fun u base current issued hu => ?_, .inr ?_⟩
  · refine (others u ?_).elim
    have hu : (s.set t (.committed _)).writer u = .writing base current issued := hu
    rw [hu]
    rfl
  refine ⟨t, fun u hu => ?_, ?_, s.commits, _, rfl, ?_⟩
  · have hu : ((s.set t (.committed current)).writer u).unpublished = true := hu
    rw [set_writer] at hu
    split at hu
    · assumption
    · rw [hpub u] at hu
      cases hu
  · show (s.set t (.committed current)).writer t = _
    rw [set_writer, if_pos rfl]
  · show Linked first s.commits s.shared
    rw [S.shared_eq hpub]
    exact S.linked

lemma Steady.publishing {catalog : Catalog}
    (hw : s.writer t = .committed catalog) : Steady first { s.set t .idle with shared := catalog } := by
  have unpublished : (s.writer t).unpublished = true := by rw [hw]; rfl
  rcases S.shared with ⟨h, -⟩ | ⟨t', honly, hcommitted, -⟩
  · rw [h t] at unpublished
    cases unpublished
  obtain rfl := honly t unpublished
  obtain rfl : catalog = s.stored := by
    rw [hcommitted] at hw
    exact (Writer.committed.inj hw).symm
  refine ⟨S.linked, fun u hu => ?_, fun u base current issued hu => ?_, .inl ⟨fun u => ?_, rfl⟩⟩
  · have hu : ((s.set t .idle).writer u).within = true := hu
    rw [set_writer] at hu
    split at hu
    · cases hu
    · exact S.slot u hu
  · have hu : (s.set t .idle).writer u = .writing base current issued := hu
    rw [set_writer] at hu
    split at hu
    · cases hu
    have := (S.writing u _ _ _ hu).2.2 t
    rw [unpublished] at this
    cases this
  · show ((s.set t .idle).writer u).unpublished = false
    rw [set_writer]
    split
    · rfl
    · next hne =>
      by_contra hu
      exact hne (honly u (Bool.not_eq_false _ ▸ hu))

/-- **One step.** -/
lemma Steady.step {a : WriterAction n} (ok : s.apart a = true) : Steady first (s.step a) := by
  -- a writer that has the slot keeps it or gives it back
  have keeps : ∀ {t : Fin n} {w : Writer}, (s.writer t).within = true →
      ∀ u, (if u = t then w else s.writer u).within = true → s.slot = some u := by
    intro t w ht u hu
    split at hu
    · next h =>
      rw [h]
      exact S.slot t ht
    · exact S.slot u hu
  have leaves : ∀ {t : Fin n}, (s.writer t).within = true →
      ∀ u, (if u = t then .idle else s.writer u).within = true → (none : Option (Fin n)) = some u := by
    intro t ht u hu
    split at hu
    · cases hu
    · next hne => exact (hne (S.alone ht hu)).elim
  cases a with
  | beginWrite t =>
    simp only [Writers.step]
    split
    · next hidle hslot =>
      refine S.moves (by rw [hidle]; rfl) rfl (fun u hu => ?_) nofun
      split at hu
      · next h => rw [h]
      have := S.slot u hu
      rw [hslot] at this
      cases this
    · exact S
  | copy t =>
    simp only [Writers.step]
    split
    · next hopened =>
      have hpub : s.Published := by
        intro u
        have := all_eq_true.1 ok u (mem_finRange u)
        simpa using this
      refine S.moves (by rw [hopened]; rfl) rfl (keeps (by rw [hopened]; rfl)) fun base current issued h => ?_
      cases h
      rw [S.shared_eq hpub]
      exact ⟨rfl, .refl _, hpub⟩
    · exact S
  | apply t op =>
    simp only [Writers.step]
    split
    · next base current issued hw =>
      split
      · next next more happly =>
        refine S.moves (by rw [hw]; rfl) rfl (keeps (by rw [hw]; rfl)) fun base' current' issued' h => ?_
        cases h
        obtain ⟨hbase, hgives, hpub⟩ := S.writing t _ _ _ hw
        simp only [apart, hw] at ok
        exact ⟨hbase, hgives.trans (Catalog.gives_apply happly ok), hpub⟩
      · exact S
    · exact S
  | commit t done =>
    simp only [Writers.step]
    split
    · next base current issued hw =>
      split
      · exact S.committing hw
      · exact S.moves (by rw [hw]; rfl) rfl (leaves (by rw [hw]; rfl)) nofun
    · exact S
  | publish t =>
    simp only [Writers.step]
    split
    · next catalog hw => exact S.publishing hw
    · exact S
  | drop t =>
    simp only [Writers.step]
    split
    · next hw =>
      exact S.moves (by rw [hw]; rfl) rfl (leaves (by rw [hw]; rfl)) nofun
    · next hw =>
      exact S.moves (by rw [hw]; rfl) rfl (leaves (by rw [hw]; rfl)) nofun
    · exact S

end

end Writers

/-- Each commit stores everything that was committed before and not removed since; what is published
is that of all commits or, while the last of them is being published, of all but that; and no id is
given out by two commits. -/
theorem no_catalog_change_is_lost (n : Nat) (first : Catalog) (s : Writers n)
    (run : Run Writers.step (fun s a => s.apart a = true) (.start first) s) :
    (∀ (j k : Nat) (a b : Commit), j ≤ k → s.commits[j]? = some a → s.commits[k]? = some b → ∀ o, a.result.Holds o →
      (∀ (i : Nat) (d : Commit), j < i → i ≤ k → s.commits[i]? = some d → ¬ d.Removes o) → b.result.Holds o) ∧
    (∃ p, p ≤ s.commits.length ∧ (p = s.commits.length ∨ p + 1 = s.commits.length ∧ ∃ u c, s.writer u = .committed c) ∧
      ∀ (j : Nat) (a : Commit), j < p → s.commits[j]? = some a → ∀ o, a.result.Holds o →
        (∀ (i : Nat) (d : Commit), j < i → i < p → s.commits[i]? = some d → ¬ d.Removes o) → s.shared.Holds o) ∧
    ∀ (j k : Nat) (a b : Commit), j < k → s.commits[j]? = some a → s.commits[k]? = some b →
      ∀ i ∈ a.issued, i ∉ b.issued := by
  have S : s.Steady first := run.run (.start first) fun s a ok S => S.step ok
  -- what a first part of the commits leaves
  have kept : ∀ {p c}, Linked first (s.commits.take p) c → ∀ (j : Nat) (a : Commit), j < p →
      s.commits[j]? = some a → ∀ o, a.result.Holds o →
      (∀ (i : Nat) (d : Commit), j < i → i < p → s.commits[i]? = some d → ¬ d.Removes o) → c.Holds o := by
    intro p c h j a hj ha o held left
    refine h.kept (j := j) (by rw [getElem?_take_of_lt hj, ha]) held fun i d hi hd => ?_
    have hip : i < p := by
      have := lt_of_getElem? hd
      rw [length_take] at this
      omega
    rw [getElem?_take_of_lt hip] at hd
    exact left i d hi hip hd
  refine ⟨fun j k a b hjk ha hb o held left => ?_, ?_, fun j k a b hjk ha hb i hi => ?_⟩
  · exact kept (S.linked.upTo hb) j a (Nat.lt_succ_of_le hjk) ha o held
      fun i d hi hik => left i d hi (Nat.le_of_lt_succ hik)
  · rcases S.shared with ⟨-, heq⟩ | ⟨t, -, hcommitted, l, d, hcommits, hlinked⟩
    · refine ⟨s.commits.length, le_rfl, .inl rfl, kept ?_⟩
      rw [take_length, heq]
      exact S.linked
    · have hlen : l.length + 1 = s.commits.length := by rw [hcommits, length_append, length_singleton]
      refine ⟨l.length, by omega, .inr ⟨hlen, t, _, hcommitted⟩, kept ?_⟩
      rw [hcommits, take_left]
      exact hlinked
  · exact S.linked.issued_once hjk ha hb hi

namespace Writers

def creates (t : Fin 2) (name : String) : WriterAction 2 := .apply t (.createTable ⟨"default", name⟩ .bitmap)

/-- One after the other. -/
def inTurn : List (WriterAction 2) :=
  [.beginWrite 0, .copy 0, creates 0 "a", creates 0 "b", .commit 0 true, .beginWrite 1, .publish 0, .copy 1,
    creates 1 "c", .commit 1 true]

/-- The second copies what the first has not published. -/
def tooEarly : List (WriterAction 2) :=
  [.beginWrite 0, .copy 0, creates 0 "a", creates 0 "b", .commit 0 true, .beginWrite 1, .copy 1, .publish 0,
    creates 1 "c", .commit 1 true, .publish 1]

end Writers

theorem no_catalog_change_is_lost_inTurn :
    let s : Writers 2 := play Writers.step (.start .empty) (Writers.inTurn.map fun a _ => a)
    s.commits.length = 2 ∧ ∀ (a b : Commit), s.commits[0]? = some a → s.commits[1]? = some b →
      ∀ i ∈ a.issued, i ∉ b.issued := by
  intro s
  have hrun : Run Writers.step (fun s a => s.apart a = true) (.start .empty) s :=
    Run.play (fun s a => s.apart a) _ (by decide +kernel) (fun _ _ h => h)
  have hlen : s.commits.length = 2 := by decide +kernel
  clear_value s
  refine ⟨hlen, fun a b ha hb => ?_⟩
  exact (no_catalog_change_is_lost 2 .empty s hrun).2.2 0 1 a b (by decide) ha hb

/-- Two tables are committed and then lost, and the id of one of them is given out again. -/
theorem catalog_change_lost :
    let s : Writers 2 := play Writers.step (.start .empty) (Writers.tooEarly.map fun a _ => a)
    (s.commits.map fun c => decide (c.result.Holds (.table 1))) = [true, false] ∧
      (s.commits.map fun c => decide (c.Removes (.table 1))) = [false, false] ∧
      ¬ s.shared.Holds (.table 1) ∧ s.commits.map Commit.issued = [[.table 0, .table 1], [.table 0]] := by
  intro s
  exact ⟨by decide +kernel, by decide +kernel, by decide +kernel, by decide +kernel⟩

end BigDb.Db
