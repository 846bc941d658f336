import BigDb.Sql.Sets

/-!
# What a lowered statement is asked of

Every call that `lower` emits is asked of a table named by `FROM` or `JOIN`, and the sets inside it name only
tables of an `IN (SELECT ...)` and of the joins on a record id that were folded into one. A quantile is searched
in the table it was written over; unless nothing but searches was written, that table is asked a call too.
-/

namespace BigDb.Sql
open Lib List Keeps

/-- Asked of a table of `T`, with sets that name only tables of `S`. -/
def Ask.Within (T S : List String) (a : Ask) : Prop := a.table ∈ T ∧ Only S a.call

def Calls.Within (T S : List String) (c : Calls) : Prop := ∀ a ∈ c.out, a.Within T S

def Asked (table : String) (calls : List Ask) : Prop := ∃ a ∈ calls, a.table = table

/-- A search is over a table of `T` that some call is asked of, or over one of `Q`. -/
structure Statement.Within (T S Q : List String) (s : Statement) : Prop where
  calls : ∀ a ∈ s.calls, a.Within T S
  probes : ∀ p ∈ s.probes, p.table ∈ T ∧ (Asked p.table s.calls ∨ p.table ∈ Q)

section Pushing
variable {T S : List String} {table : String} {call : Expr}

lemma push_out (c : Calls) : Gives (push table call c) fun r =>
    (∀ a ∈ r.2.out, a ∈ c.out ∨ a = ⟨table, call⟩) ∧ (∀ a ∈ c.out, a ∈ r.2.out) ∧ Asked table r.2.out := by
  unfold push
  split
  · rename_i i hi
    obtain ⟨hlt, heq, -⟩ := findIdx?_eq_some_iff_getElem.mp hi
    have htable : (c.out[i]).table = table := by
      have : ((c.out[i]).table == table && (c.out[i]).call == call) = true := heq
      simp only [Bool.and_eq_true, beq_iff_eq] at this
      exact this.1
    exact .ok ⟨fun a ha => .inl ha, fun a ha => ha, _, getElem_mem hlt, htable⟩
  · split
    · exact .error
    · exact .ok ⟨by simp, by simp +contextual, ⟨table, call⟩, by simp, rfl⟩

/-- A call is asked of an allowed table. -/
lemma keeps_push (ht : table ∈ T) (hc : Only S call) : Keeps (Calls.Within T S) (push table call) := by
  intro c h
  refine (push_out c).mono fun r hr a ha => ?_
  obtain hold | rfl := hr.1 a ha
  · exact h a hold
  · exact ⟨ht, hc⟩

lemma keeps_pushIf {cond : Bool} (ht : table ∈ T) (hc : Only S call) :
    Keeps (Calls.Within T S) (pushIf cond table call) := by
  unfold pushIf
  split
  · exact (keeps_push ht hc).bind fun _ => .pure _
  · exact .pure _

/-- What was asked stays asked. -/
lemma asked_push {t : String} : Keeps (fun c => Asked t c.out) (push table call) := by
  rintro c ⟨a, ha, hat⟩
  exact (push_out c).mono fun r hr => ⟨a, hr.2.1 a ha, hat⟩

end Pushing

section Measures
variable {T S : List String} {table : String} {rows : Expr} {items : List Item} {item : Item} {group : Grouping}

/-- The tables the `FILTER` of an entry names. -/
def Item.members (i : Item) : List String := (i.filter.map Cond.members).getD []

lemma only_rowsOf (hr : Only S rows) (hi : ∀ t ∈ item.members, t ∈ S) : Gives (rowsOf rows item) (Only S) := by
  unfold rowsOf
  split
  · exact .ok hr
  rename_i cond hf
  refine (only_rows cond (by simpa [Item.members, hf] using hi)).bind fun e he => .ok ?_
  exact only_call (by decide) (by simp [hr, he])

/-- An entry that keeps a property over the records it is about. -/
lemma keeps_rowsOf {P : Calls → Prop} {α : Type} {of : Expr → Asking α} (hr : Only S rows)
    (hi : ∀ t ∈ item.members, t ∈ S) (h : ∀ e, Only S e → Keeps P (of e)) :
    Keeps P (StateT.lift (rowsOf rows item) >>= of) :=
  Ensures.bind (Q := fun e c => Only S e ∧ P c) (fun _ hc => (only_rowsOf hr hi).bind fun _ he => .ok ⟨he, hc⟩)
    fun e c hc => h e hc.1 c hc.2

lemma keeps_measured {P : Calls → Prop} {of : Item → Asking Of} (h : ∀ i ∈ items, Keeps P (of i)) :
    Keeps P (measured of items) := by
  induction items with
  | nil => exact .pure _
  | cons item items ih =>
    refine (h item (by simp)).bind fun _ => ?_
    exact (ih fun i hi => h i (by simp [hi])).bind fun _ => .pure _

section
variable (ht : table ∈ T)
include ht

variable {probes : List Probe}

lemma keeps_wholeOf (hr : Only S rows) : Keeps (Calls.Within T S) (wholeOf table rows item probes) := by
  have hverb (func : Agg) : func.verb ≠ .inRecords := by cases func <;> decide
  unfold wholeOf
  split
  · exact (keeps_push ht (only_call (by decide) (by simp [hr]))).bind fun _ => .pure _
  · exact (keeps_push ht (only_call (hverb _) (by simp [hr, only_fieldArg]))).bind fun _ => .pure _
  · exact (keeps_push ht (only_call (by decide) (by simp [hr, only_fieldArg]))).bind fun _ => .pure _
  · refine (keeps_push ht (only_call (by decide) (by simp [hr, only_fieldArg]))).bind fun _ => ?_
    exact (keeps_push ht (only_call (by decide) (by simp [hr]))).bind fun _ => .pure _
  · refine (keeps_push ht (only_call (by decide) ?_)).bind fun _ => .pure _
    simp [hr, only_fieldArg, only_intArg]
  · exact .pure _
  · exact .pure _
  · exact .throw _

lemma keeps_wholesOf (hr : Only S rows)
    (hi : ∀ i ∈ items, ∀ t ∈ i.members, t ∈ S) : Keeps (Calls.Within T S) (wholesOf table rows items probes) := by
  induction items generalizing probes with
  | nil => exact .pure _
  | cons item items ih =>
    refine keeps_rowsOf hr (hi item (by simp)) fun _ he => (keeps_wholeOf ht he).bind fun _ => ?_
    exact (ih fun i h => hi i (by simp [h])).bind fun _ => .pure _

omit ht in
lemma only_groupCall {aggregate : Option Expr} (hr : Only S rows)
    (ha : ∀ e, aggregate = some e → Only S e) : Only S (groupCall group rows aggregate) := by
  have harg : ∀ e ∈ (aggregate.map (Expr.named "aggregate")).toList, Only S e := by
    intro e he
    simp only [Option.mem_toList, Option.map_eq_some_iff] at he
    obtain ⟨a, h, rfl⟩ := he
    exact only_named (ha a h)
  unfold groupCall
  split
  · refine only_call (by decide) fun e he => ?_
    obtain he | he := mem_append.mp he
    · simp only [mem_cons, not_mem_nil, or_false] at he
      obtain rfl | rfl := he
      exacts [hr, only_fieldArg _]
    · exact harg e he
  · refine only_call (by decide) fun e he => ?_
    obtain he | he := mem_append.mp he
    · simp only [mem_cons, not_mem_nil, or_false] at he
      obtain rfl | rfl | rfl | rfl := he
      exacts [hr, only_fieldArg _, only_named (only_literal _), only_intArg _ _]
    · exact harg e he

omit ht in
lemma only_aggregate {func : Agg} {field : Name} : Only S (.call func.verb [fieldArg field]) := by
  cases func <;> exact only_call (by decide) (by simp [only_fieldArg])

lemma keeps_groupOf (hr : Only S rows) : Keeps (Calls.Within T S) (groupOf table rows group item) := by
  have hcount : Only S (groupCall group rows none) := only_groupCall hr (by simp)
  have hagg (func : Agg) (field : Name) : Only S (groupCall group rows (some (.call func.verb [fieldArg field]))) :=
    only_groupCall hr (by simp [only_aggregate])
  unfold groupOf
  split
  · exact .pure _
  · exact (keeps_push ht hcount).bind fun _ => .pure _
  · exact (keeps_push ht (hagg _ _)).bind fun _ => .pure _
  · refine (keeps_push ht (hagg .sum _)).bind fun _ => ?_
    exact (keeps_push ht hcount).bind fun _ => .pure _
  · exact .throw _

omit ht in
lemma only_groupKeys (hr : Only S rows) : Only S (groupKeys group rows) := by
  unfold groupKeys
  split
  · exact only_call (by decide) (by simp [hr, only_fieldArg])
  · exact only_groupCall hr (by simp)

variable {groups : List Grouping}

omit ht in
lemma only_tupleArgs (hr : Only S rows) : ∀ e ∈ tupleArgs groups rows, Only S e := by
  intro e he
  simp only [tupleArgs, mem_append, mem_cons, not_mem_nil, or_false, mem_map] at he
  obtain (rfl | ⟨g, -, rfl⟩) | rfl := he
  · exact hr
  · refine only_named ?_
    split
    · exact only_ident _
    · refine only_call (by decide) ?_
      simp [only_fieldArg, only_named, only_literal, only_intArg]
  · exact only_intArg _ _

lemma keeps_tupleOf (hr : Only S rows) : Keeps (Calls.Within T S) (tupleOf table rows groups item) := by
  unfold tupleOf
  split
  · exact (keeps_push ht (only_call (by decide) (only_tupleArgs hr))).bind fun _ => .pure _
  · refine (keeps_push ht (only_call (by decide) fun e he => ?_)).bind fun _ => .pure _
    obtain he | he := mem_append.mp he
    · exact only_tupleArgs hr e he
    · rw [mem_singleton.mp he]
      exact only_named only_aggregate
  · exact .throw _

end

end Measures

/-! ## One table -/

section OneTable
variable {T S Q : List String} {select : Select} {table : String} {rows : Expr} {probes : List Probe}

/-- An entry that makes no call. -/
def Item.isSearch (i : Item) : Bool :=
  match i.leaf with
  | .quantile .. | .now _ => true
  | _ => false

variable {item : Item} {items : List Item} {t : String} {n : Nat}

lemma asked_wholeOf : Keeps (fun c => Asked t c.out) (wholeOf table rows item probes) := by
  unfold wholeOf
  split
  · exact asked_push.bind fun _ => .pure _
  · exact asked_push.bind fun _ => .pure _
  · exact asked_push.bind fun _ => .pure _
  · exact asked_push.bind fun _ => asked_push.bind fun _ => .pure _
  · exact asked_push.bind fun _ => .pure _
  · exact .pure _
  · exact .pure _
  · exact .throw _

lemma asked_wholesOf : Keeps (fun c => Asked t c.out) (wholesOf table rows items probes) := by
  induction items generalizing probes with
  | nil => exact .pure _
  | cons item items ih => exact (lift _).bind fun _ => asked_wholeOf.bind fun _ => ih.bind fun _ => .pure _

/-- What an entry adds: a search over the table, or a call asked of it. -/
lemma wholeOf_out : Ensures (fun _ => True) (wholeOf table rows item probes) fun r c =>
      (∀ p ∈ r.2, p ∈ probes ∨ p.table = table) ∧ (item.isSearch = false → Asked table c.out) := by
  have hpush (call : Expr) : Ensures (fun _ => True) (push table call) fun _ c => Asked table c.out :=
    fun c _ => (push_out c).mono fun r hr => hr.2.2
  have hold (p : Probe) (hp : p ∈ probes) : p ∈ probes ∨ p.table = table := .inl hp
  unfold wholeOf
  split <;> rename_i hleaf
  · exact (hpush _).bind fun _ => .pure fun c h => ⟨hold, fun _ => h⟩
  · exact (hpush _).bind fun _ => .pure fun c h => ⟨hold, fun _ => h⟩
  · exact (hpush _).bind fun _ => .pure fun c h => ⟨hold, fun _ => h⟩
  · refine (hpush _).bind fun _ => ?_
    exact Ensures.bind asked_push fun _ => .pure fun c h => ⟨hold, fun _ => h⟩
  · exact (hpush _).bind fun _ => .pure fun c h => ⟨hold, fun _ => h⟩
  · refine .pure fun c _ => ⟨fun p hp => ?_, by simp [Item.isSearch, hleaf]⟩
    obtain hp | hp := mem_append.mp hp
    · exact .inl hp
    · rw [mem_singleton.mp hp]
      exact .inr rfl
  · exact .pure fun c _ => ⟨hold, by simp [Item.isSearch, hleaf]⟩
  · exact .throw

lemma wholesOf_out (c : Calls) : Gives (wholesOf table rows items probes c) fun r =>
      (∀ p ∈ r.1.2, p ∈ probes ∨ p.table = table) ∧ ((∃ i ∈ items, i.isSearch = false) → Asked table r.2.out) := by
  induction items generalizing probes c with
  | nil => exact .ok ⟨fun p hp => .inl hp, by simp⟩
  | cons item items ih =>
    refine .seq fun e => (wholeOf_out e.2 trivial).bind fun r hr => ?_
    intro r' hr'
    obtain ⟨r'', hrest, heq⟩ := bind_ok.mp hr'
    obtain ⟨hprobes, hasked⟩ := ih r.2 r'' hrest
    cases heq
    refine ⟨fun p hp => (hprobes p hp).elim (hr.1 p) .inr, ?_⟩
    rintro ⟨i, hi, hsearch⟩
    obtain rfl | hi := mem_cons.mp hi
    · exact asked_wholesOf r.2 (hr.2 hsearch) r'' hrest
    · exact hasked ⟨i, hi, hsearch⟩

/-- A statement of one call and no search. -/
lemma within_single {call : Expr} (ht : table ∈ T) (hc : Only S call) :
    Statement.Within T S Q ⟨[⟨table, call⟩], [], n⟩ where
  calls a ha := by
    rw [mem_singleton.mp ha]
    exact ⟨ht, hc⟩
  probes p hp := by cases hp

/-- A statement whose calls were pushed one after another, and no search. -/
lemma within_calls {c : Calls} (h : c.Within T S) : Statement.Within T S Q ⟨c.out, [], n⟩ where
  calls := h
  probes p hp := by cases hp

lemma only_limit {limit : Option Nat} : ∀ e ∈ (limit.map (intArg "n")).toList, Only S e := by
  intro e he
  simp only [Option.mem_toList, Option.map_eq_some_iff] at he
  obtain ⟨v, -, rfl⟩ := he
  exact only_intArg _ _

namespace Select
variable (s : Select)

/-- Nothing but quantiles and the clock is selected, so no call is made. -/
def onlySearches : Bool := s.items.all Item.isSearch

/-- The tables named by an `IN (SELECT ...)`, in the `WHERE` or in the `FILTER` of an entry. -/
def members : List String := (s.filter.map Cond.members).getD [] ++ s.items.flatMap Item.members

end Select

lemma mem_aggregates {i : Item} (hi : i ∈ select.items) (hc : select.columns = []) (hw : select.windowed = [])
    (hs : select.stars = []) : i ∈ select.aggregates := by
  refine mem_filter.mpr ⟨hi, ?_⟩
  split
  · rename_i hleaf
    have : i ∈ select.stars := mem_filter.mpr ⟨hi, by simp [hleaf]⟩
    simp [hs] at this
  · rename_i name hleaf
    have : (i, name) ∈ select.columns := mem_filterMap.mpr ⟨i, hi, by simp [hleaf]⟩
    simp [hc] at this
  · rename_i w hleaf
    have : (i, w) ∈ select.windowed := mem_filterMap.mpr ⟨i, hi, by simp [hleaf]⟩
    simp [hw] at this
  · rfl

section
variable (ht : table ∈ T) (hr : Only S rows) (hi : ∀ i ∈ select.items, ∀ t ∈ i.members, t ∈ S)
include ht hr hi

/-- Where nothing but searches is selected, the table is one of those searched. -/
lemma ungrouped_within (hq : select.onlySearches = true → table ∈ Q) :
    Gives (ungrouped select table rows) (Statement.Within T S Q) := by
  refine .seq fun _ => ?_
  split
  · refine .seq fun _ => .seq fun _ => .seq fun _ => .ok (within_single ht (only_call (by decide) fun e he => ?_))
    simp only [cons_append, mem_cons, mem_append, mem_map] at he
    obtain rfl | ⟨f, -, rfl⟩ | he := he
    · exact hr
    · exact only_fieldArg _
    · exact only_limit e he
  · refine .seq fun _ => .seq fun _ => .seq fun _ => .ok (within_single ht (only_call (by decide) fun e he => ?_))
    obtain rfl | he := mem_cons.mp he
    · exact hr
    · exact only_limit e he
  · rename_i hcols hstars
    simp only [head?_eq_none_iff, append_eq_nil_iff, map_eq_nil_iff] at hcols hstars
    refine .seq fun _ => .seq fun _ => ?_
    intro st hst
    obtain ⟨⟨⟨measures, probes⟩, calls⟩, hrun, hst⟩ := bind_ok.mp hst
    obtain ⟨-, -, hst⟩ := bind_ok.mp hst
    cases hst
    have hitems : ∀ i ∈ select.aggregates, ∀ t ∈ i.members, t ∈ S := fun i h => hi i (mem_of_mem_filter h)
    have hwithin : calls.Within T S := keeps_wholesOf ht hr hitems ⟨[], _⟩ (by simp [Calls.Within]) _ hrun
    obtain ⟨hprobes, hasked⟩ := wholesOf_out ⟨[], _⟩ _ hrun
    refine ⟨hwithin, fun p hp => ?_⟩
    obtain hp | hp := hprobes p hp
    · cases hp
    rw [hp]
    refine ⟨ht, ?_⟩
    -- either every entry is a search, or one of them made a call
    by_cases hs : select.onlySearches = true
    · exact .inr (hq hs)
    simp only [Select.onlySearches, all_eq_true, not_forall, Bool.not_eq_true] at hs
    obtain ⟨i, hmem, hsearch⟩ := hs
    exact .inl (hasked ⟨i, mem_aggregates hmem hcols.1 hcols.2 hstars, hsearch⟩)

variable {groups : List Grouping} {group : Grouping}

lemma keeps_groupMeasures : Keeps (Calls.Within T S) (groupMeasures select table rows group) := by
  refine bind (keeps_measured fun i h => keeps_rowsOf hr (hi i (mem_of_mem_filter h)) fun _ => keeps_groupOf ht) fun _ => ?_
  exact (keeps_pushIf ht (only_groupKeys hr)).bind fun _ => .pure _

lemma keeps_tuplesMeasures : Keeps (Calls.Within T S) (tuplesMeasures select table rows groups) := by
  refine bind (keeps_measured fun i h => keeps_rowsOf hr (hi i (mem_of_mem_filter h)) fun _ => keeps_tupleOf ht) fun _ => ?_
  exact (keeps_pushIf ht (only_call (by decide) (only_tupleArgs hr))).bind fun _ => .pure _

lemma grouped_within : Gives (grouped select table rows group) (Statement.Within T S Q) := by
  refine .seq fun _ => ?_
  refine Gives.bind (P := fun r => r.2.Within T S) ?_ fun r hwithin => ?_
  · exact keeps_groupMeasures ht hr hi ⟨[], _⟩ (by simp [Calls.Within])
  refine .seq fun _ => .seq fun ranked => ?_
  split
  · refine .ok (within_single ht (only_call (by decide) fun e he => ?_))
    simp only [mem_append, mem_cons, not_mem_nil, or_false] at he
    obtain (rfl | rfl) | he := he
    · exact hr
    · exact only_fieldArg _
    · exact only_limit e he
  · exact .ok (within_calls hwithin)

lemma tuples_within : Gives (tuples select table rows groups) (Statement.Within T S Q) := by
  refine .seq fun _ => .seq fun _ => .seq fun _ => ?_
  refine Gives.bind (P := fun r => r.2.Within T S) ?_ fun r hwithin => ?_
  · exact keeps_tuplesMeasures ht hr hi ⟨[], _⟩ (by simp [Calls.Within])
  exact .seq fun _ => .seq fun _ => .ok (within_calls hwithin)

lemma keeps_branch {held : List Grouping} : Keeps (Calls.Within T S) (branch select table rows held) := by
  refine bind ?_ fun _ => .lift _
  unfold setMeasures
  split
  · exact keeps_measured fun i h => keeps_rowsOf hr (hi i (mem_of_mem_filter h)) fun _ he => (keeps_wholeOf ht he).bind fun _ => .pure _
  · exact keeps_groupMeasures ht hr hi
  · exact keeps_tuplesMeasures ht hr hi

lemma keeps_branches {sets : List (List Nat)} : Keeps (Calls.Within T S) (branches select table rows sets) := by
  induction sets with
  | nil => exact .pure _
  | cons set sets ih => exact (keeps_branch ht hr hi).bind fun _ => ih

lemma groupingSets_within {sets : GroupingSets} :
    Gives (groupingSets select table rows sets) (Statement.Within T S Q) := by
  refine .seq fun _ => ?_
  refine Gives.bind (P := fun r => r.2.Within T S) ?_ fun r hwithin => .ok (within_calls hwithin)
  exact keeps_branches ht hr hi ⟨[], _⟩ (by simp [Calls.Within])

end

end OneTable

/-! ## Joins -/

section Joins
variable {T S Q : List String} {select : Select} {sources : List Source} {rows : List Expr}

lemma sideOf_lt {name : Name} {pos : Nat} : Gives (sideOf sources name pos) (· < sources.length) := by
  unfold sideOf
  split
  · rename_i side h
    obtain ⟨q, -, hq⟩ := Option.bind_eq_some_iff.mp h
    exact .ok (findIdx?_eq_some_iff_getElem.mp hq).1
  · exact .error

variable {side : Nat} {cond : Cond}

lemma tableAt_mem (h : side < sources.length) : tableAt sources side ∈ sources.map Source.qualified := by
  simp only [tableAt, getElem?_eq_getElem h, Option.map_some, Option.getD_some]
  exact mem_map_of_mem (getElem_mem h)

variable {keys : List (Option Name)}

lemma keySide_length {side pos : Nat} {name : Name} :
    Gives (keySide keys side name pos) (·.length = keys.length) := by
  unfold keySide
  split
  · exact .ok (by simp)
  split
  · exact .ok rfl
  · exact .error

lemma starKeys_length {joins : List Join} {new : Nat} :
    Gives (starKeys sources joins new keys) (·.length = keys.length) := by
  induction joins generalizing new keys with
  | nil => exact .ok rfl
  | cons join joins ih =>
    refine .seq fun l => .seq fun r => .seq fun known => .seq fun _ => ?_
    refine keySide_length.bind fun keys' h => keySide_length.bind fun keys'' h' => ?_
    exact ih.mono fun _ h'' => h''.trans (h'.trans h)

/-- A filter names no table but those of `S` in place of a set of records. -/
abbrev Filters (S : List String) (filter : Option Cond) : Prop :=
  ∀ c, filter = some c → ∀ t ∈ c.members, t ∈ S

abbrev AllFilter (S : List String) (conds : List (Option Cond)) : Prop :=
  ∀ c, some c ∈ conds → ∀ t ∈ c.members, t ∈ S

lemma both_members {x y : Option Cond} (hx : Filters S x) (hy : Filters S y) : Filters S (both x y) := by
  intro c hc t ht
  unfold both at hc
  split at hc
  · cases hc
    simp only [Cond.members, mem_append] at ht
    exact ht.elim (hx _ rfl t) (hy _ rfl t)
  · exact hx c hc t ht
  · exact hy c hc t ht

/-- The conditions on the sides name what the whole one does. -/
lemma splitCond_members {pos n : Nat} (h : ∀ t ∈ cond.members, t ∈ S) :
    Gives (splitCond sources pos n cond) (AllFilter S) := by
  induction cond using splitCond.induct with
  | case1 a b iha ihb =>
    simp only [Cond.members, mem_append] at h
    refine (iha fun t ht => h t (.inl ht)).bind fun as ha => (ihb fun t ht => h t (.inr ht)).bind fun bs hb => ?_
    refine .ok fun c hc => ?_
    rw [← map_uncurry_zip_eq_zipWith] at hc
    obtain ⟨⟨x, y⟩, hxy, hboth⟩ := mem_map.mp hc
    exact both_members (fun c h => ha c (h ▸ (of_mem_zip hxy).1)) (fun c h => hb c (h ▸ (of_mem_zip hxy).2)) c hboth
  | case2 cond hand =>
    rw [splitCond]
    · refine .seq fun sides => ?_
      unfold placeCond
      split
      · refine .ok fun c hc => ?_
        obtain hc | hc := mem_or_eq_of_mem_set hc
        · simp at hc
        · cases hc
          exact h
      · exact .error
    · exact hand

/-- Splitting a `WHERE` adds no table. -/
lemma splitFilter_members (h : Filters S select.filter) : Gives (splitFilter select) (AllFilter S) := by
  unfold splitFilter
  split
  · exact .ok (by simp [AllFilter])
  · rename_i cond hf
    exact splitCond_members (h cond hf)

lemma only_rowsAt (hr : ∀ e ∈ rows, Only S e) : Only S ((rows[side]?).getD (.call .all [])) := by
  cases h : rows[side]? with
  | none => exact only_all
  | some e => exact hr e (mem_of_getElem? h)

lemma keeps_countSides {keys : List Name} (hT : ∀ t ∈ sources.map Source.qualified, t ∈ T)
    (hr : ∀ e ∈ rows, Only S e) (hk : side + keys.length ≤ sources.length) :
    Keeps (Calls.Within T S) (countSides sources rows keys side) := by
  induction keys generalizing side with
  | nil => exact .pure _
  | cons key keys ih =>
    simp only [length_cons] at hk
    have hcall : Only S (.call .distinct [(rows[side]?).getD (.call .all []), fieldArg key]) :=
      only_call (by decide) (by simp [only_rowsAt hr, only_fieldArg])
    refine (keeps_push (hT _ (tableAt_mem (by omega))) hcall).bind fun _ => ?_
    exact (ih (by omega)).bind fun _ => .pure _

lemma keeps_cell {sides : Sides} {item : Item} {perKey : Bool}
    (hT : ∀ t ∈ sides.sources.map Source.qualified, t ∈ T) (hr : ∀ e ∈ sides.rows, Only S e) :
    Keeps (Calls.Within T S) (sides.cell item perKey) := by
  have hagg (side : Nat) (func : Agg) (field : Name) : Only S (sides.aggregate side func field) := by
    refine only_call (by decide) fun e he => ?_
    simp only [mem_cons, not_mem_nil, or_false] at he
    obtain rfl | rfl | rfl := he
    exacts [only_rowsAt hr, only_fieldArg _, only_named only_aggregate]
  have hside (field : Name) : Ensures (Calls.Within T S) (StateT.lift (sideOf sides.sources field item.pos))
      fun side c => c.Within T S ∧ tableAt sides.sources side ∈ T :=
    fun c hc => sideOf_lt.bind fun side h => .ok ⟨hc, hT _ (tableAt_mem h)⟩
  refine (lift _).bind fun _ => ?_
  split
  · exact .pure _
  · exact .pure _
  · refine Ensures.bind (hside _) fun side c h => ?_
    exact ((keeps_push h.2 (hagg _ _ _)).bind fun _ => .pure _) c h.1
  · exact (lift _).bind fun _ => (lift _).bind fun _ => .pure _
  · refine Ensures.bind (hside _) fun side c h => ?_
    exact ((keeps_push h.2 (hagg _ _ _)).bind fun _ => .pure _) c h.1
  · exact .throw _

lemma only_filterRows {filter : Option Cond} (hf : Filters S filter) : Gives (filterRows filter) (Only S) := by
  cases filter with
  | none => exact .ok only_all
  | some c => exact only_rows c (hf c rfl)

lemma only_filters {conds : List (Option Cond)} (h : AllFilter S conds) :
    Gives (conds.mapM filterRows) fun rows => ∀ e ∈ rows, Only S e := by
  induction conds with
  | nil => exact .ok (by simp)
  | cons c conds ih =>
    rw [mapM_cons]
    have hc : Filters S c := fun c' hc => h c' (by simp [hc])
    refine (only_filterRows hc).bind fun e he => ?_
    refine (ih fun c' hc => h c' (by simp [hc])).bind fun rows hrows => .ok ?_
    simpa [he] using hrows

/-- Every side is asked of its own table. -/
lemma joined_within (hT : ∀ t ∈ select.sources.map Source.qualified, t ∈ T) (hf : Filters S select.filter) :
    Gives (joined select) (Statement.Within T S Q) := by
  refine .seq fun _ => .seq fun _ => .seq fun _ => ?_
  refine starKeys_length.bind fun keys hkeys => (splitFilter_members hf).bind fun conds hconds => ?_
  refine (only_filters hconds).bind fun rows hrows => .seq fun _ => ?_
  refine Gives.bind (P := fun r => r.2.Within T S) ?_ fun r hwithin => ?_
  · refine bind (keeps_countSides hT hrows ?_) (fun counts => ?_) ⟨[], _⟩ (by simp [Calls.Within])
    · simp [hkeys]
    · refine (lift _).bind fun perKey => ?_
      exact (keeps_measured fun i _ => keeps_cell hT hrows).bind fun _ => .pure _
  exact .seq fun _ => .seq fun _ => .seq fun _ => .seq fun _ => .ok (within_calls hwithin)

end Joins

/-! ## Joins on a record id -/

section Folding
variable {S : List String} {select : Select}

/-- The joins that are folded into an `IN (SELECT ...)`. -/
def Select.recordJoins (s : Select) : List Join :=
  (s.joins.zipIdx.filter fun j => (recordKey s.sources j.1 (j.2 + 1)).isSome).map Prod.fst

variable {conds : List (Option Cond)}

lemma foldTerms_members {joins : List Join} {folded : List (Nat × Name)}
    {extra : Option Cond} (hj : ∀ f ∈ folded, ∀ j, joins[f.1]? = some j → j.source.qualified ∈ S)
    (hc : AllFilter S conds) (he : Filters S extra) :
    Gives (foldTerms joins folded conds extra) fun r => AllFilter S r.1 ∧ Filters S r.2 := by
  induction folded generalizing conds extra with
  | nil => exact .ok ⟨hc, he⟩
  | cons f folded ih =>
    obtain ⟨n, field⟩ := f
    have hrest : ∀ f ∈ folded, ∀ j, joins[f.1]? = some j → j.source.qualified ∈ S := fun f hf => hj f (by simp [hf])
    rw [foldTerms]
    split
    · exact ih hrest hc he
    rename_i join hjoin
    refine .seq fun _ => ?_
    split
    · exact ih hrest hc he
    refine ih hrest (fun c h => ?_) (both_members he fun c h => ?_)
    · obtain h | h := mem_or_eq_of_mem_set h
      · exact hc c h
      · cases h
    cases h
    intro t ht
    have hsource : join.source.qualified ∈ S := hj (n, field) (by simp) join hjoin
    cases hcond : (conds[n + 1]?).join with
    | none =>
      rw [hcond, Cond.members, mem_singleton] at ht
      exact ht ▸ hsource
    | some c =>
      rw [hcond, Cond.members, mem_cons] at ht
      obtain rfl | ht := ht
      · exact hsource
      · exact hc c (mem_of_getElem? (Option.join_eq_some_iff.mp hcond)) t ht

lemma flatten_members {acc : Option Cond} (hc : AllFilter S conds) (ha : Filters S acc) :
    ∀ c, (conds.foldl (fun acc c => match c with
      | some c => both acc (some c)
      | none => acc) acc) = some c → ∀ t ∈ c.members, t ∈ S := by
  induction conds generalizing acc with
  | nil => exact ha
  | cons c conds ih =>
    refine ih (fun c h => hc c (by simp [h])) ?_
    cases c with
    | none => exact ha
    | some c =>
      refine both_members ha fun c' h => ?_
      cases h
      exact hc c (by simp)

/-- What is left when the joins on a record id are folded away: the same entries over the same table. -/
structure Folded (S : List String) (select folded : Select) : Prop where
  source : folded.source = select.source
  items : folded.items = select.items
  joins : folded.joins = []
  filter : ∀ c, folded.filter = some c → ∀ t ∈ c.members, t ∈ S

/-- A folded join is a member of the new `WHERE`. -/
lemma foldRecordJoins_folded (hj : ∀ j ∈ select.recordJoins, j.source.qualified ∈ S) (hf : Filters S select.filter) :
    Gives (foldRecordJoins select) fun r => ∀ f, r = some f → Folded S select f := by
  unfold foldRecordJoins
  dsimp only
  split
  · exact .ok (by simp)
  refine .seq fun _ => (splitFilter_members hf).bind fun conds hconds => ?_
  refine (foldTerms_members ?_ hconds (by simp [Filters])).bind fun r hr => .seq fun _ => .seq fun _ => .ok ?_
  · intro f hmem j hget
    obtain ⟨⟨j', n⟩, hjn, hkey⟩ := mem_filterMap.mp hmem
    obtain ⟨name, hname, rfl⟩ := Option.map_eq_some_iff.mp hkey
    have hget' : select.joins[n]? = some j' := by simpa using mem_zipIdx_iff_getElem?.mp hjn
    obtain rfl : j' = j := Option.some.inj (hget'.symm.trans hget)
    exact hj j' (mem_map.mpr ⟨(j', n), mem_filter.mpr ⟨hjn, by simp [hname]⟩, rfl⟩)
  · rintro f ⟨⟩
    exact ⟨rfl, rfl, rfl, both_members (flatten_members hr.1 (by simp [Filters])) hr.2⟩

end Folding

/-! ## Whole queries -/

section Queries
variable {T S Q : List String} {select : Select}

lemma only_selectRows (hf : Filters S select.filter) : Gives select.rows (Only S) := by
  refine (only_filterRows hf).bind fun e he => ?_
  split
  · exact .ok he
  · exact .ok (only_call (by decide) (by simp [he, only_intArg]))

lemma lowerFolded_within (hT : ∀ t ∈ select.sources.map Source.qualified, t ∈ T)
    (hf : Filters S select.filter) (hi : ∀ i ∈ select.items, ∀ t ∈ i.members, t ∈ S)
    (hq : select.onlySearches = true → select.source.qualified ∈ Q) :
    Gives (lowerFolded select) (Statement.Within T S Q) := by
  have ht : select.source.qualified ∈ T := hT _ (by simp [Select.sources])
  refine (only_selectRows hf).bind fun rows hr => .seq fun _ => ?_
  split
  · exact joined_within hT hf
  split
  · exact groupingSets_within ht hr hi
  split
  · exact ungrouped_within ht hr hi hq
  · exact grouped_within ht hr hi
  · exact tuples_within ht hr hi

namespace Select
variable (s : Select)

/-- The tables a statement may ask of. -/
def tables : List String := s.sources.map Source.qualified

/-- The tables named in place of a set of records. -/
def semijoined : List String := s.members ++ s.recordJoins.map fun j => j.source.qualified

/-- The table searched by a statement that makes no call. -/
def searched : List String := if s.onlySearches then [s.source.qualified] else []

end Select

/-- The calls of one `SELECT`, the sets inside them and the searches. -/
lemma lowerOne_within (s : Select) : Gives (lowerOne s) (Statement.Within s.tables s.semijoined s.searched) := by
  have hf : Filters s.semijoined s.filter := by
    intro c hc t ht
    simp [Select.semijoined, Select.members, hc, ht]
  have hi : ∀ i ∈ s.items, ∀ t ∈ i.members, t ∈ s.semijoined := by
    intro i hi t ht
    have : t ∈ s.items.flatMap Item.members := mem_flatMap.mpr ⟨i, hi, ht⟩
    simp [Select.semijoined, Select.members, this]
  have hj : ∀ j ∈ s.recordJoins, j.source.qualified ∈ s.semijoined := by
    intro j hj
    have : j.source.qualified ∈ s.recordJoins.map fun j => j.source.qualified := mem_map_of_mem hj
    simp only [Select.semijoined, mem_append, this, or_true]
  have hq : s.onlySearches = true → s.source.qualified ∈ s.searched := by
    intro h
    simp [Select.searched, h]
  refine .seq fun _ => (foldRecordJoins_folded hj hf).bind fun r hr => ?_
  split
  · rename_i folded
    obtain ⟨hsource, hitems, hjoins, hfilter⟩ := hr folded rfl
    refine .seq fun _ => lowerFolded_within ?_ hfilter (by rwa [hitems]) ?_
    · simp [Select.sources, hsource, hjoins, Select.tables]
    · rw [hsource]
      simpa only [Select.onlySearches, hitems] using hq
  · exact lowerFolded_within (fun t ht => ht) hf hi hq

lemma Statement.Within.mono {T' S' Q' : List String} {st : Statement} (h : st.Within T S Q) (hT : ∀ t ∈ T, t ∈ T')
    (hS : ∀ t ∈ S, t ∈ S') (hQ : ∀ t ∈ Q, t ∈ Q') : st.Within T' S' Q' where
  calls a ha := ⟨hT _ (h.calls a ha).1, fun t ht => hS t ((h.calls a ha).2 t ht)⟩
  probes p hp := ⟨hT _ (h.probes p hp).1, (h.probes p hp).2.imp_right (hQ _)⟩

lemma Statement.Within.append {a b : Statement} {n : Nat} (ha : a.Within T S Q) (hb : b.Within T S Q) :
    Statement.Within T S Q ⟨a.calls ++ b.calls, a.probes ++ b.probes, n⟩ where
  calls x hx := (mem_append.mp hx).elim (ha.calls x) (hb.calls x)
  probes p hp := by
    obtain hp | hp := mem_append.mp hp
    · obtain ⟨hT, ⟨x, hx, hxp⟩ | hq⟩ := ha.probes p hp
      · exact ⟨hT, .inl ⟨x, mem_append_left _ hx, hxp⟩⟩
      · exact ⟨hT, .inr hq⟩
    · obtain ⟨hT, ⟨x, hx, hxp⟩ | hq⟩ := hb.probes p hp
      · exact ⟨hT, .inl ⟨x, mem_append_right _ hx, hxp⟩⟩
      · exact ⟨hT, .inr hq⟩

namespace Query
variable (q : Query)

def tables : List String := q.branches.flatMap Select.tables

def semijoined : List String := q.branches.flatMap Select.semijoined

def searched : List String := q.branches.flatMap Select.searched

end Query

lemma branch_within {q : Query} {s : Select} (hs : s ∈ q.branches) :
    Gives (lowerOne s) (Statement.Within q.tables q.semijoined q.searched) :=
  (lowerOne_within s).mono fun _ h => h.mono (fun _ ht => mem_flatMap.mpr ⟨s, hs, ht⟩)
    (fun _ ht => mem_flatMap.mpr ⟨s, hs, ht⟩) fun _ ht => mem_flatMap.mpr ⟨s, hs, ht⟩

lemma unionFrom_within {pos : Nat} {selects : List Select} {acc : Statement} {width : Option Nat}
    (h : ∀ s ∈ selects, Gives (lowerOne s) (Statement.Within T S Q)) (ha : acc.Within T S Q) :
    Gives (unionFrom pos selects acc width) (Statement.Within T S Q) := by
  induction selects generalizing acc width with
  | nil => exact .ok ha
  | cons s selects ih =>
    refine (h s (by simp)).bind fun one hone => .seq fun _ => .seq fun _ => ?_
    exact ih (fun s hs => h s (by simp [hs])) (ha.append hone)

/-- A query is asked of the tables it was written over. -/
lemma lower_within (q : Query) : Gives (lower q) (Statement.Within q.tables q.semijoined q.searched) := by
  unfold lower
  split
  · rename_i only h
    exact branch_within (by simp [h])
  · exact unionFrom_within (fun s hs => branch_within hs) ⟨by simp, by simp⟩

end Queries

end BigDb.Sql
