import BigDb.Pager.Standing
import Mathlib.Data.List.Flatten

/-!
# Truncations under way

A truncation writes the chain of the free list over itself, so that the store does not stand on its disk
while it does: a crash may leave some pages of the chain as they were and some as they are to be. Either
way a page of it has the start of what it had, so that the list read from it has part of the runs, and
the state that is found differs only in what it knows of free pages and of the end of the file.
-/

namespace BigDb.Pager
open Lib List Function
variable {κ α : Type} [LinearOrder κ] (kids : α → List Nat)

/-- A state that has the same content as another and knows of no more free pages. What it takes to be
past the end was free, and nobody could see it. -/
structure Lesser (σ τ : StoreState κ) (horizon : Nat) : Prop where
  heads : τ.info.rootRecords = σ.info.rootRecords ∧ τ.info.freelist = σ.info.freelist ∧
    τ.info.snapshots = σ.info.snapshots ∧ τ.info.catalog = σ.info.catalog
  roots : τ.roots = σ.roots
  snapshots : τ.snapshots = σ.snapshots
  catalog : τ.catalog = σ.catalog
  txnId : σ.info.txnId ≤ τ.info.txnId
  runs : τ.freelist.runs.Sublist σ.freelist.runs
  pageCount : τ.info.pageCount ≤ σ.info.pageCount
  released : ∀ p, τ.info.pageCount ≤ p → p < σ.info.pageCount → ∃ t ≤ horizon, (p, t) ∈ σ.freelist.listed

variable {kids} {past past' : Nat → Option (Image κ α)} {file file' : List (Page κ α)} {d d' : Disk (Page κ α)}
  {σ τ : StoreState κ} {v : Survey κ α} {horizon p : Nat} {c : Change κ α} {v' : Survey κ α}

section
variable (less : Lesser σ τ horizon)
include less

lemma Lesser.listed : τ.freelist.listed.Sublist σ.freelist.listed := by
  rw [Freelist.listed, Freelist.listed]
  exact less.runs.flatMap _

lemma Lesser.live (core : Core kids past file σ v)
    (h : p ∈ v.layout.chains ∨ v.image.InTree kids p) : p < τ.info.pageCount := by
  by_contra high
  obtain ⟨t, -, listed⟩ := less.released p (by omega) (core.live p h)
  have free := core.of_free (mem_map.2 ⟨(p, t), listed, rfl⟩)
  exact h.elim free.2.1 free.2.2.1

/-- What was safe stays safe, unless it is as old as what is given up. -/
lemma Guard.lesser {t : Nat} {img : Image κ α} (guard : Guard kids past file σ v t img)
    (newer : horizon ≤ t) (same : past' t = past t) (layout : v'.layout = v.layout) :
    Guard kids past' file τ v' t img where
  image := same.trans guard.image
  le := guard.le.trans less.txnId
  chain := guard.chain
  safe p held := by
    obtain ⟨low, high, other, agree, free⟩ := guard.safe p held
    refine ⟨low, ?_, layout ▸ other, agree, fun t' listed => free t' (less.listed.subset listed)⟩
    by_contra out
    obtain ⟨t', older, listed⟩ := less.released p (by omega) high
    have := free t' listed
    omega

end

variable (kids v v') in
structure Relay (τ : StoreState κ) (past' : Nat → Option (Image κ α)) : Prop where
  layout : v'.layout = v.layout
  image : past' τ.info.txnId = some v'.image
  roots : v'.image.state.roots = v.image.state.roots ∧ v'.image.state.info.rootRecords = v.image.state.info.rootRecords
  agree : ∀ p, v.Used kids p → v'.image.file[p]? = v.image.file[p]?
  counted : τ.info.pageCount ≤ v'.bound
  listed : ∀ p ∈ τ.freelist.pgnos, p < v'.bound
  two : metaPages ≤ v'.bound

namespace Relay
variable (relay : Relay kids v v' τ past')
include relay

lemma inTree : v'.image.InTree kids p ↔ v.image.InTree kids p := by
  rw [Image.InTree, relay.roots.1]
  exact Tree.congr fun q hq => relay.agree q (Survey.used_of_tree hq)

lemma used : v'.Used kids p ↔ v.Used kids p := by
  rw [Survey.Used, Survey.Used, relay.layout, relay.inTree]

lemma core (core : Core kids past file σ v) (less : Lesser σ τ horizon) (long : v'.bound ≤ file.length) :
    Core kids past' file τ v' := by
  obtain ⟨roots, freelist, snapshots, catalog⟩ := less.heads
  have fewer : ∀ p, τ.freelist.pgnos.count p ≤ σ.freelist.pgnos.count p := fun p =>
    (less.listed.map Prod.fst).count_le p
  refine ⟨?_, ?_, ?_, ?_, relay.image, ?_, fun p hp => ?_, fun p => ?_, fun p hp => ?_, relay.counted, long, ?_, ?_⟩
  · rw [roots, relay.layout, less.roots]
    exact core.roots
  · rw [snapshots, relay.layout, less.snapshots]
    exact core.snapshots
  · rw [catalog, relay.layout, less.catalog]
    exact core.catalog
  · rw [freelist, relay.layout]
    exact core.head
  · exact ⟨relay.roots.1.trans (core.same.1.trans less.roots.symm), relay.roots.2.trans (core.same.2.trans roots.symm)⟩
  · exact (core.agree p (relay.used.1 hp)).trans (relay.agree p (relay.used.1 hp)).symm
  · rw [tally, relay.layout, propext relay.inTree]
    split_ifs with low
    · have once := core.once p
      have := fewer p
      rw [tally] at once
      omega
    -- past the bound nothing is live, and nothing is listed
    have live : ¬(p ∈ v.layout.chains ∨ v.image.InTree kids p) := fun h => by
      have := less.live core h
      have := relay.counted
      omega
    rw [not_or] at live
    have two := relay.two
    have listed : p ∉ τ.freelist.pgnos := fun h => low (relay.listed p h)
    rw [flag_neg (by omega), flag_neg live.2, count_eq_zero.2 live.1, count_eq_zero.2 listed]
  · rw [relay.layout, relay.inTree] at hp
    exact less.live core hp
  · exact fun x hx => (core.stamps x (less.listed.subset hx)).trans less.txnId
  · exact List.Pairwise.sublist less.runs core.compacted

lemma sound (sound : Sound kids past file σ v 0) (less : Lesser σ τ horizon) (long : v'.bound ≤ file.length)
    (newer : ∀ snap ∈ σ.snapshots.snaps, horizon ≤ snap.txnId) (same : ∀ t < σ.info.txnId, past' t = past t) :
    Sound kids past' file τ v' 0 where
  core := relay.core sound.core less long
  snaps snap hs _ := by
    rw [less.snapshots] at hs
    obtain ⟨older, img, guard, head⟩ := sound.snaps snap hs (Nat.zero_le _)
    exact ⟨older.trans_le less.txnId, img, guard.lesser less (newer snap hs) (same _ older) relay.layout, head⟩

end Relay

/-! ## What a truncation decides -/

variable (kids past σ v c v') in
/-- What is known of a truncation. `v'` surveys the file as it will be when the meta page is written. -/
structure Cut : Prop where
  less : Lesser σ c.state c.horizon
  txnId : c.state.info.txnId = σ.info.txnId + 1
  out : c.out = buildPages freeFormat c.state.freelist.runs v.layout.freelist
  start : c.state.freelist.runs <+: σ.freelist.runs
  room : σ.freelist.runs.length ≤ (freeFormat (κ := κ)).capacity * v.layout.freelist.length
  inside : ∀ r ∈ c.state.freelist.runs, r.stop ≤ c.state.info.pageCount
  kept : ∀ x ∈ σ.freelist.listed, x.1 < c.state.info.pageCount → x ∈ c.state.freelist.listed
  horizon : c.horizon ≤ σ.info.txnId ∧ ∀ snap ∈ σ.snapshots.snaps, c.horizon ≤ snap.txnId
  relay : Relay kids v v' c.state past
  bound : v'.bound = c.state.info.pageCount
  written : ∀ x ∈ c.out, v'.image.file[x.1]? = some x.2
  laid : ∀ x ∈ buildPages freeFormat σ.freelist.runs v.layout.freelist, v.image.file[x.1]? = some x.2

/-- A truncation that finds something to release. -/
lemma Standing.cut (st : Standing kids past d σ v 0 true) (done : truncateTail d.view σ = .ok (some c)) :
    ∃ v', v'.image = ⟨c.state, writeAll d.view c.out⟩ ∧
      Cut kids (update past c.state.info.txnId (some v'.image)) σ v c v' := by
  rw [truncateTail, Freelist.trimTail] at done
  have spec := trimRuns_spec (min (σ.snapshots.oldestTxnId.getD σ.info.txnId) σ.info.txnId) le_rfl
    (st.core.compacted.imp And.left) (st.inside rfl)
  generalize trimRuns _ _ _ _ = left at spec done
  obtain ⟨runs, stop⟩ := left
  simp only at spec done
  split_ifs at done with nothing
  · cases done
  obtain ⟨chain, walked, done⟩ := bind_ok.1 done
  rw [chainPgnos_of_chain st.chain] at walked
  cases walked
  cases done
  have le := spec.le
  have count : σ.info.pageCount - (σ.info.pageCount - stop) = stop := by omega
  have shorter : stop < σ.info.pageCount := by omega
  obtain ⟨t, -, first⟩ := spec.released stop le_rfl shorter
  have two := (st.core.of_free (mem_map.2 ⟨(stop, t), first, rfl⟩)).1
  have horizon : min (σ.snapshots.oldestTxnId.getD σ.info.txnId) σ.info.txnId ≤ σ.info.txnId ∧
      ∀ snap ∈ σ.snapshots.snaps, min (σ.snapshots.oldestTxnId.getD σ.info.txnId) σ.info.txnId ≤ snap.txnId := by
    refine ⟨min_le_right _ _, fun snap hs => (min_le_left _ _).trans ?_⟩
    obtain ⟨oldest, found, older⟩ := oldestTxnId_le hs
    rwa [found]
  have nodup : ((buildPages freeFormat runs v.layout.freelist : List (Nat × Page κ α)).map Prod.fst).Nodup := by
    rw [keys_buildPages]
    exact st.chain.nodup
  simp only [count]
  refine ⟨⟨v.layout, ⟨_, _⟩, stop⟩, rfl, ?_⟩
  constructor
  · exact ⟨⟨rfl, rfl, rfl, rfl⟩, rfl, rfl, rfl, Nat.le_succ _, spec.initial.sublist, le, spec.released⟩
  · rfl
  · rfl
  · exact spec.initial
  · exact st.chain.length_le fun p next here found => length_of_fetch found
  · exact spec.inside
  · rintro ⟨p, t⟩ listed low
    obtain ⟨r, hr, first, high, same⟩ := mem_listed.1 listed
    have mine : r ∈ runs := (spec.kept r hr).resolve_right (by simp only at low; omega)
    exact mem_listed.2 ⟨r, mine, first, high, same⟩
  · exact horizon
  · refine ⟨rfl, update_self .., ⟨st.core.same.1.symm, st.core.same.2.symm⟩, fun p used => ?_, le_rfl, fun p hp => ?_, two⟩
    · have other : p ∉ (buildPages freeFormat runs v.layout.freelist : List (Nat × Page κ α)).map Prod.fst := by
        rw [keys_buildPages]
        exact st.core.used_not_free used
      have inside : p < d.view.length := by
        have := st.core.live p used.cases
        have := st.core.counted
        have := st.core.within
        omega
      exact (getElem?_writeAll_other inside other).trans (st.core.agree p used)
    · obtain ⟨⟨q, t⟩, listed, rfl⟩ := mem_map.1 hp
      obtain ⟨r, hr, -, high, -⟩ := mem_listed.1 listed
      exact high.trans_le (spec.inside r hr)
  · rfl
  · exact fun x hx => getElem?_writeAll_mem nodup hx
  · intro x hx
    have mine := mem_map_of_mem (f := Prod.fst) hx
    rw [keys_buildPages] at mine
    exact (st.same x.1 mine).symm.trans (st.laid rfl x hx)

/-! ## Writing the chain over itself -/

variable (kids past d σ v c v') in
/-- The disk while the pages `rest` of the chain are still to be written. -/
structure Trimming (rest : List (Nat × Page κ α)) : Prop where
  sound : Sound kids past d.view σ v 0
  slots : Slots d.view σ.info
  long : v.bound ≤ d.durable.length
  pending : ∀ op ∈ d.pending, op.Avoids (fun p => p < metaPages ∨ Vital kids past σ v 0 p) ∧ op.Spares v.bound
  own : ∀ p content, .write p content ∈ d.pending → p ∈ v.layout.freelist → (p, content) ∈ c.out
  durable : ∀ p ∈ v.layout.freelist, d.durable[p]? = v.image.file[p]?
  left : ∀ x ∈ rest, x ∈ c.out
  made : v'.image.file = writeAll d.view rest

lemma Standing.trimming (st : Standing kids past d σ v 0 true) (made : v'.image.file = writeAll d.view c.out) :
    Trimming kids past d σ v c v' c.out where
  sound := st.toSound
  slots := st.slots
  long := st.long
  pending op hop := (st.pending op hop).imp_left fun avoids => avoids.mono fun _ => Or.imp_right .inr
  own p content hop free := absurd (.inr (.inl free)) (st.pending _ hop).1
  durable p free := by
    have fixed : Fixed kids past σ v 0 p := .inr (.inl free)
    rw [← st.same p free]
    exact (getElem?_foldl fixed ((st.fixed_lt fixed).trans_le st.long) fun op hop => (st.pending op hop).1).symm
  left _ hx := hx
  made := made

namespace Trimming
variable {rest : List (Nat × Page κ α)} {x : Nat × Page κ α}

lemma free_of_out (cut : Cut kids past σ v c v') (hx : x ∈ c.out) : x.1 ∈ v.layout.freelist := by
  rw [cut.out] at hx
  have mine := mem_map_of_mem (f := Prod.fst) hx
  rwa [keys_buildPages] at mine

lemma free_lt (tr : Trimming kids past d σ v c v' rest) (free : p ∈ v.layout.freelist) :
    metaPages ≤ p ∧ p < v.bound := by
  have chain : p ∈ v.layout.chains := by simp [Layout.chains, Layout.others, free]
  have := tr.sound.core.live p (.inl chain)
  have := tr.sound.core.counted
  exact ⟨(tr.sound.core.of_chain chain).1, by omega⟩

lemma vital_lt (tr : Trimming kids past d σ v c v' rest) (h : p < metaPages ∨ Vital kids past σ v 0 p) :
    p < v.bound := by
  rcases h with low | vital
  · exact low.trans_le tr.sound.core.two_le
  have := (tr.sound.vital_lt vital).2
  have := tr.sound.core.counted
  omega

lemma write (tr : Trimming kids past d σ v c v' (x :: rest)) (cut : Cut kids past σ v c v') :
    Trimming kids past (d.write x.1 x.2) σ v c v' rest := by
  have out := tr.left x mem_cons_self
  have free := free_of_out cut out
  have long := tr.sound.core.within
  have apart : ∀ p, p < metaPages ∨ Vital kids past σ v 0 p → p ≠ x.1 := by
    rintro p (low | vital) rfl
    · exact absurd (tr.free_lt free).1 (by omega)
    · obtain used | ⟨snap, hs, newer, img, found, held⟩ := vital
      · exact tr.sound.core.used_not_free used free
      · refine ((tr.sound.readable_mem hs newer found).safe _ held).2.2.1 ?_
        simp [Layout.others, free]
  have same : ∀ p, p < metaPages ∨ Vital kids past σ v 0 p → (d.write x.1 x.2).view[p]? = d.view[p]? := by
    intro p h
    rw [view_write]
    exact getElem?_write_ne (apart p h) ((tr.vital_lt h).trans_le long)
  refine ⟨tr.sound.frame (fun p h => same p (.inr h)) ?_, tr.slots.congr fun p low => same p (.inl low), tr.long, ?_,
    fun p content hop mine => ?_, tr.durable, fun y hy => tr.left y (mem_cons_of_mem _ hy), ?_⟩
  · rw [view_write, length_write]
    omega
  · intro op hop
    rcases mem_append.1 hop with old | new
    · exact tr.pending op old
    · rw [mem_singleton.1 new]
      exact ⟨fun h => apart _ h rfl, trivial⟩
  · rcases mem_append.1 hop with old | new
    · exact tr.own p content old mine
    · cases mem_singleton.1 new
      exact out
  · rw [view_write]
    exact tr.made

/-- With its meta page durable, a truncation has happened, but for the end of the file. -/
lemma finish (tr : Trimming kids past d σ v c v' []) (cut : Cut kids past σ v c v') :
    Standing kids past (.of (DiskOp.apply d.view (.write c.state.info.slot c.state.info.encode))) c.state v' 0 true := by
  have made : v'.image.file = d.view := tr.made
  have low : c.state.info.slot < metaPages := slot_lt c.state.info
  have within := tr.sound.core.within
  have long : metaPages ≤ d.view.length := tr.sound.core.two_le.trans within
  have bound : v'.bound ≤ d.view.length := by
    have := cut.less.pageCount
    have := tr.sound.core.counted
    rw [cut.bound]
    omega
  have sound := cut.relay.sound tr.sound cut.less bound cut.horizon.2 fun _ _ => rfl
  have listing : Listing d.view c.state v' true := by
    refine ⟨?_, fun _ x hx => ?_, fun _ => cut.inside⟩
    · rw [sound.core.head, cut.relay.layout]
      refine chain_of_written ?_ ?_ ?_
      · exact cut.start.length_le.trans cut.room
      · intro p hp zero
        have := (tr.free_lt hp).1
        rw [metaPages] at this
        omega
      · rw [← cut.out, ← made]
        exact cut.written
    · rw [cut.relay.layout, ← cut.out] at hx
      rw [← made]
      exact cut.written x hx
  have free := fun p (h : p ∈ v'.layout.freelist) => sound.core.write_low_free low c.state.info.encode h
  have sound' := sound.write_low low c.state.info.encode
  refine ⟨⟨sound', listing.frame free, tr.slots.flip cut.txnId long⟩, fun p h => ?_, sound'.core.within,
    fun op hop => by cases hop⟩
  rw [made]
  exact free p h

/-! ## Crashes -/

def Untorn (c : Change κ α) (d : Disk (Page κ α)) (fates : List (Fate (Page κ α))) : Prop :=
  ∀ (i p : Nat) (content garbage : Page κ α), d.pending[i]? = some (.write p content) →
    fates[i]? = some (.torn garbage) → p ∉ c.out.map Prod.fst

variable {fates : List (Fate (Page κ α))}

section
variable (tr : Trimming kids past d σ v c v' rest)
include tr

/-- After a crash a page of the chain has what it had or what it was to have. -/
lemma mixed (cut : Cut kids past σ v c v') (untorn : Untorn c d fates) (free : p ∈ v.layout.freelist) :
    (d.crash spoil fates)[p]? = v.image.file[p]? ∨
      ∃ content, (p, content) ∈ c.out ∧ (d.crash spoil fates)[p]? = some content := by
  have inside := (tr.free_lt free).2.trans_le tr.long
  rw [← tr.durable p free]
  refine getElem?_foldl_or (P := fun content => (p, content) ∈ c.out) inside fun op hop => ?_
  rcases mem_survivors hop with old | ⟨i, q, content, garbage, old, torn, rfl⟩
  · cases op with
    | write q content =>
      by_cases same : q = p
      · subst same
        exact .inr ⟨content, rfl, tr.own q content old free⟩
      · exact .inl same
    | resize pages =>
      refine .inl ?_
      rintro q rfl
      exact (tr.free_lt free).2.trans_le (tr.pending _ old).2
  · refine .inl fun same => ?_
    subst same
    refine untorn i q content garbage old torn ?_
    rw [cut.out, keys_buildPages]
    exact free

/-- The list read from the chain after a crash is part of what it was. -/
lemma mixed_chain (cut : Cut kids past σ v c v') (untorn : Untorn c d fates) : ∃ runs, runs.Sublist σ.freelist.runs ∧
      Chain (fetch freeFormat (d.crash spoil fates)) σ.info.freelist v.layout.freelist runs := by
  rw [tr.sound.core.head]
  refine Chain.mix (freeFormat.page : _ → _ → Page κ α) cut.start cut.room ?_
  intro p next here here' old new short short' inside
  have free : p ∈ v.layout.freelist := free_of_out cut (x := (p, _)) (by rw [cut.out]; exact new)
  have real : ∀ q ∈ next, q ≠ 0 := by
    intro q hq zero
    have := (tr.free_lt (inside q hq)).1
    rw [metaPages] at this
    omega
  rcases tr.mixed cut untorn free with before | ⟨content, out, after⟩
  · exact .inl (fetch_page (before.trans (cut.laid _ old)) short real)
  have planned := cut.written (p, freeFormat.page next here') (by rw [cut.out]; exact new)
  rw [cut.written _ out] at planned
  exact .inr (fetch_page (after.trans planned) short' real)

/-- What a crash leaves alone while the chain is being written. -/
lemma spared (fates : List (Fate (Page κ α))) :
    Sound kids past (d.crash spoil fates) σ v 0 ∧ Slots (d.crash spoil fates) σ.info := by
  have avoids := fun op hop => (tr.pending op hop).1
  have same : ∀ p, p < metaPages ∨ Vital kids past σ v 0 p → (d.crash spoil fates)[p]? = d.view[p]? := by
    intro p h
    have inside := (tr.vital_lt h).trans_le tr.long
    exact (crash_eq_durable avoids h inside).trans (getElem?_foldl h inside avoids).symm
  refine ⟨tr.sound.frame (fun p h => same p (.inr h)) ?_, tr.slots.congr fun p low => same p (.inl low)⟩
  exact length_le_crash tr.long fun op hop => (tr.pending op hop).2

end

end Trimming

variable (kids past file σ v c v') in
/-- What opening the file finds after a crash during a truncation: the same content, with the meta page
of before or the new one, and no more free pages than before. -/
def Shrunk : Prop :=
  ∃ τ u, Lesser σ τ c.horizon ∧ Found kids past file τ u 0 false ∧
    (τ.info = σ.info ∧ u.image = v.image ∨ τ.info = c.state.info ∧ u.image = v'.image)

section Crash
variable {runs : List FreeRun} (cut : Cut kids past σ v c v') (sound : Sound kids past file σ v 0)
  (sub : runs.Sublist σ.freelist.runs) (chain : Chain (fetch freeFormat file) σ.info.freelist v.layout.freelist runs)
include cut sound sub chain

omit cut chain in
lemma listed_lt : ∀ p ∈ Freelist.pgnos ⟨runs⟩, p < v.bound := by
  intro p hp
  have all : Freelist.listed ⟨runs⟩ ⊆ σ.freelist.listed := (sub.flatMap FreeRun.pages).subset
  obtain ⟨x, hx, rfl⟩ := mem_map.1 hp
  exact (sound.core.of_free (mem_map_of_mem (all hx))).2.2.2

/-- The meta page is the old one. -/
lemma Shrunk.old (slots : Slots file σ.info) : Shrunk kids past file σ v c v' := by
  have less : Lesser σ { σ with freelist := ⟨runs⟩ } c.horizon :=
    ⟨⟨rfl, rfl, rfl, rfl⟩, rfl, rfl, rfl, le_rfl, sub, le_rfl, fun p low high => absurd low (by simpa using high)⟩
  have relay : Relay kids v v { σ with freelist := ⟨runs⟩ } past :=
    ⟨rfl, sound.core.image, ⟨rfl, rfl⟩, fun _ _ => rfl, sound.core.counted, listed_lt sound sub, sound.core.two_le⟩
  refine ⟨_, v, less, ⟨relay.sound sound less sound.core.within cut.horizon.2 fun _ _ => rfl, ⟨chain, ?_, ?_⟩, slots⟩,
    .inl ⟨rfl, rfl⟩⟩
  · exact nofun
  · exact nofun

/-- The meta page is the new one. -/
lemma Shrunk.new (slots : Slots file σ.info) :
    Shrunk kids past (DiskOp.apply file (.write c.state.info.slot c.state.info.encode)) σ v c v' := by
  have less : Lesser σ { c.state with freelist := ⟨runs⟩ } c.horizon := { cut.less with runs := sub }
  have lt := listed_lt sound sub
  have relay : Relay kids v { v' with bound := v.bound } { c.state with freelist := ⟨runs⟩ } past :=
    { cut.relay with
      counted := cut.less.pageCount.trans sound.core.counted
      listed := lt
      two := sound.core.two_le }
  have low : c.state.info.slot < metaPages := slot_lt c.state.info
  have long : metaPages ≤ file.length := sound.core.two_le.trans sound.core.within
  have sound' := relay.sound sound less sound.core.within cut.horizon.2 fun _ _ => rfl
  have listing : Listing file { c.state with freelist := ⟨runs⟩ } { v' with bound := v.bound } false := by
    refine ⟨?_, fun h => (by cases h), fun h => (by cases h)⟩
    rw [cut.relay.layout, cut.less.heads.2.1]
    exact chain
  have free := fun p h => sound'.core.write_low_free (p := p) low c.state.info.encode h
  exact ⟨_, _, less, ⟨sound'.write_low low _, listing.frame free, slots.flip cut.txnId long⟩, .inr ⟨rfl, rfl⟩⟩

/-- The meta page was torn. -/
lemma Shrunk.torn (slots : Slots file σ.info) :
    Shrunk kids past (DiskOp.apply file (.write c.state.info.slot .damaged)) σ v c v' := by
  have low : c.state.info.slot < metaPages := slot_lt c.state.info
  have long : metaPages ≤ file.length := sound.core.two_le.trans sound.core.within
  refine Shrunk.old cut (sound.write_low low .damaged) sub ?_ (slots.torn cut.txnId long)
  exact chain_congr chain fun p h => sound.core.write_low_free low .damaged h

end Crash

/-! ## Stages -/

variable (kids past d σ v c v') in
/-- The disk at each stage of a truncation. Once the meta page is durable it stands on the new state, and
whoever reads the state before is as safe as before. -/
def Narrowing : TruncateStage κ α → Prop
  | .pages rest => Trimming kids past d σ v c v' rest
  | .confirm => ∃ d₀, Trimming kids past d₀ σ v c v' [] ∧ d = d₀.write c.state.info.slot c.state.info.encode
  | .cut | .publish => Standing kids past d c.state v' 0 true ∧ Guard kids past d.view c.state v' σ.info.txnId v.image

variable (σ v c v') in
def TruncateStage.held : TruncateStage κ α → StoreState κ × Survey κ α
  | .pages _ | .confirm => (σ, v)
  | .cut | .publish => (c.state, v')

/-- The stage that comes next, if the truncation is not over, and what it makes of the disk. -/
def TruncateStage.next (c : Change κ α) (d : Disk (Page κ α)) :
    TruncateStage κ α → Option (Disk (Page κ α) × TruncateStage κ α)
  | .pages (x :: rest) => some (d.write x.1 x.2, .pages rest)
  | .pages [] => some (d.write c.state.info.slot c.state.info.encode, .confirm)
  | .confirm => some (d.sync, .cut)
  | .cut => some (d.truncate c.state.info.pageCount, .publish)
  | .publish => none

section Steps
variable {stage stage' : TruncateStage κ α} (cut : Cut kids past σ v c v')
include cut

section
variable (h : Narrowing kids past d σ v c v' stage)
include h

omit cut in
lemma Narrowing.sound : Sound kids past d.view (stage.held σ v c v').1 (stage.held σ v c v').2 0 := by
  cases stage with
  | pages rest => exact Trimming.sound h
  | confirm =>
    obtain ⟨d₀, tr, rfl⟩ := h
    rw [view_write]
    exact tr.sound.write_low (slot_lt c.state.info) _
  | cut | publish => exact h.1.toSound

/-- Nothing that anyone not older than the horizon reads is touched. -/
lemma Narrowing.carry {t : Nat} {img : Image κ α} (next : stage.next c d = some (d', stage'))
    (guard : Guard kids past d.view (stage.held σ v c v').1 (stage.held σ v c v').2 t img) (newer : c.horizon ≤ t) :
    Guard kids past d'.view (stage'.held σ v c v').1 (stage'.held σ v c v').2 t img := by
  have core := (h.sound).core
  cases stage with
  | pages rest =>
    cases rest with
    | nil =>
      cases next
      rw [view_write]
      exact guard.write_low (slot_lt c.state.info) core _
    | cons x rest =>
      cases next
      have free := Trimming.free_of_out cut (Trimming.left h x mem_cons_self)
      refine guard.frame fun p held => ?_
      obtain ⟨-, high, other, -⟩ := guard.safe p held
      have := core.counted
      have := core.within
      have apart : p ≠ x.1 := by
        rintro rfl
        exact other (by simp [TruncateStage.held, Layout.others, free])
      rw [view_write]
      exact getElem?_write_ne apart (by omega)
  | confirm =>
    cases next
    exact Guard.lesser cut.less guard newer rfl cut.relay.layout
  | cut =>
    cases next
    refine guard.frame fun p held => ?_
    have high : p < c.state.info.pageCount := (guard.safe p held).2.1
    rw [Disk.truncate]
    split_ifs
    · rw [view_perform]
      exact getElem?_resize high (by omega)
    · rfl
  | publish => cases next

/-- One step of a truncation. -/
lemma Narrowing.next (next : stage.next c d = some (d', stage')) : Narrowing kids past d' σ v c v' stage' := by
  cases stage with
  | pages rest =>
    cases rest with
    | nil =>
      cases next
      exact ⟨d, h, rfl⟩
    | cons x rest =>
      cases next
      exact Trimming.write h cut
  | confirm =>
    have guard := h.carry cut next (h.sound).core.guard cut.horizon.1
    cases next
    obtain ⟨d₀, tr, rfl⟩ := h
    refine ⟨?_, guard⟩
    rw [Disk.sync, view_write]
    exact tr.finish cut
  | cut =>
    have guard := h.carry cut next h.2 cut.horizon.1
    cases next
    obtain ⟨st, -⟩ := h
    refine ⟨?_, guard⟩
    rw [Disk.truncate]
    split_ifs
    · refine st.perform (fun q fixed => ?_) cut.bound.le
      have := st.fixed_lt fixed
      rwa [cut.bound] at this
    · exact st
  | publish => cases next

/-- A crash during a truncation. -/
lemma Narrowing.crash {fates : List (Fate (Page κ α))} (untorn : Trimming.Untorn c d fates) :
    Shrunk kids past (d.crash spoil fates) σ v c v' := by
  cases stage with
  | pages rest =>
    have tr : Trimming kids past d σ v c v' rest := h
    obtain ⟨runs, sub, chain⟩ := tr.mixed_chain cut untorn
    obtain ⟨sound, slots⟩ := tr.spared fates
    exact .old cut sound sub chain slots
  | confirm =>
    obtain ⟨d₀, tr, rfl⟩ := h
    have untorn₀ : Trimming.Untorn c d₀ fates := by
      intro i p content garbage found torn
      refine untorn i p content garbage ?_ torn
      have short := lt_of_getElem? found
      rw [Disk.write, Disk.perform, List.getElem?_append_left short]
      exact found
    obtain ⟨runs, sub, chain⟩ := tr.mixed_chain cut untorn₀
    obtain ⟨sound, slots⟩ := tr.spared fates
    rcases crash_perform spoil d₀ (.write c.state.info.slot c.state.info.encode) fates with
      lost | ⟨fate, op, -, leaves, left⟩
    · rw [Disk.write, lost]
      exact .old cut sound sub chain slots
    rw [Disk.write, left]
    cases fate with
    | lost => cases leaves
    | kept =>
      cases leaves
      exact .new cut sound sub chain slots
    | torn garbage =>
      cases leaves
      exact .torn cut sound sub chain slots
  | cut | publish => exact ⟨c.state, v', cut.less, ((h.1.crash fates).tidy_le fun _ => rfl).toFound, .inr ⟨rfl, rfl⟩⟩

end

end Steps

end BigDb.Pager
