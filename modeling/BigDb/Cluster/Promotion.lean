import BigDb.Cluster.Mutations

/-!
# What a promotion proposes

`promotion_for` makes three passes over a copy of the map, each reading what the one before it
wrote: silent holders are marked behind, a range whose primary is silent goes to the first copy that
is answering and not marked, and the namespace goes to another node when the one that holds it has
been silent for longer still. A promotion that has been made leaves nothing to promote at the same
instant, which needs the last wait to be no shorter than the first: a node that is too quiet for the
namespace but not for its ranges could be given a range in one pass and be marked in the next.
-/

namespace BigDb.Cluster
open RangeMap List

section Passes
variable (live : NodeId → Bool) (m : RangeMap)

/-- The holders of every range that has a copy. -/
def replicated : List NodeId := ((m.ranges.filter fun range => 1 < range.group.length).map Range.group).flatten

/-- The first pass: the map with the silent holders marked, and whether one was. -/
def marksSilent : RangeMap × Bool :=
  let (next, changed) := (replicated m).foldl (markSilent live) (m, false)
  ({ next with stale := next.stale.mergeSort (· ≤ ·) }, changed)

/-- The second pass: every range with a silent primary goes to its replacement. -/
def replacesPrimaries : RangeMap :=
  { m with ranges := m.ranges.map fun range =>
      { range with primary := (replacement live m range).getD range.primary } }

variable (leases : Leases) (r : Raft) (now : Nat)

/-- The map after all three passes, and whether anything is different. -/
def promotes : RangeMap × Bool :=
  let live := heardWithin r now leases.promoteAfter
  let (next, changed) := marksSilent live m
  moveSchema leases r now live
    (replacesPrimaries live next, changed || next.ranges.any fun range => (replacement live next range).isSome)

lemma promotionFor_eq : promotionFor leases r now m = if !r.settled then none
    else if !(promotes m leases r now).2 then none else match (promotes m leases r now).1.checkWith r.members with
      | .error _ => none
      | .ok _ => some { (promotes m leases r now).1 with epoch := (promotes m leases r now).1.epoch + 1 } := rfl

variable {live m}

/-! ## One pass after another -/

lemma mem_foldl_markSilent (live : NodeId → Bool) (nodes : List NodeId) (state : RangeMap × Bool) {node : NodeId}
    (hnode : node ∈ nodes) (silent : live node = false) : node ∈ (nodes.foldl (markSilent live) state).1.stale := by
  induction nodes generalizing state with
  | nil => cases hnode
  | cons x nodes ih =>
    rw [foldl_cons]
    rcases mem_cons.1 hnode with rfl | hnode
    · obtain ⟨more, hmore⟩ := foldl_markSilent live nodes (markSilent live state node)
      rw [hmore]
      apply mem_append_left
      unfold markSilent
      split
      · simp
      · next marked =>
        rw [silent, Bool.not_false, Bool.true_and, Bool.not_eq_true', Bool.not_eq_false] at marked
        exact isStale_iff.1 marked
    · exact ih _ hnode

/-- Where every silent node is marked already, marking does nothing. -/
lemma foldl_markSilent_idle (nodes : List NodeId) (state : RangeMap × Bool)
    (h : ∀ node ∈ nodes, live node = false → node ∈ state.1.stale) : nodes.foldl (markSilent live) state = state := by
  induction nodes with
  | nil => rfl
  | cons node nodes ih =>
    have idle : markSilent live state node = state := by
      refine if_neg fun marks => ?_
      rw [Bool.and_eq_true, Bool.not_eq_true', Bool.not_eq_true'] at marks
      rw [isStale_iff.2 (h node mem_cons_self marks.1)] at marks
      cases marks.2
    rw [foldl_cons, idle]
    exact ih fun x hx => h x (mem_cons_of_mem _ hx)

section
variable (live : NodeId → Bool)

/-- What the first pass does. -/
structure Marks (m next : RangeMap) : Prop where
  frame : next = { m with stale := next.stale }
  grows : ∀ node ∈ m.stale, node ∈ next.stale
  silent : ∀ node ∈ replicated m, live node = false → node ∈ next.stale

lemma marks_marksSilent (m : RangeMap) : Marks live m (marksSilent live m).1 := by
  obtain ⟨more, hmore⟩ := foldl_markSilent live (replicated m) (m, false)
  have stale : (marksSilent live m).1 = { m with stale := (m.stale ++ more).mergeSort (· ≤ ·) } := by
    unfold marksSilent
    dsimp only
    rw [hmore]
  refine ⟨by rw [stale], fun node hnode => ?_, fun node hnode silent => ?_⟩
  · rw [stale]
    exact mem_mergeSort.2 (mem_append_left _ hnode)
  · have marked := mem_foldl_markSilent live (replicated m) (m, false) hnode silent
    exact mem_mergeSort.2 marked

/-- A second time the first pass finds nothing. -/
lemma marksSilent_idle (m : RangeMap) (h : ∀ node ∈ replicated m, live node = false → node ∈ m.stale) :
    marksSilent live m = ({ m with stale := m.stale.mergeSort (· ≤ ·) }, false) := by
  unfold marksSilent
  rw [foldl_markSilent_idle _ _ h]

end

variable {range : Range} {m' : RangeMap}

lemma replacement_some {node : NodeId} (h : replacement live m range = some node) :
    live range.primary = false ∧ node ∈ range.group ∧ live node = true ∧ node ∉ m.stale := by
  unfold replacement at h
  split at h
  · cases h
  · next silent =>
    have found := find?_some h
    rw [Bool.and_eq_true, Bool.not_eq_true'] at found
    refine ⟨Bool.not_eq_true _ ▸ silent, mem_of_find?_eq_some h, found.1, fun marked => ?_⟩
    rw [isStale_iff.2 marked] at found
    cases found.2

/-- A range that found no replacement finds none among more marks. -/
lemma replacement_none (h : replacement live m range = none)
    (more : ∀ node ∈ m.stale, node ∈ m'.stale) : replacement live m' range = none := by
  unfold replacement at h ⊢
  split
  · rfl
  · next silent =>
    rw [if_neg silent, find?_eq_none] at h
    rw [find?_eq_none]
    intro node hnode found
    rw [Bool.and_eq_true, Bool.not_eq_true'] at found
    refine h node hnode ?_
    rw [Bool.and_eq_true, Bool.not_eq_true']
    refine ⟨found.1, Bool.eq_false_iff.2 fun marked => ?_⟩
    rw [isStale_iff.2 (more node (isStale_iff.1 marked))] at found
    cases found.2

variable {leases r now}

/-- What the third pass does. -/
inductive SchemaMove (leases : Leases) (r : Raft) (now : Nat) (live : NodeId → Bool) (m : RangeMap) (c : Bool) :
    RangeMap × Bool → Prop where
  | stays (still : ∀ after, leases.moveSchemaAfter = some after →
      heardWithin r now after m.schemaLeader = true ∨ schemaSuccessor r live m = none) :
      SchemaMove leases r now live m c (m, c)
  | moves {after successor : Nat} {stale : List NodeId} (on : leases.moveSchemaAfter = some after)
      (silent : heardWithin r now after m.schemaLeader = false)
      (found : schemaSuccessor r live m = some successor)
      (marks : ∀ node, node ∈ stale ↔ node ∈ m.stale ∨ node = m.schemaLeader) :
      SchemaMove leases r now live m c
        ({ m with schemaLeader := successor, schemaReady := false, stale := stale }, true)

lemma schemaMove (leases : Leases) (r : Raft) (now : Nat) (live : NodeId → Bool) (m : RangeMap) (c : Bool) :
    SchemaMove leases r now live m c (moveSchema leases r now live (m, c)) := by
  unfold moveSchema
  split
  · next off => exact .stays fun after on => by rw [off] at on; cases on
  · next after on =>
    dsimp only
    split
    · next heard =>
      refine .stays fun after' on' => .inl ?_
      rw [on] at on'
      cases on'
      exact heard
    · next silent =>
      split
      · next none => exact .stays fun _ _ => .inr none
      · next successor found =>
        split
        · next marked =>
          refine .moves on (Bool.not_eq_true _ ▸ silent) found fun node => ?_
          constructor
          · exact .inl
          · rintro (hnode | rfl)
            · exact hnode
            · exact isStale_iff.1 marked
        · refine .moves on (Bool.not_eq_true _ ▸ silent) found fun node => ?_
          rw [mem_mergeSort, mem_append, mem_singleton]

lemma schemaSuccessor_some {node : NodeId} (h : schemaSuccessor r live m = some node) :
    (r.members[node]?).any Member.takesRanges = true ∧ live node = true ∧ node ∉ m.stale := by
  have found := find?_some h
  simp only [Bool.and_eq_true, Bool.not_eq_true'] at found
  refine ⟨found.1.1, found.1.2, fun marked => ?_⟩
  rw [isStale_iff.2 marked] at found
  cases found.2

/-- Only the marks are read of the map. -/
lemma schemaSuccessor_congr (h : ∀ node, node ∈ m'.stale ↔ node ∈ m.stale) :
    schemaSuccessor r live m' = schemaSuccessor r live m := by
  unfold schemaSuccessor isStale
  simp only [h]

/-! ## All three -/

/-- A node heard within a time is heard within any longer one. -/
lemma heardWithin_mono {short long : Nat} (h : short ≤ long) {node : NodeId}
    (heard : heardWithin r now short node = true) : heardWithin r now long node = true := by
  unfold heardWithin at heard ⊢
  simp only [Bool.or_eq_true, decide_eq_true_eq] at heard ⊢
  exact heard.imp_right fun recent => recent.trans_le h

/-- The namespace is not moved on a silence that would not move a range. -/
def SchemaLast (leases : Leases) : Prop :=
  ∀ after, leases.moveSchemaAfter = some after → leases.promoteAfter ≤ after

variable (live m range) in
/-- The primary each range is left with. -/
def promotedTo : NodeId :=
  (replacement live (marksSilent live m).1 range).getD range.primary

section Promotes
variable (m leases r now)

/-- The map the third pass starts from. -/
def refilled : RangeMap :=
  replacesPrimaries (heardWithin r now leases.promoteAfter) (marksSilent (heardWithin r now leases.promoteAfter) m).1

lemma refilled_eq : refilled m leases r now = { m with
      ranges := m.ranges.map fun range =>
        { range with primary := promotedTo (heardWithin r now leases.promoteAfter) m range }
      stale := (marksSilent (heardWithin r now leases.promoteAfter) m).1.stale } := by
  unfold refilled replacesPrimaries promotedTo
  generalize hmarked : (marksSilent (heardWithin r now leases.promoteAfter) m).1 = marked
  have frame := (marks_marksSilent (heardWithin r now leases.promoteAfter) m).frame
  rw [hmarked] at frame
  cases marked
  obtain ⟨rfl, rfl, rfl, rfl, rfl⟩ := frame
  rfl

/-- The whole, as its third pass. -/
lemma promotes_schemaMove : ∃ c, SchemaMove leases r now (heardWithin r now leases.promoteAfter)
    (refilled m leases r now) c (promotes m leases r now) := ⟨_, schemaMove _ _ _ _ _ _⟩

lemma promotes_frame : ∃ leader ready stale, (promotes m leases r now).1 =
    { refilled m leases r now with schemaLeader := leader, schemaReady := ready, stale := stale } ∧
      ∀ node ∈ (refilled m leases r now).stale, node ∈ stale := by
  obtain ⟨c, moved⟩ := promotes_schemaMove m leases r now
  generalize promotes m leases r now = done at moved ⊢
  cases moved with
  | stays => exact ⟨_, _, _, rfl, fun _ h => h⟩
  | moves _ _ _ marks => exact ⟨_, _, _, rfl, fun node h => (marks node).2 (.inl h)⟩

variable {m leases r now}

/-- A mark that the third pass added is on a silent node. -/
lemma mem_promotes_stale (last : SchemaLast leases) {node : NodeId} (h : node ∈ (promotes m leases r now).1.stale) :
    node ∈ (refilled m leases r now).stale ∨ heardWithin r now leases.promoteAfter node = false := by
  obtain ⟨c, moved⟩ := promotes_schemaMove m leases r now
  generalize promotes m leases r now = done at moved h
  cases moved with
  | stays => exact .inl h
  | moves on silent _ marks =>
    rcases (marks node).1 h with h | rfl
    · exact .inl h
    refine .inr (Bool.eq_false_iff.2 fun heard => ?_)
    rw [heardWithin_mono (last _ on) heard] at silent
    cases silent

/-- A node that is answering and was not marked before the third pass is not marked after it. -/
lemma not_mem_promotes_stale (last : SchemaLast leases) {node : NodeId}
    (live : heardWithin r now leases.promoteAfter node = true)
    (fresh : node ∉ (refilled m leases r now).stale) : node ∉ (promotes m leases r now).1.stale := by
  intro marked
  rcases mem_promotes_stale last marked with old | silent
  · exact fresh old
  · rw [live] at silent
    cases silent

variable (m leases r now range) in
lemma promotedTo_cases :
    promotedTo (heardWithin r now leases.promoteAfter) m range = range.primary ∨ heardWithin r now leases.promoteAfter
          (promotedTo (heardWithin r now leases.promoteAfter) m range) = true ∧
        promotedTo (heardWithin r now leases.promoteAfter) m range ∈ range.group ∧
        promotedTo (heardWithin r now leases.promoteAfter) m range ∉ (refilled m leases r now).stale := by
  rw [refilled_eq]
  unfold promotedTo
  cases hrep : replacement (heardWithin r now leases.promoteAfter) _ range with
  | none => exact .inl rfl
  | some node =>
    obtain ⟨-, held, live, fresh⟩ := replacement_some hrep
    exact .inr ⟨live, held, fresh⟩

/-- The new holder of the namespace, if it is another. -/
lemma promotes_schemaLeader (last : SchemaLast leases)
    (h : (promotes m leases r now).1.schemaLeader ≠ m.schemaLeader) :
    heardWithin r now leases.promoteAfter (promotes m leases r now).1.schemaLeader = true ∧
      (promotes m leases r now).1.schemaLeader ∉ (promotes m leases r now).1.stale ∧
      (r.members[(promotes m leases r now).1.schemaLeader]?).any Member.takesRanges = true := by
  have unmarked := fun node => @not_mem_promotes_stale m leases r now last node
  obtain ⟨c, moved⟩ := promotes_schemaMove m leases r now
  generalize promotes m leases r now = done at moved h unmarked ⊢
  cases moved with
  | stays => exact (h (by rw [refilled_eq])).elim
  | moves on silent found marks =>
    obtain ⟨takes, live, fresh⟩ := schemaSuccessor_some found
    exact ⟨live, unmarked _ live fresh, takes⟩

/-! ### The check -/

/-- Other primaries, each one of the group, keep the shape. -/
lemma shaped_promote {rs : List Range} (h : Shaped rs) (primary : Range → NodeId)
    (held : ∀ range ∈ rs, primary range ∈ range.group) :
    Shaped (rs.map fun range => { range with primary := primary range }) where
  ids := by
    rw [map_map]
    exact h.ids
  held := forall_mem_map.2 held
  tiled := by
    have tiled := h.tiled
    clear held h
    induction rs with
    | nil => exact tiled
    | cons a rs ih =>
      cases rs with
      | nil => exact tiled
      | cons b rs => exact ⟨tiled.1, tiled.2.1, ih tiled.2.2⟩
  first := by
    intro x hx
    rw [head?_map] at hx
    obtain ⟨range, hrange, rfl⟩ := Option.map_eq_some_iff.1 hx
    exact h.first range hrange

lemma checkWith_iff {members : List Member} : m.checkWith members = .ok () ↔ m.check = .ok () ∧
    ∃ n, members[m.schemaLeader]? = some n ∧ n.reachable = true ∧ n.state ≠ .learner := by
  unfold checkWith
  cases m.check with
  | error e => simp [bind, Except.bind]
  | ok =>
    simp only [bind, Except.bind, true_and]
    cases members[m.schemaLeader]? with
    | none => simp
    | some n => cases hr : n.reachable <;> by_cases hl : n.state = .learner <;> simp [hr, hl]

/-- **A promotion passes the check that the map passed.** -/
lemma promotes_checkWith (leases : Leases) (now : Nat) (checked : m.checkWith r.members = .ok ()) :
    (promotes m leases r now).1.checkWith r.members = .ok () := by
  obtain ⟨shaped, n, hn, reachable, grown⟩ := checkWith_iff.1 checked
  have shaped := check_iff.1 shaped
  rw [checkWith_iff, check_iff]
  constructor
  · obtain ⟨leader, ready, stale, frame, -⟩ := promotes_frame m leases r now
    rw [frame, refilled_eq]
    refine shaped_promote shaped _ fun range hrange => ?_
    rcases promotedTo_cases m leases r now range with same | ⟨-, held, -⟩
    · exact same ▸ shaped.held range hrange
    · exact held
  · obtain ⟨c, moved⟩ := promotes_schemaMove m leases r now
    generalize promotes m leases r now = done at moved ⊢
    cases moved with
    | stays => exact ⟨n, by rw [refilled_eq]; exact hn, reachable, grown⟩
    | @moves _ successor _ _ _ found _ =>
      -- a voter can be reached, and is no learner
      have takes := (schemaSuccessor_some found).1
      cases hmember : r.members[successor]? with
      | none =>
        rw [hmember] at takes
        cases takes
      | some voter =>
        rw [hmember] at takes
        have votes : voter.state = .voter := of_decide_eq_true takes
        exact ⟨voter, rfl, by simp [Member.reachable, votes], by simp [votes]⟩

/-! ### A second time -/

lemma replicated_promoted (primary : Range → NodeId) {m' : RangeMap}
    (h : m'.ranges = m.ranges.map fun range => { range with primary := primary range }) :
    replicated m' = replicated m := by
  unfold replicated
  rw [h, filter_map, map_map]
  rfl

/-- **Nothing is left to promote.** -/
lemma promotes_idle (last : SchemaLast leases) {next : RangeMap}
    (h : next = { (promotes m leases r now).1 with epoch := next.epoch }) :
    (promotes next leases r now).2 = false := by
  obtain ⟨leader, ready, stale, frame, more⟩ := promotes_frame m leases r now
  have marks := marks_marksSilent (heardWithin r now leases.promoteAfter) m
  have hranges : next.ranges = m.ranges.map fun range =>
      { range with primary := promotedTo (heardWithin r now leases.promoteAfter) m range } := by
    rw [h, frame, refilled_eq]
  have hstale : ∀ node ∈ (marksSilent (heardWithin r now leases.promoteAfter) m).1.stale, node ∈ next.stale := by
    rw [h, frame]
    rw [refilled_eq] at more
    exact more
  -- the first pass: every silent holder is marked
  have first := marksSilent_idle (heardWithin r now leases.promoteAfter) next (by
    intro node hnode silent
    rw [replicated_promoted _ hranges] at hnode
    exact hstale node (marks.silent node hnode silent))
  -- the second: a range has a primary that answers, or nobody to give it
  have second : ∀ range ∈ next.ranges, replacement (heardWithin r now leases.promoteAfter)
      { next with stale := next.stale.mergeSort (· ≤ ·) } range = none := by
    rw [hranges]
    refine forall_mem_map.2 fun range _ => ?_
    unfold promotedTo
    cases hrep : replacement (heardWithin r now leases.promoteAfter) _ range with
    | none => exact replacement_none hrep fun node hnode => mem_mergeSort.2 (hstale node hnode)
    | some node => exact if_pos (replacement_some hrep).2.2.1
  -- the third: the namespace is held by a node that answers, or there is nobody to give it
  have third : ∀ after, leases.moveSchemaAfter = some after → heardWithin r now after next.schemaLeader = true ∨
        schemaSuccessor r (heardWithin r now leases.promoteAfter) next = none := by
    rw [h]
    obtain ⟨c, moved⟩ := promotes_schemaMove m leases r now
    generalize promotes m leases r now = done at moved
    cases moved with
    | stays still => exact still
    | moves _ _ found _ =>
      intro after on
      exact .inl (heardWithin_mono (last after on) (schemaSuccessor_some found).2.1)
  have still : promotes next leases r now = moveSchema leases r now (heardWithin r now leases.promoteAfter)
      (replacesPrimaries (heardWithin r now leases.promoteAfter)
        { next with stale := next.stale.mergeSort (· ≤ ·) }, false) := by
    unfold promotes
    dsimp only
    rw [first]
    have none : (next.ranges.any fun range => (replacement (heardWithin r now leases.promoteAfter)
        { next with stale := next.stale.mergeSort (· ≤ ·) } range).isSome) = false := by
      rw [any_eq_false]
      intro range hrange
      rw [second range hrange]
      simp
    simp only [none, Bool.or_false]
  rw [still]
  have moved := schemaMove leases r now (heardWithin r now leases.promoteAfter)
    (replacesPrimaries (heardWithin r now leases.promoteAfter)
      { next with stale := next.stale.mergeSort (· ≤ ·) }) false
  generalize moveSchema leases r now _ _ = done at moved ⊢
  cases moved with
  | stays => rfl
  | moves on silent found _ =>
    rcases third _ on with heard | nobody
    · exact absurd (heard.symm.trans silent) (by simp)
    rw [schemaSuccessor_congr (m := next) fun node => mem_mergeSort] at found
    rw [nobody] at found
    cases found

end Promotes

end Passes

/-- **A promotion is sound and leaves nothing to promote**, where the namespace is not moved on a
silence that would not move a range. The map passes its check before and after; ranges keep all
but their primaries, which go to copies that answer and are not marked in the result. -/
theorem promotion_is_sound_and_stable (leases : Leases) (last : SchemaLast leases) (r : Raft) (now : Nat)
    (current : RangeMap) (settled : r.settled = true) (checked : current.checkWith r.members = .ok ()) :
    promotionFor leases r now current = none ∨ ∃ next, promotionFor leases r now current = some next ∧
      next.epoch = current.epoch + 1 ∧ next.reserved = current.reserved ∧
      (∃ primary : Range → NodeId,
        next.ranges = current.ranges.map (fun range => { range with primary := primary range }) ∧
        ∀ range ∈ current.ranges, primary range ≠ range.primary →
          heardWithin r now leases.promoteAfter (primary range) = true ∧ primary range ∈ range.group ∧
            next.isStale (primary range) = false) ∧
      (∀ node, current.isStale node = true → next.isStale node = true) ∧
      (next.schemaLeader ≠ current.schemaLeader → heardWithin r now leases.promoteAfter next.schemaLeader = true ∧
          next.isStale next.schemaLeader = false ∧
          (r.members[next.schemaLeader]?).any Member.takesRanges = true) ∧
      next.checkWith r.members = .ok () ∧ promotionFor leases r now next = none := by
  have passes := promotes_checkWith leases now checked
  rw [promotionFor_eq, settled, Bool.not_true, if_neg Bool.false_ne_true]
  split
  · exact .inl rfl
  obtain ⟨leader, ready, stale, frame, more⟩ := promotes_frame current leases r now
  set m := (promotes current leases r now).1
  refine .inr ⟨{ m with epoch := m.epoch + 1 }, by rw [passes], ?_⟩
  have grows : ∀ node ∈ current.stale, node ∈ m.stale := by
    intro node hnode
    have marked := (marks_marksSilent (heardWithin r now leases.promoteAfter) current).grows node hnode
    rw [refilled_eq] at more
    rw [frame]
    exact more node marked
  have unmarked : ∀ node, node ∉ m.stale →
      isStale { m with epoch := m.epoch + 1 } node = false := by
    intro node hnode
    exact decide_eq_false hnode
  have shape : m.epoch = current.epoch ∧
      m.reserved = current.reserved ∧
      m.ranges = current.ranges.map fun range =>
        { range with primary := promotedTo (heardWithin r now leases.promoteAfter) current range } := by
    rw [frame, refilled_eq]
    exact ⟨rfl, rfl, rfl⟩
  obtain ⟨epoch, reserved, ranges⟩ := shape
  refine ⟨congrArg (· + 1) epoch, reserved, ⟨_, ranges, fun range _ moved => ?_⟩,
    fun node marked => isStale_iff.2 (grows node (isStale_iff.1 marked)), fun moved => ?_, ?_, ?_⟩
  · rcases promotedTo_cases current leases r now range with same | ⟨live, held, fresh⟩
    · exact absurd same moved
    · exact ⟨live, held, unmarked _ (not_mem_promotes_stale last live fresh)⟩
  · obtain ⟨live, fresh, takes⟩ := promotes_schemaLeader last moved
    exact ⟨live, unmarked _ fresh, takes⟩
  · exact passes
  · rw [promotionFor_eq, promotes_idle last rfl, settled]
    rfl

/-- Node 1 at time 100 of a cluster of three, having heard from node 0 at time 60 and never from
node 2. -/
def hearsOne : Raft :=
  { Raft.new 1 [⟨"a", "", .voter⟩, ⟨"b", "", .voter⟩, ⟨"c", "", .voter⟩] default 0 with
    heard := fun node => if node = 0 then some 60 else none }

/-- One range that node 2 serves and node 0 has a copy of; node 0 holds the namespace. -/
def copied : RangeMap := ⟨1, [⟨0, ⟨0, none⟩, [2, 0], 2, none⟩], [], 0, [], true⟩

theorem promotion_is_sound_and_stable_copied :
    ∃ next, promotionFor ⟨20, 50, some 150⟩ hearsOne 100 copied = some next ∧ next.epoch = 2 ∧
      next.checkWith hearsOne.members = .ok () ∧
      promotionFor ⟨20, 50, some 150⟩ hearsOne 100 next = none := by
  have last : SchemaLast ⟨20, 50, some 150⟩ := by
    intro after on
    cases on
    decide
  have checked : copied.checkWith hearsOne.members = .ok () :=
    checkWith_iff.2 ⟨check_of_isOk (by decide), _, rfl, by decide, by decide⟩
  rcases promotion_is_sound_and_stable _ last hearsOne 100 copied (by decide) checked with
    none | ⟨next, some, epoch, -, -, -, -, passes, idle⟩
  · have promoted : (promotionFor ⟨20, 50, some 150⟩ hearsOne 100 copied).isSome = true := by
      decide +kernel
    rw [none] at promoted
    cases promoted
  · exact ⟨next, some, epoch, passes, idle⟩

/-- With a namespace that moves sooner than a range, node 0 is too quiet to hold the namespace and
not too quiet to be given it: the first promotion hands it back and marks it behind, and another one
follows at the same instant. -/
theorem promotion_is_made_twice :
    let leases : Leases := ⟨20, 50, some 30⟩
    let alone : RangeMap := ⟨1, [⟨0, ⟨0, none⟩, [1], 1, none⟩], [], 0, [], true⟩
    hearsOne.settled = true ∧ (alone.checkWith hearsOne.members).isOk = true ∧
      (promotionFor leases hearsOne 100 alone).any (fun next =>
        next.schemaLeader = 0 && next.stale = [0] &&
          (promotionFor leases hearsOne 100 next).any fun again => again.schemaLeader = 1) = true := by
  decide +kernel

end BigDb.Cluster
