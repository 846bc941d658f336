import BigDb.Cluster.Write

/-!
# What an accepted write has written

An attempt goes through its ranges in order and is whole up to the first range whose serving
copy fails or one of whose other copies refuses. Three things can happen there. A refusal fails
the attempt. A serving copy that fails before anything has landed fails it too. But a serving
copy that does not answer once an earlier range has landed ends the loop, and the report, which
has seen nothing refused, finishes as if the batch were written.
-/

namespace BigDb.Cluster
open Lib List Report

/-- An answer that does not end the loop when it is not the serving copy's. -/
def tolerated : Except ClusterError Nat → Bool
  | .ok _ => true
  | .error e => e.isUnreachable

lemma tolerated_error {e : ClusterError} : tolerated (.error e) = e.isUnreachable := rfl

namespace Report
variable {report : Report} {node what : String} {e : ClusterError} {wasServing : Bool}

lemma refuse_landed : (report.refuse node e wasServing).1.landed = report.landed := rfl

lemma refuse_missed (wasServing : Bool) : (report.refuse node e wasServing).1.missed ≠ [] := by
  simp [refuse]

lemma refuse_refused : (report.refuse node e wasServing).1.refused = (report.refused || !e.isUnreachable) := rfl

lemma finish_ok {count : Nat} {o : WriteOutcome} (h : report.finish what count = .ok o) :
    o.count = count ∧ (report.missed = [] ∨ report.refused = false) := by
  unfold finish at h
  split at h
  · next hm =>
    cases h
    exact ⟨rfl, .inl (isEmpty_iff.1 hm)⟩
  split at h
  · next hr =>
    cases h
    refine ⟨rfl, .inr ?_⟩
    simpa using (Bool.and_eq_true_iff.1 hr).1
  · cases h

end Report

/-! ## The copies of one range -/

section Copies
variable {α : Type} {describe : NodeId → String} {primary : NodeId}
  {ask : Nat → NodeId → Sent α × Except ClusterError Nat}

variable (ask) in
def requests (copies : List NodeId)
    (slot : Nat) : List (Sent α) :=
  (copies.zipIdx slot).map fun c => (ask c.2 c.1).1

variable {copy : NodeId} {slot : Nat} {p : Progress α} {rest : List NodeId}

lemma requests_cons : requests ask (copy :: rest) slot = (ask slot copy).1 :: requests ask rest (slot + 1) := rfl

variable (describe primary rest) in
/-- A copy that takes its share. -/
lemma visitCopies_ok {slot n : Nat} (p : Progress α) (h : (ask slot copy).2 = .ok n) : ∃ removed,
    visitCopies describe primary ask (copy :: rest) slot p = visitCopies describe primary ask rest (slot + 1)
        ⟨p.report.land (describe copy), removed, p.sent ++ [(ask slot copy).1]⟩ := by
  rw [visitCopies]
  generalize ask slot copy = a at h ⊢
  obtain ⟨sent, outcome⟩ := a
  cases h
  exact ⟨_, rfl⟩

lemma visitCopies_error {e : ClusterError} (h : (ask slot copy).2 = .error e) :
    visitCopies describe primary ask (copy :: rest) slot p =
      let q : Progress α := ⟨(p.report.refuse (describe copy) e (copy = primary)).1, p.removed,
        p.sent ++ [(ask slot copy).1]⟩
      match (p.report.refuse (describe copy) e (copy = primary)).2 with
      | .stop => (.stop, q)
      | .abandonRange => (.abandon, q)
      | .carryOn => visitCopies describe primary ask rest (slot + 1) q := by
  rw [visitCopies]
  generalize ask slot copy = a at h ⊢
  obtain ⟨sent, outcome⟩ := a
  cases h
  dsimp only
  generalize p.report.refuse (describe copy) e (decide (copy = primary)) = v
  obtain ⟨report, verdict⟩ := v
  cases verdict <;> rfl

variable {copies : List NodeId}

/-- Spares that all take it or are out of reach. -/
lemma visitCopies_tolerated (describe : NodeId → String) (spare : primary ∉ copies) (landed : p.report.landed ≠ [])
    (h : ∀ j node, copies[j]? = some node → tolerated (ask (slot + j) node).2 = true) :
    ∃ q, visitCopies describe primary ask copies slot p = (.next, q) ∧
      q.report.refused = p.report.refused ∧ q.report.landed ≠ [] ∧
      q.sent = p.sent ++ requests ask copies slot := by
  induction copies generalizing slot p with
  | nil => exact ⟨p, rfl, rfl, landed, (append_nil _).symm⟩
  | cons copy rest ih =>
    have hcopy : copy ≠ primary := fun heq => spare (heq ▸ mem_cons_self)
    have hrest : primary ∉ rest := fun hmem => spare (mem_cons_of_mem _ hmem)
    have htail : ∀ j node, rest[j]? = some node → tolerated (ask (slot + 1 + j) node).2 = true := fun j node hj => by
      rw [Nat.add_assoc, Nat.add_comm 1]
      exact h (j + 1) node (by rw [getElem?_cons_succ]; exact hj)
    have hhead := h 0 copy rfl
    rw [Nat.add_zero] at hhead
    cases hout : (ask slot copy).2 with
    | ok n =>
      obtain ⟨removed, heq⟩ := visitCopies_ok describe primary rest p hout
      obtain ⟨q, hq, hr, hl, hs⟩ := ih (p := ⟨p.report.land (describe copy), removed,
        p.sent ++ [(ask slot copy).1]⟩) hrest (by simp [Report.land]) htail
      refine ⟨q, heq.trans hq, hr, hl, ?_⟩
      rw [hs, requests_cons, append_assoc]
      rfl
    | error e =>
      rw [hout, tolerated_error] at hhead
      obtain ⟨q, hq, hr, hl, hs⟩ := ih (p := ⟨(p.report.refuse (describe copy) e false).1, p.removed,
        p.sent ++ [(ask slot copy).1]⟩) hrest (by rwa [refuse_landed]) htail
      refine ⟨q, ?_, ?_, hl, ?_⟩
      · rw [visitCopies_error hout, decide_eq_false hcopy]
        have : (p.report.refuse (describe copy) e false).2 = .carryOn := by
          simp [Report.refuse, landed, hhead]
        rw [this]
        exact hq
      · rw [hr, Report.refuse_refused, hhead, Bool.not_true, Bool.or_false]
      · rw [hs, requests_cons, append_assoc]
        rfl

lemma visitCopies_refused (spare : primary ∉ copies) (landed : p.report.landed ≠ [])
    (h : ∃ j node, copies[j]? = some node ∧ tolerated (ask (slot + j) node).2 = false) :
    ∃ q, visitCopies describe primary ask copies slot p = (.abandon, q) ∧
      q.report.refused = true ∧ q.report.missed ≠ [] := by
  induction copies generalizing slot p with
  | nil =>
    obtain ⟨j, node, hj, -⟩ := h
    cases hj
  | cons copy rest ih =>
    have hcopy : copy ≠ primary := fun heq => spare (heq ▸ mem_cons_self)
    have hrest : primary ∉ rest := fun hmem => spare (mem_cons_of_mem _ hmem)
    -- the one that refuses is further on, when this one does not
    have htail : tolerated (ask slot copy).2 = true →
        ∃ j node, rest[j]? = some node ∧ tolerated (ask (slot + 1 + j) node).2 = false := by
      intro hhead
      obtain ⟨j, node, hj, ht⟩ := h
      cases j with
      | zero =>
        cases hj
        rw [Nat.add_zero, hhead] at ht
        cases ht
      | succ j =>
        rw [getElem?_cons_succ] at hj
        exact ⟨j, node, hj, by rw [Nat.add_assoc, Nat.add_comm 1]; exact ht⟩
    cases hout : (ask slot copy).2 with
    | ok n =>
      obtain ⟨removed, heq⟩ := visitCopies_ok describe primary rest p hout
      rw [heq]
      exact ih hrest (by simp [Report.land]) (htail (by rw [hout]; rfl))
    | error e =>
      rw [visitCopies_error hout, decide_eq_false hcopy]
      cases hu : e.isUnreachable with
      | true =>
        have : (p.report.refuse (describe copy) e false).2 = .carryOn := by
          simp [Report.refuse, landed, hu]
        rw [this]
        exact ih hrest (by rwa [refuse_landed]) (htail (by rw [hout, tolerated_error, hu]))
      | false =>
        have : (p.report.refuse (describe copy) e false).2 = .abandonRange := by
          simp [Report.refuse, landed, hu]
        rw [this]
        refine ⟨_, rfl, ?_, refuse_missed false⟩
        rw [Report.refuse_refused, hu, Bool.not_false, Bool.or_true]

end Copies

/-! ## The ranges of a batch -/

section Ranges
variable {α : Type} (copiesOf : Nat → List NodeId)
  (ask : Nat → List α → Nat → NodeId → Sent α × Except ClusterError Nat)

/-- The copy that serves a range. -/
def servingOf (range : Nat) : NodeId := (copiesOf range).headD range

variable (g : Nat × List α)

/-- What the copy that serves a range is sent, and what it answers. -/
def firstAsked : Sent α × Except ClusterError Nat :=
  ask g.1 g.2 0 (servingOf copiesOf g.1)

/-- A range that takes its share: the serving copy does, and no other copy refuses. -/
structure Whole : Prop where
  served : ∃ n, (firstAsked copiesOf ask g).2 = .ok n
  spared : ∀ slot node, (copiesOf g.1)[slot]? = some node → tolerated (ask g.1 g.2 slot node).2 = true

/-- The loop ends without anything refused although a serving copy failed: an earlier range has
landed, and the copy serving a later one does not answer. Its share, or that of a range after
it, is then on no serving copy. -/
def CutShort (groups : List (Nat × List α)) : Prop :=
  ∃ done g rest, groups = done ++ g :: rest ∧ done ≠ [] ∧ (∀ d ∈ done, Whole copiesOf ask d) ∧
    (∃ e, (firstAsked copiesOf ask g).2 = .error e ∧ e.isUnreachable = true) ∧
    ((firstAsked copiesOf ask g).1.committed = false ∨ rest ≠ [])

/-- Everything sent for a range that took its share. -/
def requestsFor : List (Sent α) := requests (ask g.1 g.2) (copiesOf g.1) 0

variable {copiesOf ask}

lemma visitRanges_cons {describe : NodeId → String} {rest : List (Nat × List α)} {p : Progress α} :
    visitRanges describe copiesOf ask (g :: rest) p =
      match visitCopies describe (servingOf copiesOf g.1) (ask g.1 g.2) (copiesOf g.1) 0 p with
      | (.next, p) => visitRanges describe copiesOf ask rest p
      | ended => ended := rfl

variable (nonempty : ∀ range, ∃ spares, copiesOf range = servingOf copiesOf range :: spares ∧
    servingOf copiesOf range ∉ spares)
include nonempty

variable {g}

section
variable (describe : NodeId → String)
include describe

/-- A range that takes its share lets the loop go on. -/
lemma visitCopies_whole (w : Whole copiesOf ask g) (p : Progress α) :
    ∃ q, visitCopies describe (servingOf copiesOf g.1) (ask g.1 g.2) (copiesOf g.1) 0 p = (.next, q) ∧
      q.report.refused = p.report.refused ∧ q.report.landed ≠ [] ∧
      q.sent = p.sent ++ requestsFor copiesOf ask g := by
  obtain ⟨spares, heq, hnot⟩ := nonempty g.1
  obtain ⟨n, hn⟩ := w.served
  obtain ⟨removed, hstep⟩ := visitCopies_ok describe (servingOf copiesOf g.1) spares p hn
  obtain ⟨q, hq, hr, hl, hs⟩ := visitCopies_tolerated describe
    (p := ⟨p.report.land (describe (servingOf copiesOf g.1)), removed,
      p.sent ++ [(firstAsked copiesOf ask g).1]⟩) hnot (by simp [Report.land])
    fun j node hj => w.spared (1 + j) node (by
      rw [heq, Nat.add_comm, getElem?_cons_succ]
      exact hj)
  refine ⟨q, ?_, hr, hl, ?_⟩
  · rw [heq, hstep]
    exact hq
  · rw [hs, requestsFor, heq, requests_cons, append_assoc]
    rfl

lemma visitRanges_whole {done : List (Nat × List α)} (h : ∀ d ∈ done, Whole copiesOf ask d) (p : Progress α) : ∃ q,
    (∀ rest, visitRanges describe copiesOf ask (done ++ rest) p = visitRanges describe copiesOf ask rest q) ∧
      q.report.refused = p.report.refused ∧ (done ≠ [] → q.report.landed ≠ []) ∧
      (done = [] → q = p) ∧ q.sent = p.sent ++ done.flatMap (requestsFor copiesOf ask) := by
  induction done generalizing p with
  | nil => exact ⟨p, fun _ => rfl, rfl, fun h => (h rfl).elim, fun _ => rfl, (append_nil _).symm⟩
  | cons g done ih =>
    rw [forall_mem_cons] at h
    obtain ⟨q, hq, hr, hl, hs⟩ := visitCopies_whole nonempty describe h.1 p
    obtain ⟨q', hq', hr', hl', hnil, hs'⟩ := ih h.2 q
    refine ⟨q', fun rest => ?_, hr'.trans hr, fun _ => ?_, fun h => (by cases h), ?_⟩
    · rw [cons_append, visitRanges_cons, hq]
      exact hq' rest
    · by_cases hd : done = []
      · rw [hnil hd]
        exact hl
      · exact hl' hd
    · rw [hs', hs, flatMap_cons, append_assoc]

/-- A serving copy that fails. -/
lemma visitCopies_unserved {e : ClusterError} (h : (firstAsked copiesOf ask g).2 = .error e) (p : Progress α) :
    visitCopies describe (servingOf copiesOf g.1) (ask g.1 g.2) (copiesOf g.1) 0 p =
      (if p.report.landed = [] then .stop else .abandon,
        ⟨(p.report.refuse (describe (servingOf copiesOf g.1)) e true).1, p.removed,
          p.sent ++ [(firstAsked copiesOf ask g).1]⟩) := by
  obtain ⟨spares, heq, -⟩ := nonempty g.1
  rw [heq, visitCopies_error h, decide_eq_true rfl]
  by_cases hl : p.report.landed = []
  · have : (p.report.refuse (describe (servingOf copiesOf g.1)) e true).2 = .stop := by
      simp [Report.refuse, hl]
    rw [this, if_pos hl]
    rfl
  · have : (p.report.refuse (describe (servingOf copiesOf g.1)) e true).2 = .abandonRange := by
      simp [Report.refuse, hl]
    rw [this, if_neg hl]
    rfl

/-- A range whose serving copy took its share, and another refused. -/
lemma visitCopies_broken {n : Nat}
    (h : (firstAsked copiesOf ask g).2 = .ok n) (broken : ¬ Whole copiesOf ask g) (p : Progress α) :
    ∃ q, visitCopies describe (servingOf copiesOf g.1) (ask g.1 g.2) (copiesOf g.1) 0 p =
      (.abandon, q) ∧ q.report.refused = true ∧ q.report.missed ≠ [] := by
  obtain ⟨spares, heq, hnot⟩ := nonempty g.1
  obtain ⟨removed, hstep⟩ := visitCopies_ok describe (servingOf copiesOf g.1) spares p h
  rw [heq, hstep]
  refine visitCopies_refused hnot (by simp [Report.land]) ?_
  by_contra hall
  push Not at hall
  refine broken ⟨⟨n, h⟩, fun slot node hslot => ?_⟩
  cases slot with
  | zero =>
    rw [heq] at hslot
    cases hslot
    rw [show (ask g.1 g.2 0 (servingOf copiesOf g.1)).2 = .ok n from h]
    rfl
  | succ j =>
    rw [heq, getElem?_cons_succ] at hslot
    rw [Nat.add_comm]
    exact Bool.not_eq_false _ ▸ hall j node hslot

end

/-- What an attempt answers and sends. -/
def attempt (describe : NodeId → String) (copiesOf : Nat → List NodeId)
    (ask : Nat → List α → Nat → NodeId → Sent α × Except ClusterError Nat) (what : String)
    (count : Progress α → Nat) (groups : List (Nat × List α)) :
    Except ClusterError WriteOutcome × List (Sent α) :=
  answer what count (visitRanges describe copiesOf ask groups ⟨default, 0, []⟩)

/-- An attempt cut off at a serving copy that does not answer is accepted. -/
lemma attempt_of_unanswered (describe : NodeId → String) (what : String) (count : Progress α → Nat)
    {done : List (Nat × List α)} (rest : List (Nat × List α)) {e : ClusterError}
    (landed : done ≠ []) (whole : ∀ d ∈ done, Whole copiesOf ask d) (h : (firstAsked copiesOf ask g).2 = .error e)
    (unreachable : e.isUnreachable = true) :
    (∃ o, (attempt describe copiesOf ask what count (done ++ g :: rest)).1 = .ok o) ∧
      (attempt describe copiesOf ask what count (done ++ g :: rest)).2 =
        done.flatMap (requestsFor copiesOf ask) ++ [(firstAsked copiesOf ask g).1] := by
  obtain ⟨q, hq, hr, hl, -, hs⟩ := visitRanges_whole nonempty describe whole ⟨default, 0, []⟩
  unfold attempt
  rw [hq, visitRanges_cons, visitCopies_unserved nonempty describe h, if_neg (hl landed)]
  refine ⟨?_, ?_⟩
  · simp only [answer]
    unfold Report.finish
    split
    · exact ⟨_, rfl⟩
    have hr : q.report.refused = false := hr
    rw [if_pos (by simp [refuse_refused, refuse_landed, hr, unreachable, hl landed])]
    exact ⟨_, rfl⟩
  · change q.sent ++ _ = _
    rw [hs]
    rfl

/-- An accepted attempt was whole, or was cut off so. -/
lemma attempt_ok (describe : NodeId → String) {what : String} {count : Progress α → Nat}
    {groups : List (Nat × List α)} {o : WriteOutcome}
    (h : (attempt describe copiesOf ask what count groups).1 = .ok o) :
    ((∀ g ∈ groups, Whole copiesOf ask g) ∧ (attempt describe copiesOf ask what count groups).2 =
        groups.flatMap (requestsFor copiesOf ask)) ∨
    ∃ done g rest e, groups = done ++ g :: rest ∧ done ≠ [] ∧ (∀ d ∈ done, Whole copiesOf ask d) ∧
      (firstAsked copiesOf ask g).2 = .error e ∧ e.isUnreachable = true := by
  rcases forall_or_first (Whole copiesOf ask) groups with whole | ⟨done, g, rest, rfl, whole, broken⟩
  · obtain ⟨q, hq, -, -, -, hs⟩ := visitRanges_whole nonempty describe whole ⟨default, 0, []⟩
    have hall := hq []
    rw [append_nil] at hall
    refine .inl ⟨whole, ?_⟩
    unfold attempt
    rw [hall]
    exact hs
  · obtain ⟨q, hq, hr, hl, hnil, -⟩ := visitRanges_whole nonempty describe whole ⟨default, 0, []⟩
    unfold attempt at h
    rw [hq, visitRanges_cons] at h
    cases hfirst : (firstAsked copiesOf ask g).2 with
    | ok n =>
      obtain ⟨q', hq', href, hmiss⟩ := visitCopies_broken nonempty describe hfirst broken q
      rw [hq'] at h
      rcases (finish_ok h).2 with hm | hr'
      · exact (hmiss hm).elim
      · rw [href] at hr'
        cases hr'
    | error e =>
      rw [visitCopies_unserved nonempty describe hfirst] at h
      by_cases hdone : done = []
      · -- nothing has landed, so the first failure is the answer
        rw [hnil hdone] at h
        cases h
      rw [if_neg (hl hdone)] at h
      refine .inr ⟨done, g, rest, e, rfl, hdone, whole, hfirst, ?_⟩
      rcases (finish_ok h).2 with hm | hr'
      · exact (refuse_missed true hm).elim
      · rw [refuse_refused] at hr'
        simpa using (Bool.or_eq_false_iff.1 hr').2

/-! ## Items and the ranges they fall in -/

variable (m : RangeMap)

/-- An item was written by the node that serves, by `m`, the range its record falls in. -/
def Written (record : α → Nat) (sent : List (Sent α)) (x : α) : Prop :=
  ∃ s ∈ sent, s.committed = true ∧ x ∈ s.share ∧ s.node = m.serving (m.rangeOf (shardOf (record x)))

instance [DecidableEq α] {m : RangeMap} {record : α → Nat} {sent : List (Sent α)} {x : α} :
    Decidable (Written m record sent x) :=
  inferInstanceAs (Decidable (∃ s ∈ sent, _ ∧ _ ∧ _))

omit nonempty

lemma servingOf_copiesOfRange (range : Nat) : servingOf m.copiesOfRange range = m.serving range := by
  obtain ⟨spares, heq, -⟩ := m.copiesOfRange_eq range
  rw [servingOf, heq]
  rfl

lemma copiesOfRange_nonempty (range : Nat) : ∃ spares,
    m.copiesOfRange range = servingOf m.copiesOfRange range :: spares ∧ servingOf m.copiesOfRange range ∉ spares := by
  rw [servingOf_copiesOfRange]
  exact m.copiesOfRange_eq range

section Items
variable {m} {record : α → Nat} {items : List α}
  -- what is sent says what it is, and a copy that answers well has committed
  (named : ∀ range share slot node,
    (ask range share slot node).1.share = share ∧ (ask range share slot node).1.node = node)
  (honest : ∀ range share slot node n, (ask range share slot node).2 = .ok n →
    (ask range share slot node).1.committed = true)

variable {g : Nat × List α}

lemma firstAsked_mem : (firstAsked m.copiesOfRange ask g).1 ∈ requestsFor m.copiesOfRange ask g := by
  obtain ⟨spares, heq, -⟩ := copiesOfRange_nonempty m g.1
  unfold requestsFor
  rw [heq, requests_cons]
  exact mem_cons_self

variable (m record items) in
abbrev groupsUnder : List (Nat × List α) :=
  groupBy (fun _ x => m.rangeOf (shardOf (record x))) items

lemma key_of_mem (hg : g ∈ groupsUnder m record items) {x : α} (hx : x ∈ g.2) :
    x ∈ items ∧ m.rangeOf (shardOf (record x)) = g.1 := by
  obtain ⟨i, hi, hk⟩ := mem_groupBy.1 ⟨g.2, hg, hx⟩
  exact ⟨mem_of_getElem? hi, hk⟩

include named

/-- A serving copy that commits its share has every item of it. -/
lemma written_of_committed {sent : List (Sent α)}
    (hg : g ∈ groupsUnder m record items) (hsent : (firstAsked m.copiesOfRange ask g).1 ∈ sent)
    (hc : (firstAsked m.copiesOfRange ask g).1.committed = true) {x : α} (hx : x ∈ g.2) : Written m record sent x := by
  refine ⟨_, hsent, hc, ?_, ?_⟩
  · rw [firstAsked, (named ..).1]
    exact hx
  · rw [firstAsked, (named ..).2, servingOf_copiesOfRange, (key_of_mem hg hx).2]

include honest

/-- **An attempt that is accepted has written every item, unless it was cut short.** -/
lemma attempt_written_iff (describe : NodeId → String) (what : String) (count : Progress α → Nat) :
    ((∃ o, (attempt describe m.copiesOfRange ask what count (groupsUnder m record items)).1 = .ok o) →
      ∀ x ∈ items, Written m record
        (attempt describe m.copiesOfRange ask what count (groupsUnder m record items)).2 x) ↔
    ¬ CutShort m.copiesOfRange ask (groupsUnder m record items) := by
  constructor
  · rintro h ⟨done, g, rest, hsplit, landed, whole, ⟨e, he, unreachable⟩, lost⟩
    obtain ⟨hok, hsent⟩ := attempt_of_unanswered (copiesOfRange_nonempty m) describe what count
      rest landed whole he unreachable
    rw [← hsplit] at hok hsent
    have distinct : ((done ++ g :: rest).map Prod.fst).Nodup := by
      rw [← hsplit]
      exact (sorted_groupBy _ items).imp ne_of_lt
    rw [map_append, map_cons, nodup_append] at distinct
    -- an item of a range that was not written, and the request it would have been written by
    have unwritten : ∀ g' ∈ g :: rest, (g' = g → (firstAsked m.copiesOfRange ask g).1.committed = false) →
        False := by
      intro g' hg' hunc
      have hmem : g' ∈ groupsUnder m record items := hsplit ▸ mem_append_right _ hg'
      obtain ⟨x, hx⟩ := exists_mem_of_ne_nil _ (ne_nil_of_mem_groupBy _ items g' hmem)
      obtain ⟨hxi, hkey⟩ := key_of_mem hmem hx
      obtain ⟨s, hs, hcom, hxs, -⟩ := h hok x hxi
      rw [hsent] at hs
      rcases mem_concat.1 hs with hs | rfl
      · obtain ⟨d, hd, hsd⟩ := mem_flatMap.1 hs
        obtain ⟨c, -, rfl⟩ := mem_map.1 hsd
        rw [(named ..).1] at hxs
        have hd' := key_of_mem (hsplit ▸ mem_append_left _ hd) hxs
        refine distinct.2.2 d.1 (mem_map_of_mem hd) g'.1 ?_ (hd'.2.symm.trans hkey)
        rw [← map_cons]
        exact mem_map_of_mem hg'
      · rw [firstAsked, (named ..).1] at hxs
        have hgk := key_of_mem (hsplit ▸ mem_append_right _ mem_cons_self) hxs
        rcases mem_cons.1 hg' with rfl | hr
        · rw [hunc rfl] at hcom
          cases hcom
        · refine (nodup_cons.1 distinct.2.1).1 ?_
          rw [← hgk.2, hkey]
          exact mem_map_of_mem hr
    rcases lost with hunc | hrest
    · exact unwritten g mem_cons_self fun _ => hunc
    obtain ⟨g', hg'⟩ := exists_mem_of_ne_nil _ hrest
    refine unwritten g' (mem_cons_of_mem _ hg') ?_
    rintro rfl
    exact ((nodup_cons.1 distinct.2.1).1 (mem_map_of_mem hg')).elim
  · rintro hcut ⟨o, hok⟩ x hx
    obtain ⟨i, hi⟩ := getElem?_of_mem hx
    obtain ⟨xs, hg, hxs⟩ : ∃ xs, (m.rangeOf (shardOf (record x)), xs) ∈ groupsUnder m record items ∧
        x ∈ xs := mem_groupBy.2 ⟨i, hi, rfl⟩
    have served : ∀ {d : Nat × List α}, Whole m.copiesOfRange ask d →
        (firstAsked m.copiesOfRange ask d).1.committed = true := fun w =>
      w.served.elim fun n hn => honest _ _ _ _ n hn
    rcases attempt_ok (copiesOfRange_nonempty m) describe hok with
      ⟨whole, hsent⟩ | ⟨done, g, rest, e, hsplit, landed, whole, he, unreachable⟩
    · refine written_of_committed named hg ?_ (served (whole _ hg)) hxs
      rw [hsent]
      exact mem_flatMap.2 ⟨_, hg, firstAsked_mem⟩
    have hsent := (attempt_of_unanswered (copiesOfRange_nonempty m) describe what count
      rest landed whole he unreachable).2
    rw [← hsplit] at hsent
    have hcom : (firstAsked m.copiesOfRange ask g).1.committed = true ∧ rest = [] := by
      by_contra hlost
      refine hcut ⟨done, g, rest, hsplit, landed, whole, ⟨e, he, unreachable⟩, ?_⟩
      rw [not_and_or, Bool.not_eq_true] at hlost
      exact hlost
    obtain ⟨hcom, rfl⟩ := hcom
    rw [hsent]
    have hin := hg
    rw [hsplit] at hin
    rcases mem_concat.1 hin with hd | rfl
    · exact written_of_committed named hg (mem_append_left _
        (mem_flatMap.2 ⟨_, hd, firstAsked_mem⟩)) (served (whole _ hd)) hxs
    · exact written_of_committed named hg (mem_append_right _ mem_cons_self) hcom hxs

end Items

end Ranges

/-! ## Imports and deletions -/

namespace Site
variable {site : Site} {i : NodeId} {routed : Option Routed} {visit : Visit} {n : Nat}

lemma commits_of_take (here : i = site.this ∨ visit.lost = none)
    (h : site.take i routed visit = .ok n) : site.commits i routed visit = true := by
  unfold commits
  rw [h]
  rcases here with rfl | hl
  · simp [Except.isOk, Except.toBool]
  · simp [hl, Except.isOk, Except.toBool]

lemma commits_of_ask (h : site.ask i routed visit = .ok n) : site.commits i routed visit = true := by
  unfold ask at h
  split at h
  · cases h
  · next hnone =>
    cases htakes : site.take i routed visit with
    | ok k => exact commits_of_take (.inr (Option.or_eq_none_iff.1 hnone).1) htakes
    | error e =>
      rw [htakes] at h
      cases h

lemma commits_of_writeShare (h : site.writeShare i routed visit = .ok n) : site.commits i routed visit = true := by
  unfold writeShare at h
  split at h
  · next here => exact commits_of_take (.inl here) h
  · exact commits_of_ask h

lemma commits_of_deleteShare (h : site.deleteShare i (if i = site.this then none else routed) visit = .ok n) :
    site.commits i (if i = site.this then none else routed) visit = true := by
  unfold deleteShare at h
  split at h
  · next here =>
    rw [if_pos here]
    exact commits_of_take (.inl here) h
  · next there =>
    rw [if_neg there]
    cases hask : site.ask i routed visit with
    | ok k => exact commits_of_ask hask
    | error e =>
      rw [hask] at h
      cases h

end Site

namespace Scene
variable (site : Site) (scene : Scene)

/-- The map an attempt begins with. -/
def map : RangeMap := scene.grouping 0

/-- The map does not change while an attempt groups its items and lists the copies. -/
structure Still : Prop where
  grouping : ∀ i, scene.grouping i = scene.map
  copies : ∀ range, scene.copies range = scene.map

/-- An import whose keys are known is cut short: see `CutShort`. -/
def CutsImport (facts : List OwnedFact) : Prop :=
  ∃ assignments, scene.resolveKeys site facts = .ok assignments ∧
    CutShort scene.copiesOf (scene.sendImport site assignments) (scene.byRange OwnedFact.record facts)

def CutsDelete (records : List Nat) : Prop :=
  CutShort scene.copiesOf (scene.sendDelete site) (scene.byRange (fun r => r) records)

variable {scene}

section
variable (still : scene.Still)
include still

lemma Still.copiesOf_eq : scene.copiesOf = scene.map.copiesOfRange := by
  funext range
  rw [copiesOf, still.copies]

lemma Still.byRange_eq {α : Type} (record : α → Nat) (items : List α) :
    scene.byRange record items = groupsUnder scene.map record items := by
  unfold byRange
  simp only [still.grouping]

lemma importOnce_written_iff (facts : List OwnedFact) : ((∃ o, (scene.importOnce site facts).1 = .ok o) →
      ∀ f ∈ facts, Written scene.map OwnedFact.record (scene.importOnce site facts).2 f) ↔
    ¬ scene.CutsImport site facts := by
  unfold CutsImport importOnce
  rw [still.copiesOf_eq, still.byRange_eq]
  cases hres : scene.resolveKeys site facts with
  | error e => simp
  | ok assignments =>
    refine (attempt_written_iff (fun _ _ _ _ => ⟨rfl, rfl⟩)
      (fun _ _ _ _ _ h => Site.commits_of_writeShare h) site.describe "the batch" _).trans ?_
    simp

lemma deleteOnce_written_iff (records : List Nat) : ((∃ o, (scene.deleteOnce site records).1 = .ok o) →
      ∀ r ∈ records, Written scene.map (fun r => r) (scene.deleteOnce site records).2 r) ↔
    ¬ scene.CutsDelete site records := by
  unfold CutsDelete deleteOnce
  rw [still.copiesOf_eq, still.byRange_eq]
  exact attempt_written_iff (fun _ _ _ _ => ⟨rfl, rfl⟩)
    (fun _ _ _ _ _ h => Site.commits_of_deleteShare h) site.describe "the deletion" _

end

end Scene

namespace Site
variable (site : Site) (first second : Scene)

/-- The attempt an import is answered from. A node that owns everything makes one. -/
def importing (facts : List OwnedFact) : Scene :=
  if site.ownsEverything then first
  else answering (fun scene => scene.importOnce site facts) first second

/-- The attempt a deletion is answered from. -/
def deleting (records : List Nat) : Scene :=
  answering (fun scene => scene.deleteOnce site records) first second

end Site

lemma answering_still {α : Type} {first second : Scene} (still : first.Still ∧ second.Still)
    (attempt : Scene → Except ClusterError WriteOutcome × List (Sent α)) : (answering attempt first second).Still := by
  unfold answering
  split
  · exact still.2
  · exact still.1

/-- **An accepted write is on the serving copies exactly when the attempt that was answered was
not cut short.** The map is that of the attempt. A node that owns everything routes nothing, and
serves everything by the map it was started with. -/
theorem accepted_writes_are_served (site : Site) (first second : Scene) (facts : List OwnedFact)
    (records : List Nat) (still : first.Still ∧ second.Still)
    (alone : site.ownsEverything = true → ∀ shard, first.map.serving (first.map.rangeOf shard) = site.this) :
    ((∀ o, (site.importBatch first second facts).1 = .ok o → o.count = facts.length →
        ∀ f ∈ facts, Written (site.importing first second facts).map OwnedFact.record
          ((site.importBatch first second facts).2.getLastD []) f) ↔
      (site.ownsEverything = true ∨ ¬ (site.importing first second facts).CutsImport site facts)) ∧
    ((∀ o, (site.delete first second records).1 = .ok o →
        ∀ r ∈ records, Written (site.deleting first second records).map (fun r => r)
          ((site.delete first second records).2.getLastD []) r) ↔
      ¬ (site.deleting first second records).CutsDelete site records) := by
  constructor
  · cases hown : site.ownsEverything with
    | true =>
      refine iff_of_true ?_ (.inl rfl)
      intro o ho _ f hf
      unfold Site.importing Site.importBatch at *
      rw [if_pos hown] at ho ⊢
      rw [if_pos hown]
      cases hengine : (first.visit 0 0).engine with
      | ok n => exact ⟨_, mem_singleton_self _, by rw [hengine]; rfl, hf, (alone hown _).symm⟩
      | error e =>
        dsimp only at ho
        rw [hengine] at ho
        cases ho
    | false =>
      unfold Site.importing Site.importBatch
      simp only [hown, Bool.false_eq_true, if_false, false_or]
      have hanswer := retryingStaleRoutes_answer (fun scene => scene.importOnce site facts) first second
      rw [hanswer.1, getLastD_eq_getLast?, hanswer.2, Option.getD_some,
        ← Scene.importOnce_written_iff site (answering_still still _)]
      constructor
      · rintro h ⟨o, ho⟩
        refine h o ho ?_
        unfold Scene.importOnce at ho
        split at ho
        · cases ho
        unfold answer at ho
        split at ho
        · cases ho
        · exact (Report.finish_ok ho).1
      · exact fun h o ho _ => h ⟨o, ho⟩
  · unfold Site.deleting Site.delete
    have hanswer := retryingStaleRoutes_answer (fun scene => scene.deleteOnce site records) first second
    rw [hanswer.1, getLastD_eq_getLast?, hanswer.2, Option.getD_some,
      ← Scene.deleteOnce_written_iff site (answering_still still _)]
    exact ⟨fun h ⟨o, ho⟩ => h o ho, fun h o ho => h ⟨o, ho⟩⟩

/-- Two owners without a copy between them. -/
def twoOwners : RangeMap :=
  { (default : RangeMap) with
    ranges := [⟨0, ⟨0, some 1⟩, [0], 0, none⟩, ⟨1, ⟨1, none⟩, [1], 1, none⟩] }

/-- The first of them, which coordinates. -/
def firstOfTwo : Site := ⟨0, [⟨"a", ⟨0, some 1⟩⟩, ⟨"b", ⟨1, none⟩⟩], []⟩

/-- An attempt under one map that every engine takes; `lost` says which ranges' requests are
never delivered. -/
def Scene.under (m : RangeMap) (lost : Nat → Option ClientError) : Scene :=
  { grouping := fun _ => m
    copies := fun _ => m
    route := fun _ _ => m
    visit := fun range _ => ⟨lost range, true, m, .ok 1, none, none⟩
    keyRow := fun _ _ => none
    intern := fun _ _ => .ok []
    leader := 0 }

/-- A record of each owner. -/
def oneEach : List OwnedFact := [⟨"n", 0, .int 1⟩, ⟨"n", 2 ^ 20, .int 1⟩]

/-- With both owners up, the batch is accepted and on both. -/
theorem accepted_writes_are_served_twoOwners :
    let up := Scene.under twoOwners fun _ => none
    (∃ o, (firstOfTwo.importBatch up up oneEach).1 = .ok o ∧ o.count = oneEach.length) ∧
      ∀ o, (firstOfTwo.importBatch up up oneEach).1 = .ok o → o.count = oneEach.length →
        ∀ f ∈ oneEach, Written (firstOfTwo.importing up up oneEach).map OwnedFact.record
          ((firstOfTwo.importBatch up up oneEach).2.getLastD []) f := by
  intro up
  refine ⟨⟨⟨2, []⟩, rfl, rfl⟩, ?_⟩
  have still : up.Still := ⟨fun _ => rfl, fun _ => rfl⟩
  refine (accepted_writes_are_served firstOfTwo up up oneEach [] ⟨still, still⟩
    nofun).1.2 (.inr ?_)
  rintro ⟨assignments, -, done, g, rest, hsplit, -, -, ⟨e, he, -⟩, -⟩
  have hg : g ∈ [(0, [oneEach[0]]), (1, [oneEach[1]])] := by
    rw [show [(0, [oneEach[0]]), (1, [oneEach[1]])] = done ++ g :: rest from hsplit]
    exact mem_append_right _ mem_cons_self
  simp only [mem_cons, not_mem_nil, or_false] at hg
  rcases hg with rfl | rfl <;> cases he

/-- With the second owner out of reach the batch is accepted too, and half of it is nowhere. -/
theorem unanswered_owner_is_accepted :
    let down := Scene.under twoOwners fun range => if range = 1 then some .timeout else none
    ¬ ∀ o, (firstOfTwo.importBatch down down oneEach).1 = .ok o → o.count = oneEach.length →
        ∀ f ∈ oneEach, Written (firstOfTwo.importing down down oneEach).map OwnedFact.record
          ((firstOfTwo.importBatch down down oneEach).2.getLastD []) f := by
  intro down h
  have lost : ¬ Written (firstOfTwo.importing down down oneEach).map OwnedFact.record
      ((firstOfTwo.importBatch down down oneEach).2.getLastD []) oneEach[1] := by decide +kernel
  exact lost (h _ rfl rfl _ (by decide))

end BigDb.Cluster
