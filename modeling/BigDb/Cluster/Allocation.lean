import BigDb.Cluster.Handover

/-!
# Record ids

What `allocate_here` hands out for one table. A run is safe where it starts past every run before
it, and three numbers are there for that: the ceiling in the latest map is past everything that
was handed out, a floor in a node's memory is past what had been handed out when it was raised,
and the serving nodes' answers are past what they hold. The floor outlives the time a node leads,
and nothing compares it with the ceiling afterwards. So a node that leads for the second time
starts below what the one in between has handed out.
-/

namespace BigDb.Cluster
open Lib List Option RangeMap

/-- One past the last id of a run. -/
def Issued.stop (run : Issued) : Nat := run.start + run.count

def Issued.Gives (run : Issued) (id : Nat) : Prop := run.start ≤ id ∧ id < run.stop

namespace Namespace

section Conditions
variable (table : String) (s : Namespace)

/-- Past everything that is reserved and everything that is held. -/
def top : Nat := max (s.current.reservedFor table) (onePast (s.held.map Prod.snd))

/-- Whether a map can follow the latest without taking a reservation back. -/
def succeeds (m : RangeMap) : Bool :=
  s.current.reservedFor table ≤ m.reservedFor table && m.check.isOk && decide m.InOrder

/-- Whether what a node starts from is past everything: it has a floor, and nothing was handed out
since that was raised, or it has none and has applied the latest map. -/
def knows (n : NodeId) : Bool :=
  match (s.node n).floor with
  | some _ => (s.node n).seen = s.issued.length
  | none => s.upToDate n

/-- What keeps ids apart. No map takes a reservation back, and reservations are added to the
latest. While a node asks around its map stays the same, and whom it asks for a range has every id
of the range that any node held when the allocation began. When it has all the answers it knows
where to start, there are that many ids left above everything reserved or held, and from when an
allocation began until it is done nothing else is handed out. The floor a move carries is read
from a node that has applied the latest map. -/
def keepsIds : NamespaceAction → Bool
  | .decide m => s.succeeds table m
  | .learn n => (s.node n).allocating.all fun a =>
      match a.stage with
      | .asking .. => false
      | _ => true
  | .proceed n i => (s.node n).allocating.all fun a =>
      match a.stage with
      | .asking (ask :: todo) _ => ((ask :: todo)[i]?).all fun p => ((s.mapOf n).ranges[p.1]?).all fun r =>
          a.present.all fun id => !r.shards.holds id || (s.idsIn p.2 r.shards).contains id
      | .asking [] _ => s.knows n && a.begun = s.issued.length && s.top table + a.count ≤ idMax
      | .reserving .. => true
      | .awaiting .. => a.begun = s.issued.length
  | .reserve _ leader => s.upToDate leader
  | .next => s.handover.all fun h =>
      match h.stage with
      | .stood => s.upToDate h.source
      | .proposing next => s.succeeds table next
      | _ => true
  | _ => true

end Conditions

/-! ## One past the highest -/

variable {ids : List Nat}

lemma lt_onePast {id : Nat} (h : id ∈ ids) : id < onePast ids ∨ idMax ≤ onePast ids := by
  unfold onePast
  cases hmax : ids.max? with
  | none =>
    rw [max?_eq_none_iff.1 hmax] at h
    cases h
  | some highest =>
    have hle := (max?_eq_some_iff.1 hmax).2 id h
    simp only [elim_some, satAdd]
    omega

lemma onePast_mono {ids' : List Nat} (h : ∀ id ∈ ids, id ∈ ids') : onePast ids ≤ onePast ids' := by
  rw [onePast]
  cases hmax : ids.max? with
  | none => exact Nat.zero_le _
  | some highest =>
    have := lt_onePast (h highest (max?_eq_some_iff.1 hmax).1)
    simp only [elim_some, satAdd]
    omega

/-! ## The invariant -/

/-- A number past the first so many runs. -/
def Past (issued : List Issued) (value seen : Nat) : Prop :=
  seen ≤ issued.length ∧ ∀ run ∈ issued.take seen, run.stop ≤ value

section Past
variable {issued : List Issued} {value seen : Nat}

lemma Past.none : Past issued value 0 := ⟨Nat.zero_le _, nofun⟩

lemma Past.all (h : ∀ run ∈ issued, run.stop ≤ value) : Past issued value issued.length :=
  ⟨le_rfl, fun run hrun => h run (mem_of_mem_take hrun)⟩

lemma Past.le (h : Past issued value issued.length) : ∀ run ∈ issued, run.stop ≤ value := by
  have := h.2
  rwa [take_length] at this

lemma Past.append (h : Past issued value seen) (run : Issued) : Past (issued ++ [run]) value seen := by
  obtain ⟨hlen, hpast⟩ := h
  refine ⟨by simp; omega, ?_⟩
  rwa [take_append_of_le_length hlen]

lemma Past.max {value' seen' : Nat} (h : Past issued value seen) (h' : Past issued value' seen') :
    Past issued (max value value') (max seen seen') := by
  rcases le_total seen seen' with hle | hle
  · rw [max_eq_right hle]
    exact ⟨h'.1, fun run hrun => (h'.2 run hrun).trans (le_max_right _ _)⟩
  · rw [max_eq_left hle]
    exact ⟨h.1, fun run hrun => (h.2 run hrun).trans (le_max_left _ _)⟩

end Past

/-- A run that can be handed out. -/
structure Ready (issued : List Issued) (count : Nat) (present : List Nat) (start stop : Nat) : Prop where
  exact : stop = start + count
  past : ∀ run ∈ issued, run.stop ≤ start
  clear : 0 < count → ∀ id ∈ present, id < start

/-- What an allocation has found out, unless something else was handed out since it began. -/
def Going (top reserved : Nat) (m : RangeMap) (issued : List Issued) (a : Allocation) : AllocStage → Prop
  | .asking todo best => best ≤ top ∧ ∀ id ∈ a.present, (id < best ∨ idMax ≤ best) ∨
      ∃ p ∈ todo, ∃ r, m.ranges[p.1]? = some r ∧ r.shards.holds id = true
  | .reserving start stop upto => a.begun = issued.length → Ready issued a.count a.present start stop ∧ stop ≤ upto
  | .awaiting start stop upto _ => upto ≤ reserved ∧
      (a.begun = issued.length → Ready issued a.count a.present start stop ∧ stop ≤ upto)

structure Spaced (table : String) (s : Namespace) : Prop where
  applied : ∀ n, (s.node n).applied < s.decided.length
  checked : ∀ m ∈ s.decided, m.check = .ok ()
  ordered : s.current.InOrder
  rising : s.decided.Pairwise fun a b => a.reservedFor table ≤ b.reservedFor table
  reserved : ∀ run ∈ s.issued, run.stop ≤ s.current.reservedFor table
  floor : ∀ n v, (s.node n).floor = some v → v ≤ s.top table
  past : ∀ n, Past s.issued ((s.node n).floor.getD 0) (s.node n).seen
  going : ∀ n a, (s.node n).allocating = some a → a.begun ≤ s.issued.length ∧
    Going (s.top table) (s.current.reservedFor table) (s.mapOf n) s.issued a a.stage
  carried : ∀ h value seen, s.handover = some h → h.stage = .floor value seen →
    value ≤ s.top table ∧ Past s.issued value seen
  apart : s.issued.Pairwise (·.stop ≤ ·.start)
  clear : ∀ run ∈ s.issued, 0 < run.count → ∀ id ∈ run.present, id < run.start

section Steps
variable {table : String} {s : Namespace} {n : NodeId} {c : Clerk} {m : RangeMap} {a : Allocation}
  {issued : List Issued} {stage : AllocStage}

lemma Going.mono {top top' reserved reserved' : Nat} (h : Going top reserved m issued a stage) (htop : top ≤ top')
    (hreserved : reserved ≤ reserved') : Going top' reserved' m issued a stage := by
  cases stage with
  | asking todo best => exact ⟨h.1.trans htop, h.2⟩
  | reserving start stop upto => exact h
  | awaiting start stop upto position => exact ⟨h.1.trans hreserved, h.2⟩

section
variable (S : Spaced table s)
include S

/-- Nothing is below the latest map's ceiling in an earlier map. -/
lemma Spaced.reservedFor_le (hm : m ∈ s.decided) : m.reservedFor table ≤ s.current.reservedFor table := by
  obtain ⟨before, hlast⟩ : ∃ before, s.decided = before ++ [s.current] := by
    have hne : s.decided ≠ [] := ne_nil_of_mem hm
    refine ⟨s.decided.dropLast, ?_⟩
    unfold current
    rw [getLast?_eq_some_getLast hne]
    exact (dropLast_append_getLast hne).symm
  have rising := S.rising
  rw [hlast] at hm rising
  rcases mem_append.1 hm with hm | hm
  · exact (pairwise_append.1 rising).2.2 m hm _ (mem_singleton_self _)
  · rw [mem_singleton.1 hm]

lemma Spaced.mapOf_mem (n : NodeId) : s.mapOf n ∈ s.decided := by
  unfold mapOf
  rw [getElem?_eq_getElem (S.applied n)]
  exact getElem_mem _

lemma Spaced.current_mem : s.current ∈ s.decided := by
  have hne : s.decided ≠ [] := ne_nil_of_mem (S.mapOf_mem 0)
  unfold current
  rw [getLast?_eq_some_getLast hne]
  exact getLast_mem hne

/-- One node changes. -/
lemma Spaced.set (applied : c.applied < s.decided.length)
    (floor : ∀ v, c.floor = some v → v ≤ s.top table) (past : Past s.issued (c.floor.getD 0) c.seen)
    (going : ∀ a, c.allocating = some a → a.begun ≤ s.issued.length ∧
      Going (s.top table) (s.current.reservedFor table) ((s.decided[c.applied]?).getD default) s.issued a a.stage) :
    Spaced table (s.set n c) := by
  have each : ∀ (P : Clerk → Prop), P c → (∀ v, P (s.node v)) → ∀ v, P ((s.set n c).node v) := by
    intro P hc hs v
    by_cases hv : v = n
    · rw [hv, set_self]
      exact hc
    · rw [set_other hv]
      exact hs v
  exact ⟨each (fun c => c.applied < s.decided.length) applied S.applied, S.checked, S.ordered, S.rising,
    S.reserved, each (fun c => ∀ v, c.floor = some v → v ≤ s.top table) floor S.floor,
    each (fun c => Past s.issued (c.floor.getD 0) c.seen) past S.past,
    each (fun c => ∀ a, c.allocating = some a → a.begun ≤ s.issued.length ∧
      Going (s.top table) (s.current.reservedFor table) ((s.decided[c.applied]?).getD default) s.issued a
        a.stage) going S.going,
    S.carried, S.apart, S.clear⟩

lemma Spaced.idle (applied : c.applied = (s.node n).applied)
    (floor : c.floor = (s.node n).floor) (seen : c.seen = (s.node n).seen)
    (allocating : c.allocating = (s.node n).allocating) : Spaced table (s.set n c) := by
  refine S.set ?_ ?_ ?_ ?_
  · rw [applied]
    exact S.applied n
  · rw [floor]
    exact S.floor n
  · rw [floor, seen]
    exact S.past n
  · rw [applied, allocating]
    exact S.going n

/-- An allocation comes to another stage, or ends. -/
lemma Spaced.allocating {allocating : Option Allocation}
    (going : ∀ a, allocating = some a → a.begun ≤ s.issued.length ∧
      Going (s.top table) (s.current.reservedFor table) (s.mapOf n) s.issued a a.stage) :
    Spaced table (s.set n { s.node n with allocating }) :=
  S.set (S.applied n) (S.floor n) (S.past n) going

lemma Spaced.write (more : List (NodeId × Nat)) : Spaced table { s with held := s.held ++ more } := by
  have htop : s.top table ≤ top table { s with held := s.held ++ more } := by
    refine max_le_max le_rfl (onePast_mono fun id hid => ?_)
    rw [map_append]
    exact mem_append_left _ hid
  exact ⟨S.applied, S.checked, S.ordered, S.rising, S.reserved, fun n v hv => (S.floor n v hv).trans htop, S.past,
    fun n a ha => ⟨(S.going n a ha).1, (S.going n a ha).2.mono htop le_rfl⟩,
    fun h value seen hh hstage =>
      ⟨(S.carried h value seen hh hstage).1.trans htop, (S.carried h value seen hh hstage).2⟩,
    S.apart, S.clear⟩

/-- A map is decided that takes no reservation back. -/
lemma Spaced.change (rises : s.current.reservedFor table ≤ m.reservedFor table) (checked : m.check = .ok ())
    (ordered : m.InOrder) : Spaced table { s with decided := s.decided ++ [m] } := by
  have hcurrent : current { s with decided := s.decided ++ [m] } = m := current_append m
  have htop : s.top table ≤ top table { s with decided := s.decided ++ [m] } := by
    unfold top
    rw [hcurrent]
    exact max_le_max rises le_rfl
  have hmap : ∀ n, mapOf { s with decided := s.decided ++ [m] } n = s.mapOf n := by
    intro n
    unfold mapOf
    rw [getElem?_append_left (S.applied n)]
  refine ⟨fun n => (S.applied n).trans (by simp), fun m' hm' => ?_, ?_, ?_, fun run hrun => ?_,
    fun n v hv => (S.floor n v hv).trans htop, S.past, fun n a ha => ?_, fun h value seen hh hstage => ?_,
    S.apart, S.clear⟩
  · rcases mem_append.1 hm' with hm' | hm'
    · exact S.checked m' hm'
    · rw [mem_singleton.1 hm']
      exact checked
  · rw [hcurrent]
    exact ordered
  · refine pairwise_append.2 ⟨S.rising, pairwise_singleton _ _, fun a ha b hb => ?_⟩
    rw [mem_singleton.1 hb]
    exact (S.reservedFor_le ha).trans rises
  · rw [hcurrent]
    exact (S.reserved run hrun).trans rises
  · rw [hmap, hcurrent]
    exact ⟨(S.going n a ha).1, (S.going n a ha).2.mono htop rises⟩
  · exact ⟨(S.carried h value seen hh hstage).1.trans htop, (S.carried h value seen hh hstage).2⟩

lemma Spaced.succeed (ok : s.succeeds table m = true)
    (m' : RangeMap) (ranges : m'.ranges = m.ranges) (reserved : m'.reserved = m.reserved) :
    Spaced table { s with decided := s.decided ++ [m'] } := by
  simp only [succeeds, Bool.and_eq_true, decide_eq_true_eq] at ok
  refine S.change ?_ ?_ ?_
  · unfold reservedFor
    rw [reserved]
    exact ok.1.1
  · unfold check
    rw [ranges]
    exact check_of_isOk ok.1.2
  · unfold RangeMap.InOrder
    rw [reserved]
    exact ok.2

/-- A move comes to another stage. -/
lemma Spaced.hand {handover : Option Handover}
    (carried : ∀ h value seen, handover = some h → h.stage = .floor value seen →
      value ≤ s.top table ∧ Past s.issued value seen) : Spaced table { s with handover } :=
  ⟨S.applied, S.checked, S.ordered, S.rising, S.reserved, S.floor, S.past, S.going, carried, S.apart, S.clear⟩

lemma Spaced.made (made : List Made) : Spaced table { s with made } :=
  ⟨S.applied, S.checked, S.ordered, S.rising, S.reserved, S.floor, S.past, S.going, S.carried, S.apart, S.clear⟩

end

/-- Something else was handed out in the meantime. -/
lemma Going.append {top reserved : Nat} (h : Going top reserved m issued a stage) (begun : a.begun ≤ issued.length)
    (run : Issued) : Going top reserved m (issued ++ [run]) a stage := by
  have late : a.begun ≠ (issued ++ [run]).length := by
    rw [length_append, length_singleton]
    omega
  cases stage with
  | asking todo best => exact h
  | reserving start stop upto => exact fun hbegun => (late hbegun).elim
  | awaiting start stop upto position => exact ⟨h.1, fun hbegun => (late hbegun).elim⟩

section
variable (S : Spaced table s)
include S

/-- A run is handed out. -/
lemma Spaced.finish {start stop : Nat}
    (ready : Ready s.issued a.count a.present start stop) (below : stop ≤ s.current.reservedFor table) :
    Spaced table { s.set n { s.node n with
        floor := some stop, seen := s.issued.length + 1, allocating := none } with
      issued := s.issued ++ [⟨n, start, a.count, a.present⟩] } := by
  have hlen : ∀ run : Issued, (s.issued ++ [run]).length = s.issued.length + 1 := by simp
  have hstop : Issued.stop ⟨n, start, a.count, a.present⟩ = stop := ready.exact.symm
  have hall : ∀ run ∈ s.issued ++ [⟨n, start, a.count, a.present⟩], run.stop ≤ stop := by
    intro run hrun
    rcases mem_append.1 hrun with hrun | hrun
    · have := ready.past run hrun
      have := ready.exact
      omega
    · rw [mem_singleton.1 hrun, hstop]
  -- the other nodes know of one run less than there are
  have grown : Spaced table { s with issued := s.issued ++ [⟨n, start, a.count, a.present⟩] } := by
    refine ⟨S.applied, S.checked, S.ordered, S.rising, fun run hrun => (hall run hrun).trans below,
      S.floor, fun v => (S.past v).append _, fun v b hb => ?_, fun h value seen hh hstage => ?_, ?_,
      fun run hrun => ?_⟩
    · obtain ⟨hbegun, hgoing⟩ := S.going v b hb
      exact ⟨by rw [hlen]; omega, hgoing.append hbegun _⟩
    · obtain ⟨hle, hpast⟩ := S.carried h value seen hh hstage
      exact ⟨hle, hpast.append _⟩
    · refine pairwise_append.2 ⟨S.apart, pairwise_singleton _ _, fun r hr r' hr' => ?_⟩
      rw [mem_singleton.1 hr']
      exact ready.past r hr
    · rcases mem_append.1 hrun with hrun | hrun
      · exact S.clear run hrun
      · rw [mem_singleton.1 hrun]
        exact ready.clear
  refine grown.set (S.applied n) (fun v hv => ?_) ?_ nofun
  · cases hv
    exact below.trans (le_max_left _ _)
  · have := Past.all hall
    rwa [hlen] at this

lemma Spaced.restart {applied : Nat} (hle : applied ≤ (s.node n).applied)
    {keys : KeyStore} {handover : Option Handover}
    (same : ∀ h value seen, handover = some h → h.stage = .floor value seen → s.handover = some h) :
    Spaced table { s.set n ⟨applied, 0, none, 0, keys, [], false, none⟩ with handover } := by
  have cleared : Spaced table (s.set n ⟨applied, 0, none, 0, keys, [], false, none⟩) :=
    S.set (hle.trans_lt (S.applied n)) nofun Past.none nofun
  exact cleared.hand fun h value seen hh hstage => S.carried h value seen (same h value seen hh hstage) hstage

/-- Whom to ask for which range covers every id there is. -/
lemma Spaced.allocate (count : Nat) : let candidates := (s.mapOf n).ranges.zipIdx.map fun r => (r.2, r.1.primary)
    let a : Allocation := ⟨count, .asking candidates 0, s.held.map Prod.snd, s.issued.length⟩
    Spaced table (s.set n { s.node n with allocating := some a }) := by
  intro candidates a₀
  refine S.allocating fun a ha => ?_
  obtain rfl := some.inj ha
  refine ⟨le_rfl, Nat.zero_le _, fun id _ => .inr ?_⟩
  obtain ⟨r, hr, hin⟩ := rangeOf_contains (S.checked _ (S.mapOf_mem n)) (shardOf id)
  refine ⟨((s.mapOf n).rangeOf (shardOf id), r.primary), ?_, r, hr, hin⟩
  exact mem_map.2 ⟨(r, _), mk_mem_zipIdx_iff_getElem?.2 hr, rfl⟩

lemma Spaced.answer {i best range : Nat} {node : NodeId}
    {todo : List (Nat × NodeId)} (ha : (s.node n).allocating = some a)
    (hstage : a.stage = .asking todo best) (hi : todo[i]? = some (range, node))
    (answers : ∀ r, (s.mapOf n).ranges[range]? = some r →
      ∀ id ∈ a.present, r.shards.holds id = true → id ∈ s.idsIn node r.shards) :
    Spaced table (s.set n { s.node n with allocating := some { a with
      stage := .asking (todo.eraseIdx i) (max best (onePast (s.idsIn node ((s.mapOf n).shardsOfRange range)))) } }) := by
  refine S.allocating fun a' ha' => ?_
  obtain rfl := some.inj ha'
  obtain ⟨hbegun, hgoing⟩ := S.going n a ha
  rw [hstage] at hgoing
  obtain ⟨hbest, hfound⟩ := hgoing
  have htop : onePast (s.idsIn node ((s.mapOf n).shardsOfRange range)) ≤ s.top table := by
    refine (onePast_mono fun id hid => ?_).trans (le_max_right _ _)
    obtain ⟨h, hh, rfl⟩ := mem_map.1 hid
    exact mem_map_of_mem (mem_of_mem_filter hh)
  refine ⟨hbegun, max_le hbest htop, fun id hid => ?_⟩
  rcases hfound id hid with hfound | ⟨p, hp, r', hr', hin⟩
  · left
    omega
  by_cases hpi : p = (range, node)
  · subst hpi
    have := lt_onePast (answers r' hr' id hid hin)
    rw [RangeMap.shardsOfRange, hr', elim_some]
    left
    omega
  · refine .inr ⟨p, ?_, r', hr', hin⟩
    rw [mem_eraseIdx_iff_getElem?]
    obtain ⟨j, hj⟩ := getElem?_of_mem hp
    refine ⟨j, ?_, hj⟩
    rintro rfl
    exact hpi (some.inj (hj.symm.trans hi))

section
variable (ha : (s.node n).allocating = some a)
include ha

/-- Where a node starts, with all the answers. -/
lemma Spaced.ready {best : Nat} (hstage : a.stage = .asking [] best) (knows : s.knows n = true)
    (room : s.top table + a.count ≤ idMax) :
    Ready s.issued a.count a.present (max best ((s.node n).floor.getD ((s.mapOf n).reservedFor table)))
      (satAdd (max best ((s.node n).floor.getD ((s.mapOf n).reservedFor table))) a.count) := by
  obtain ⟨-, hgoing⟩ := S.going n a ha
  rw [hstage] at hgoing
  obtain ⟨hbest, hfound⟩ := hgoing
  have hpast := S.past n
  -- the node's own number is past every run, and there is room above it
  have own : (∀ run ∈ s.issued, run.stop ≤ (s.node n).floor.getD ((s.mapOf n).reservedFor table)) ∧
      (s.node n).floor.getD ((s.mapOf n).reservedFor table) ≤ s.top table := by
    unfold Namespace.knows at knows
    cases hfloor : (s.node n).floor with
    | none =>
      rw [hfloor] at knows
      rw [getD_none, mapOf_upToDate knows]
      exact ⟨S.reserved, le_max_left _ _⟩
    | some v =>
      rw [hfloor] at knows hpast
      rw [show (s.node n).seen = s.issued.length from of_decide_eq_true knows] at hpast
      exact ⟨hpast.le, S.floor n v hfloor⟩
  obtain ⟨hown, hle⟩ := own
  refine ⟨?_, fun run hrun => (hown run hrun).trans (le_max_right _ _), fun hcount id hid => ?_⟩
  · unfold satAdd
    omega
  · rcases hfound id hid with hfound | ⟨p, hp, -⟩
    · omega
    · cases hp

lemma Spaced.proceed {i : Nat}
    (ok : s.keepsIds table (.proceed n i) = true) : Spaced table (s.proceed table n i a) := by
  rw [keepsIds, ha, all_some] at ok
  unfold Namespace.proceed
  cases hstage : a.stage with
  | asking todo best =>
    rw [hstage] at ok
    cases todo with
    | cons ask todo =>
      dsimp only at ok ⊢
      cases hi : (ask :: todo)[i]? with
      | none => exact S
      | some p =>
        obtain ⟨range, node⟩ := p
        rw [hi, all_some] at ok
        refine S.answer ha hstage hi fun r hr id hid hin => ?_
        rw [hr, all_some] at ok
        have := all_eq_true.1 ok id hid
        simpa [hin] using this
    | nil =>
      simp only [Bool.and_eq_true, decide_eq_true_eq] at ok
      obtain ⟨⟨hknows, hbegun⟩, hroom⟩ := ok
      have ready := S.ready ha hstage hknows hroom
      dsimp only
      split
      · refine S.allocating fun a' ha' => ?_
        obtain rfl := some.inj ha'
        refine ⟨hbegun.le, fun _ => ⟨ready, ?_⟩⟩
        unfold satAdd
        omega
      · next hceiling =>
        exact S.finish ready ((not_lt.1 hceiling).trans (S.reservedFor_le (S.mapOf_mem n)))
  | reserving start stop upto => exact S
  | awaiting start stop upto position =>
    rw [hstage] at ok
    have hgoing := (S.going n a ha).2
    rw [hstage] at hgoing
    obtain ⟨hreserved, hready⟩ := hgoing
    obtain ⟨ready, hupto⟩ := hready (of_decide_eq_true ok)
    dsimp only
    split
    · exact S.finish ready (hupto.trans hreserved)
    · exact S

lemma Spaced.reserve {leader : NodeId} (latest : s.upToDate leader = true) :
    Spaced table (s.reserve table n leader a) := by
  unfold Namespace.reserve
  cases hstage : a.stage with
  | reserving start stop upto =>
    rw [mapOf_upToDate latest]
    have hreserved : reservedFor { s.current.reserve table upto with epoch := s.current.epoch + 1 } table =
          max (s.current.reservedFor table) upto := reservedFor_reserve table upto S.ordered
    have checked : check { s.current.reserve table upto with epoch := s.current.epoch + 1 } = .ok () := by
      rw [reserve_frame]
      exact S.checked s.current S.current_mem
    have raised := S.change (by rw [hreserved]; exact le_max_left _ _) checked (S.ordered.reserve table upto)
    refine raised.allocating fun a' ha' => ?_
    obtain rfl := some.inj ha'
    obtain ⟨hbegun, hgoing⟩ := S.going n a ha
    rw [hstage] at hgoing
    refine ⟨hbegun, ?_, hgoing⟩
    rw [current_append, hreserved]
    exact le_max_right _ _
  | asking todo best | awaiting start stop upto position => exact S

end

lemma Spaced.advance {h : Handover} (hh : s.handover = some h)
    (ok : s.keepsIds table .next = true) : Spaced table (s.advance table h) := by
  rw [keepsIds, hh, all_some] at ok
  unfold Namespace.advance
  -- most stages carry no number
  have plain : ∀ {s' : Namespace} (h' : Handover), Spaced table s' →
      (∀ value seen, h'.stage ≠ .floor value seen) → Spaced table { s' with handover := some h' } := by
    intro s' h' S' hplain
    refine S'.hand fun h'' value seen hh'' hstage => ?_
    obtain rfl := some.inj hh''
    exact (hplain value seen hstage).elim
  cases hstage : h.stage with
  | copying todo =>
    cases todo with
    | nil | cons t todo => exact plain _ S nofun
  | carrying keys todo =>
    dsimp only
    split
    · exact plain _ (S.idle rfl rfl rfl rfl) nofun
    · exact plain _ S nofun
  | copied | seeded => exact plain _ S nofun
  | read epoch => exact plain _ (S.idle rfl rfl rfl rfl) nofun
  | stood =>
    rw [hstage] at ok
    refine S.hand fun h' value seen hh' hstage' => ?_
    obtain rfl := some.inj hh'
    obtain ⟨rfl, rfl⟩ := HandoverStage.floor.inj hstage'
    refine ⟨?_, Past.all fun run hrun => ?_⟩
    · refine max_le (max_le ?_ ?_) ?_
      · refine (onePast_mono fun id hid => ?_).trans (le_max_right _ _)
        obtain ⟨p, hp, rfl⟩ := mem_map.1 hid
        exact mem_map_of_mem (mem_of_mem_filter hp)
      · cases hfloor : (s.node h.source).floor with
        | none => exact Nat.zero_le _
        | some v => exact S.floor _ v hfloor
      · exact (S.reservedFor_le (S.mapOf_mem _)).trans (le_max_left _ _)
    · unfold floorOf
      rw [mapOf_upToDate ok]
      exact (S.reserved run hrun).trans (le_max_right _ _)
  | floor value seen =>
    obtain ⟨hle, hpast⟩ := S.carried h value seen hh hstage
    refine plain _ (S.set (S.applied _) (fun v hv => ?_) ((S.past _).max hpast) (S.going _)) nofun
    cases hv
    refine max_le ?_ hle
    cases hfloor : (s.node h.target).floor with
    | none => exact Nat.zero_le _
    | some v => exact S.floor _ v hfloor
  | proposing next =>
    rw [hstage] at ok
    have changed := S.succeed ok { next with epoch := (s.mapOf h.coordinator).epoch + 1 } rfl rfl
    exact plain { h with stage := .decided } changed nofun
  | decided | failed => exact S

end

lemma Spaced.step {a : NamespaceAction} (S : Spaced table s) (ok : s.keepsIds table a = true) :
    Spaced table (s.step table a) := by
  cases a with
  | decide m => exact S.succeed ok m rfl rfl
  | learn n =>
    rw [Namespace.step]
    split
    · next more =>
      refine S.set more (S.floor n) (S.past n) fun a ha => ?_
      obtain ⟨hbegun, hgoing⟩ := S.going n a ha
      refine ⟨hbegun, ?_⟩
      rw [keepsIds, show (s.node n).allocating = some a from ha, all_some] at ok
      cases hstage : a.stage with
      | asking todo best =>
        rw [hstage] at ok
        cases ok
      | reserving start stop upto | awaiting start stop upto position =>
        rw [hstage] at hgoing
        exact hgoing
    · exact S
  | touch n inTouch => exact S.idle rfl rfl rfl rfl
  | restart n applied =>
    rw [Namespace.step]
    split
    · next hle =>
      refine S.restart hle fun h' value seen hh' hstage => ?_
      obtain ⟨h, hh, rfl⟩ := map_eq_some_iff.1 hh'
      split at hstage
      · cases hstage
      · next hgoes => rw [if_neg hgoes, hh]
    · exact S
  | write n ids => exact S.write _
  | ask n scope name =>
    rw [Namespace.step]
    split
    · exact S.idle rfl rfl rfl rfl
    · exact S
  | intern n i =>
    rw [Namespace.step]
    split
    · dsimp only
      split
      · refine Spaced.made ?_ _
        exact S.idle rfl rfl rfl rfl
      · exact S.idle rfl rfl rfl rfl
    · exact S
  | allocate n count =>
    rw [Namespace.step]
    split
    · exact S.allocate count
    · exact S
  | proceed n i =>
    rw [Namespace.step]
    split
    · next a ha => exact S.proceed ha ok
    · exact S
  | reserve n leader =>
    rw [Namespace.step]
    split
    · next a ha => exact S.reserve ha ok
    · exact S
  | giveUp n => exact S.allocating (fun _ h => by cases h)
  | move coordinator target tables =>
    rw [Namespace.step]
    split
    · exact S
    refine S.hand fun h value seen hh hstage => ?_
    obtain rfl := some.inj hh
    cases hstage
  | next =>
    rw [Namespace.step]
    split
    · next h hh => exact S.advance hh ok
    · exact S
  | fail =>
    rw [Namespace.step]
    split
    · split
      · refine S.hand fun h value seen hh hstage => ?_
        obtain rfl := some.inj hh
        cases hstage
      · exact S
    · exact S

lemma Spaced.begin (seed : RangeMap) (keys : NodeId → KeyStore) (held : List (NodeId × Nat))
    (checked : seed.check = .ok ()) (ordered : seed.InOrder) : Spaced table (.begin seed keys held) where
  applied _ := Nat.zero_lt_one
  checked m hm := by
    rw [mem_singleton.1 hm]
    exact checked
  ordered := ordered
  rising := pairwise_singleton _ _
  reserved run hrun := by cases hrun
  floor n v hv := by cases hv
  past _ := Past.none
  going n a ha := by cases ha
  carried h value seen hh := by cases hh
  apart := List.Pairwise.nil
  clear run hrun := by cases hrun

end Steps

end Namespace

end BigDb.Cluster
