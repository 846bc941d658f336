import BigDb.Cluster.Epochs
import BigDb.Cluster.Ownership

/-!
# Who serves a range

A node that holds a range with a copy elsewhere serves it only while its lease runs. The lease is
counted from when the node heard its leader, a promotion from when the leader heard the node, so
nothing ties the two together but the messages in between. Nor does the map: the lease is renewed
under the core's lock, before the decisions the same message brought are folded, and by any
message of the leader's, however old.

What keeps a range from being served twice is that a node is not replaced before its lease is out,
and that it is not renewed any more after that.
-/

namespace BigDb.Cluster
open Lib List Function Controller Option Bool Fleet RangeMap

namespace RangeMap
variable {m : RangeMap}

def primaryOf (m : RangeMap) (id : RangeId) : Option NodeId := (m.rangeWith id).map Range.primary

def takes (before after : RangeMap) (x : NodeId) : Bool :=
  before.ranges.any fun r => r.primary = x && after.primaryOf r.id ≠ some x

variable {x : NodeId} {r : Range}

lemma find?_of_checkRanges {rs : List Range} {seen : List RangeId} (h : checkRanges rs seen = .ok ())
    (hr : r ∈ rs) : r.id ∉ seen ∧ rs.find? (fun r' => r'.id = r.id) = some r := by
  induction rs generalizing seen with
  | nil => cases hr
  | cons a rs ih =>
    rw [checkRanges] at h
    split at h
    · cases h
    · next hfresh =>
      split at h
      · cases h
      split at h
      · cases h
      rcases mem_cons.1 hr with rfl | hr
      · exact ⟨hfresh, by rw [find?_cons_of_pos (by simp)]⟩
      obtain ⟨hnot, hfind⟩ := ih h hr
      obtain ⟨hne, hnot⟩ := not_or.1 (mem_cons.not.1 hnot)
      refine ⟨hnot, ?_⟩
      rw [find?_cons_of_neg (by simpa using fun heq : a.id = r.id => hne heq.symm), hfind]

lemma rangeWith_eq_find? (id : RangeId) : m.rangeWith id = m.ranges.find? fun r => r.id = id := by
  rw [find?_eq_bind_findIdx?_getElem?, rangeWith, position]

lemma primaryOf_of_mem (checked : m.check = .ok ()) (hr : r ∈ m.ranges) : m.primaryOf r.id = some r.primary := by
  rw [primaryOf, rangeWith_eq_find?, (find?_of_checkRanges (check_ok checked).1 hr).2, map_some]

/-- A promotion takes ranges only from nodes that have been silent. -/
lemma silent_of_takes {live : NodeId → Bool} {next : RangeMap} (promoted : Promoted live m next)
    (checked : next.check = .ok ()) (h : m.takes next x = true) : live x = false := by
  obtain ⟨r, hr, htaken⟩ := any_eq_true.1 h
  simp only [and_eq_true, decide_eq_true_eq] at htaken
  obtain ⟨rfl, hnot⟩ := htaken
  obtain ⟨primary, hranges, hprimary⟩ := promoted.ranges
  have hnext : { r with primary := primary r } ∈ next.ranges := by
    rw [hranges]
    exact mem_map.2 ⟨r, hr, rfl⟩
  rcases hprimary r with hsame | ⟨hsilent, -⟩
  · have := primaryOf_of_mem checked hnext
    exact (hnot (this.trans (congrArg some hsame))).elim
  · exact hsilent

end RangeMap

namespace Controller
variable (config : ClusterConfig) (c : Controller)

/-- Whether any range this node holds has a copy that could take it. -/
def fenced (this : NodeId) : Bool := c.ranges.ranges.any fun r => this ∈ r.group && 1 < r.group.length

/-- How long ago this node was in touch. -/
def sinceLease (now : Nat) : Option Nat := c.leaseAt.map (now - ·)

/-- Whether this node may answer as the primary of the ranges it serves right now. -/
def mayServe (now : Nat) : Bool :=
  !c.fenced config.this || (c.sinceLease now).any (· < config.leases.serveFor)

def leaseOut (serveFor now : Nat) : Bool := (c.sinceLease now).all (serveFor ≤ ·)

def contact : Action → Option Nat
  | .turn incoming now =>
    match c.phase with
    | .idle => if c.wedged then none else leaseAnchor ((delivered c.raft incoming now).1.tick now).1 now
    | _ => none
  | _ => none

/-- Whether an action folds no map older than the one the node goes by. -/
def foldsNewer : Action → Bool
  | .fold =>
    match c.phase with
    | .folding (d :: _) _ _ => d.ranges?.all fun m => c.ranges.epoch ≤ m.epoch
    | _ => true
  | _ => true

variable {config c} {action : Action}

/-- Only a turn renews the lease. -/
lemma leaseAt_step (hrestart : action ≠ .restart) :
    (c.step config action).leaseAt = (c.contact action).or c.leaseAt := by
  have hstep := step_step config c action
  cases action with
  | turn incoming now =>
    simp only [step, contact]
    cases c.phase with
    | idle =>
      dsimp only
      unfold turn
      split <;> rfl
    | _ => rfl
  | restart => exact (hrestart rfl).elim
  | _ =>
    generalize c.step config _ = c' at hstep ⊢
    cases hstep <;> rfl

/-- A node's map gets no older. -/
lemma epoch_step (hrestart : action ≠ .restart) (hfolds : c.foldsNewer action = true) :
    c.ranges.epoch ≤ (c.step config action).ranges.epoch := by
  have hstep := step_step config c action
  generalize c.step config action = c' at hstep ⊢
  cases hstep with
  | @fold d decisions send upTo hphase =>
    show c.ranges.epoch ≤ (foldMap c.ranges d).epoch
    unfold foldMap
    cases hm : d.ranges? with
    | none => exact le_rfl
    | some m =>
      rw [getD_some]
      simpa only [foldsNewer, hphase, hm, all_some, decide_eq_true_eq] using hfolds
  | restart => exact (hrestart rfl).elim
  | _ => exact le_rfl

/-- What is appended passes its check. -/
lemma check_of_accepts {r : Raft} {d : Decision} {m : RangeMap}
    (checked : c.ranges.check = .ok ()) (h : c.accepts config action = some (r, d))
    (hm : d.ranges? = some m) : m.check = .ok () := by
  rcases accepts_cases h with ⟨incoming, now, m', -, -, hpromo, rfl⟩ | ⟨-, accepted, hasks⟩
  · cases hm
    exact (promoted_of_promotionFor _ _ _ hpromo).2.1
  rcases asks_map hasks hm with ⟨next, rfl, rfl⟩ | ⟨node, rfl, rfl⟩
  · have hok : (next.checkWith c.raft.members).isOk = true := by
      simp only [refuses, or_eq_false_iff, not_eq_false'] at accepted
      exact accepted.1.1
    cases hcheck : next.checkWith c.raft.members with
    | ok => exact check_of_checkWith hcheck
    | error e =>
      rw [hcheck] at hok
      cases hok
  · exact checked

end Controller

/-! ## The maps of a log -/

/-- The map a node goes by that has folded a log up to an index. -/
def mapAsOf (seed : RangeMap) (log : List Entry) (k : Nat) : RangeMap :=
  newest (fun e => e.decision.ranges?) seed (log.take (k + 1))

/-- A map is the last one before it once more; or it passes its check, is newer than all before it,
and was ordered in place of the newest of those. -/
def Ordered (seed : RangeMap) (orders : List (RangeMap × RangeMap)) (log : List Entry) (e : Entry) : Prop :=
  ∀ m, e.decision.ranges? = some m → (mapsIn log).getLast? = some m ∨
    m.check = .ok () ∧ (∀ m' ∈ seed :: mapsIn log, m'.epoch < m.epoch) ∧
      (newest (fun e => e.decision.ranges?) seed log, m) ∈ orders

section Logs
variable {seed : RangeMap} {orders : List (RangeMap × RangeMap)} {log log' : List Entry} {i j k : Nat}

lemma Ordered.mono {orders' : List (RangeMap × RangeMap)} (hsub : orders ⊆ orders') (e : Entry)
    (h : Ordered seed orders log e) : Ordered seed orders' log e := by
  intro m hm
  rcases h m hm with hsame | ⟨checked, newer, hin⟩
  · exact .inl hsame
  · exact .inr ⟨checked, newer, hsub hin⟩

lemma Ordered.noop (log : List Entry) (T : Nat) : Ordered seed orders log ⟨T, .noop⟩ :=
  nofun

lemma mapAsOf_congr (h : log.take (k + 1) = log'.take (k + 1)) : mapAsOf seed log k = mapAsOf seed log' k := by
  rw [mapAsOf, mapAsOf, h]

lemma mapAsOf_of_map {e : Entry} {m : RangeMap} (he : log[k]? = some e) (hm : e.decision.ranges? = some m) :
    mapAsOf seed log k = m := by
  rw [mapAsOf, newest_take_succ seed he, hm, getD_some]

variable (seed log k) in
/-- From one index to the next it stays or changes to the map that was put there. -/
lemma mapAsOf_succ : mapAsOf seed log (k + 1) = mapAsOf seed log k ∨
      ∃ e, log[k + 1]? = some e ∧ e.decision.ranges? = some (mapAsOf seed log (k + 1)) := by
  cases he : log[k + 1]? with
  | none =>
    left
    have hlen := getElem?_eq_none_iff.1 he
    rw [mapAsOf, mapAsOf, take_of_length_le (by omega), take_of_length_le (by omega)]
  | some e =>
    cases hm : e.decision.ranges? with
    | none =>
      left
      rw [mapAsOf, newest_take_succ seed he, hm, getD_none]
      rfl
    | some m => exact .inr ⟨e, rfl, by rw [mapAsOf_of_map he hm, hm]⟩

lemma mapsIn_take_subset (hij : i ≤ j) : mapsIn (log.take i) ⊆ mapsIn (log.take j) := by
  intro m hm
  obtain ⟨e, he, hm⟩ := mem_filterMap.1 hm
  exact mem_filterMap.2 ⟨e, (take_prefix_take_left hij).subset he, hm⟩

lemma mapAsOf_mem (hij : i < j) : mapAsOf seed log i ∈ seed :: mapsIn (log.take j) := by
  rcases mem_cons.1 (newest_mem seed (log.take (i + 1))) with heq | hin
  · exact mem_cons.2 (.inl heq)
  · exact mem_cons_of_mem _ (mapsIn_take_subset hij hin)

lemma newest_of_getLast? {m : RangeMap} (h : (mapsIn log).getLast? = some m) :
    newest (fun e => e.decision.ranges?) seed log = m := by
  induction log using reverseRecOn generalizing m with
  | nil => cases h
  | append_singleton log e ih =>
    rw [mapsIn_concat] at h
    rw [newest_append, newest_singleton]
    cases hm : e.decision.ranges? with
    | none =>
      rw [hm, toList_none, append_nil] at h
      exact ih h
    | some m' =>
      rw [hm, toList_some, getLast?_concat] at h
      exact some.inj h

section
variable (marked : Marked (Ordered seed orders) log)
include marked

/-- What is new at an index was ordered, and is newer than whatever stood before. -/
lemma ordered_of_change (hne : mapAsOf seed log (j + 1) ≠ mapAsOf seed log j) :
    (mapAsOf seed log (j + 1)).check = .ok () ∧
      (∀ i, i ≤ j → (mapAsOf seed log i).epoch < (mapAsOf seed log (j + 1)).epoch) ∧
      (mapAsOf seed log j, mapAsOf seed log (j + 1)) ∈ orders := by
  rcases mapAsOf_succ seed log j with hsame | ⟨e, he, hm⟩
  · exact (hne hsame).elim
  rcases marked (j + 1) e he _ hm with hsame | ⟨checked, newer, hin⟩
  · exact (hne (newest_of_getLast? hsame).symm).elim
  · exact ⟨checked, fun i hi => newer _ (mapAsOf_mem (Nat.lt_succ_of_le hi)), hin⟩

/-- Every map that ever stood passed its check and is no older than the first. -/
lemma mapAsOf_sound (first : mapAsOf seed log 0 = seed) (checked : seed.check = .ok ()) (k : Nat) :
    (mapAsOf seed log k).check = .ok () ∧ seed.epoch ≤ (mapAsOf seed log k).epoch := by
  induction k with
  | zero =>
    rw [first]
    exact ⟨checked, le_rfl⟩
  | succ k ih =>
    by_cases hne : mapAsOf seed log (k + 1) = mapAsOf seed log k
    · rw [hne]
      exact ih
    · obtain ⟨hcheck, hnewer, -⟩ := ordered_of_change marked hne
      exact ⟨hcheck, ih.2.trans (hnewer k le_rfl).le⟩

/-- The newest map of a log is the one with the highest epoch. -/
lemma newest_of_epoch (hk : ∀ m ∈ mapsIn log, m.epoch ≤ (mapAsOf seed log k).epoch) :
    newest (fun e => e.decision.ranges?) seed log = mapAsOf seed log k := by
  have stays : ∀ n, k ≤ n → mapAsOf seed log n = mapAsOf seed log k := by
    intro n hn
    induction n, hn using Nat.le_induction with
    | base => rfl
    | succ n hn ih =>
      by_cases hne : mapAsOf seed log (n + 1) = mapAsOf seed log n
      · rw [hne, ih]
      have hlt := (ordered_of_change marked hne).2.1 k hn
      rcases mapAsOf_succ seed log n with hsame | ⟨e, he, hm⟩
      · exact (hne hsame).elim
      · have hle := hk _ (mem_filterMap.2 ⟨e, mem_of_getElem? he, hm⟩)
        omega
  have hall := stays (max k log.length) (le_max_left _ _)
  rw [← hall, mapAsOf, take_of_length_le (by omega)]

/-- Whatever is true of the map at one index and false of the one at a later index was undone by an
order, and one newer than the first map. -/
lemma undone_by_order {P : RangeMap → Prop} (hij : i ≤ j) (hi : P (mapAsOf seed log i))
    (hj : ¬ P (mapAsOf seed log j)) : ∃ o ∈ orders, P o.1 ∧ ¬ P o.2 ∧ (mapAsOf seed log i).epoch < o.2.epoch := by
  induction j, hij using Nat.le_induction with
  | base => exact (hj hi).elim
  | succ j hij ih =>
    by_cases hmid : P (mapAsOf seed log j)
    · have hne : mapAsOf seed log (j + 1) ≠ mapAsOf seed log j := by
        intro heq
        rw [heq] at hj
        exact hj hmid
      obtain ⟨-, hnewer, hin⟩ := ordered_of_change marked hne
      exact ⟨_, hin, hmid, hj, hnewer i hij⟩
    · exact ih hmid

end

end Logs

/-! ## What a node goes by -/

variable {config : ClusterConfig} {Q : List Entry → Entry → Prop} {h : Ledger Entry NodeId} {f : Fleet}

lemma Tracks.mapAsOf_zero (T : Tracks config Q h f) (v : NodeId) {seed : RangeMap} :
    mapAsOf seed (f.nodes v).raft.log 0 = seed := by
  have htake : [root].take (0 + 1) = (f.nodes v).raft.log.take (0 + 1) :=
    take_eq_take_of_isPrefix ((T.agrees v).log_root T.valid) le_rfl
  rw [mapAsOf, ← htake]
  rfl

/-- A map stood at an index the core has committed. -/
def Decided (seed : RangeMap) (r : Raft) (m : RangeMap) : Prop :=
  ∃ k, k ≤ r.commit ∧ mapAsOf seed r.log k = m

/-- A node goes by a map that was decided, and has only such to fold. -/
structure Placed (seed : RangeMap) (c : Controller) : Prop where
  ranges : Decided seed c.raft c.ranges
  folds : ∀ d ∈ c.phase.decisions, ∀ m, d.ranges? = some m → Decided seed c.raft m

section Nodes
variable {seed : RangeMap} {r : Raft} {x : Raft × Output} {m : RangeMap}

/-- The map that was decided at `k` is where it was. -/
lemma Raft.Progress.mapAsOf (P : r.Progress x) (hlen : r.commit < r.log.length) {k : Nat}
    (hk : k ≤ r.commit) : mapAsOf seed x.1.log k = mapAsOf seed r.log k :=
  mapAsOf_congr (take_eq_of_kept P.kept hlen hk)

lemma Decided.progress (D : Decided seed r m) (P : r.Progress x) (hlen : r.commit < r.log.length) :
    Decided seed x.1 m := by
  obtain ⟨k, hk, hm⟩ := D
  exact ⟨k, hk.trans P.committed, (P.mapAsOf hlen hk).trans hm⟩

lemma foldl_replayEntry (hbase : r.base = 0) (log : List Entry) (i : Nat) (state : RangeMap × List Member) :
    ((log.zipIdx i).foldl (replayEntry r) state).1 =
      newest (fun e => e.decision.ranges?) state.1 (log.take (r.commit + 1 - i)) := by
  induction log generalizing i state with
  | nil => rw [take_nil]; rfl
  | cons e log ih =>
    rw [zipIdx_cons, foldl_cons, ih]
    rcases Nat.lt_or_ge r.commit i with hlt | hle
    · rw [Nat.sub_eq_zero_of_le (by omega), Nat.sub_eq_zero_of_le (by omega), take_zero, take_zero]
      unfold replayEntry
      split
      · rfl
      · rw [if_neg (by omega)]
      · rfl
    · rw [show r.commit + 1 - i = r.commit + 1 - (i + 1) + 1 by omega, take_succ_cons, newest_cons]
      congr 1
      unfold replayEntry
      split
      · next hd => rw [hd]; rfl
      · next hd => rw [if_pos (by omega), hd]; rfl
      · next hd => rw [hd]; rfl

/-- A new process goes by the newest map it knows to be committed. -/
lemma Placed.start {disk : Option State} {sent : List (NodeId × Message)}
    (hbase : (start config disk).raft.base = 0) : Placed config.ranges { start config disk with sent } where
  ranges := ⟨_, le_rfl, (foldl_replayEntry hbase _ 0 (config.ranges, config.members)).symm⟩
  folds d hd := by cases hd

end Nodes

/-- **One action of one node.** -/
lemma Placed.run (T : Tracks config Q h f) {n : NodeId} (P : Placed config.ranges (f.nodes n))
    {action : Controller.Action} (genuine : ∀ m now, action = .turn (some m) now → ∃ v, (n, m) ∈ (f.nodes v).mail)
    (steady : (f.nodes n).steady action = true) (noop : ∀ l T, Q l ⟨T, .noop⟩)
    (hprop : ∀ r d, (f.nodes n).accepts (config.of n) action = some (r, d) → Q r.log ⟨r.term, d⟩) :
    Placed config.ranges ((f.nodes n).step (config.of n) action) := by
  have hstep := step_step (config.of n) (f.nodes n) action
  have hlen := (T.agrees n).commit_lt T.valid
  generalize (f.nodes n).step (config.of n) action = c at hstep ⊢
  -- most steps fold nothing and leave the core alone
  have phases : ∀ {p : Phase}, (f.nodes n).phase = p → c.raft = (f.nodes n).raft →
      c.ranges = (f.nodes n).ranges → c.phase.decisions ⊆ p.decisions → Placed config.ranges c := by
    rintro p rfl hraft hranges hsub
    refine ⟨?_, fun d hd m hm => ?_⟩
    · rw [hraft, hranges]
      exact P.ranges
    · rw [hraft]
      exact P.folds d (hsub hd) m hm
  cases hstep with
  | stay => exact P
  | @turn incoming now r out leaseAt idle up hdriven =>
    obtain ⟨h', R⟩ := T.driven (fun m hm => genuine m now (by rw [hm])) idle up steady noop hprop
    rw [hdriven] at R
    refine ⟨P.ranges.progress R.toProgress hlen, fun d hd m hm => ?_⟩
    have hd : d ∈ (r, out).2.applied := hd
    rw [R.toProgress.handed] at hd
    obtain ⟨e, he, rfl⟩ := mem_map.1 hd
    obtain ⟨k, -, hk, he⟩ := mem_stretch he
    exact ⟨k, hk.trans R.moved.agrees.applied, mapAsOf_of_map he hm⟩
  | skip hphase | save hphase | refresh hphase => exact phases hphase rfl rfl fun d hd => hd
  | wedge hphase | publish hphase | post hphase | rest hphase => exact phases hphase rfl rfl nofun
  | @fold d decisions send upTo hphase =>
    have hfolds := P.folds
    rw [hphase] at hfolds
    refine ⟨?_, fun d' hd' => hfolds d' (mem_cons_of_mem _ hd')⟩
    show Decided config.ranges (f.nodes n).raft (foldMap (f.nodes n).ranges d)
    unfold foldMap
    cases hm : d.ranges? with
    | none => exact P.ranges
    | some m => exact hfolds d mem_cons_self m hm
  | @propose _ d r out accepted asked hp =>
    obtain ⟨h', R⟩ := T.proposed steady accepted asked hp noop hprop
    exact ⟨P.ranges.progress R.toProgress hlen, fun d hd m hm => (P.folds d hd m hm).progress R.toProgress hlen⟩
  | restart => exact Placed.start ((T.agrees n).started T.valid steady).base

/-! ## The conditions -/

namespace Fleet
variable (config : ClusterConfig) (f : Fleet)

/-- Whether a range of this node's was given away by a map newer than the one it goes by. -/
def replaced (n : NodeId) : Bool :=
  f.orders.any fun o => (f.nodes n).ranges.epoch < o.2.epoch && o.1.takes o.2 n

/-- Whether a node may be replaced by a map that is about to be appended. By the driver: the leader
has heard from it since it was last in touch itself. By a call: its lease is out. -/
def mayReplace (n : NodeId) (action : Controller.Action) (x : NodeId) : Bool :=
  match action with
  | .turn incoming now =>
    let r := ((delivered (f.nodes n).raft incoming now).1.tick now).1
    ((f.nodes x).sinceLease (f.clock x)).all fun ago => now - (r.heard x).getD 0 ≤ ago
  | _ => (f.nodes x).leaseOut config.leases.serveFor (f.clock x)

/-- Nodes are replaced only when they may be, a node that is replaced is not in touch any more, and no
node folds a map older than its own. -/
def keepsLeases (a : FleetAction) : Bool :=
  (f.acts a).all fun p =>
    ((f.order config p.1 p.2).all fun o =>
      o.1.ranges.all fun r => !o.1.takes o.2 r.primary || f.mayReplace config p.1 p.2 r.primary) &&
    (!f.replaced p.1 || ((f.nodes p.1).contact p.2).all fun t =>
      config.leases.serveFor ≤ f.clock p.1 - t) &&
    (f.nodes p.1).foldsNewer p.2

/-- And epochs stand for maps. -/
def keepsPrimaries (a : FleetAction) : Bool := f.keepsMaps config a && f.keepsLeases config a

end Fleet

variable (config h f) in
/-- The agreement holds, everybody goes by what it has decided, and whoever was replaced has run out
of lease. -/
structure Leased : Prop where
  tracks : Tracks config (Ordered config.ranges f.orders) h f
  placed : ∀ v, Placed config.ranges (f.nodes v)
  lapsed : ∀ o ∈ f.orders, ∀ x, (f.nodes x).ranges.epoch < o.2.epoch → o.1.takes o.2 x = true →
    (f.nodes x).leaseOut config.leases.serveFor (f.clock x) = true

namespace Leased
variable {config : ClusterConfig} {h : Ledger Entry NodeId} {f : Fleet} {a : FleetAction} {n : NodeId}
  {action : Controller.Action}

lemma begin (clock : NodeId → Nat) : Leased config blank (.begin config clock) where
  tracks := .begin clock (.noop _ _)
  placed v := @Placed.start (config.of v) none [] rfl
  lapsed o ho := by cases ho

lemma steady (hacts : f.acts a = some (n, action)) (ok : f.keepsMaps config a = true) :
    (f.nodes n).steady action = true :=
  steady_of_acts hacts (and_eq_true_iff.1 ok).1

/-- What is appended is the successor of the newest map in the log. -/
lemma ordered (L : Leased config h f) (checked : config.ranges.check = .ok ())
    (hacts : f.acts a = some (n, action)) (ok : f.keepsMaps config a = true) {r : Raft} {d : Decision}
    (haccepts : (f.nodes n).accepts (config.of n) action = some (r, d)) :
    Ordered config.ranges (f.orders ++ (f.order config n action).toList) r.log ⟨r.term, d⟩ := by
  intro m hm
  have hm : d.ranges? = some m := hm
  have T := L.tracks
  obtain ⟨-, marked, out, P⟩ := T.proposer (genuine hacts) (steady hacts ok) Ordered.noop haccepts
  obtain ⟨k, hk, hranges⟩ := (L.placed n).ranges
  rw [← P.mapAsOf ((T.agrees n).commit_lt T.valid) hk] at hranges
  have hepoch : m.epoch = (mapAsOf config.ranges r.log k).epoch + 1 := by
    rw [hranges]
    exact accepts_epoch haccepts hm
  rcases rising_of_keepsMaps hacts haccepts ok m hm with hnewer | hsame
  · have hnewest : newest (fun e => e.decision.ranges?) config.ranges r.log = (f.nodes n).ranges :=
      (newest_of_epoch marked fun m' hm' => by have := hnewer m' hm'; omega).trans hranges
    have first : mapAsOf config.ranges r.log 0 = config.ranges :=
      (P.mapAsOf ((T.agrees n).commit_lt T.valid) (Nat.zero_le _)).trans (T.mapAsOf_zero n)
    obtain ⟨hcheck, hseed⟩ := mapAsOf_sound marked first checked k
    refine .inr ⟨?_, fun m' hm' => ?_, ?_⟩
    · rw [hranges] at hcheck
      exact check_of_accepts hcheck haccepts hm
    · rcases mem_cons.1 hm' with rfl | hm'
      · omega
      · exact hnewer m' hm'
    · rw [hnewest, order, haccepts, bind_some, hm, map_some]
      exact mem_append_right _ mem_cons_self
  · exact .inl hsame

variable {o : RangeMap × RangeMap}

/-- Whoever a map is about to replace is out of lease, and a driver replaces others only. -/
lemma replaces (L : Leased config h f) (hserve : config.leases.serveFor < config.leases.promoteAfter)
    (hacts : f.acts a = some (n, action)) (ok : f.keepsPrimaries config a = true)
    (ho : f.order config n action = some o) {x : NodeId} (hx : o.1.takes o.2 x = true) :
    (f.nodes x).leaseOut config.leases.serveFor (f.clock x) = true ∧ ((f.nodes n).contact action = none ∨ x ≠ n) := by
  obtain ⟨hepochs, hrest⟩ := and_eq_true_iff.1 ok
  rw [keepsLeases, hacts, Option.all_some, ho, Option.all_some] at hrest
  have hall := (and_eq_true_iff.1 (and_eq_true_iff.1 hrest).1).1
  -- the range that is taken
  have hmay : f.mayReplace config n action x = true := by
    obtain ⟨range, hrange, htaken⟩ := any_eq_true.1 hx
    have hprimary := of_decide_eq_true (and_eq_true_iff.1 htaken).1
    have := all_eq_true.1 hall range hrange
    rw [hprimary, hx, Bool.not_true, Bool.false_or] at this
    exact this
  obtain ⟨⟨r, d⟩, haccepts, hm⟩ := Option.bind_eq_some_iff.1 ho
  obtain ⟨m, hm, rfl⟩ := Option.map_eq_some_iff.1 hm
  rcases accepts_cases haccepts with ⟨incoming, now, m', rfl, rfl, hpromo, rfl⟩ | ⟨-, -, hasks⟩
  · cases hm
    obtain ⟨promoted, checked, -⟩ := promoted_of_promotionFor _ _ _ hpromo
    have hsilent := silent_of_takes promoted checked hx
    simp only [heardWithin, or_eq_false_iff, decide_eq_false_iff_not, not_lt] at hsilent
    obtain ⟨hid, hlong⟩ := hsilent
    refine ⟨?_, .inr ?_⟩
    · rw [leaseOut, Option.all_eq_true]
      intro ago hago
      simp only [mayReplace, Option.all_eq_true] at hmay
      have hle := of_decide_eq_true (hmay ago hago)
      have hlong : config.leases.promoteAfter ≤ _ := hlong
      exact decide_eq_true (hserve.le.trans (hlong.trans hle))
    · have hid' := (L.tracks.proposer (genuine hacts) (steady hacts hepochs) Ordered.noop haccepts).1
      rwa [hid'] at hid
  · cases action with
    | turn => cases hasks
    | _ => exact ⟨hmay, .inl rfl⟩

section
variable (L : Leased config h f)
include L

/-- Whoever is replaced and takes an action stays out of lease. -/
lemma leaseOut_step (hacts : f.acts a = some (n, action))
    (ok : f.keepsPrimaries config a = true) (hrestart : action ≠ .restart) (ho : o ∈ f.orders)
    (hnewer : ((f.nodes n).step (config.of n) action).ranges.epoch < o.2.epoch) (hx : o.1.takes o.2 n = true) :
    ((f.nodes n).step (config.of n) action).leaseOut config.leases.serveFor (f.clock n) = true := by
  obtain ⟨-, hrest⟩ := Bool.and_eq_true_iff.1 ok
  rw [keepsLeases, hacts, all_some] at hrest
  obtain ⟨hrest, hfolds⟩ := Bool.and_eq_true_iff.1 hrest
  have hquiet := (Bool.and_eq_true_iff.1 hrest).2
  have hbefore : (f.nodes n).ranges.epoch < o.2.epoch :=
    (epoch_step hrestart hfolds).trans_lt hnewer
  have hreplaced : f.replaced n = true :=
    any_eq_true.2 ⟨o, ho, Bool.and_eq_true_iff.2 ⟨decide_eq_true hbefore, hx⟩⟩
  rw [hreplaced, Bool.not_true, Bool.false_or] at hquiet
  have hlapsed := L.lapsed o ho n hbefore hx
  unfold leaseOut sinceLease at hlapsed ⊢
  rw [leaseAt_step hrestart]
  cases hcontact : (f.nodes n).contact action with
  | none => exact hlapsed
  | some t =>
    rw [hcontact, all_some] at hquiet
    exact hquiet

section
variable (checked : config.ranges.check = .ok ())
include checked

/-- **One action of one node.** -/
lemma run (hserve : config.leases.serveFor < config.leases.promoteAfter)
    (hacts : f.acts a = some (n, action)) (ok : f.keepsPrimaries config a = true) :
    ∃ h', Leased config h' (f.run config n action) := by
  have hepochs := (and_eq_true_iff.1 ok).1
  have hordered : ∀ r d, (f.nodes n).accepts (config.of n) action = some (r, d) →
      Ordered config.ranges (f.run config n action).orders r.log ⟨r.term, d⟩ :=
    fun r d haccepts => L.ordered checked hacts hepochs haccepts
  have T : Tracks config (Ordered config.ranges (f.run config n action).orders) h f :=
    L.tracks.mono fun l e he => he.mono (subset_append_left _ _) e
  obtain ⟨h', -, T'⟩ := T.run (genuine hacts) (steady hacts hepochs) Ordered.noop hordered
  have self : (f.run config n action).nodes n = (f.nodes n).step (config.of n) action :=
    update_self ..
  have other : ∀ v, v ≠ n → (f.run config n action).nodes v = f.nodes v := fun v hv =>
    update_of_ne hv ..
  refine ⟨h', T', fun v => ?_, fun o ho x hnewer hx => ?_⟩
  · by_cases hv : v = n
    · rw [hv, self]
      exact (L.placed n).run T (genuine hacts) (steady hacts hepochs) Ordered.noop hordered
    · rw [other v hv]
      exact L.placed v
  · -- an order is an old one or the one that is given now
    have hcases : o ∈ f.orders ∨ f.order config n action = some o := by
      rcases mem_append.1 ho with ho | ho
      · exact .inl ho
      · exact .inr (mem_toList.1 ho)
    by_cases hxn : x = n
    · subst hxn
      rw [self] at hnewer ⊢
      by_cases hrestart : action = .restart
      · subst hrestart
        rfl
      rw [show (f.run config x action).clock = f.clock from if_neg hrestart]
      rcases hcases with ho | ho
      · exact L.leaseOut_step hacts ok hrestart ho hnewer hx
      obtain ⟨hout, hcontact | hne⟩ := L.replaces hserve hacts ok ho hx
      · unfold leaseOut sinceLease at hout ⊢
        rw [leaseAt_step hrestart, hcontact]
        exact hout
      · exact (hne rfl).elim
    · have hclock : (f.run config n action).clock x = f.clock x := by
        show (if action = .restart then update f.clock n 0 else f.clock) x = _
        split
        · exact update_of_ne hxn ..
        · rfl
      rw [other x hxn] at hnewer ⊢
      rw [hclock]
      rcases hcases with ho | ho
      · exact L.lapsed o ho x hnewer hx
      · exact (L.replaces hserve hacts ok ho hx).1

/-- **One step of the fleet.** -/
lemma step (hserve : config.leases.serveFor < config.leases.promoteAfter)
    (ok : f.keepsPrimaries config a = true) : ∃ h', Leased config h' (f.step config a) := by
  rcases f.step_cases config a with ⟨time, -, heq⟩ | heq | ⟨n, action, hacts, heq⟩
  · rw [heq]
    obtain ⟨valid, fair, agrees, marked, mail⟩ := L.tracks
    refine ⟨h, ⟨valid, fair, agrees, marked, mail⟩, L.placed, fun o ho x hnewer hx => ?_⟩
    have out := L.lapsed o ho x hnewer hx
    unfold leaseOut sinceLease at *
    cases hat : (f.nodes x).leaseAt with
    | none => rfl
    | some t =>
      simp only [hat, map_some, all_some, decide_eq_true_eq] at out ⊢
      omega
  · rw [heq]
    exact ⟨h, L⟩
  · rw [heq]
    exact L.run checked hserve hacts ok

lemma check (v : NodeId) : (f.nodes v).ranges.check = .ok () := by
  obtain ⟨k, -, hk⟩ := (L.placed v).ranges
  rw [← hk]
  exact (mapAsOf_sound (L.tracks.marked v) (L.tracks.mapAsOf_zero v) checked k).1

/-- Of two nodes that serve one range, the one that has folded less was replaced. -/
lemma lapsed_of_behind {x y : NodeId}
    {i j : Nat} (hij : i ≤ j) (hi : i ≤ (f.nodes x).raft.commit) (hj : j ≤ (f.nodes y).raft.commit)
    (hx : mapAsOf config.ranges (f.nodes x).raft.log i = (f.nodes x).ranges)
    (hy : mapAsOf config.ranges (f.nodes y).raft.log j = (f.nodes y).ranges) (hne : x ≠ y)
    {rx ry : Range} (hrx : rx ∈ (f.nodes x).ranges.ranges) (hry : ry ∈ (f.nodes y).ranges.ranges)
    (hid : rx.id = ry.id) (hpx : rx.primary = x) (hpy : ry.primary = y) :
    (f.nodes x).leaseOut config.leases.serveFor (f.clock x) = true := by
  have agree : mapAsOf config.ranges (f.nodes x).raft.log i = mapAsOf config.ranges (f.nodes y).raft.log i := by
    refine mapAsOf_congr (ext_getElem? fun k => ?_)
    rcases Nat.lt_or_ge k (i + 1) with hk | hk
    · rw [getElem?_take_of_lt hk, getElem?_take_of_lt hk]
      exact L.tracks.committed_agree L.tracks (.refl h) (by omega) (by omega)
    · rw [getElem?_take_eq_none hk, getElem?_take_eq_none hk]
  rw [agree] at hx
  have hfirst : (mapAsOf config.ranges (f.nodes y).raft.log i).primaryOf rx.id = some x := by
    rw [hx, primaryOf_of_mem (L.check checked x) hrx, hpx]
  have hlast : (mapAsOf config.ranges (f.nodes y).raft.log j).primaryOf rx.id ≠ some x := by
    rw [hy, hid, primaryOf_of_mem (L.check checked y) hry, hpy]
    exact fun heq => hne (some.inj heq).symm
  obtain ⟨o, ho, hbefore, hafter, hnewer⟩ :=
    undone_by_order (L.tracks.marked y) (P := fun m => m.primaryOf rx.id = some x) hij hfirst hlast
  rw [hx] at hnewer
  refine L.lapsed o ho x hnewer ?_
  obtain ⟨r, hr, hprimary⟩ := map_eq_some_iff.1 hbefore
  rw [rangeWith_eq_find?] at hr
  have hfound := find?_some hr
  have hfound : r.id = rx.id := of_decide_eq_true hfound
  refine any_eq_true.2 ⟨r, mem_of_find?_eq_some hr, ?_⟩
  rw [and_eq_true, decide_eq_true_eq, decide_eq_true_eq, hfound]
  exact ⟨hprimary, hafter⟩

end

end

end Leased

lemma Controller.not_mayServe {c : Controller} {now : Nat} {r : Range}
    (hr : r ∈ c.ranges.ranges) (hin : config.this ∈ r.group) (hcopies : 1 < r.group.length)
    (hout : c.leaseOut config.leases.serveFor now = true) : c.mayServe config now = false := by
  have hfenced : c.fenced config.this = true := by
    refine any_eq_true.2 ⟨r, hr, ?_⟩
    rw [Bool.and_eq_true, decide_eq_true_eq, decide_eq_true_eq]
    exact ⟨hin, hcopies⟩
  unfold mayServe
  unfold leaseOut at hout
  rw [hfenced, Bool.not_true, Bool.false_or]
  cases hsince : c.sinceLease now with
  | none => rfl
  | some ago =>
    rw [hsince, all_some, decide_eq_true_eq] at hout
    rw [any_some, decide_eq_false_iff_not]
    omega

/-- No range with copies is served by two nodes, that way. -/
theorem replicated_ranges_are_served_once (config : ClusterConfig) (clock : NodeId → Nat) (f : Fleet)
    (checked : config.ranges.check = .ok ())
    (hserve : config.leases.serveFor < config.leases.promoteAfter)
    (run : Run (Fleet.step config) (fun f a => f.keepsPrimaries config a = true) (.begin config clock) f)
    (x y : NodeId) (hne : x ≠ y) (rx ry : Range) (hrx : rx ∈ (f.nodes x).ranges.ranges)
    (hry : ry ∈ (f.nodes y).ranges.ranges) (hid : rx.id = ry.id) (hpx : rx.primary = x)
    (hpy : ry.primary = y) (hcx : 1 < rx.group.length) (hcy : 1 < ry.group.length) :
    ¬ ((f.nodes x).mayServe (config.of x) (f.clock x) = true ∧
      (f.nodes y).mayServe (config.of y) (f.clock y) = true) := by
  have leased : ∃ h, Leased config h f := by
    refine run.run (P := fun g => ∃ h, Leased config h g) ⟨_, .begin clock⟩ ?_
    rintro g a ok ⟨h, L⟩
    exact L.step checked hserve ok
  obtain ⟨h, L⟩ := leased
  have holds : ∀ v, ∀ r ∈ (f.nodes v).ranges.ranges, r.primary ∈ r.group := fun v =>
    primary_mem_of_checkRanges (check_ok (L.check checked v)).1
  obtain ⟨i, hi, hx⟩ := (L.placed x).ranges
  obtain ⟨j, hj, hy⟩ := (L.placed y).ranges
  rintro ⟨sx, sy⟩
  rcases Nat.le_total i j with hij | hji
  · have hout := L.lapsed_of_behind checked hij hi hj hx hy hne hrx hry hid hpx hpy
    have hin := holds x rx hrx
    rw [hpx] at hin
    have hnot : (f.nodes x).mayServe (config.of x) (f.clock x) = false :=
      not_mayServe hrx hin hcx hout
    rw [hnot] at sx
    cases sx
  · have hout := L.lapsed_of_behind checked hji hj hi hy hx hne.symm hry hrx hid.symm hpy hpx
    have hin := holds y ry hry
    rw [hpy] at hin
    have hnot : (f.nodes y).mayServe (config.of y) (f.clock y) = false :=
      not_mayServe hry hin hcy hout
    rw [hnot] at sy
    cases sy

/-- Three voters; nodes 1 and 2 hold the range, and node 1 serves it. -/
def pairInTrio : ClusterConfig :=
  ⟨0, trio, { (default : RangeMap) with ranges := [⟨0, ⟨0, none⟩, [1, 2], 1, none⟩] }, default, default⟩

namespace Fleet

/-- Node 0 of three stands, wins and has its first entry acknowledged by both. -/
def trioElects : List FleetAction :=
  .pass 5000 :: round 0 none ++ round 1 (some (0, 0)) ++ round 2 (some (0, 1)) ++ round 0 (some (1, 0)) ++
    round 0 (some (2, 0)) ++ round 1 (some (0, 2)) ++ round 2 (some (0, 3)) ++ round 0 (some (1, 1)) ++
    round 0 (some (2, 1))

/-- Node 1 gets and says nothing more. Node 2 answers once, is given the range and folds the map
that says so. -/
def nodeTwoTakesOver : List FleetAction :=
  .pass 1000 :: round 0 none ++ round 2 (some (0, 5)) ++ round 0 (some (2, 2)) ++
    .pass 3500 :: round 0 none ++ [.act 0 .post, .act 0 .post] ++ round 2 (some (0, 9)) ++
    round 0 (some (2, 3)) ++ .pass 1000 :: round 0 none ++ round 2 (some (0, 11))

/-- What node 2 is given. -/
def takenOver : RangeMap :=
  { pairInTrio.ranges with epoch := 1, ranges := [⟨0, ⟨0, none⟩, [1, 2], 2, none⟩], stale := [1] }

/-- `keepsMaps`, when one map alone is appended more than once. -/
def repeats (config : ClusterConfig) (m : RangeMap) (f : Fleet) (a : FleetAction) : Bool :=
  f.steady a && (f.acts a).all fun p => ((f.nodes p.1).accepts (config.of p.1) p.2).all fun q =>
    q.2.ranges?.all fun next => ((mapsIn q.1.log).all fun m => m.epoch ≤ (f.nodes p.1).ranges.epoch) ||
      ((mapsIn q.1.log).getLast? = some m && next = m)

lemma keepsMaps_of_repeats {m : RangeMap} {f : Fleet} {a : FleetAction}
    (h : f.repeats config m a = true) : f.keepsMaps config a = true := by
  rw [repeats, and_eq_true] at h
  rw [keepsMaps, and_eq_true]
  refine ⟨h.1, ?_⟩
  simp only [Option.all_eq_true] at h ⊢
  intro p hp q hq next hnext
  rcases or_eq_true_iff.1 (h.2 p hp q hq next hnext) with hall | hsame
  · rw [hall, Bool.true_or]
  · simp only [and_eq_true, decide_eq_true_eq] at hsame
    rw [hsame.1, hsame.2, decide_eq_true rfl, Bool.or_true]

end Fleet

theorem replicated_ranges_are_served_once_trio :
    let f := Fleet.exec pairInTrio (trioElects ++ nodeTwoTakesOver)
    (f.nodes 1).ranges.ranges = [⟨0, ⟨0, none⟩, [1, 2], 1, none⟩] ∧
    (f.nodes 2).ranges.ranges = [⟨0, ⟨0, none⟩, [1, 2], 2, none⟩] ∧
    (f.nodes 2).mayServe (pairInTrio.of 2) (f.clock 2) = true ∧
    (f.nodes 1).mayServe (pairInTrio.of 1) (f.clock 1) = false := by
  intro f
  have hrun : Run (Fleet.step pairInTrio) (fun f a => f.keepsPrimaries pairInTrio a = true)
      (.begin pairInTrio fun _ => 0) f :=
    Run.play (fun f a => f.repeats pairInTrio takenOver a && f.keepsLeases pairInTrio a) _
      (by decide +kernel) fun f a h => by
        rw [Bool.and_eq_true] at h
        rw [keepsPrimaries, keepsMaps_of_repeats h.1, h.2, Bool.and_self]
  have hold : (f.nodes 1).ranges.ranges = [⟨0, ⟨0, none⟩, [1, 2], 1, none⟩] := by decide +kernel
  have hnew : (f.nodes 2).ranges.ranges = [⟨0, ⟨0, none⟩, [1, 2], 2, none⟩] := by decide +kernel
  have hserves : (f.nodes 2).mayServe (pairInTrio.of 2) (f.clock 2) = true := by decide +kernel
  clear_value f
  refine ⟨hold, hnew, hserves, ?_⟩
  have hone : ⟨0, ⟨0, none⟩, [1, 2], 1, none⟩ ∈ (f.nodes 1).ranges.ranges := by
    rw [hold]
    exact mem_cons_self
  have htwo : ⟨0, ⟨0, none⟩, [1, 2], 2, none⟩ ∈ (f.nodes 2).ranges.ranges := by
    rw [hnew]
    exact mem_cons_self
  have hnot := replicated_ranges_are_served_once pairInTrio (fun _ => 0) f rfl (by decide) hrun 1 2 (by decide)
    _ _ hone htwo rfl rfl rfl (by decide) (by decide)
  rw [Bool.eq_false_iff]
  exact fun hserved => hnot ⟨hserved, hserves⟩

/-- Then an append that node 0 sent before it gave the range away gets to node 1. -/
theorem range_served_twice :
    let f := Fleet.exec pairInTrio (trioElects ++ nodeTwoTakesOver ++ [.turn 1 (some (0, 4))])
    (f.nodes 1).ranges.ranges = [⟨0, ⟨0, none⟩, [1, 2], 1, none⟩] ∧
    (f.nodes 2).ranges.ranges = [⟨0, ⟨0, none⟩, [1, 2], 2, none⟩] ∧
    (f.nodes 1).mayServe (pairInTrio.of 1) (f.clock 1) = true ∧
    (f.nodes 2).mayServe (pairInTrio.of 2) (f.clock 2) = true := by
  intro f
  exact ⟨by decide +kernel, by decide +kernel, by decide +kernel, by decide +kernel⟩

end BigDb.Cluster
