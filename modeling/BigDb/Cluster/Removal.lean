import BigDb.Cluster.Admin
import BigDb.Cluster.Primaries
import BigDb.Lib.Fallible

/-!
# Nodes that have left

The membership and the map are two values that are decided about one after another. The verbs
that change one of them look at the other, if at all, before they propose: `remove_node` at a map
its node has folded, `move_range`, `split_range` and `add_replica` at the members its driver has
copied out. What was decided since is not looked at again, and `check_with` asks about nobody but
the schema leader. `remove_node` does not ask either whether a range is on its way to the node.

A call is the readings it has taken so far; each is a step of its own. In which order a call takes
its readings is left open here, the source has one order for each verb.
-/

namespace BigDb.Cluster
open Lib List Function Option RangeMap Controller Fleet

/-! ## What the verbs make of what they have read -/

/-- The position of a node that has not left. -/
def nodeNamed (members : List Member) (name : String) : Option NodeId :=
  members.findIdx? fun m => m.name = name && m.state ≠ .gone

/-- A node that may be given a range. The members are read twice. -/
def voterNamed (first second : List Member) (name : String) : Option NodeId := do
  let i ← nodeNamed first name
  if (second[i]?).any fun m => m.state = .voter then some i else none

/-- `set_state`, up to the proposal; `none` also when there is nothing to propose. -/
def setState (first second : List Member) (name : String) (state : MemberState) : Option (List Member) := do
  let node ← nodeNamed second name
  let member ← first[node]?
  if member.state = state then none else some (first.set node { member with state })

/-- `add_node`, up to the proposal. -/
def addNode (members : List Member) (name addr : String) : Option (List Member) :=
  match members.findIdx? fun m => m.name = name with
  | none => some (members ++ [⟨name, addr, .learner⟩])
  | some i => do
    let existing ← members[i]?
    -- a node that comes back takes its slot again
    if existing.state ≠ .gone then none else some (members.set i { existing with addr, state := .learner })

/-- What is asked of a node. `verb` is a step of a move after the first, or a verb that names no
node. -/
inductive Request where
  | splitRange (pos : Nat) (target : Option String)
  | moveRange (id : RangeId) (target : String)
  | addReplica (id : RangeId) (target : String)
  | dropReplica (id : RangeId) (target : String)
  | verb (v : Verb)
  | addNode (name addr : String)
  | admitNode (name : String)
  | drainNode (name : String)
  | removeNode (name : String)
deriving DecidableEq, Repr

def Verb.placed : Verb → Option NodeId
  | .splitRange _ target => target
  | .beginMove _ target => some target
  | .addReplica _ target => some target
  | _ => none

def Verb.proposal (v : Verb) (m : RangeMap) : Option Controller.Action :=
  (v.change m).toOption.map .proposeMap

structure Call where
  request : Request
  /-- who was in the cluster, each time it asked -/
  lists : List (List Member)
  /-- the maps it has read -/
  maps : List RangeMap
deriving DecidableEq, Repr

/-- What a call proposes once it has read everything. -/
def Call.draft (c : Call) : Option Controller.Action :=
  match c.request, c.lists, c.maps with
  | .splitRange pos none, [], [m] => (Verb.splitRange pos none).proposal m
  | .splitRange pos (some name), [l, l'], [m] => do
    let target ← voterNamed l l' name
    (Verb.splitRange pos (some target)).proposal m
  | .moveRange id name, [l, l'], [m, m'] => do
    let target ← voterNamed l l' name
    let i ← m.position id
    let r ← m.ranges[i]?
    if r.primary = target then none else (Verb.beginMove id target).proposal m'
  | .addReplica id name, [l, l', l''], [m, m'] => do
    let target ← voterNamed l l' name
    let i ← m.position id
    let r ← m.ranges[i]?
    if r.moving.isSome then none
    else if (l''.filter fun n => n.state = .voter).length < 3 then none
    else (Verb.addReplica id target).proposal m'
  | .dropReplica id name, [l], [m] => do
    let target ← nodeNamed l name
    (Verb.dropReplica id target).proposal m
  | .verb v, [], [m] => if v.placed.isSome then none else v.proposal m
  | .addNode name addr, [l], [] => (Cluster.addNode l name addr).map .proposeMembers
  | .admitNode name, [l, l'], [] => (setState l l' name .voter).map .proposeMembers
  | .drainNode name, [l, l'], [] => (setState l l' name .draining).map .proposeMembers
  | .removeNode name, [l, l', l''], [m] => do
    let node ← nodeNamed l name
    if (m.heldBy node).isEmpty then (setState l' l'' name .gone).map .proposeMembers else none
  | _, _, _ => none

/-- Whether a removal leaves the targets of moves alone, by what the call has read. -/
def Call.spares (c : Call) : Bool :=
  match c.request with
  | .removeNode name => c.lists.all fun l => c.maps.all fun m => (nodeNamed l name).all fun node =>
      m.ranges.all fun r => r.moving.all fun moving => moving.target ≠ node
  | _ => true

/-! ## Callers on every node of a fleet -/

structure Office where
  fleet : Fleet
  calls : NodeId → Nat → Option Call

inductive OfficeAction where
  /-- anything but a proposal of a map or of a membership by a caller -/
  | fleet (a : FleetAction)
  | call (n : NodeId) (t : Nat) (request : Request)
  /-- a call asks who is in the cluster -/
  | look (n : NodeId) (t : Nat)
  /-- a call reads the map -/
  | read (n : NodeId) (t : Nat)
  | propose (n : NodeId) (t : Nat)
  | giveUp (n : NodeId) (t : Nat)
deriving DecidableEq, Repr

/-- The map and the members a log decides about, over those of the file. -/
def decided (config : ClusterConfig) (log : List Entry) : RangeMap × List Member :=
  log.foldl Raft.foldDecision (config.ranges, config.members)

namespace Office
variable (config : ClusterConfig)

def begin (clock : NodeId → Nat) : Office := ⟨.begin config clock, fun _ _ => none⟩

def set (o : Office) (n : NodeId) (t : Nat) (c : Option Call) : Office :=
  { o with calls := update o.calls n (update (o.calls n) t c) }

def step (o : Office) : OfficeAction → Office
  | .fleet (.act _ (.proposeMap _)) | .fleet (.act _ (.proposeMembers _)) => o
  -- the callers of a process end with it
  | .fleet (.act n .restart) =>
    ⟨o.fleet.step config (.act n .restart), update o.calls n fun _ => none⟩
  | .fleet a => { o with fleet := o.fleet.step config a }
  | .call n t request => if (o.calls n t).isSome then o else o.set n t (some ⟨request, [], []⟩)
  | .look n t =>
    match o.calls n t with
    | some c => o.set n t (some { c with lists := c.lists ++ [(o.fleet.nodes n).members] })
    | none => o
  | .read n t =>
    match o.calls n t with
    | some c => o.set n t (some { c with maps := c.maps ++ [(o.fleet.nodes n).ranges] })
    | none => o
  | .propose n t =>
    match (o.calls n t).bind Call.draft with
    | some action => { o.set n t none with fleet := o.fleet.step config (.act n action) }
    | none => o
  | .giveUp n t => o.set n t none

/-- Whether what a proposal rests on is still so. The driver and `mark_repaired` go by the newest
map in the log; what a call has read are the newest map and the newest membership in the log, and
it does not remove the target of a move. A proposal that is turned away may rest on anything. -/
def timely (o : Office) : OfficeAction → Bool
  | .fleet a => o.fleet.steady a &&
    (o.fleet.acts a).all fun p => ((o.fleet.nodes p.1).accepts (config.of p.1) p.2).all fun q =>
      q.2.ranges?.all fun _ => (o.fleet.nodes p.1).ranges = (decided config q.1.log).1
  | .propose n t =>
    (o.calls n t).all fun c => c.draft.all fun action =>
      o.fleet.steady (.act n action) && ((o.fleet.nodes n).refuses action ||
        c.lists.all (· = (decided config (o.fleet.nodes n).raft.log).2) &&
        c.maps.all (· = (decided config (o.fleet.nodes n).raft.log).1) && c.spares)
  | _ => true

end Office

/-! ## What a change leaves housed -/

def Range.Names (r : Range) (n : NodeId) : Prop :=
  n ∈ r.group ∨ ∃ moving, r.moving = some moving ∧ moving.target = n

def Present (members : List Member) (n : NodeId) : Prop := ∀ m, members[n]? = some m → m.state ≠ .gone

/-- Every range is served by one of its group and is on nodes that have not left. -/
structure Housed (s : RangeMap × List Member) : Prop where
  seated : ∀ r ∈ s.1.ranges, r.primary ∈ r.group
  present : ∀ r ∈ s.1.ranges, ∀ n, r.Names n → Present s.2 n

section Verbs
variable {m next : RangeMap} {ms : List Member} {n : NodeId} {id : RangeId}

/-- An edit that names nobody but those the range named and one more. -/
lemma names_of_editRange {ε : Type} {missing : ε} {f : Range → Except ε Range}
    (target : Option NodeId) (h : m.editRange id missing f = .ok next)
    (hf : ∀ r r', f r = .ok r' → ∀ n, r'.Names n → r.Names n ∨ target = some n) :
    ∀ r ∈ next.ranges, r.Names n → (∃ r' ∈ m.ranges, r'.Names n) ∨ target = some n := by
  obtain ⟨i, r, r', -, hi, hfr, rfl⟩ := editRange_ok h
  intro x hx hn
  rcases mem_or_eq_of_mem_set hx with hx | rfl
  · exact .inl ⟨x, hx, hn⟩
  · exact (hf r x hfr n hn).imp_left fun hn => ⟨r, mem_of_getElem? hi, hn⟩

lemma names_of_split {pos : Nat} (h : m.split pos = .ok (next, id)) :
    ∀ r ∈ next.ranges, r.Names n → ∃ r' ∈ m.ranges, r'.Names n := by
  unfold split at h
  dsimp only at h
  split at h
  · cases h
  · next existing hi =>
    have hmem := mem_of_getElem? hi
    split at h
    · cases h
    split at h
    · cases h
    cases h
    intro r hr hn
    -- both halves name whom the whole did
    rcases eq_or_mem_of_mem_insertIdx hr with rfl | hr
    · rcases hn with hn | ⟨moving, hnone, -⟩
      · exact ⟨existing, hmem, .inl hn⟩
      · cases hnone
    · rcases mem_or_eq_of_mem_set hr with hr | rfl
      · exact ⟨r, hr, hn⟩
      · exact ⟨existing, hmem, hn⟩

lemma names_of_merge (h : m.merge id = .ok next) : ∀ r ∈ next.ranges, r.Names n → ∃ r' ∈ m.ranges, r'.Names n := by
  unfold RangeMap.merge at h
  split at h
  · cases h
  split at h
  · next a b ha hb =>
    split at h
    · cases h
    split at h
    · cases h
    cases h
    intro r hr hn
    rcases mem_or_eq_of_mem_set (mem_of_mem_eraseIdx hr) with hr | rfl
    · exact ⟨r, hr, hn⟩
    · exact ⟨a, mem_of_getElem? ha, hn⟩
  · cases h

/-- A verb puts a range nowhere but where one was and where it was told to. -/
lemma names_of_change {v : Verb} (h : v.change m = .ok next) :
    ∀ r ∈ next.ranges, r.Names n → (∃ r' ∈ m.ranges, r'.Names n) ∨ v.placed = some n := by
  cases v with
  | splitRange pos target =>
    simp only [Verb.change] at h
    cases hsplit : m.split pos with
    | error e =>
      rw [hsplit] at h
      cases h
    | ok cut =>
      obtain ⟨cut, id⟩ := cut
      rw [hsplit] at h
      intro r hr hn
      cases target with
      | none =>
        cases h
        exact .inl (names_of_split hsplit r hr hn)
      | some target =>
        have hassign : cut.assign id [target] = .ok next := mapError_ok h
        have := names_of_editRange (some target) hassign (fun x x' hx n hn => ?_) r hr hn
        · exact this.imp_left fun ⟨r', hr', hn'⟩ => names_of_split hsplit r' hr' hn'
        · cases hx
          rcases hn with hn | hn
          · exact .inr (congrArg some (mem_singleton.1 hn).symm)
          · exact .inl (.inr hn)
  | mergeRange id => exact fun r hr hn => .inl (names_of_merge (mapError_ok h) r hr hn)
  | beginMove id target =>
    refine names_of_editRange (some target) (mapError_ok h) fun r r' hr n hn => ?_
    split at hr
    · cases hr
    split at hr
    · cases hr
    cases hr
    rcases hn with hn | ⟨moving, hmoving, rfl⟩
    · exact .inl (.inl hn)
    · cases hmoving
      exact .inr rfl
  | cutover id =>
    refine names_of_editRange none (mapError_ok h) fun r r' hr n hn => .inl ?_
    split at hr
    · cases hr
    · next moving hmoving =>
      cases hr
      rcases hn with hn | ⟨moving', hmoving', rfl⟩
      · exact .inl hn
      · cases hmoving'
        exact .inr ⟨moving, hmoving, rfl⟩
  | finishMove id =>
    refine names_of_editRange none (mapError_ok h) fun r r' hr n hn => .inl ?_
    split at hr
    · cases hr
    · next moving hmoving =>
      cases hr
      rcases hn with hn | ⟨moving', hmoving', -⟩
      · exact .inr ⟨moving, hmoving, (mem_singleton.1 hn).symm⟩
      · cases hmoving'
  | cancelMove id =>
    refine names_of_editRange none (mapError_ok h) fun r r' hr n hn => .inl ?_
    split at hr
    · cases hr
    cases hr
    rcases hn with hn | ⟨moving', hmoving', -⟩
    · exact .inl hn
    · cases hmoving'
  | addReplica id target =>
    have hadd := mapError_ok h
    unfold addHolder at hadd
    cases hedit : m.editRange id (MapError.noSuchRange id) _ with
    | error e =>
      rw [hedit] at hadd
      cases hadd
    | ok edited =>
      rw [hedit] at hadd
      have hranges : next.ranges = edited.ranges := by
        cases hadd
        dsimp only
        split <;> rfl
      rw [hranges]
      refine names_of_editRange (some target) hedit fun r r' hr n hn => ?_
      split at hr
      · cases hr
      cases hr
      rcases hn with hn | hn
      · rcases mem_append.1 hn with hn | hn
        · exact .inl (.inl hn)
        · exact .inr (congrArg some (mem_singleton.1 hn).symm)
      · exact .inl (.inr hn)
  | dropReplica id target =>
    refine names_of_editRange none (mapError_ok h) fun r r' hr n hn => .inl ?_
    split at hr
    · cases hr
    split at hr
    · cases hr
    · cases hr
      exact hn.imp_left fun hn => (mem_filter.1 hn).1
  | moveSchema target =>
    cases h
    exact fun r hr hn => .inl ⟨r, hr, hn⟩
  | finishSchemaHandover successor =>
    simp only [Verb.change] at h
    split at h
    · cases h
    · cases h
      exact fun r hr hn => .inl ⟨r, hr, hn⟩
  | reserve table upto =>
    cases h
    rw [reserve_frame]
    exact fun r hr hn => .inl ⟨r, hr, hn⟩

/-- A new map is as well housed if what it names is what was named and a node that is there. -/
lemma Housed.ranges {t : Nat} (H : Housed (m, ms)) (seated : ∀ r ∈ next.ranges, r.primary ∈ r.group)
    (names : ∀ n, ∀ r ∈ next.ranges, r.Names n → (∃ r' ∈ m.ranges, r'.Names n) ∨ Present ms n) :
    Housed (Raft.foldDecision (m, ms) ⟨t, .ranges next⟩) where
  seated := seated
  present r hr n hn := by
    rcases names n r hr hn with ⟨r', hr', hn'⟩ | hpresent
    · exact H.present r' hr' n hn'
    · exact hpresent

/-- And a new membership, if nobody that is named has left by it. -/
lemma Housed.members {t : Nat} {ms' : List Member} (H : Housed (m, ms))
    (kept : ∀ n, (∃ r ∈ m.ranges, r.Names n) → Present ms n → Present ms' n) :
    Housed (Raft.foldDecision (m, ms) ⟨t, .members ms'⟩) where
  seated := H.seated
  present r hr n hn := kept n ⟨r, hr, hn⟩ (H.present r hr n hn)

end Verbs

section Lists
variable {l ms : List Member} {name addr : String} {n : NodeId}

/-- Whoever a name that counts belongs to is there. -/
lemma present_of_voterNamed (h : voterNamed ms ms name = some n) : Present ms n := by
  obtain ⟨i, -, hif⟩ := bind_eq_some_iff.1 h
  split at hif
  · next hvoter =>
    cases hif
    intro m hm hgone
    rw [hm, any_some, decide_eq_true_eq, hgone] at hvoter
    cases hvoter
  · cases hif

/-- Nobody leaves by one slot but the one in it. -/
lemma present_set {i : Nat} {x : Member} (h : Present ms n) (hx : i = n → x.state ≠ .gone) :
    Present (ms.set i x) n := by
  intro m hm
  by_cases hi : i = n
  · subst hi
    rw [getElem?_set] at hm
    split at hm
    · split at hm
      · cases hm
        exact hx rfl
      · cases hm
    · exact h m hm
  · rw [getElem?_set_ne hi] at hm
    exact h m hm

lemma present_addNode (h : Cluster.addNode ms name addr = some l) (hn : Present ms n) : Present l n := by
  unfold Cluster.addNode at h
  split at h
  · cases h
    intro m hm
    rcases getElem?_concat_some hm with ⟨-, hm⟩ | ⟨-, rfl⟩
    · exact hn m hm
    · exact nofun
  · obtain ⟨existing, -, hif⟩ := bind_eq_some_iff.1 h
    split at hif
    · cases hif
    · cases hif
      exact present_set hn nofun

lemma setState_some {state : MemberState} (h : setState ms ms name state = some l) :
    ∃ i member, nodeNamed ms name = some i ∧ ms[i]? = some member ∧ l = ms.set i { member with state } := by
  obtain ⟨i, hi, h⟩ := bind_eq_some_iff.1 h
  obtain ⟨member, hmember, h⟩ := bind_eq_some_iff.1 h
  split at h
  · cases h
  · cases h
    exact ⟨i, member, hi, hmember, rfl⟩

lemma not_mem_group_of_heldBy {m : RangeMap} (h : (m.heldBy n).isEmpty = true) {r : Range}
    (hr : r ∈ m.ranges) : n ∉ r.group := by
  intro hn
  obtain ⟨i, hi⟩ := mem_iff_getElem?.1 hr
  have hlt := lt_of_getElem? hi
  have : i ∈ m.heldBy n := by
    refine mem_filter.2 ⟨mem_range.2 hlt, ?_⟩
    rw [hi, any_some]
    exact decide_eq_true hn
  rw [isEmpty_iff.1 h] at this
  cases this

end Lists

/-- A proposal that leaves what is housed so: a map that names nobody new but nodes that are there,
or a membership by which nobody a range is on has left. -/
inductive Fits (m : RangeMap) (ms : List Member) : Controller.Action → Prop where
  | map {next : RangeMap} (names : ∀ n, ∀ r ∈ next.ranges, r.Names n →
      (∃ r' ∈ m.ranges, r'.Names n) ∨ Present ms n) : Fits m ms (.proposeMap next)
  | members {ms' : List Member} (kept : ∀ n, (∃ r ∈ m.ranges, r.Names n) → Present ms n → Present ms' n) :
      Fits m ms (.proposeMembers ms')

section Draft
variable {m : RangeMap} {ms : List Member} {action : Controller.Action}

lemma Fits.proposal {v : Verb} (h : v.proposal m = some action)
    (placed : ∀ n, v.placed = some n → Present ms n) : Fits m ms action := by
  obtain ⟨next, hnext, rfl⟩ := map_eq_some_iff.1 h
  refine .map fun n r hr hn => ?_
  have hok : v.change m = .ok next := by
    cases hchange : v.change m with
    | ok => rw [hchange] at hnext; exact congrArg _ (some.inj hnext)
    | error => rw [hchange] at hnext; cases hnext
  exact (names_of_change hok r hr hn).imp_right (placed n)

/-- A range is put on a node that was found by its name. -/
lemma Fits.voter {v : Verb} {name : String} {n : NodeId} (h : v.proposal m = some action)
    (named : voterNamed ms ms name = some n) (placed : v.placed = some n) : Fits m ms action := by
  refine .proposal h fun n' hn => ?_
  cases placed.symm.trans hn
  exact present_of_voterNamed named

lemma Fits.setState {name : String} {state : MemberState} (hstate : state ≠ .gone)
    (h : (Cluster.setState ms ms name state).map .proposeMembers = some action) : Fits m ms action := by
  obtain ⟨l, hl, rfl⟩ := map_eq_some_iff.1 h
  obtain ⟨i, member, -, -, rfl⟩ := setState_some hl
  exact .members fun n _ hn => present_set hn fun _ => hstate

/-- **What a call proposes fits what it has read.** -/
lemma Call.fits {c : Call} (lists : ∀ l ∈ c.lists, l = ms) (maps : ∀ x ∈ c.maps, x = m)
    (spares : c.spares = true) (h : c.draft = some action) : Fits m ms action := by
  obtain ⟨request, ls, xs⟩ := c
  unfold Call.draft at h
  dsimp only at h
  split at h
  · simp only [forall_mem_cons] at maps
    obtain ⟨rfl, -⟩ := maps
    exact .proposal h nofun
  · simp only [forall_mem_cons] at lists maps
    obtain ⟨⟨rfl, rfl, -⟩, rfl, -⟩ := And.intro lists maps
    obtain ⟨target, htarget, h⟩ := bind_eq_some_iff.1 h
    exact .voter h htarget rfl
  · simp only [forall_mem_cons] at lists maps
    obtain ⟨⟨rfl, rfl, -⟩, rfl, rfl, -⟩ := And.intro lists maps
    obtain ⟨target, htarget, h⟩ := bind_eq_some_iff.1 h
    obtain ⟨i, -, h⟩ := bind_eq_some_iff.1 h
    obtain ⟨r, -, h⟩ := bind_eq_some_iff.1 h
    split at h
    · cases h
    exact .voter h htarget rfl
  · simp only [forall_mem_cons] at lists maps
    obtain ⟨⟨rfl, rfl, rfl, -⟩, rfl, rfl, -⟩ := And.intro lists maps
    obtain ⟨target, htarget, h⟩ := bind_eq_some_iff.1 h
    obtain ⟨i, -, h⟩ := bind_eq_some_iff.1 h
    obtain ⟨r, -, h⟩ := bind_eq_some_iff.1 h
    split at h
    · cases h
    split at h
    · cases h
    exact .voter h htarget rfl
  · simp only [forall_mem_cons] at lists maps
    obtain ⟨⟨rfl, -⟩, rfl, -⟩ := And.intro lists maps
    obtain ⟨target, -, h⟩ := bind_eq_some_iff.1 h
    exact .proposal h nofun
  · simp only [forall_mem_cons] at maps
    obtain ⟨rfl, -⟩ := maps
    split at h
    · cases h
    · next hplaced =>
      refine .proposal h fun n hn => ?_
      rw [hn] at hplaced
      exact (hplaced rfl).elim
  · simp only [forall_mem_cons] at lists
    obtain ⟨rfl, -⟩ := lists
    obtain ⟨l, hl, rfl⟩ := map_eq_some_iff.1 h
    exact .members fun n _ hn => present_addNode hl hn
  · simp only [forall_mem_cons] at lists
    obtain ⟨rfl, rfl, -⟩ := lists
    exact .setState (fun hgone => by cases hgone) h
  · simp only [forall_mem_cons] at lists
    obtain ⟨rfl, rfl, -⟩ := lists
    exact .setState (fun hgone => by cases hgone) h
  · simp only [forall_mem_cons] at lists maps
    obtain ⟨⟨rfl, rfl, rfl, -⟩, rfl, -⟩ := And.intro lists maps
    obtain ⟨node, hnode, h⟩ := bind_eq_some_iff.1 h
    split at h
    · next hheld =>
      obtain ⟨l, hl, rfl⟩ := map_eq_some_iff.1 h
      obtain ⟨i, member, hi, -, rfl⟩ := setState_some hl
      obtain rfl : i = node := some.inj (hi.symm.trans hnode)
      refine .members fun n ⟨r, hr, hn⟩ hpresent => present_set hpresent fun hin => ?_
      -- the node that leaves is none that is named
      subst hin
      rcases hn with hn | ⟨moving, hmoving, htarget⟩
      · exact (not_mem_group_of_heldBy hheld hr hn).elim
      simp only [Call.spares, all_cons, Bool.and_eq_true, hnode, all_some] at spares
      have hspared := all_eq_true.1 spares.1.1 r hr
      rw [hmoving, all_some, decide_eq_true_eq] at hspared
      exact (hspared htarget).elim
    · cases h
  · cases h

end Draft

/-! ## Runs -/

def KeepsHoused (config : ClusterConfig) (log : List Entry) (e : Entry) : Prop :=
  Housed (decided config log) → Housed (Raft.foldDecision (decided config log) e)

section Runs
variable {config : ClusterConfig}

lemma housed_of_marked {log : List Entry} (start : Housed (config.ranges, config.members))
    (marked : Marked (KeepsHoused config) log) : Housed (decided config log) := by
  induction log using reverseRecOn with
  | nil => exact start
  | append_singleton log e ih =>
    have here := marked log.length e (by rw [getElem?_concat_length])
    rw [take_left] at here
    rw [decided, foldl_append]
    exact here (ih (marked.of_prefix (prefix_append _ _)))

namespace Office
variable (config) in
/-- What a step does to the fleet: nothing, an action that is no caller's proposal, or what a call
proposes. -/
lemma step_fleet (o : Office) (a : OfficeAction) : (o.step config a).fleet = o.fleet ∨
    (∃ b, a = .fleet b ∧ (∀ n next, b ≠ .act n (.proposeMap next)) ∧
      (∀ n next, b ≠ .act n (.proposeMembers next)) ∧ (o.step config a).fleet = o.fleet.step config b) ∨
    ∃ n t c action, a = .propose n t ∧ o.calls n t = some c ∧ c.draft = some action ∧
      (o.step config a).fleet = o.fleet.step config (.act n action) := by
  unfold step
  split
  · exact .inl rfl
  · exact .inl rfl
  · exact .inr (.inl ⟨_, rfl, fun n next h => (by cases h), fun n next h => (by cases h), rfl⟩)
  · next b hmap hmembers hrestart =>
    exact .inr (.inl ⟨b, rfl, fun n next h => hmap n next (by rw [h]),
      fun n next h => hmembers n next (by rw [h]), rfl⟩)
  · left
    split <;> rfl
  · left
    split <;> rfl
  · left
    split <;> rfl
  · next n t =>
    split
    · next action hdraft =>
      obtain ⟨c, hc, hdraft⟩ := bind_eq_some_iff.1 hdraft
      exact .inr (.inr ⟨n, t, c, action, rfl, hc, hdraft, rfl⟩)
    · exact .inl rfl
  · exact .inl rfl

end Office

variable {action : Controller.Action} {n : NodeId} {c : Controller} {d : Decision} {r : Raft}

lemma Fleet.acts_call {f : Fleet} {a : FleetAction}
    (h : f.acts a = some (n, action)) (call : ∀ incoming now, action ≠ .turn incoming now) : a = .act n action := by
  unfold Fleet.acts at h
  split at h
  · cases h
  · cases h
    exact (call _ _ rfl).elim
  · obtain ⟨m, -, heq⟩ := map_eq_some_iff.1 h
    cases heq
    exact (call _ _ rfl).elim
  · cases h
  · cases h
    rfl

/-- What the driver proposes, and a copy that has caught up, leave every range where it is. -/
lemma keeps_of_accepts (h : c.accepts (config.of n) action = some (r, d)) (hmap : ∀ next, action ≠ .proposeMap next)
    (hmembers : ∀ next, action ≠ .proposeMembers next)
    (newest : ∀ m, d.ranges? = some m → c.ranges = (decided config r.log).1) :
    KeepsHoused config r.log ⟨r.term, d⟩ := by
  intro H
  rcases accepts_cases h with ⟨incoming, now, m, -, -, hpromo, rfl⟩ | ⟨-, -, hasks⟩
  · rw [newest m rfl] at hpromo
    obtain ⟨⟨-, primary, hranges, -⟩, hcheck, -⟩ := promoted_of_promotionFor _ _ _ hpromo
    refine H.ranges (primary_mem_of_checkRanges (check_ok hcheck).1) fun n x hx hn => .inl ?_
    rw [hranges] at hx
    obtain ⟨x', hx', rfl⟩ := mem_map.1 hx
    exact ⟨x', hx', hn⟩
  · cases action with
    | proposeMap next => exact (hmap next rfl).elim
    | proposeMembers next => exact (hmembers next rfl).elim
    | markRepaired node =>
      cases hasks
      have hranges : (repaired c.ranges node).ranges = (decided config r.log).1.ranges := by
        rw [← newest _ rfl]
        rfl
      refine H.ranges (fun x hx => H.seated x (hranges ▸ hx)) fun n x hx hn => .inl ⟨x, hranges ▸ hx, hn⟩
    | _ => cases hasks

/-- And so does what a call proposes that fits the log. -/
lemma keeps_of_fits (h : c.accepts (config.of n) action = some (r, d))
    (fits : Fits (decided config c.raft.log).1 (decided config c.raft.log).2 action) :
    KeepsHoused config r.log ⟨r.term, d⟩ := by
  intro H
  rcases accepts_cases h with ⟨incoming, now, m, rfl, -⟩ | ⟨rfl, accepted, hasks⟩
  · cases fits
  cases fits with
  | @map next names =>
    cases hasks
    refine H.ranges (fun r hr => ?_) names
    have hok : (next.checkWith c.raft.members).isOk = true := by
      simp only [refuses, Bool.or_eq_false_iff, Bool.not_eq_false'] at accepted
      exact accepted.1.1
    cases hcheck : next.checkWith c.raft.members with
    | ok =>
      have := primary_mem_of_checkRanges (check_ok (check_of_checkWith hcheck)).1
      exact this r hr
    | error e =>
      rw [hcheck] at hok
      cases hok
  | members kept =>
    cases hasks
    exact H.members kept

/-- **One step.** -/
lemma Tracks.office {h : Ledger Entry NodeId} {o : Office} {a : OfficeAction}
    (T : Tracks config (KeepsHoused config) h o.fleet) (ok : o.timely config a = true) :
    ∃ h', Tracks config (KeepsHoused config) h' (o.step config a).fleet := by
  have noop : ∀ l t, KeepsHoused config l ⟨t, .noop⟩ := fun l t H => H
  rcases o.step_fleet config a with heq | ⟨b, rfl, hmap, hmembers, heq⟩ | ⟨n, t, c, action, rfl, hcall, hdraft, heq⟩
  · rw [heq]
    exact ⟨h, T⟩
  · rw [heq]
    obtain ⟨steady, ok⟩ := Bool.and_eq_true_iff.1 ok
    obtain ⟨h', -, T'⟩ := T.step steady noop fun n action r d hacts haccepts => by
      refine keeps_of_accepts haccepts (fun next heq => ?_) (fun next heq => ?_) fun m hm => ?_
      · subst heq
        exact hmap n next (acts_call hacts nofun)
      · subst heq
        exact hmembers n next (acts_call hacts nofun)
      · rw [hacts, all_some, haccepts, all_some, hm, all_some] at ok
        exact of_decide_eq_true ok
    exact ⟨h', T'⟩
  · rw [heq]
    simp only [Office.timely] at ok
    rw [hcall, all_some, hdraft, all_some, Bool.and_eq_true] at ok
    obtain ⟨steady, ok⟩ := ok
    obtain ⟨h', -, T'⟩ := T.step steady noop fun n' action' r d hacts haccepts => by
      have hact : n' = n ∧ action' = action := by
        unfold Fleet.acts at hacts
        split at hacts
        · next heq => cases heq
        · next heq => cases heq
        · next heq => cases heq
        · cases hacts
        · next heq =>
          cases heq
          cases hacts
          exact ⟨rfl, rfl⟩
      obtain ⟨rfl, rfl⟩ := hact
      refine keeps_of_fits haccepts ?_
      have accepted : (o.fleet.nodes n').refuses action' = false := by
        rcases accepts_cases haccepts with ⟨incoming, now, m, rfl, -⟩ | ⟨-, accepted, -⟩
        · cases hacts
        · exact accepted
      rw [accepted, Bool.false_or, Bool.and_eq_true, Bool.and_eq_true] at ok
      obtain ⟨⟨lists, maps⟩, spares⟩ := ok
      refine Call.fits (fun l hl => ?_) (fun m hm => ?_) spares hdraft
      · exact of_decide_eq_true (all_eq_true.1 lists l hl)
      · exact of_decide_eq_true (all_eq_true.1 maps m hm)
    exact ⟨h', T'⟩

end Runs

variable (config : ClusterConfig)

/-- No committed state has a range on a member that has left, or on its way to one. -/
theorem no_range_on_a_gone_node (voters : ∀ m ∈ config.members, m.state = .voter)
    (checked : config.ranges.check = .ok ()) (clock : NodeId → Nat) (o : Office)
    (run : Run (Office.step config) (fun o a => o.timely config a = true) (.begin config clock) o) :
    ∀ v i, i ≤ (o.fleet.nodes v).raft.commit →
      ∀ r ∈ (decided config ((o.fleet.nodes v).raft.log.take (i + 1))).1.ranges,
      ∀ n, n ∈ r.group ∨ n = r.primary ∨ (∃ moving, r.moving = some moving ∧ moving.target = n) →
      ∀ m, (decided config ((o.fleet.nodes v).raft.log.take (i + 1))).2[n]? = some m → m.state ≠ .gone := by
  have start : Housed (config.ranges, config.members) := by
    refine ⟨primary_mem_of_checkRanges (check_ok checked).1, fun r hr n hn m hm => ?_⟩
    rw [voters m (mem_of_getElem? hm)]
    exact nofun
  have T : ∃ h, Tracks config (KeepsHoused config) h o.fleet := by
    refine run.run (P := fun o => ∃ h, Tracks config (KeepsHoused config) h o.fleet) ?_ ?_
    · exact ⟨blank, .begin clock fun H => H⟩
    · rintro o a ok ⟨h, T⟩
      exact T.office ok
  obtain ⟨h, T⟩ := T
  intro v i _ r hr n hn
  have marked := T.marked v
  have H := housed_of_marked start (marked.of_prefix (List.take_prefix (i + 1) _))
  rcases hn with hn | rfl | hn
  · exact H.present r hr n (.inl hn)
  · exact H.present r hr _ (.inl (H.seated r hr))
  · exact H.present r hr n (.inr hn)

/-- Two nodes, the first of which holds the only range. -/
def soloDuo : ClusterConfig :=
  { duoConfig with ranges := { duoMap with ranges := [⟨0, ⟨0, none⟩, [0], 0, none⟩] } }

namespace Office

def exec (actions : List OfficeAction) : Office :=
  play (step config) (begin config fun _ => 0) (actions.map fun a _ => a)

/-- Node 0 leads and begins to move the range to node 1. -/
def duoMoves : List OfficeAction :=
  duoElects.map .fleet ++
    [.call 0 0 (.moveRange 0 "b"), .look 0 0, .look 0 0, .read 0 0, .read 0 0, .propose 0 0] ++
    (duoCommits 2).map .fleet

/-- Node 0 takes a node out, in the source's order. -/
def removes (name : String) : List OfficeAction :=
  [.call 0 0 (.removeNode name), .look 0 0, .read 0 0, .look 0 0, .look 0 0, .propose 0 0]

/-- A third node comes and goes while the range is on its way. -/
def comesAndGoes : List OfficeAction :=
  duoMoves ++ [.call 0 0 (.addNode "c" "c"), .look 0 0, .propose 0 0] ++ (duoCommits 3).map .fleet ++
    removes "c" ++ (.pass 1000 :: round 0 none ++ round 1 (some (0, 5)) ++
      round 0 (some (1, 4))).map .fleet

end Office

theorem no_range_on_a_gone_node_duo :
    let o := Office.exec soloDuo Office.comesAndGoes
    let s := decided soloDuo ((o.fleet.nodes 0).raft.log.take 5)
    (o.fleet.nodes 0).raft.commit = 4 ∧ s.2.map Member.state = [.voter, .voter, .gone] ∧
      ∀ r ∈ s.1.ranges, ∀ n ∈ r.group, ∀ m, s.2[n]? = some m → m.state ≠ .gone := by
  intro o s
  have hrun : Run (Office.step soloDuo) (fun o a => o.timely soloDuo a = true) (.begin soloDuo fun _ => 0) o :=
    Run.play (fun o a => o.timely soloDuo a) _ (by decide +kernel) (fun _ _ h => h)
  have hcommit : (o.fleet.nodes 0).raft.commit = 4 := by decide +kernel
  have hstates : s.2.map Member.state = [.voter, .voter, .gone] := by decide +kernel
  clear_value o
  refine ⟨hcommit, hstates, fun r hr n hn m hm => ?_⟩
  exact no_range_on_a_gone_node soloDuo (by decide) (check_of_isOk (by decide)) (fun _ => 0) o hrun 0 4
    hcommit.ge r hr n (.inl hn) m hm

/-- The node that leaves is the one the range is on its way to. -/
theorem move_to_a_gone_node :
    let o := Office.exec soloDuo (Office.duoMoves ++ Office.removes "b" ++
      (.pass 1000 :: round 0 none).map .fleet)
    let s := decided soloDuo ((o.fleet.nodes 0).raft.log.take 4)
    (o.fleet.nodes 0).raft.commit = 3 ∧
      s.1.ranges.map Range.moving = [some ⟨1, .seeding⟩] ∧ s.2.map Member.state = [.voter, .gone] := by
  intro o s
  exact ⟨by decide +kernel, by decide +kernel, by decide +kernel⟩

end BigDb.Cluster
