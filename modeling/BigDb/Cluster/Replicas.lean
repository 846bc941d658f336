import BigDb.Cluster.CatchUp
import BigDb.Cluster.Controller
import BigDb.Cluster.Serving

/-!
# Copies and their marks

A range is written to all its copies, the serving one first, and a copy that does not answer is
passed over. Which copies may be promoted is decided by marks in the map: silence sets one, a
repair clears it, and both are decisions of their own, about a node. So what a copy has is one
thing and what the map says about it is another.

The state has the decided maps, what every node holds, the shares of all writes so far in the
order in which they began, and the repairs. A share is what a batch has for one range; a batch of
several ranges is several shares whose callers are told together. A copy that was not heard may
have committed all the same, then or later. Everyone reads the map they have applied, so an
action that reads a map names the one it reads.

`add_replica` asks first whether there are three voters; who votes is left out here.
-/

namespace BigDb.Cluster
open Lib List Function Bool Op Option RangeMap
variable {α : Type}

inductive Standing where
  | running
  | told
  | failed
deriving DecidableEq, Repr

/-- What a batch has for one range. -/
structure Share (α : Type) where
  op : Op α
  /-- the copies still to be asked, in order -/
  todo : List NodeId
  took : List NodeId
  /-- asked, and not heard -/
  missed : List NodeId
  /-- not asked any more -/
  skipped : List NodeId
  standing : Standing
deriving DecidableEq, Repr

inductive RepairStage (α : Type) where
  | copying (copy : Copying α)
  | copied
  /-- with the source's digest -/
  | digested (contents : List α)
  | agreed
  | ended
deriving DecidableEq, Repr

/-- One copy of one range being brought into line. -/
structure Repair (α : Type) where
  node : NodeId
  source : NodeId
  /-- what is compared in the end -/
  shards : ShardRange
  /-- what is copied: `none` is everything -/
  scope : Option ShardRange
  stage : RepairStage α
deriving Repr

/-- What a repair goes by once it has asked the source for its digest. -/
def Repair.basis (repair : Repair α) (store : NodeId → List α) : Option (List α) :=
  match repair.stage with
  | .digested contents => some contents
  | .agreed => some (store repair.node)
  | _ => none

structure Replicas (α : Type) where
  decided : List RangeMap
  store : NodeId → List α
  shares : List (Share α)
  repairs : List (Repair α)

inductive ReplicaAction (α : Type) where
  /-- a batch comes to the range at a position, by the map its coordinator has -/
  | start (base position : Nat) (op : Op α)
  | take (i : Nat)
  | miss (i : Nat) (committed : Bool)
  /-- a copy that was not heard commits after all -/
  | late (i : Nat) (node : NodeId)
  | refuse (i : Nat)
  | fail (i : Nat)
  | tell (i : Nat)
  | promote (base : Nat) (leases : Leases) (r : Raft) (now : Nat)
  | repair (base : Nat) (node : NodeId) (position : Nat)
  | addReplica (base : Nat) (id : RangeId) (node : NodeId)
  | next (j base : Nat)
  | abandon (j : Nat)

namespace Replicas

def begin (seed : RangeMap) (stores : NodeId → List α) : Replicas α := ⟨[seed], stores, [], []⟩

section Steps
variable [Valued α] (record part : α → Nat) (s : Replicas α)

def mapAt (base : Nat) : RangeMap := (s.decided[base]?).getD default

def current : RangeMap := s.decided.getLast?.getD default

def commit (node : NodeId) (op : Op α) : Replicas α :=
  { s with store := update s.store node (op.run record (s.store node)) }

def setShare (i : Nat) (share : Share α) : Replicas α := { s with shares := s.shares.set i share }

def setRepair (j : Nat) (repair : Repair α) : Replicas α :=
  { s with repairs := s.repairs.set j repair }

def decide (m : RangeMap) : Replicas α := { s with decided := s.decided ++ [m] }

/-- What is left of a share whose next copy was not heard: nothing, if that was the serving
copy. -/
def passOver (share : Share α) (node : NodeId) (todo : List NodeId) : Share α :=
  if share.took = [] ∧ share.missed = [] then
    { share with todo := [], missed := [node], skipped := share.skipped ++ todo }
  else { share with todo, missed := share.missed ++ [node] }

/-- The next step of a repair. -/
def advance [DecidableEq α] (j base : Nat) (repair : Repair α) : Replicas α :=
  match repair.stage with
  | .copying copy =>
    let (store, copy) := copyStep record part repair.scope (s.store repair.source)
      (s.store repair.node) copy
    { s.setRepair j { repair with stage := copy.elim .copied .copying } with
      store := update s.store repair.node store }
  | .copied =>
    s.setRepair j { repair with
      stage := .digested (contentsIn record repair.shards (s.store repair.source)) }
  | .digested contents =>
    if sameFacts contents (contentsIn record repair.shards (s.store repair.node)) then
      s.setRepair j { repair with stage := .agreed }
    else s.setRepair j { repair with stage := .ended }
  | .agreed =>
    let s := s.setRepair j { repair with stage := .ended }
    if (s.mapAt base).isStale repair.node then
      s.decide (Controller.repaired (s.mapAt base) repair.node)
    else s
  | .ended => s

def step [DecidableEq α] (s : Replicas α) : ReplicaAction α → Replicas α
  | .start base position op =>
    { s with shares := s.shares ++ [⟨op, (s.mapAt base).copiesOfRange position, [], [], [], .running⟩] }
  | .take i =>
    match s.shares[i]? with
    | some ⟨op, node :: todo, took, missed, skipped, .running⟩ =>
      (s.commit record node op).setShare i ⟨op, todo, took ++ [node], missed, skipped, .running⟩
    | _ => s
  | .miss i committed =>
    match s.shares[i]? with
    | some ⟨op, node :: todo, took, missed, skipped, .running⟩ =>
      (if committed then s.commit record node op else s).setShare i
        (passOver ⟨op, node :: todo, took, missed, skipped, .running⟩ node todo)
    | _ => s
  | .late i node =>
    match s.shares[i]? with
    | some share => if node ∈ share.missed then s.commit record node share.op else s
    | none => s
  | .refuse i =>
    match s.shares[i]? with
    | some ⟨op, node :: todo, took, missed, skipped, .running⟩ =>
      s.setShare i ⟨op, [], took, missed, skipped ++ node :: todo, .failed⟩
    | _ => s
  | .fail i =>
    match s.shares[i]? with
    | some ⟨op, todo, took, missed, skipped, .running⟩ =>
      s.setShare i ⟨op, todo, took, missed, skipped, .failed⟩
    | _ => s
  | .tell i =>
    match s.shares[i]? with
    | some ⟨op, [], took, missed, skipped, .running⟩ =>
      s.setShare i ⟨op, [], took, missed, skipped, .told⟩
    | _ => s
  | .promote base leases r now =>
    match promotionFor leases r now (s.mapAt base) with
    | some m => s.decide m
    | none => s
  | .repair base node position =>
    let m := s.mapAt base
    match m.ranges[position]? with
    | some range =>
      if m.isStale node ∧ node ∈ range.group ∧ m.serving position ≠ node then
        { s with repairs := s.repairs ++
          [⟨node, m.serving position, range.shards, none, .copying .listing⟩] }
      else s
    | none => s
  | .addReplica base id node =>
    let m := s.mapAt base
    match m.rangeWith id with
    | some range =>
      if range.moving.isSome then s
      else
        match m.addHolder id node with
        | .ok next =>
          if next.check.isOk then
            { s.decide { next with epoch := m.epoch + 1 } with
              repairs := s.repairs ++ [⟨node, range.primary, range.shards, some range.shards, .copying .listing⟩] }
          else s
        | .error _ => s
    | none => s
  | .next j base =>
    match s.repairs[j]? with
    | some repair => s.advance record part j base repair
    | none => s
  | .abandon j =>
    match s.repairs[j]? with
    | some repair => s.setRepair j { repair with stage := .ended }
    | none => s

end Steps

/-! ## What callers have been told -/

/-- Somebody was told so, and nothing that undoes it has begun since. -/
def Lasting (does undoes : Op α → Prop) (shares : List (Share α)) : Prop :=
  ∃ (i : Nat) (share : Share α), shares[i]? = some share ∧ share.standing = .told ∧ does share.op ∧
    ∀ j later, i < j → shares[j]? = some later → ¬ undoes later.op

variable [Valued α] {record part : α → Nat} {s : Replicas α}

/-- What node `n` holds of some shards is what callers were told. -/
structure Complete (record : α → Nat) (shares : List (Share α)) (shards : ShardRange) (held : List α) :
    Prop where
  holds : ∀ f, shards.holds (record f) = true → Lasting (·.puts record f) (·.removes record f) shares → f ∈ held
  lacks : ∀ f, shards.holds (record f) = true → Lasting (·.removes record f) (·.puts record f) shares → f ∉ held

/-- Whether one of two writes adds what the other takes away, or puts another value in its place. -/
def clashes (record : α → Nat) : Op α → Op α → Bool
  | .put facts, .remove records | .remove records, .put facts => facts.any fun f => record f ∈ records
  | .put facts, .put facts' => facts.any fun f => facts'.any fun g => replaces record f g || replaces record g f
  | .remove _, .remove _ => false

lemma clashes_of {a b : Op α} {f : α} (ha : a.puts record f) (hb : b.removes record f) :
    clashes record a b = true ∧ clashes record b a = true := by
  cases a with
  | remove records => exact ha.elim
  | put facts =>
    have hf := mem_of_mem_foldl_writeFact ha
    cases b with
    | put facts' =>
      obtain ⟨-, g, hg, same⟩ := hb
      exact ⟨any_eq_true.2 ⟨f, hf, any_eq_true.2 ⟨g, hg, by simp [same]⟩⟩,
        any_eq_true.2 ⟨g, hg, any_eq_true.2 ⟨f, hf, by simp [same]⟩⟩⟩
    | remove records =>
      have : facts.any (fun f => record f ∈ records) = true :=
        any_eq_true.2 ⟨f, hf, decide_eq_true hb⟩
      exact ⟨this, this⟩

/-- What keeps marks and copies together. Maps are read and changed when they are the latest. A
write is begun with the copies of the range its records are in, while nothing that clashes with
it is running; it is told only if the copies it missed are marked; and one that was given up on
is not executed once something that clashes with it has begun. A node is under one repair at a
time, the source of it is an unmarked copy, no write of the range is on its way between the
source's digest and the end, and the node has no other range when its mark is cleared. -/
def keepsMarks (record : α → Nat) (s : Replicas α) : ReplicaAction α → Bool
  | .start base position op => base + 1 = s.decided.length &&
      (((s.mapAt base).ranges[position]?).any fun range => (op.records record).all (range.shards.holds ·)) &&
      (s.shares.all fun share => share.standing ≠ .running || !clashes record share.op op) &&
      s.repairs.all fun repair =>
        (repair.basis s.store).all fun _ => !op.touches record repair.shards
  | .late i _ => (s.shares[i]?).all fun share =>
      (s.shares.drop (i + 1)).all fun later => !clashes record share.op later.op
  | .tell i => (s.shares[i]?).all fun share => (share.missed ++ share.skipped).all s.current.isStale
  | .promote base .. => base + 1 = s.decided.length
  | .repair base node _ | .addReplica base _ node => base + 1 = s.decided.length && s.repairs.all fun repair =>
        repair.node ≠ node ||
          match repair.stage with
          | .ended => true
          | _ => false
  | .next j base => (s.repairs[j]?).all fun repair =>
      match repair.stage with
      | .copied => !s.current.isStale repair.source &&
          (s.current.ranges.any fun range => range.shards = repair.shards && repair.source ∈ range.group) &&
          s.shares.all fun share => share.standing ≠ .running || !share.op.touches record repair.shards
      | .agreed => base + 1 = s.decided.length &&
          s.current.ranges.all fun range => repair.node ∉ range.group || range.shards = repair.shards
      | _ => true
  | .take _ | .miss .. | .refuse _ | .fail _ | .abandon _ => true

/-- A node that is not marked and in the group of a range with these shards. -/
def Unmarked (m : RangeMap) (n : NodeId) (shards : ShardRange) : Prop :=
  m.isStale n = false ∧ ∃ range ∈ m.ranges, range.shards = shards ∧ n ∈ range.group

/-- What a repair goes by is complete, and no write of its range is on its way. -/
structure Proved (record : α → Nat) (s : Replicas α) (repair : Repair α) (held : List α) : Prop where
  quiet : ∀ share ∈ s.shares, share.standing = .running → share.op.touches record repair.shards ≠ true
  complete : Complete record s.shares repair.shards held

/-- The invariant. -/
structure Sound (record : α → Nat) (s : Replicas α) : Prop where
  checked : s.current.check = .ok ()
  complete : ∀ n shards, Unmarked s.current n shards → Complete record s.shares shards (s.store n)
  /-- nothing that clashes with a running share begins after it -/
  free : ∀ (i : Nat) (share : Share α), s.shares[i]? = some share → share.standing = .running →
    ∀ j later, i < j → s.shares[j]? = some later → clashes record share.op later.op = false
  /-- what a running share has done -/
  effect : ∀ share ∈ s.shares, share.standing = .running → ∀ n ∈ share.took, ∀ shards,
    Unmarked s.current n shards → ∀ f, shards.holds (record f) = true →
      (share.op.puts record f → f ∈ s.store n) ∧ (share.op.removes record f → f ∉ s.store n)
  /-- it comes to every copy that is not marked -/
  listed : ∀ share ∈ s.shares, share.standing = .running → ∀ n shards, Unmarked s.current n shards →
    share.op.touches record shards = true → n ∈ share.took ∨ n ∈ share.missed ++ share.skipped ∨ n ∈ share.todo
  marked : ∀ repair ∈ s.repairs, repair.stage ≠ .ended → s.current.isStale repair.node = true
  single : ∀ (i j : Nat) (a b : Repair α), s.repairs[i]? = some a → s.repairs[j]? = some b →
    a.node = b.node → a.stage ≠ .ended → b.stage ≠ .ended → i = j
  proved : ∀ repair ∈ s.repairs, ∀ held, repair.basis s.store = some held → Proved record s repair held

/-! ## Shares -/

section Shares
variable {does undoes : Op α → Prop} {shares : List (Share α)} {share share' : Share α} {i : Nat}

omit [Valued α] in
/-- A share that is changed without being told leaves what lasts. -/
lemma Lasting.of_set (hi : shares[i]? = some share) (hop : share'.op = share.op)
    (L : Lasting does undoes (shares.set i share')) :
    Lasting does undoes shares ∨ (share'.standing = .told ∧ does share.op) := by
  have hlt := lt_of_getElem? hi
  obtain ⟨k, told, hk, htold, hdoes, hlater⟩ := L
  have later : ∀ j later, k < j → shares[j]? = some later → ¬ undoes later.op := by
    intro j later hj hat
    by_cases hij : i = j
    · subst hij
      obtain rfl : share = later := Option.some.inj (hi.symm.trans hat)
      have := hlater i share' hj (by rw [List.getElem?_set_self hlt])
      rwa [hop] at this
    · exact hlater j later hj (by rw [List.getElem?_set_ne hij]; exact hat)
  rcases getElem?_set_some hk with ⟨rfl, rfl⟩ | ⟨-, hk⟩
  · exact .inr ⟨htold, hop ▸ hdoes⟩
  · exact .inl ⟨k, told, hk, htold, hdoes, later⟩

omit [Valued α] in
/-- A share that begins tells nobody anything. -/
lemma Lasting.of_append (hnew : share.standing ≠ .told) (L : Lasting does undoes (shares ++ [share])) :
    Lasting does undoes shares := by
  obtain ⟨k, told, hk, htold, hdoes, hlater⟩ := L
  have hlt : k < shares.length := by
    by_contra hge
    rw [getElem?_append_right (by omega)] at hk
    obtain rfl := mem_singleton.1 (mem_of_getElem? hk)
    exact hnew htold
  rw [getElem?_append_left hlt] at hk
  refine ⟨k, told, hk, htold, hdoes, fun j later hj hat => hlater j later hj ?_⟩
  rw [List.getElem?_append_left (lt_of_getElem? hat)]
  exact hat

variable {shards : ShardRange} {held : List α}

lemma Complete.mono {shares' : List (Share α)} (C : Complete record shares shards held)
    (h : ∀ {does undoes : Op α → Prop}, Lasting does undoes shares' → Lasting does undoes shares) :
    Complete record shares' shards held :=
  ⟨fun f hf L => C.holds f hf (h L), fun f hf L => C.lacks f hf (h L)⟩

lemma clashes_comm (a b : Op α) : clashes record a b = clashes record b a := by
  cases a with
  | put facts =>
    cases b with
    | put facts' =>
      rw [clashes, clashes, Bool.eq_iff_iff]
      simp only [List.any_eq_true, or_eq_true]
      exact ⟨fun ⟨f, hf, g, hg, h⟩ => ⟨g, hg, f, hf, h.symm⟩, fun ⟨f, hf, g, hg, h⟩ => ⟨g, hg, f, hf, h.symm⟩⟩
    | remove _ => rfl
  | remove records => cases b with
    | put _ | remove _ => rfl

variable (record shares i) in
/-- Nothing that clashes with a share begins after it. -/
def Free (op : Op α) : Prop :=
  ∀ j later, i < j → shares[j]? = some later → clashes record op later.op = false

/-- A share that is told of and undone by a write began before that write, or clashes with it. -/
lemma Lasting.absurd (hi : shares[i]? = some share) (free : Free record shares i share.op)
    (undone : undoes share.op) (clash : ∀ op, does op → clashes record share.op op = true)
    (apart : ∀ op, does op → ¬ undoes op) : ¬ Lasting does undoes shares := by
  rintro ⟨k, told, hk, -, hdoes, hlater⟩
  rcases lt_trichotomy k i with hlt | rfl | hlt
  · exact hlater i share hlt hi undone
  · obtain rfl : share = told := some.inj (hi.symm.trans hk)
    exact apart _ hdoes undone
  · exact false_ne_true ((free k told hlt hk).symm.trans (clash _ hdoes))

lemma Complete.commit (C : Complete record shares shards held) (hi : shares[i]? = some share)
    (free : Free record shares i share.op) : Complete record shares shards (share.op.run record held) where
  holds f hf L := by
    rw [mem_run]
    refine .inr ⟨C.holds f hf L, fun hrem => ?_⟩
    exact Lasting.absurd hi free hrem (fun op hputs => (clashes_of hputs hrem).2) (fun _ => not_removes_of_puts) L
  lacks f hf L := by
    rw [mem_run]
    rintro (hputs | ⟨hin, -⟩)
    · exact Lasting.absurd hi free hputs (fun op hrem => (clashes_of hputs hrem).1)
        (fun _ hrem hputs => not_removes_of_puts hputs hrem) L
    · exact C.lacks f hf L hin

/-- A write leaves what another one has done, unless they clash. -/
lemma effect_run {a b : Op α} (hab : clashes record a b = false) {f : α}
    (h : (b.puts record f → f ∈ held) ∧ (b.removes record f → f ∉ held)) :
    (b.puts record f → f ∈ a.run record held) ∧ (b.removes record f → f ∉ a.run record held) := by
  rw [mem_run]
  constructor
  · intro hputs
    refine .inr ⟨h.1 hputs, fun hrem => ?_⟩
    exact false_ne_true (hab.symm.trans (clashes_of hputs hrem).2)
  · rintro hrem (hputs | ⟨hin, -⟩)
    · exact false_ne_true (hab.symm.trans (clashes_of hputs hrem).1)
    · exact h.2 hrem hin

/-- A write has done what it does once it has run. -/
lemma effect_self {op : Op α} {f : α} :
    (op.puts record f → f ∈ op.run record held) ∧ (op.removes record f → f ∉ op.run record held) := by
  rw [mem_run]
  refine ⟨.inl, fun hrem => ?_⟩
  rintro (hputs | ⟨-, hkept⟩)
  · exact not_removes_of_puts hputs hrem
  · exact hkept hrem

end Shares

/-! ## Steps -/

section Preserved
variable {i j : Nat} {share share' : Share α} {n : NodeId} {op : Op α} {repair repair' : Repair α} {node : NodeId}

lemma Sound.commit (S : Sound record s) (hi : s.shares[i]? = some share)
    (free : Free record s.shares i share.op) : Sound record (s.commit record n share.op) where
  checked := S.checked
  complete v shards hv := by
    by_cases hvn : v = n
    · subst hvn
      simpa [Replicas.commit] using (S.complete v shards hv).commit hi free
    · simpa [Replicas.commit, hvn] using S.complete v shards hv
  free := S.free
  effect other hother hrun v hv shards hu f hf := by
    have before := S.effect other hother hrun v hv shards hu f hf
    by_cases hvn : v = n
    · subst hvn
      simp only [Replicas.commit, update_self]
      obtain ⟨k, hk⟩ := getElem?_of_mem hother
      rcases lt_trichotomy k i with hlt | rfl | hlt
      · refine effect_run ?_ before
        rw [clashes_comm]
        exact S.free k other hk hrun i share hlt hi
      · obtain rfl : share = other := some.inj (hi.symm.trans hk)
        exact effect_self
      · exact effect_run (free k other hlt hk) before
    · simpa [Replicas.commit, hvn] using before
  listed := S.listed
  marked := S.marked
  single := S.single
  proved repair hrepair held hheld := by
    by_cases hvn : repair.stage = .agreed ∧ repair.node = n
    · obtain ⟨hstage, rfl⟩ := hvn
      have before := S.proved repair hrepair _ (by rw [Repair.basis, hstage])
      obtain rfl : held = share.op.run record (s.store repair.node) := by
        simpa [Repair.basis, hstage, Replicas.commit] using hheld.symm
      exact ⟨before.quiet, before.complete.commit hi free⟩
    · have same : repair.basis (s.commit record n share.op).store = repair.basis s.store := by
        unfold Repair.basis
        cases hstage : repair.stage with
        | agreed =>
          have : repair.node ≠ n := fun h => hvn ⟨hstage, h⟩
          simp [Replicas.commit, this]
        | _ => rfl
      have before := S.proved repair hrepair held (same ▸ hheld)
      exact ⟨before.quiet, before.complete⟩

lemma Sound.setShare (S : Sound record s) (hi : s.shares[i]? = some share) (hop : share'.op = share.op)
    (hrun : share'.standing = .running → share.standing = .running)
    (htold : share'.standing = .told → share.standing = .running ∧ ∀ v shards,
      Unmarked s.current v shards → ∀ f, shards.holds (record f) = true →
        (share.op.puts record f → f ∈ s.store v) ∧ (share.op.removes record f → f ∉ s.store v))
    (htook : share'.standing = .running → ∀ v ∈ share'.took, v ∈ share.took ∨
      ∀ f, (share.op.puts record f → f ∈ s.store v) ∧ (share.op.removes record f → f ∉ s.store v))
    (hlisted : share'.standing = .running → ∀ v, (v ∈ share.took ∨ v ∈ share.missed ++ share.skipped ∨ v ∈ share.todo) →
        (v ∈ share'.took ∨ v ∈ share'.missed ++ share'.skipped ∨ v ∈ share'.todo)) :
    Sound record (s.setShare i share') := by
  have hmem := mem_of_getElem? hi
  -- what is told now has been done by every copy in question
  have complete : ∀ {shards held}, Complete record s.shares shards held →
      (share'.standing = .told → ∀ f, shards.holds (record f) = true →
        (share.op.puts record f → f ∈ held) ∧ (share.op.removes record f → f ∉ held)) →
      Complete record (s.shares.set i share') shards held := by
    intro shards held C hdone
    refine ⟨fun f hf L => ?_, fun f hf L => ?_⟩
    · rcases L.of_set hi hop with h | ⟨h, hputs⟩
      · exact C.holds f hf h
      · exact (hdone h f hf).1 hputs
    · rcases L.of_set hi hop with h | ⟨h, hrem⟩
      · exact C.lacks f hf h
      · exact (hdone h f hf).2 hrem
  -- a share of the new list is one of the old with the same write
  have old : ∀ {k : Nat} {later : Share α}, (s.shares.set i share')[k]? = some later →
      ∃ before, s.shares[k]? = some before ∧ later.op = before.op ∧
        (later.standing = .running → before.standing = .running) := by
    intro k later hk
    rcases getElem?_set_some hk with ⟨rfl, rfl⟩ | ⟨-, hk⟩
    · exact ⟨share, hi, hop, hrun⟩
    · exact ⟨later, hk, rfl, fun h => h⟩
  refine ⟨S.checked, fun v shards hv => complete (S.complete v shards hv) fun h => (htold h).2 v shards hv,
    ?_, ?_, ?_, S.marked, S.single, ?_⟩
  · intro k a hk ha m b hkm hm
    obtain ⟨a', ha', hopa, hruna⟩ := old hk
    obtain ⟨b', hb', hopb, -⟩ := old hm
    rw [hopa, hopb]
    exact S.free k a' ha' (hruna ha) m b' hkm hb'
  · intro other hother hother' v hv shards hu f hf
    rcases mem_or_eq_of_mem_set hother with hother | rfl
    · exact S.effect other hother hother' v hv shards hu f hf
    rw [hop]
    rcases htook hother' v hv with hv | heffect
    · exact S.effect share hmem (hrun hother') v hv shards hu f hf
    · exact heffect f
  · intro other hother hother' v shards hu htouch
    rcases mem_or_eq_of_mem_set hother with hother | rfl
    · exact S.listed other hother hother' v shards hu htouch
    · rw [hop] at htouch
      exact hlisted hother' v (S.listed share hmem (hrun hother') v shards hu htouch)
  · intro repair hrepair held hheld
    have before := S.proved repair hrepair held hheld
    refine ⟨fun other hother hrunning => ?_, complete before.complete fun h f hf => ?_⟩
    · obtain ⟨k, hk⟩ := getElem?_of_mem hother
      obtain ⟨other', hother', hopb, hrunb⟩ := old hk
      rw [hopb]
      exact before.quiet other' (mem_of_getElem? hother') (hrunb hrunning)
    · have still := before.quiet share hmem (htold h).1
      exact ⟨fun hputs => (still (touches_of_puts hputs hf)).elim,
        fun hrem => (still (touches_of_removes hrem hf)).elim⟩

omit [Valued α] in
lemma mapAt_latest {base : Nat} (h : base + 1 = s.decided.length) : s.mapAt base = s.current := by
  unfold mapAt current
  rw [getLast?_eq_getElem?, ← h]
  rfl

omit [Valued α] in
lemma current_decide (m : RangeMap) : (s.decide m).current = m := by
  simp [current, decide]

section
variable (S : Sound record s)
include S

/-- A new map, whose unmarked copies are those of the old one, or complete. -/
lemma Sound.decide {m : RangeMap} (checked : m.check = .ok ())
    (unmarked : ∀ v shards, Unmarked m v shards → Unmarked s.current v shards ∨
      (Complete record s.shares shards (s.store v) ∧ ∀ share ∈ s.shares, share.standing = .running →
        share.op.touches record shards ≠ true))
    (marked : ∀ repair ∈ s.repairs, repair.stage ≠ .ended → m.isStale repair.node = true) :
    Sound record (s.decide m) where
  checked := by
    rw [current_decide]
    exact checked
  complete v shards hv := by
    rw [current_decide] at hv
    rcases unmarked v shards hv with hv | ⟨hc, -⟩
    · exact S.complete v shards hv
    · exact hc
  free := S.free
  effect share hshare hrun v hv shards hu f hf := by
    rw [current_decide] at hu
    rcases unmarked v shards hu with hu | ⟨-, hquiet⟩
    · exact S.effect share hshare hrun v hv shards hu f hf
    have still := hquiet share hshare hrun
    exact ⟨fun hputs => (still (touches_of_puts hputs hf)).elim, fun hrem => (still (touches_of_removes hrem hf)).elim⟩
  listed share hshare hrun v shards hu htouch := by
    rw [current_decide] at hu
    rcases unmarked v shards hu with hu | ⟨-, hquiet⟩
    · exact S.listed share hshare hrun v shards hu htouch
    · exact (hquiet share hshare hrun htouch).elim
  marked := by
    rw [current_decide]
    exact marked
  single := S.single
  proved repair hrepair held hheld :=
    ⟨(S.proved repair hrepair held hheld).quiet, (S.proved repair hrepair held hheld).complete⟩

lemma Sound.start {base position : Nat} (ok : s.keepsMarks record (.start base position op) = true) :
    Sound record { s with shares := s.shares ++
      [⟨op, (s.mapAt base).copiesOfRange position, [], [], [], .running⟩] } := by
  simp only [keepsMarks, and_eq_true, decide_eq_true_eq] at ok
  obtain ⟨⟨⟨hlatest, hrange⟩, hclash⟩, hrepairs⟩ := ok
  rw [mapAt_latest hlatest] at hrange ⊢
  have lasting : ∀ {does undoes : Op α → Prop}, Lasting does undoes (s.shares ++
      [⟨op, s.current.copiesOfRange position, [], [], [], .running⟩]) → Lasting does undoes s.shares :=
    fun L => L.of_append (by simp)
  refine ⟨S.checked, fun v shards hv => (S.complete v shards hv).mono lasting, ?_, ?_, ?_, S.marked, S.single, ?_⟩
  · intro k a hk ha m b hkm hm
    rcases getElem?_concat_some hm with ⟨hlt, hm⟩ | ⟨rfl, rfl⟩
    · rw [getElem?_append_left (hkm.trans hlt)] at hk
      exact S.free k a hk ha m b hkm hm
    rw [getElem?_append_left hkm] at hk
    have := all_eq_true.1 hclash a (mem_of_getElem? hk)
    simpa [ha] using this
  · intro share hshare hrun v hv
    rcases mem_concat.1 hshare with hshare | rfl
    · exact S.effect share hshare hrun v hv
    · cases hv
  · intro share hshare hrun v shards hu htouch
    rcases mem_append.1 hshare with hshare | hshare
    · exact S.listed share hshare hrun v shards hu htouch
    -- the range the copies were read from is the one the node is unmarked in
    obtain rfl := mem_singleton.1 hshare
    obtain ⟨-, range', hrange', rfl, hv⟩ := hu
    obtain ⟨r, hr, hold'⟩ := any_eq_true.1 htouch
    cases hat : s.current.ranges[position]? with
    | none =>
      rw [hat] at hrange
      cases hrange
    | some range =>
      rw [hat] at hrange
      have hold : range.shards.holds r = true := all_eq_true.1 hrange r hr
      obtain rfl := contains_unique S.checked hrange' (mem_of_getElem? hat) hold' hold
      refine .inr (.inr ?_)
      rw [copiesOfRange, hat]
      by_cases hp : v = range'.primary
      · exact hp ▸ mem_cons_self
      · exact mem_cons_of_mem _ (mem_filter.2 ⟨hv, decide_eq_true hp⟩)
  · intro repair hrepair held hheld
    have before := S.proved repair hrepair held hheld
    refine ⟨fun share hshare hrun => ?_, before.complete.mono lasting⟩
    rcases mem_concat.1 hshare with hshare | rfl
    · exact before.quiet share hshare hrun
    have hstill := all_eq_true.1 hrepairs repair hrepair
    rw [show repair.basis s.store = some held from hheld] at hstill
    simpa using hstill

section
variable (hj : s.repairs[j]? = some repair)
include hj

/-- A repair comes a step further. -/
lemma Sound.setRepair (hnode : repair'.node = repair.node) (hstage : repair'.stage ≠ .ended → repair.stage ≠ .ended)
    (proved : ∀ held, repair'.basis s.store = some held → Proved record s repair' held) :
    Sound record (s.setRepair j repair') := by
  have old : ∀ {k : Nat} {a : Repair α}, (s.repairs.set j repair')[k]? = some a →
      ∃ before, s.repairs[k]? = some before ∧ a.node = before.node ∧ (a.stage ≠ .ended → before.stage ≠ .ended) := by
    intro k a hk
    rcases getElem?_set_some hk with ⟨rfl, rfl⟩ | ⟨-, hk⟩
    · exact ⟨repair, hj, hnode, hstage⟩
    · exact ⟨a, hk, rfl, fun h => h⟩
  refine ⟨S.checked, S.complete, S.free, S.effect, S.listed, ?_, ?_, ?_⟩
  · intro a ha hopen
    obtain ⟨k, hk⟩ := getElem?_of_mem ha
    obtain ⟨before, hbefore, hsame, hwas⟩ := old hk
    rw [hsame]
    exact S.marked before (mem_of_getElem? hbefore) (hwas hopen)
  · intro k m a b hk hm hab ha hb
    obtain ⟨a', ha', hsamea, hwasa⟩ := old hk
    obtain ⟨b', hb', hsameb, hwasb⟩ := old hm
    exact S.single k m a' b' ha' hb' (by rw [← hsamea, ← hsameb, hab]) (hwasa ha) (hwasb hb)
  · intro a ha held hheld
    rcases mem_or_eq_of_mem_set ha with ha | rfl
    · exact ⟨(S.proved a ha held hheld).quiet, (S.proved a ha held hheld).complete⟩
    · exact ⟨(proved held hheld).quiet, (proved held hheld).complete⟩

/-- A repair ends, or is put off to its next request. -/
lemma Sound.setStage {stage : RepairStage α} (hopen : stage ≠ .ended → repair.stage ≠ .ended)
    (hbasis : ∀ store, Repair.basis { repair with stage } store = none) :
    Sound record (s.setRepair j { repair with stage }) :=
  S.setRepair hj rfl hopen fun held hheld => by
    rw [hbasis] at hheld
    cases hheld

omit hj in
/-- A repair begins on a marked node that is under no other. -/
lemma Sound.addRepair (hcopy : repair.stage = .copying .listing) (marked : s.current.isStale repair.node = true)
    (alone : ∀ other ∈ s.repairs, other.node = repair.node → other.stage = .ended) :
    Sound record { s with repairs := s.repairs ++ [repair] } := by
  refine ⟨S.checked, S.complete, S.free, S.effect, S.listed, ?_, ?_, ?_⟩
  · intro a ha hopen
    rcases mem_concat.1 ha with ha | rfl
    · exact S.marked a ha hopen
    · exact marked
  · intro k m a b hk hm hab ha hb
    rcases getElem?_concat_some hk with ⟨-, hk⟩ | ⟨rfl, rfl⟩
    · rcases getElem?_concat_some hm with ⟨-, hm⟩ | ⟨rfl, rfl⟩
      · exact S.single k m a b hk hm hab ha hb
      · exact (ha (alone a (mem_of_getElem? hk) hab)).elim
    · rcases getElem?_concat_some hm with ⟨-, hm⟩ | ⟨rfl, -⟩
      · exact (hb (alone b (mem_of_getElem? hm) hab.symm)).elim
      · rfl
  · intro a ha held hheld
    rcases mem_concat.1 ha with ha | rfl
    · exact ⟨(S.proved a ha held hheld).quiet, (S.proved a ha held hheld).complete⟩
    · rw [Repair.basis, hcopy] at hheld
      cases hheld

/-- What a repair pushes changes a marked node, and one that no other repair goes by. -/
lemma Sound.push {copy : Copying α} (hcopy : repair.stage = .copying copy) (held : List α) :
    Sound record { s with store := update s.store repair.node held } := by
  have hopen : repair.stage ≠ .ended := by simp [hcopy]
  have marked := S.marked repair (mem_of_getElem? hj) hopen
  have other : ∀ {v shards}, Unmarked s.current v shards → v ≠ repair.node := by
    rintro v shards hv rfl
    exact false_ne_true (hv.1.symm.trans marked)
  refine ⟨S.checked, ?_, S.free, ?_, S.listed, S.marked, S.single, ?_⟩
  · intro v shards hv
    dsimp only
    rw [update_of_ne (other hv)]
    exact S.complete v shards hv
  · intro share hshare hrun v hv shards hu
    dsimp only
    rw [update_of_ne (other hu)]
    exact S.effect share hshare hrun v hv shards hu
  intro a ha h hbasis
  have same : a.basis (update s.store repair.node held) = a.basis s.store := by
    unfold Repair.basis
    cases hstage : a.stage with
    | agreed =>
      have : a.node ≠ repair.node := by
        intro heq
        obtain ⟨k, hk⟩ := getElem?_of_mem ha
        obtain rfl := S.single k j a repair hk hj heq (by simp [hstage]) hopen
        obtain rfl : a = repair := some.inj (hk.symm.trans hj)
        rw [hstage] at hcopy
        cases hcopy
      simp [this]
    | _ => rfl
  exact ⟨(S.proved a ha h (same ▸ hbasis)).quiet, (S.proved a ha h (same ▸ hbasis)).complete⟩

end

end

/-- A holder that is added is marked, and nothing else changes. -/
lemma unmarked_of_addHolder {m next : RangeMap} {id : RangeId} (epoch : Nat) (h : m.addHolder id node = .ok next) :
    next.isStale node = true ∧ (∀ v, m.isStale v = true → next.isStale v = true) ∧
      ∀ v shards, Unmarked { next with epoch } v shards → Unmarked m v shards := by
  unfold addHolder at h
  cases hedit : m.editRange id (MapError.noSuchRange id) (fun r =>
      if node ∈ r.group then .error (.alreadyAHolder id node)
      else .ok { r with group := r.group ++ [node] }) with
  | error e =>
    rw [hedit] at h
    cases h
  | ok edited =>
    rw [hedit] at h
    injection h with h
    dsimp only at h
    obtain ⟨i, r, r', -, hat, hadd, rfl⟩ := editRange_ok hedit
    split at hadd
    · cases hadd
    injection hadd with hadd
    subst hadd
    -- the one range that is edited gets the node, and nobody else
    have hgroups : ∀ range ∈ m.ranges.set i { r with group := r.group ++ [node] }, ∀ v ∈ range.group,
        v ≠ node → ∃ before ∈ m.ranges, before.shards = range.shards ∧ v ∈ before.group := by
      intro range hrange v hv hne
      rcases mem_or_eq_of_mem_set hrange with hrange | rfl
      · exact ⟨range, hrange, rfl, hv⟩
      refine ⟨r, mem_of_getElem? hat, rfl, ?_⟩
      rcases mem_append.1 hv with hv | hv
      · exact hv
      · exact (hne (mem_singleton.1 hv)).elim
    have hstale : (∀ v, m.isStale v = true → next.isStale v = true) ∧ next.isStale node = true ∧
        next.ranges = m.ranges.set i { r with group := r.group ++ [node] } := by
      subst h
      split
      · next hmarked => exact ⟨fun v hv => hv, hmarked, rfl⟩
      · exact ⟨fun v hv => isStale_iff.2 (mem_append_left _ (isStale_iff.1 hv)),
          isStale_iff.2 (mem_append_right _ mem_cons_self), rfl⟩
    refine ⟨hstale.2.1, hstale.1, fun v shards hv => ?_⟩
    obtain ⟨hunmarked, range, hrange, rfl, hv⟩ := hv
    have hnode : v ≠ node := by
      rintro rfl
      exact Bool.false_ne_true (hunmarked.symm.trans hstale.2.1)
    obtain ⟨before, hbefore, hsame, hin⟩ := hgroups range (hstale.2.2 ▸ hrange) v hv hnode
    refine ⟨?_, before, hbefore, hsame, hin⟩
    rw [Bool.eq_false_iff] at hunmarked ⊢
    exact fun hold => hunmarked (hstale.1 v hold)

lemma Sound.advance [DecidableEq α] {base : Nat} (S : Sound record s)
    (hj : s.repairs[j]? = some repair) (ok : s.keepsMarks record (.next j base) = true) :
    Sound record (s.advance record part j base repair) := by
  have hmem := mem_of_getElem? hj
  rw [keepsMarks, hj, all_some] at ok
  unfold Replicas.advance
  cases hstage : repair.stage with
  | copying copy =>
    dsimp only
    generalize copyStep record part repair.scope (s.store repair.source) (s.store repair.node) copy = copied
    obtain ⟨held, copy⟩ := copied
    refine (S.push hj hstage held).setStage hj (by simp [hstage]) fun store => ?_
    cases copy with
    | none | some copy => rfl
  | copied =>
    rw [hstage] at ok
    simp only [and_eq_true] at ok
    obtain ⟨⟨hsource, hrange⟩, hquiet⟩ := ok
    obtain ⟨range, hmemr, hr⟩ := any_eq_true.1 hrange
    simp only [and_eq_true, decide_eq_true_eq] at hr
    have complete := S.complete repair.source repair.shards ⟨by simpa using hsource, range, hmemr, hr.1, hr.2⟩
    refine S.setRepair hj rfl (by simp [hstage]) fun held hheld => ?_
    cases hheld
    refine ⟨fun share hshare hrun => ?_, fun f hf L => ?_, fun f hf L hin => ?_⟩
    · have := all_eq_true.1 hquiet share hshare
      simpa [hrun] using this
    · exact mem_contentsIn.2 ⟨complete.holds f hf L, hf⟩
    · exact complete.lacks f hf L (mem_contentsIn.1 hin).1
  | digested contents =>
    dsimp only
    split
    · next hsame =>
      have before := S.proved repair hmem contents (by rw [Repair.basis, hstage])
      refine S.setRepair hj rfl (by simp [hstage]) fun held hheld => ?_
      cases hheld
      refine ⟨before.quiet, fun f hf L => ?_, fun f hf L hin => ?_⟩
      · exact (mem_contentsIn.1 ((mem_of_sameFacts hsame).1 (before.complete.holds f hf L))).1
      · exact before.complete.lacks f hf L ((mem_of_sameFacts hsame).2 (mem_contentsIn.2 ⟨hin, hf⟩))
    · exact S.setStage hj (by simp) fun _ => rfl
  | agreed =>
    have before := S.proved repair hmem _ (by rw [Repair.basis, hstage])
    have ended : Sound record (s.setRepair j { repair with stage := .ended }) :=
      S.setStage hj (by simp) fun _ => rfl
    rw [hstage] at ok
    simp only [and_eq_true, decide_eq_true_eq] at ok
    obtain ⟨hlatest, honly⟩ := ok
    have hmap : (s.setRepair j { repair with stage := .ended }).mapAt base =
        (s.setRepair j { repair with stage := .ended }).current := mapAt_latest hlatest
    dsimp only
    split
    · rw [hmap]
      refine ended.decide ?_ (fun v shards hv => ?_) (fun other hother hopen => ?_)
      · exact S.checked
      · obtain ⟨hstale, range, hrange, rfl, hv⟩ := hv
        by_cases hnode : v = repair.node
        · subst hnode
          have hshards : range.shards = repair.shards := by
            simpa [hv] using all_eq_true.1 honly range hrange
          rw [hshards]
          exact .inr ⟨before.complete, before.quiet⟩
        · refine .inl ⟨?_, range, hrange, rfl, hv⟩
          rw [eq_false_iff] at hstale ⊢
          intro hold
          exact hstale (isStale_iff.2 (mem_filter.2 ⟨isStale_iff.1 hold, by simpa using hnode⟩))
      · obtain ⟨k, hk⟩ := getElem?_of_mem hother
        obtain ⟨hjk, hk⟩ := (getElem?_set_some hk).resolve_left fun h => hopen (h.2 ▸ rfl)
        -- no other repair of this node is on its way
        have hnode : other.node ≠ repair.node := fun h =>
          hjk (S.single k j other repair hk hj h hopen (by simp [hstage])).symm
        have hmarked := S.marked other (mem_of_getElem? hk) hopen
        exact isStale_iff.2 (mem_filter.2 ⟨isStale_iff.1 hmarked, by simpa using hnode⟩)
    · exact ended
  | ended => exact S

omit [Valued α] in
lemma alone_of_all (h : (s.repairs.all fun repair => repair.node ≠ node || match repair.stage with
    | .ended => true
    | _ => false) = true) : ∀ other ∈ s.repairs, other.node = node → other.stage = .ended := by
  intro other hother hnode
  have := all_eq_true.1 h other hother
  cases hstage : other.stage with
  | ended => rfl
  | _ => simp [hnode, hstage] at this

section
variable (S : Sound record s)
include S

variable {took missed skipped : List NodeId} {todo : List NodeId}

section
variable (hi : s.shares[i]? = some ⟨op, node :: todo, took, missed, skipped, .running⟩)
include hi

/-- The next copy of a share commits it. -/
lemma Sound.take :
    Sound record ((s.commit record node op).setShare i ⟨op, todo, took ++ [node], missed, skipped, .running⟩) := by
  refine (S.commit (n := node) hi (S.free i _ hi rfl)).setShare hi rfl (fun _ => rfl) nofun
    (fun _ v hv => ?_) (fun _ v hv => ?_)
  · rcases mem_concat.1 hv with hv | rfl
    · exact .inl hv
    refine .inr fun f => ?_
    simp only [Replicas.commit, update_self]
    exact effect_self
  · rcases hv with hv | hv | hv
    · exact .inl (mem_append_left _ hv)
    · exact .inr (.inl hv)
    · rcases mem_cons.1 hv with rfl | hv
      · exact .inl (mem_append_right _ mem_cons_self)
      · exact .inr (.inr hv)

/-- The next copy of a share is passed over. -/
lemma Sound.passOver :
    Sound record (s.setShare i (Replicas.passOver ⟨op, node :: todo, took, missed, skipped, .running⟩ node todo)) := by
  unfold Replicas.passOver
  split
  · next hfirst =>
    obtain ⟨rfl, rfl⟩ := hfirst
    refine S.setShare hi rfl (fun _ => rfl) nofun (fun _ v hv => .inl hv) (fun _ v hv => ?_)
    simp only [mem_append, mem_cons, not_mem_nil] at hv ⊢
    tauto
  · refine S.setShare hi rfl (fun _ => rfl) nofun (fun _ v hv => .inl hv) (fun _ v hv => ?_)
    simp only [mem_append, mem_cons, not_mem_nil] at hv ⊢
    tauto

end

/-- A caller is told of a share that every unmarked copy has taken. -/
lemma Sound.tell (hi : s.shares[i]? = some ⟨op, [], took, missed, skipped, .running⟩)
    (marked : ∀ v ∈ missed ++ skipped, s.current.isStale v = true) :
    Sound record (s.setShare i ⟨op, [], took, missed, skipped, .told⟩) := by
  have hmem := mem_of_getElem? hi
  refine S.setShare hi rfl nofun (fun _ => ⟨rfl, fun v shards hv f hf => ?_⟩) nofun nofun
  have came : op.touches record shards = true → v ∈ took := by
    intro htouch
    rcases S.listed _ hmem rfl v shards hv htouch with h | h | h
    · exact h
    · exact (false_ne_true (hv.1.symm.trans (marked v h))).elim
    · cases h
  refine ⟨fun hputs => ?_, fun hrem => ?_⟩
  · exact (S.effect _ hmem rfl v (came (touches_of_puts hputs hf)) shards hv f hf).1 hputs
  · exact (S.effect _ hmem rfl v (came (touches_of_removes hrem hf)) shards hv f hf).2 hrem

/-- A copy is added to a range, and its repair begins. -/
lemma Sound.addReplica {m : RangeMap} {id : RangeId} {repair : Repair α}
    (hadd : s.current.addHolder id repair.node = .ok m) (checked : m.check.isOk = true)
    (hcopy : repair.stage = .copying .listing)
    (alone : ∀ other ∈ s.repairs, other.node = repair.node → other.stage = .ended) (epoch : Nat) :
    Sound record { s.decide { m with epoch } with repairs := s.repairs ++ [repair] } := by
  obtain ⟨hnode, hgrow, hunmarked⟩ := unmarked_of_addHolder epoch hadd
  have decided : Sound record (s.decide { m with epoch }) :=
    S.decide (check_of_isOk checked) (fun v shards hv => .inl (hunmarked v shards hv))
      fun repair hrepair hopen => hgrow _ (S.marked repair hrepair hopen)
  refine decided.addRepair hcopy ?_ alone
  rw [current_decide]
  exact hnode

lemma Sound.step [DecidableEq α] {a : ReplicaAction α}
    (ok : s.keepsMarks record a = true) : Sound record (s.step record part a) := by
  cases a with
  | start base position op => exact S.start ok
  | take i =>
    unfold Replicas.step
    dsimp only
    split
    · next hi => exact S.take hi
    · exact S
  | miss i committed =>
    unfold Replicas.step
    dsimp only
    split
    · next hi =>
      split
      · exact (S.commit hi (S.free i _ hi rfl)).passOver hi
      · exact S.passOver hi
    · exact S
  | late i node =>
    unfold Replicas.step
    dsimp only
    split
    · next share hi =>
      split
      · rw [keepsMarks, hi, all_some] at ok
        refine S.commit hi fun j later hj hat => ?_
        have hmem : later ∈ s.shares.drop (i + 1) := by
          refine mem_of_getElem? (i := j - (i + 1)) ?_
          rw [getElem?_drop, ← hat]
          congr 1
          omega
        simpa using all_eq_true.1 ok later hmem
      · exact S
    · exact S
  | refuse i | fail i =>
    unfold Replicas.step
    dsimp only
    split
    · next hi =>
      exact S.setShare hi rfl nofun nofun nofun nofun
    · exact S
  | tell i =>
    unfold Replicas.step
    dsimp only
    split
    · next hi =>
      rw [keepsMarks, hi, all_some] at ok
      exact S.tell hi (all_eq_true.1 ok)
    · exact S
  | promote base leases r now =>
    unfold Replicas.step
    dsimp only
    split
    · next m hm =>
      rw [mapAt_latest (of_decide_eq_true ok)] at hm
      obtain ⟨promoted, checked, -⟩ := promoted_of_promotionFor leases r now hm
      refine S.decide checked (fun v shards hv => .inl ?_)
        fun repair hrepair hopen => promoted.marked _ (S.marked repair hrepair hopen)
      obtain ⟨hunmarked, range, hrange, rfl, hin⟩ := hv
      obtain ⟨primary, hranges, -⟩ := promoted.ranges
      rw [hranges] at hrange
      obtain ⟨before, hbefore, rfl⟩ := mem_map.1 hrange
      refine ⟨?_, before, hbefore, rfl, hin⟩
      rw [eq_false_iff] at hunmarked ⊢
      exact fun hold => hunmarked (promoted.marked v hold)
    · exact S
  | repair base node position =>
    obtain ⟨hlatest, halone⟩ := and_eq_true_iff.1 ok
    unfold Replicas.step
    dsimp only
    rw [mapAt_latest (of_decide_eq_true hlatest)]
    split
    · split
      · next hmay => exact S.addRepair rfl hmay.1 (alone_of_all halone)
      · exact S
    · exact S
  | addReplica base id node =>
    obtain ⟨hlatest, halone⟩ := and_eq_true_iff.1 ok
    unfold Replicas.step
    dsimp only
    rw [mapAt_latest (of_decide_eq_true hlatest)]
    split
    · split
      · exact S
      split
      · next next hnext =>
        split
        · next checked => exact S.addReplica hnext checked rfl (alone_of_all halone) _
        · exact S
      · exact S
    · exact S
  | next j base =>
    unfold Replicas.step
    dsimp only
    split
    · next repair hj => exact S.advance hj ok
    · exact S
  | abandon j =>
    unfold Replicas.step
    dsimp only
    split
    · next repair hj => exact S.setStage hj (by simp) fun _ => rfl
    · exact S

end

end Preserved

end Replicas

end BigDb.Cluster
