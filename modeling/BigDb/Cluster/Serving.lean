import BigDb.Cluster.Ownership
import BigDb.Lib.Runs

/-!
# Nodes that hold data

The data side of a cluster: every node has the map it has applied, the facts it holds, and the
writes it has let through and not yet committed. A write is checked against the map and then
handed to the engine, and between the two the node can apply another map; so letting a write
through and committing it are two steps. A deletion that a node coordinates itself is handed to
its engine without the check.

The maps the agreement has decided are one list, and every node applies them in that order, each
in its own time. Whether a lease lets a request in at all is left open: one it turns away does
not appear. `World.done` is a history variable, every commit with the map its node had applied.

Facts are any type with a record in it. An import writes its facts one after another: a fact of a field
that has many values is added, and one of a field that has one value, as a number, a bool or a mutex has,
takes the place of the value its record had. A deletion takes away whatever is said about its records.
-/

namespace BigDb.Cluster
open Lib List
variable {α : Type}

/-- Which facts are the one value of a field. -/
class Valued (α : Type) where
  /-- the field, if a record has one value in it -/
  field : α → Option Nat

/-- What a node is asked to commit. -/
inductive Op (α : Type) where
  | put (facts : List α)
  | remove (records : List Nat)
deriving DecidableEq, Repr

/-- One node's data. -/
structure Held (α : Type) where
  /-- the position, among the decided maps, of the one this node has applied -/
  applied : Nat
  store : List α
  /-- what is past the check, and whether its caller will be told that it landed -/
  pending : List (Op α × Bool)

/-- A commit. -/
structure Done (α : Type) where
  node : NodeId
  op : Op α
  acked : Bool
  map : RangeMap
deriving DecidableEq

structure World (α : Type) where
  decided : List RangeMap
  node : NodeId → Held α
  done : List (Done α)

/-- What can happen next. -/
inductive Deed (α : Type) where
  /-- the agreement decides a map -/
  | decide (m : RangeMap)
  /-- a node applies the next one -/
  | learn (n : NodeId)
  /-- a write reaches a node, by a peer or by the node's own `writeShare` -/
  | receive (n : NodeId) (routed : Option Routed) (op : Op α) (acked : Bool)
  /-- a node comes to its own share of a deletion it coordinates -/
  | deleteHere (n : NodeId) (records : List Nat) (acked : Bool)
  | commit (n : NodeId) (i : Nat)
  /-- the engine turns a write down -/
  | refuse (n : NodeId) (i : Nat)
deriving DecidableEq, Repr

section Ops
variable (record : α → Nat)

/-- The records a write is about. -/
def Op.records : Op α → List Nat
  | .put facts => facts.map record
  | .remove records => records

variable [Valued α]

/-- Whether one fact takes the place of another: both are the value of one field of one record. -/
def replaces (f g : α) : Bool :=
  record f = record g && (Valued.field f).isSome && Valued.field f = Valued.field g

/-- One turn of the loop of `apply`. -/
def writeFact (store : List α) (f : α) : List α := store.filter (fun g => !replaces record f g) ++ [f]

/-- What the engine does. -/
def Op.run : Op α → List α → List α
  | .put facts, store => facts.foldl (writeFact record) store
  | .remove records, store => store.filter fun f => record f ∉ records

/-- A write that leaves a fact: of values that take each other's place the last one of a batch stays. -/
def Op.puts : Op α → α → Prop
  | .put facts, f => f ∈ facts.foldl (writeFact record) []
  | .remove _, _ => False

/-- A write that takes a fact away, by a deletion or by another value in its place. -/
def Op.removes : Op α → α → Prop
  | .put facts, f => f ∉ facts.foldl (writeFact record) [] ∧ ∃ g ∈ facts, replaces record g f = true
  | .remove records, f => record f ∈ records

omit [Valued α] in
/-- Whether a write is about records in some shards. -/
def Op.touches (shards : ShardRange) (op : Op α) : Bool := (op.records record).any (shards.holds ·)

variable {record} {op : Op α} {f : α} {shards : ShardRange}

lemma record_of_replaces {f g : α} (h : replaces record f g = true) : record f = record g := by
  simp only [replaces, Bool.and_eq_true, decide_eq_true_eq] at h
  exact h.1.1

lemma mem_writeFact {store : List α} {g : α} :
    f ∈ writeFact record store g ↔ (f ∈ store ∧ replaces record g f = false) ∨ f = g := by
  simp [writeFact]

/-- What a batch leaves: what it leaves of itself, and what was there and nothing of it replaces. -/
lemma mem_foldl_writeFact {facts store : List α} : f ∈ facts.foldl (writeFact record) store ↔
    f ∈ facts.foldl (writeFact record) [] ∨ (f ∈ store ∧ ∀ g ∈ facts, replaces record g f = false) := by
  induction facts generalizing store with
  | nil => simp
  | cons g facts ih =>
    rw [foldl_cons, foldl_cons, ih, @ih (writeFact record [] g), mem_writeFact, mem_writeFact, forall_mem_cons]
    simp only [not_mem_nil, false_and, false_or]
    tauto

lemma mem_of_mem_foldl_writeFact {facts : List α} (h : f ∈ facts.foldl (writeFact record) []) : f ∈ facts := by
  induction facts with
  | nil => exact h
  | cons g facts ih =>
    rw [foldl_cons, mem_foldl_writeFact, mem_writeFact] at h
    rcases h with h | ⟨⟨h, -⟩ | rfl, -⟩
    · exact mem_cons_of_mem _ (ih h)
    · cases h
    · exact mem_cons_self

lemma Op.touches_of_puts (h : op.puts record f)
    (hold : shards.holds (record f) = true) : op.touches record shards = true := by
  cases op with
  | put facts => exact any_eq_true.2 ⟨record f, mem_map_of_mem (mem_of_mem_foldl_writeFact h), hold⟩
  | remove records => exact h.elim

lemma Op.touches_of_removes (h : op.removes record f)
    (hold : shards.holds (record f) = true) : op.touches record shards = true := by
  cases op with
  | put facts =>
    obtain ⟨-, g, hg, same⟩ := h
    exact any_eq_true.2 ⟨record g, mem_map_of_mem hg, record_of_replaces same ▸ hold⟩
  | remove records => exact any_eq_true.2 ⟨record f, h, hold⟩

lemma Op.mem_run {store : List α} :
    f ∈ op.run record store ↔ op.puts record f ∨ (f ∈ store ∧ ¬ op.removes record f) := by
  cases op with
  | put facts =>
    rw [Op.run, mem_foldl_writeFact]
    simp only [Op.puts, Op.removes, not_and, not_exists, Bool.not_eq_true]
    tauto
  | remove records => simp [Op.run, Op.puts, Op.removes]

lemma Op.not_removes_of_puts (h : op.puts record f) : ¬ op.removes record f := by
  cases op with
  | put facts => exact fun hrem => hrem.1 h
  | remove records => exact h.elim

end Ops

/-! ## What callers have been told -/

/-- Somebody was told so, and nobody was told otherwise since. The commits that count are those
a caller's answer rests on; what other copies do meanwhile is their business. -/
def Lasts (does undoes : Op α → Prop) (done : List (Done α)) : Prop :=
  ∃ before d after, done = before ++ d :: after ∧ d.acked = true ∧ does d.op ∧
    ∀ d' ∈ after, d'.acked = true → ¬ undoes d'.op

/-- A fact acknowledged and neither deleted nor replaced since. -/
abbrev Owed [Valued α] (record : α → Nat) (done : List (Done α)) (f : α) : Prop :=
  Lasts (·.puts record f) (·.removes record f) done

/-- A fact whose deletion or replacement was acknowledged and that was not written since. -/
abbrev Gone [Valued α] (record : α → Nat) (done : List (Done α)) (f : α) : Prop :=
  Lasts (·.removes record f) (·.puts record f) done

variable {does undoes : Op α → Prop}

lemma not_lasts_nil : ¬ Lasts does undoes [] := by
  rintro ⟨before, d, after, h, -⟩
  exact absurd (congrArg length h) (by simp)

/-- One commit later. -/
lemma lasts_snoc {done : List (Done α)} {d : Done α} (h : Lasts does undoes (done ++ [d])) :
    (d.acked = true ∧ does d.op) ∨ (Lasts does undoes done ∧ (d.acked = true → ¬ undoes d.op)) := by
  obtain ⟨before, d', after, heq, hacked, hdoes, hafter⟩ := h
  rcases eq_nil_or_concat after with rfl | ⟨init, last, rfl⟩
  · obtain ⟨-, hlast⟩ := append_inj' heq rfl
    obtain rfl := singleton_inj.1 hlast
    exact .inl ⟨hacked, hdoes⟩
  have heq' : done ++ [d] = (before ++ d' :: init) ++ [last] := by simpa using heq
  obtain ⟨hdone, hlast⟩ := append_inj' heq' rfl
  obtain rfl := singleton_inj.1 hlast
  refine .inr ⟨⟨before, d', init, hdone, hacked, hdoes, fun d'' hd'' => ?_⟩, ?_⟩
  · exact hafter d'' (by simp [hd''])
  · exact hafter d (by simp)

namespace World

/-- Every node has applied the map of the file, and holds what it holds. -/
def start (seed : RangeMap) (stores : NodeId → List α) : World α :=
  ⟨[seed], fun n => ⟨0, stores n, []⟩, []⟩

variable (w : World α)

def mapOf (n : NodeId) : RangeMap := (w.decided[(w.node n).applied]?).getD default

def nextOf (n : NodeId) : RangeMap := (w.decided[(w.node n).applied + 1]?).getD default

def set (n : NodeId) (h : Held α) : World α := { w with node := Function.update w.node n h }

/-- A write that is let through. -/
def enqueue (n : NodeId) (op : Op α) (acked : Bool) : World α :=
  w.set n { w.node n with pending := (w.node n).pending ++ [(op, acked)] }

/-- A write that is done with, and what is held then. -/
def settle (n : NodeId) (i : Nat) (store : List α) : Held α :=
  ⟨(w.node n).applied, store, (w.node n).pending.eraseIdx i⟩

def step [Valued α] (record : α → Nat) (w : World α) : Deed α → World α
  | .decide m => { w with decided := w.decided ++ [m] }
  | .learn n =>
    if (w.node n).applied + 1 < w.decided.length then
      w.set n { w.node n with applied := (w.node n).applied + 1 }
    else w
  | .receive n routed op acked =>
    match (w.mapOf n).checkRoute (toString n) n routed with
    | .ok _ => w.enqueue n op acked
    | .error _ => w
  | .deleteHere n records acked => w.enqueue n (.remove records) acked
  | .commit n i =>
    match (w.node n).pending[i]? with
    | some (op, acked) =>
      { w.set n (w.settle n i (op.run record (w.node n).store)) with
        done := w.done ++ [⟨n, op, acked, w.mapOf n⟩] }
    | none => w
  | .refuse n i => w.set n (w.settle n i (w.node n).store)

/-- The write a deed lets through, and where: one that is past the check, or one that is not
checked. -/
inductive Admits (w : World α) : Deed α → NodeId → Op α → Bool → Prop where
  | receive {n routed op acked} (ok : (w.mapOf n).checkRoute (toString n) n routed = .ok ()) :
      Admits w (.receive n routed op acked) n op acked
  | deleteHere {n records acked} : Admits w (.deleteHere n records acked) n (.remove records) acked

section Steps
variable [Valued α] (record : α → Nat)

inductive Step (w : World α) : Deed α → World α → Prop where
  | stay {a} : Step w a w
  | decide {m} : Step w (.decide m) { w with decided := w.decided ++ [m] }
  | learn {n} (more : (w.node n).applied + 1 < w.decided.length) :
      Step w (.learn n) (w.set n { w.node n with applied := (w.node n).applied + 1 })
  | enqueue {a n op acked} (lets : Admits w a n op acked) : Step w a (w.enqueue n op acked)
  | commit {n i op acked} (waits : (w.node n).pending[i]? = some (op, acked)) : Step w (.commit n i)
        { w.set n (w.settle n i (op.run record (w.node n).store)) with
          done := w.done ++ [⟨n, op, acked, w.mapOf n⟩] }
  | refuse {n i} : Step w (.refuse n i) (w.set n (w.settle n i (w.node n).store))

lemma step_step (w : World α) (a : Deed α) : Step record w a (w.step record a) := by
  cases a with
  | decide m => exact .decide
  | learn n =>
    rw [step]
    split
    · next more => exact .learn more
    · exact .stay
  | receive n routed op acked =>
    rw [step]
    split
    · next ok => exact .enqueue (.receive ok)
    · exact .stay
  | deleteHere n records acked => exact .enqueue .deleteHere
  | commit n i =>
    rw [step]
    split
    · next waits => exact .commit waits
    · exact .stay
  | refuse n i => exact .refuse

end Steps

variable {w} {n v : NodeId} {h : Held α}

@[simp] lemma set_self : (w.set n h).node n = h := by simp [set]

lemma set_other (hv : v ≠ n) : (w.set n h).node v = w.node v := by simp [set, hv]

/-- What holds of the new content of one node and of the other nodes holds of every node then. -/
lemma forall_set (P : NodeId → Held α → Prop) (here : P n h) (others : ∀ v, v ≠ n → P v (w.node v)) (v : NodeId) :
    P v ((w.set n h).node v) :=
  (Function.forall_update_iff _ P).2 ⟨here, others⟩ v

lemma mapOf_set : (w.set n h).mapOf v =
    (w.decided[if v = n then h.applied else (w.node v).applied]?).getD default := by
  unfold mapOf
  by_cases hv : v = n
  · subst hv
    rw [set_self, if_pos rfl]
    rfl
  · rw [set_other hv, if_neg hv]
    rfl

/-- Nothing but applying a map changes the map a node has applied. -/
lemma mapOf_set_of_applied (ha : h.applied = (w.node n).applied) : (w.set n h).mapOf v = w.mapOf v := by
  rw [mapOf_set, mapOf]
  by_cases hv : v = n
  · subst hv
    rw [if_pos rfl, ha]
  · rw [if_neg hv]

variable {op : Op α} {acked : Bool}

@[simp] lemma mapOf_enqueue : (w.enqueue n op acked).mapOf v = w.mapOf v :=
  mapOf_set_of_applied rfl

variable {store : List α}

@[simp] lemma mapOf_settle {i : Nat} : (w.set n (w.settle n i store)).mapOf v = w.mapOf v :=
  mapOf_set_of_applied rfl

/-! ## Maps along a run -/

/-- Every node has applied a decided map, and those pass `check`. -/
structure Mapped (w : World α) : Prop where
  checked : ∀ m ∈ w.decided, m.check = .ok ()
  applied : ∀ n, (w.node n).applied < w.decided.length

lemma Mapped.start {seed : RangeMap} (h : seed.check = .ok ()) (stores : NodeId → List α) :
    Mapped (World.start seed stores) where
  checked m hm := by
    rw [mem_singleton.1 hm]
    exact h
  applied _ := Nat.zero_lt_one

lemma Mapped.getElem (M : Mapped w) (n : NodeId) : w.decided[(w.node n).applied]? = some (w.mapOf n) := by
  unfold World.mapOf
  rw [getElem?_eq_getElem (M.applied n)]
  rfl

lemma Mapped.mapOf (M : Mapped w) (n : NodeId) : w.mapOf n ∈ w.decided :=
  mem_of_getElem? (M.getElem n)

lemma Mapped.set (M : Mapped w) (ha : h.applied < w.decided.length) : Mapped (w.set n h) where
  checked := M.checked
  applied := forall_set (fun _ g => g.applied < w.decided.length) ha fun v _ => M.applied v

lemma Mapped.step [Valued α] {record : α → Nat} {a : Deed α} (M : Mapped w)
    (ok : ∀ m, a = .decide m → m.check = .ok ()) : Mapped (w.step record a) := by
  have hstep := step_step record w a
  generalize w.step record a = w' at hstep
  cases hstep with
  | stay => exact M
  | @decide m =>
    refine ⟨fun m' hm' => ?_, fun n => ?_⟩
    · rcases mem_append.1 hm' with hm' | hm'
      · exact M.checked m' hm'
      · rw [mem_singleton.1 hm']
        exact ok m rfl
    · exact (M.applied n).trans (by simp)
  | learn more => exact M.set more
  | enqueue | refuse => exact M.set (M.applied _)
  | @commit n i op acked =>
    have hset : Mapped (w.set n (w.settle n i (op.run record (w.node n).store))) := M.set (M.applied n)
    exact ⟨hset.checked, hset.applied⟩

/-! ## Maps that stay -/

section Since
variable [Valued α] {record : α → Nat} {a : Deed α} {position : Nat} {P : RangeMap → Prop}

variable (w position P) in
structure Since : Prop where
  decided : position < w.decided.length
  maps : ∀ i m, position ≤ i → w.decided[i]? = some m → P m

lemma decided_grows (record : α → Nat) (w : World α) (a : Deed α) : w.decided <+: (w.step record a).decided := by
  have hstep := step_step record w a
  generalize w.step record a = w' at hstep
  cases hstep with
  | decide => exact prefix_append _ _
  | _ => exact prefix_rfl

lemma applied_le (record : α → Nat) (w : World α) (a : Deed α) (n : NodeId) :
    (w.node n).applied ≤ ((w.step record a).node n).applied := by
  have grows : ∀ {k : NodeId} {h : Held α}, (w.node k).applied ≤ h.applied →
      (w.node n).applied ≤ ((w.set k h).node n).applied :=
    fun hle => forall_set (fun v g => (w.node v).applied ≤ g.applied) hle (fun _ _ => le_rfl) n
  have hstep := step_step record w a
  generalize w.step record a = w' at hstep
  cases hstep with
  | stay | decide => exact le_rfl
  | learn => exact grows (Nat.le_succ _)
  | enqueue | refuse => exact grows le_rfl
  | @commit k i op acked => exact grows (k := k) (h := w.settle k i (op.run record (w.node k).store)) le_rfl

lemma Since.step (S : w.Since position P) (ok : ∀ m, a = .decide m → P m) : (w.step record a).Since position P := by
  refine ⟨S.decided.trans_le (decided_grows record w a).length_le, ?_⟩
  have hstep := step_step record w a
  generalize w.step record a = w' at hstep
  cases hstep with
  | @decide m =>
    intro i m' hi hm'
    rcases getElem?_concat_some hm' with ⟨-, hm'⟩ | ⟨-, rfl⟩
    · exact S.maps i m' hi hm'
    · exact ok m rfl
  | _ => exact S.maps

omit [Valued α] in
lemma Since.mono {Q : RangeMap → Prop} (S : w.Since position P) (imp : ∀ m, P m → Q m) : w.Since position Q :=
  ⟨S.decided, fun i m hi hm => imp m (S.maps i m hi hm)⟩

lemma Since.decide (record : α → Nat) {m : RangeMap} (h : P m) :
    (w.step record (.decide m)).Since w.decided.length P := by
  refine ⟨by simp [World.step], fun i m' hi hm' => ?_⟩
  rw [World.step, getElem?_append_right hi] at hm'
  rw [mem_singleton.1 (mem_of_getElem? hm')]
  exact h

omit [Valued α] in
lemma Since.mapOf (S : w.Since position P) (M : w.Mapped) (h : position ≤ (w.node n).applied) : P (w.mapOf n) :=
  S.maps _ _ h (M.getElem n)

end Since

/-! ## A node that has everything owed -/

section
variable (record : α → Nat) (shards : ShardRange) (x : NodeId) (w : World α)

/-- What waits to be committed in some shards will be acknowledged exactly if it waits at `x`. -/
def Awaits : Prop :=
  ∀ n, ∀ p ∈ (w.node n).pending, p.1.touches record shards = true → (p.2 = true ↔ n = x)

/-- Node `x` holds every fact of some shards that was acknowledged, and is the one to
acknowledge more. -/
structure Keeps [Valued α] : Prop where
  held : ∀ f, shards.holds (record f) = true → Owed record w.done f → f ∈ (w.node x).store
  waits : Awaits record shards x w

/-- It holds no fact whose deletion was acknowledged. -/
def Clears [Valued α] : Prop :=
  ∀ f, shards.holds (record f) = true → Gone record w.done f → f ∉ (w.node x).store

/-- A write that is let through will be acknowledged exactly if it is let through at `x`. -/
def Addressed (a : Deed α) : Prop :=
  ∀ n op acked, w.Admits a n op acked → op.touches record shards = true → (acked = true ↔ n = x)

end

section Keeps
variable {record : α → Nat} {shards : ShardRange} {x : NodeId}

section
variable (A : Awaits record shards x w)
include A

lemma Awaits.set (pending : ∀ p ∈ h.pending, p.1.touches record shards = true → (p.2 = true ↔ n = x)) :
    Awaits record shards x (w.set n h) :=
  forall_set (fun v g => ∀ p ∈ g.pending, p.1.touches record shards = true → (p.2 = true ↔ v = x)) pending
    fun v _ => A v

lemma Awaits.enqueue (ok : op.touches record shards = true → (acked = true ↔ n = x)) :
    Awaits record shards x (w.enqueue n op acked) := by
  refine A.set fun p hp htouch => ?_
  rcases mem_concat.1 hp with hp | rfl
  · exact A n p hp htouch
  · exact ok htouch

variable [Valued α] {a : Deed α}

lemma Awaits.step (ok : w.Addressed record shards x a) : Awaits record shards x (w.step record a) := by
  have hstep := step_step record w a
  generalize w.step record a = w' at hstep
  cases hstep with
  | stay | decide => exact A
  | learn => exact A.set (A _)
  | enqueue lets => exact A.enqueue (ok _ _ _ lets)
  | @commit n i op acked waits =>
    have hset : Awaits record shards x (w.set n (w.settle n i (op.run record (w.node n).store))) :=
      A.set fun p hp => A n p (mem_of_mem_eraseIdx hp)
    exact hset
  | @refuse n i => exact A.set fun p hp => A n p (mem_of_mem_eraseIdx hp)

end

variable [Valued α]

/-- What a deed does to a node's store: nothing, or what a write does that waited there. -/
lemma store_step (record : α → Nat) (w : World α) (a : Deed α) (x : NodeId) :
    (((w.step record a).node x).store = (w.node x).store ∧
      ((w.step record a).done = w.done ∨ ∃ d : Done α, (w.step record a).done = w.done ++ [d] ∧
        d.node ≠ x ∧ (d.op, d.acked) ∈ (w.node d.node).pending)) ∨
    ∃ d : Done α, (w.step record a).done = w.done ++ [d] ∧ d.node = x ∧ (d.op, d.acked) ∈ (w.node x).pending ∧
      ((w.step record a).node x).store = d.op.run record (w.node x).store := by
  have same : ∀ {n : NodeId} {h : Held α}, h.store = (w.node n).store →
      ((w.set n h).node x).store = (w.node x).store :=
    fun hs => forall_set (fun v g => g.store = (w.node v).store) hs (fun _ _ => rfl) x
  have hstep := step_step record w a
  generalize w.step record a = w' at hstep
  cases hstep with
  | stay | decide => exact .inl ⟨rfl, .inl rfl⟩
  | learn | enqueue | refuse => exact .inl ⟨same rfl, .inl rfl⟩
  | @commit n i op acked waits =>
    have hmem := mem_of_getElem? waits
    by_cases hx : x = n
    · subst hx
      exact .inr ⟨_, rfl, rfl, hmem, by rw [set_self]; rfl⟩
    · exact .inl ⟨by rw [set_other hx], .inr ⟨_, rfl, fun h => hx h.symm, hmem⟩⟩

/-- A node goes on holding everything owed, as long as it is the one to acknowledge. -/
lemma Keeps.step (K : Keeps record shards x w) (ok : w.Addressed record shards x a) :
    Keeps record shards x (w.step record a) := by
  refine ⟨fun f hf howed => ?_, K.waits.step ok⟩
  rcases store_step record w a x with ⟨hstore, hdone | ⟨d, hdone, hne, hmem⟩⟩ | ⟨d, hdone, rfl, hmem, hstore⟩
  · rw [hdone] at howed
    rw [hstore]
    exact K.held f hf howed
  · rw [hdone] at howed
    rw [hstore]
    rcases lasts_snoc howed with ⟨hacked, hputs⟩ | ⟨howed, -⟩
    · -- a commit elsewhere is acknowledged to nobody
      exact (hne ((K.waits _ _ hmem (Op.touches_of_puts hputs hf)).1 hacked)).elim
    · exact K.held f hf howed
  · rw [hdone] at howed
    rw [hstore, Op.mem_run]
    rcases lasts_snoc howed with ⟨-, hputs⟩ | ⟨howed, hkeeps⟩
    · exact .inl hputs
    · refine .inr ⟨K.held f hf howed, fun hrem => hkeeps ?_ hrem⟩
      exact (K.waits _ _ hmem (Op.touches_of_removes hrem hf)).2 rfl

/-- And on holding nothing that is gone. -/
lemma Clears.step (C : Clears record shards x w) (A : Awaits record shards x w) :
    Clears record shards x (w.step record a) := by
  intro f hf hgone
  rcases store_step record w a x with ⟨hstore, hdone | ⟨d, hdone, hne, hmem⟩⟩ | ⟨d, hdone, rfl, hmem, hstore⟩
  · rw [hdone] at hgone
    rw [hstore]
    exact C f hf hgone
  · rw [hdone] at hgone
    rw [hstore]
    rcases lasts_snoc hgone with ⟨hacked, hrem⟩ | ⟨hgone, -⟩
    · exact (hne ((A _ _ hmem (Op.touches_of_removes hrem hf)).1 hacked)).elim
    · exact C f hf hgone
  · rw [hdone] at hgone
    rw [hstore, Op.mem_run]
    rcases lasts_snoc hgone with ⟨-, hrem⟩ | ⟨hgone, hkeeps⟩
    · rintro (hputs | ⟨-, hkept⟩)
      · exact Op.not_removes_of_puts hputs hrem
      · exact hkept hrem
    · rintro (hputs | ⟨hin, -⟩)
      · exact hkeeps ((A _ _ hmem (Op.touches_of_puts hputs hf)).2 rfl) hputs
      · exact C f hf hgone hin

variable (record shards x) in
def Idle (w : World α) : Prop :=
  ∀ p ∈ (w.node x).pending, p.1.touches record shards ≠ true

lemma Idle.step (I : Idle record shards x w)
    (ok : ∀ n op acked, w.Admits a n op acked → op.touches record shards = true → n ≠ x) :
    Idle record shards x (w.step record a) := by
  have other : ∀ {n : NodeId} {h : Held α}, (n = x → ∀ p ∈ h.pending, p.1.touches record shards ≠ true) →
      Idle record shards x (w.set n h) := by
    intro n h hok
    refine forall_set (fun v g => v = x → ∀ p ∈ g.pending, p.1.touches record shards ≠ true) hok ?_ x rfl
    rintro v - rfl
    exact I
  have hstep := step_step record w a
  generalize w.step record a = w' at hstep
  cases hstep with
  | stay | decide => exact I
  | learn =>
    refine other ?_
    rintro rfl
    exact I
  | @enqueue _ n op acked lets =>
    refine other ?_
    rintro rfl p hp
    rcases mem_concat.1 hp with hp | rfl
    · exact I p hp
    · exact fun htouch => ok n op acked lets htouch rfl
  | @commit n i op acked waits =>
    have hset : Idle record shards x (w.set n (w.settle n i (op.run record (w.node n).store))) := by
      refine other ?_
      rintro rfl p hp
      exact I p (mem_of_mem_eraseIdx hp)
    exact hset
  | refuse =>
    refine other ?_
    rintro rfl p hp
    exact I p (mem_of_mem_eraseIdx hp)

lemma Idle.mem_store (I : Idle record shards x w) {f : α} (hf : shards.holds (record f) = true) :
    f ∈ ((w.step record a).node x).store ↔ f ∈ (w.node x).store := by
  rcases store_step record w a x with ⟨hstore, -⟩ | ⟨d, -, -, hmem, hstore⟩
  · rw [hstore]
  rw [hstore, Op.mem_run]
  constructor
  · rintro (hputs | ⟨hin, -⟩)
    · exact (I _ hmem (Op.touches_of_puts hputs hf)).elim
    · exact hin
  · exact fun hin => .inr ⟨hin, fun hrem => I _ hmem (Op.touches_of_removes hrem hf)⟩

omit [Valued α] in
/-- Once nothing waits at either of two nodes, either can be the one to acknowledge. -/
lemma Awaits.handover {y : NodeId} (A : Awaits record shards x w) (hx : Idle record shards x w)
    (hy : Idle record shards y w) : Awaits record shards y w := by
  intro n p hp htouch
  constructor
  · intro hacked
    obtain rfl := (A n p hp htouch).1 hacked
    exact (hx p hp htouch).elim
  · rintro rfl
    exact (hy p hp htouch).elim

end Keeps

/-! ## Cutover -/

/-- What keeps a cutover a barrier: a map is applied while no write it cuts over is between its
check and its commit, a routed write is about the shards it claims, and a node deletes nothing of
its own accord in a range it is handing over. Decided maps have been checked. -/
def keepsBarrier (record : α → Nat) (w : World α) : Deed α → Bool
  | .decide m => m.check.isOk
  | .learn n => (w.node n).pending.all fun p => (p.1.records record).all fun r =>
      !(w.nextOf n).cutOver n r
  | .receive _ routed op _ => routed.any fun claim =>
      (op.records record).all fun r => claim.shards.any (·.holds r)
  | .deleteHere n records _ => records.all fun r => !(w.mapOf n).cutOver n r
  | .commit .. | .refuse .. => true

/-- Nothing that waits to be committed, and nothing that was, is in a range being cut over. -/
structure Barred (record : α → Nat) (w : World α) : Prop where
  mapped : Mapped w
  pending : ∀ n, ∀ p ∈ (w.node n).pending, ∀ r ∈ p.1.records record, (w.mapOf n).cutOver n r = false
  done : ∀ d ∈ w.done, ∀ r ∈ d.op.records record, d.map.cutOver d.node r = false

section Barrier
variable {record : α → Nat}

/-- A node whose map stays may let a write through that its map does not cut over. -/
lemma Barred.enqueue (B : Barred record w) (h : ∀ r ∈ op.records record, (w.mapOf n).cutOver n r = false) :
    Barred record (w.enqueue n op acked) where
  mapped := B.mapped.set (B.mapped.applied n)
  pending v p hp r hr := by
    rw [mapOf_enqueue]
    by_cases hv : v = n
    · subst hv
      rw [World.enqueue, set_self] at hp
      rcases mem_concat.1 hp with hp | rfl
      · exact B.pending v p hp r hr
      · exact h r hr
    · rw [World.enqueue, set_other hv] at hp
      exact B.pending v p hp r hr
  done := B.done

/-- Nothing new waits once a write is done with. -/
lemma Barred.settle (B : Barred record w) {i : Nat} : Barred record (w.set n (w.settle n i store)) where
  mapped := B.mapped.set (B.mapped.applied n)
  pending v p hp r hr := by
    rw [mapOf_settle]
    by_cases hv : v = n
    · subst hv
      rw [set_self] at hp
      exact B.pending v p (mem_of_mem_eraseIdx hp) r hr
    · rw [set_other hv] at hp
      exact B.pending v p hp r hr
  done := B.done

lemma Barred.step [Valued α] {a : Deed α} (B : Barred record w) (ok : w.keepsBarrier record a = true) :
    Barred record (w.step record a) := by
  have mapped : Mapped (w.step record a) := B.mapped.step fun m ha => by
    subst ha
    exact RangeMap.check_of_isOk ok
  have hstep := step_step record w a
  generalize w.step record a = w' at hstep mapped
  cases hstep with
  | stay => exact B
  | @decide m =>
    refine ⟨mapped, fun n p hp r hr => ?_, B.done⟩
    have hmap : World.mapOf { w with decided := w.decided ++ [m] } n = w.mapOf n := by
      unfold World.mapOf
      rw [getElem?_append_left (B.mapped.applied n)]
    rw [hmap]
    exact B.pending n p hp r hr
  | @learn n more =>
    refine ⟨mapped, fun v p hp r hr => ?_, B.done⟩
    rw [mapOf_set]
    by_cases hv : v = n
    · subst hv
      rw [set_self] at hp
      rw [if_pos rfl]
      simpa [nextOf] using all_eq_true.1 (all_eq_true.1 ok p hp) r hr
    · rw [set_other hv] at hp
      rw [if_neg hv]
      exact B.pending v p hp r hr
  | @enqueue _ n op acked lets =>
    refine B.enqueue fun r hr => ?_
    cases lets with
    | @receive _ routed _ _ passed =>
      cases routed with
      | none => cases ok
      | some claim =>
        obtain ⟨want, hwant, hold⟩ := any_eq_true.1 (all_eq_true.1 ok r hr)
        exact RangeMap.not_cutOver_of_checkRoute (B.mapped.checked _ (B.mapped.mapOf n)) passed hwant hold
    | deleteHere => simpa using all_eq_true.1 ok r hr
  | @commit n i op acked waits =>
    have hset : Barred record (w.set n (w.settle n i (op.run record (w.node n).store))) := B.settle
    refine ⟨mapped, hset.pending, fun d hd r hr => ?_⟩
    rcases mem_concat.1 hd with hd | rfl
    · exact B.done d hd r hr
    · exact B.pending n _ (mem_of_getElem? waits) r hr
  | refuse => exact B.settle

end Barrier

end World

/-- **A cutover is a barrier in every run that keeps it one**: no commit is about a record of a
range its node holds and is handing over. -/
theorem cutover_is_a_barrier [Valued α] (record : α → Nat) (seed : RangeMap) (checked : seed.check = .ok ())
    (stores : NodeId → List α) (w : World α)
    (run : Run (World.step record) (fun w a => w.keepsBarrier record a = true) (World.start seed stores) w) :
    ∀ d ∈ w.done, ∀ r ∈ d.op.records record, d.map.cutOver d.node r = false := by
  have start : World.Barred record (World.start seed stores) :=
    ⟨.start checked stores, fun _ p hp => (by cases hp), fun d hd => (by cases hd)⟩
  exact (run.run start fun x a ok B => B.step ok).done

/-- A record alone is a fact that takes no other's place. -/
instance : Valued Nat := ⟨fun _ => none⟩

/-- A record with the number it has in the one field there is. -/
instance : Valued (Nat × Nat) := ⟨fun _ => some 0⟩

/-- One range, on node 0, which another node is being filled for. -/
def seeding : RangeMap :=
  { (default : RangeMap) with ranges := [⟨0, ⟨0, none⟩, [0], 0, some ⟨1, .seeding⟩⟩] }

/-- The same, with the last of it being copied. -/
def cuttingOver : RangeMap :=
  { seeding with epoch := 1, ranges := [⟨0, ⟨0, none⟩, [0], 0, some ⟨1, .cutover⟩⟩] }

def writeAll (records : List Nat) : Deed Nat :=
  .receive 0 (some ⟨0, [⟨0, none⟩]⟩) (.put records) true

/-- A write that commits before the node applies the cutover, and one that comes after. -/
theorem cutover_is_a_barrier_seeding :
    let w := play (World.step fun r : Nat => r) (World.start seeding fun _ => [])
      ([writeAll [7], .commit 0 0, .decide cuttingOver, .learn 0, writeAll [8], .commit 0 0].map fun a _ => a)
    w.mapOf 0 = cuttingOver ∧ w.done.length = 1 ∧
      ∀ d ∈ w.done, ∀ r ∈ d.op.records (fun r => r), d.map.cutOver d.node r = false := by
  intro w
  have hrun : Run (World.step fun r : Nat => r) (fun w a => w.keepsBarrier (fun r => r) a = true)
      (World.start seeding fun _ => []) w :=
    Run.play (fun w a => w.keepsBarrier (fun r => r) a) _ (by decide +kernel) (fun _ _ h => h)
  have hw : w.mapOf 0 = cuttingOver ∧ w.done.length = 1 := by decide +kernel
  clear_value w
  exact ⟨hw.1, hw.2, cutover_is_a_barrier _ seeding (by decide +kernel) _ w hrun⟩

/-- A write the node has checked commits after the node has applied the cutover. -/
theorem checked_write_commits_in_cutover : ¬ ∀ d ∈ (play (World.step fun r : Nat => r) (World.start seeding fun _ => [])
      ([writeAll [7], .decide cuttingOver, .learn 0, .commit 0 0].map fun a _ => a)).done,
        ∀ r ∈ d.op.records (fun r => r), d.map.cutOver d.node r = false := by
  decide +kernel

end BigDb.Cluster
