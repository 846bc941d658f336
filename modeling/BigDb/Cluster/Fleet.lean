import BigDb.Cluster.Durability
import BigDb.Cluster.Written

/-!
# Controllers over an asynchronous network

Every node runs a controller of its own, with a clock of its own. Whatever any of them has ever
handed to its outbox can be delivered late, out of order, any number of times or never. Clocks
may differ but go equally fast: time passes for all of them at once. A new process starts its
clock from zero.

`orders` is a history variable: the maps that were ever appended by a node that led, each with the
map its proposer went by.
-/

namespace BigDb.Cluster
open Lib Lib.Ledger Controller Function List Option

namespace Controller

/-- What an action has the core append, and the core as it then is. -/
def accepts (config : ClusterConfig) (c : Controller) : Action → Option (Raft × Decision)
  | .turn incoming now =>
    match c.phase with
    | .idle =>
      let r := ((delivered c.raft incoming now).1.tick now).1
      if !c.wedged && r.role = .leader then
        (promotionFor config.leases r now c.ranges).map fun m => (r, .ranges m)
      else none
    | _ => none
  | action => if c.refuses action then none else (c.asks action).map fun d => (c.raft, d)

variable {c : Controller} {action : Action} {d : Decision} {config : ClusterConfig}

/-- Where what is appended comes from: the driver's promotion or a call. -/
lemma accepts_cases {r : Raft} (h : c.accepts config action = some (r, d)) :
    (∃ incoming now m, action = .turn incoming now ∧ ((delivered c.raft incoming now).1.tick now).1 = r ∧
      promotionFor config.leases r now c.ranges = some m ∧ d = .ranges m) ∨
    r = c.raft ∧ c.refuses action = false ∧ c.asks action = some d := by
  unfold accepts at h
  split at h
  · left
    split at h
    · dsimp only at h
      split at h
      · obtain ⟨m, hpromo, heq⟩ := map_eq_some_iff.1 h
        cases heq
        exact ⟨_, _, m, rfl, rfl, hpromo, rfl⟩
      · cases h
    · cases h
  · right
    split at h
    · cases h
    · next hcall =>
      obtain ⟨d', hasks, heq⟩ := map_eq_some_iff.1 h
      cases heq
      exact ⟨rfl, Bool.not_eq_true _ ▸ hcall, hasks⟩

lemma asks_map {m : RangeMap} (h : c.asks action = some d) (hm : d.ranges? = some m) :
    (∃ next, action = .proposeMap next ∧ m = { next with epoch := c.ranges.epoch + 1 }) ∨
    ∃ node, action = .markRepaired node ∧ m = repaired c.ranges node := by
  cases action with
  | proposeMap next =>
    cases h
    cases hm
    exact .inl ⟨next, rfl, rfl⟩
  | markRepaired node =>
    cases h
    cases hm
    exact .inr ⟨node, rfl, rfl⟩
  | proposeMembers next =>
    cases h
    cases hm
  | _ => cases h

/-- Everything a node has handed over or is about to. -/
def mail (c : Controller) : List (NodeId × Message) := c.sent ++ c.phase.pending

/-- An action the agreement is known to survive: the clock cuts nothing off the log, no learner's
vote is counted, a leader changes the membership only once an entry of its own term is committed,
and a new process finds what the old one had. -/
def steady (c : Controller) : Action → Bool
  | .turn incoming now =>
    let r := (delivered c.raft incoming now).1
    (r.tick now).1.base = r.base &&
      match incoming with
      | some (.voteReply term u true) =>
        !(c.raft.role = .candidate && term = c.raft.term && (c.raft.members[u]?).any (·.state = .learner))
      | _ => true
  | .proposeMembers next =>
    c.refuses (.proposeMembers next) || c.raft.termAt c.raft.commit = some c.raft.term
  | .restart =>
    match c.disk with
    | some st => st.term = c.raft.term && st.votedFor = c.raft.votedFor && st.log = c.raft.log &&
        st.base = 0 && st.seed = c.raft.seed && st.commit ≤ c.raft.commit
    | none => c.raft.term = 0 && c.raft.votedFor = none && c.raft.log = [root]
  | _ => true

end Controller

structure Fleet where
  nodes : NodeId → Controller
  clock : NodeId → Nat
  orders : List (RangeMap × RangeMap)

inductive FleetAction where
  | pass (time : Nat)
  /-- a turn of a node's driver, with the `i`-th message some node ever sent -/
  | turn (n : NodeId) (incoming : Option (NodeId × Nat))
  | act (n : NodeId) (action : Controller.Action)
deriving DecidableEq, Repr

variable (config : ClusterConfig)

/-- One file for all, but for whose it is. -/
def ClusterConfig.of (n : NodeId) : ClusterConfig := { config with this := n }

def ClusterConfig.setup : Setup := ⟨config.members, config.timing, none⟩

namespace Fleet
variable (config : ClusterConfig) {a : FleetAction}

def begin (clock : NodeId → Nat) : Fleet where
  nodes n := .start (config.of n) none
  clock
  orders := []

variable (f : Fleet)

def received (n v : NodeId) (i : Nat) : Option Message :=
  ((f.nodes v).sent[i]?).bind fun p => if p.1 = n then some p.2 else none

def acts : FleetAction → Option (NodeId × Controller.Action)
  | .pass _ => none
  | .turn n none => some (n, .turn none (f.clock n))
  | .turn n (some (v, i)) => (f.received n v i).map fun m => (n, .turn (some m) (f.clock n))
  -- nobody makes messages or times up
  | .act _ (.turn ..) => none
  | .act n action => some (n, action)

def order (n : NodeId) (action : Controller.Action) : Option (RangeMap × RangeMap) :=
  ((f.nodes n).accepts (config.of n) action).bind fun p => p.2.ranges?.map ((f.nodes n).ranges, ·)

def run (n : NodeId) (action : Controller.Action) : Fleet where
  nodes := update f.nodes n ((f.nodes n).step (config.of n) action)
  clock := if action = .restart then update f.clock n 0 else f.clock
  orders := f.orders ++ (f.order config n action).toList

def step (a : FleetAction) : Fleet :=
  match a with
  | .pass time => { f with clock := fun n => f.clock n + time }
  | a =>
    match f.acts a with
    | some (n, action) => f.run config n action
    | none => f

/-- An action of the fleet that the agreement is known to survive. -/
def steady (f : Fleet) (a : FleetAction) : Bool := (f.acts a).all fun p => (f.nodes p.1).steady p.2

lemma step_cases (a : FleetAction) :
    (∃ time, a = .pass time ∧ f.step config a = { f with clock := fun n => f.clock n + time }) ∨
    f.step config a = f ∨
    ∃ n action, f.acts a = some (n, action) ∧ f.step config a = f.run config n action := by
  cases a with
  | pass time => exact .inl ⟨time, rfl, rfl⟩
  | turn n incoming =>
    right
    unfold step
    dsimp only
    cases hacts : f.acts (.turn n incoming) with
    | none => exact .inl rfl
    | some p => exact .inr ⟨p.1, p.2, rfl, rfl⟩
  | act n action =>
    right
    unfold step
    dsimp only
    cases hacts : f.acts (.act n action) with
    | none => exact .inl rfl
    | some p => exact .inr ⟨p.1, p.2, rfl, rfl⟩

variable {action : Controller.Action} {n : NodeId} {f}

lemma genuine (hacts : f.acts a = some (n, action)) (m : Message) (now : Nat) (h : action = .turn (some m) now) :
    ∃ v, (n, m) ∈ (f.nodes v).mail := by
  subst h
  unfold acts at hacts
  split at hacts
  · cases hacts
  · cases hacts
  · next n' v i =>
    obtain ⟨m', hm', heq⟩ := map_eq_some_iff.1 hacts
    cases heq
    obtain ⟨p, hp, hif⟩ := bind_eq_some_iff.1 hm'
    split at hif
    · next hn =>
      cases hif
      refine ⟨v, mem_append_left _ ?_⟩
      rw [← hn]
      exact mem_of_getElem? hp
    · cases hif
  · cases hacts
  · next hturn =>
    cases hacts
    exact (hturn _ _ rfl).elim

lemma steady_of_acts
    (hacts : f.acts a = some (n, action)) (steady : f.steady a = true) : (f.nodes n).steady action = true := by
  rwa [Fleet.steady, hacts, all_some] at steady

end Fleet

/-! ## The agreement of a fleet -/

section Core
variable {s : Setup} {h h' : Ledger Entry NodeId} {n : NodeId} {Q : List Entry → Entry → Prop} {config}
  {c : Controller} {r : Raft}

lemma Raft.compact_whole {keep : Nat} (h : (r.compact keep).base = r.base) : r.compact keep = r := by
  rcases r.compact_cases keep with heq | ⟨d, hd, -, -, -, heq⟩
  · exact heq
  rw [heq] at h
  dsimp only at h
  omega

variable {now : Nat}

/-- A turn of the clock that cuts nothing off. -/
lemma Raft.tick_whole (h : (r.tick now).1.base = r.base) : r.tick now = r.tickKeeping none now := by
  unfold Raft.tick Raft.tickKeeping at *
  cases role : r.role with
  | leader =>
    simp only [role] at h ⊢
    split
    · next hdue =>
      rw [if_pos hdue] at h
      simp only [Raft.compact_whole h]
    · rfl
  | _ => rfl

variable {incoming : Option Message}

/-- The section under the core's lock, up to where a leader looks for something to promote. -/
lemma Agrees.ticked (V : h.Valid (scheme s)) (F : Fair s h) (A : Agrees s h n r) (marked : Marked Q r.log)
    (hmsg : ∀ m, incoming = some m → Allowed s h n r (.message m) ∧ Carried Q h m)
    (whole : ((delivered r incoming now).1.tick now).1.base = (delivered r incoming now).1.base)
    (noop : ∀ l T, Q l ⟨T, .noop⟩) : ∃ h', Trail s Q n h r h' (((delivered r incoming now).1.tick now).1,
      (delivered r incoming now).2.merge ((delivered r incoming now).1.tick now).2) := by
  have delivered : ∃ h₁, Trail s Q n h r h₁ (delivered r incoming now) := by
    cases incoming with
    | none => exact ⟨h, .refl V F A marked⟩
    | some m =>
      rw [delivered_some]
      obtain ⟨ok, hc⟩ := hmsg m rfl
      exact A.trail V F ok marked (fun m' hm' => by cases hm'; exact hc) noop
        nofun (Raft.deliver_acts r m now)
  obtain ⟨h₁, T₁⟩ := delivered
  generalize delivered r incoming now = x₁ at T₁ whole ⊢
  obtain ⟨r₁, out₁⟩ := x₁
  have M₁ := T₁.moved
  have ticked : ∃ h₂, Trail s Q n h₁ r₁ h₂ (r₁.tick now) := by
    rw [Raft.tick_whole whole]
    exact M₁.agrees.trail M₁.valid M₁.fair (show Allowed s h₁ n r₁ (.clock none) from rfl) T₁.marked
      nofun noop nofun (Raft.tick_acts none r₁ now)
  obtain ⟨h₂, T₂⟩ := ticked
  exact ⟨h₂, T₁.merge T₂ (A.commit_lt V)⟩

/-- The whole of it. -/
lemma Agrees.driven {r r₂ : Raft} {out : Output} {ranges : RangeMap}
    (V : h.Valid (scheme s)) (A : Agrees s h n r) (T : Trail s Q n h r h' (r₂, out))
    (htick : ((delivered r incoming now).1.tick now).1 = r₂)
    (hout : (delivered r incoming now).2.merge ((delivered r incoming now).1.tick now).2 = out)
    (noop : ∀ l T, Q l ⟨T, .noop⟩) (hprop : ∀ m, promotionFor config.leases r₂ now ranges = some m → r₂.role = .leader →
      Q r₂.log ⟨r₂.term, .ranges m⟩) :
    ∃ h'', Trail s Q n h r h'' (driven config r ranges incoming now) := by
  have hlen := A.commit_lt V
  have M := T.moved
  have heq : Controller.driven config r ranges incoming now =
      ((Controller.promoted config r₂ ranges now).1, out.merge (Controller.promoted config r₂ ranges now).2) := by
    rw [← htick, ← hout]
    rfl
  rw [heq]
  rcases promoted_cases config r₂ ranges now with ⟨m, hpromo, hm⟩ | hsame
  · have role : r₂.role = .leader := by
      by_contra hrole
      rw [Raft.propose, if_pos hrole] at hm
      cases hm
    obtain ⟨h₃, T₃⟩ := M.agrees.trail M.valid M.fair
      (show Allowed s h' n r₂ (.proposal (.ranges m)) from nofun) T.marked
      nofun noop
      (fun d hd => by cases hd; exact hprop m hpromo role) (Raft.propose_acts hm)
    exact ⟨h₃, T.merge T₃ hlen⟩
  · rw [hsame]
    exact ⟨h', T.merge (.refl M.valid M.fair M.agrees T.marked) hlen⟩

/-- A new process that finds what the old one had. -/
lemma Agrees.started (V : h.Valid (scheme config.setup))
    (A : Agrees config.setup h n c.raft) (steady : c.steady .restart = true) :
    Agrees config.setup h n (start (config.of n) c.disk).raft := by
  have saved : Saved config.setup h ⟨c.raft, c.disk, [], [], []⟩ := by
    unfold Saved
    unfold Controller.steady at steady
    cases hd : c.disk with
    | none =>
      rw [hd] at steady
      simpa [and_assoc] using steady
    | some st =>
      rw [hd] at steady
      simp only [Bool.and_eq_true, decide_eq_true_eq] at steady
      obtain ⟨⟨⟨⟨⟨hterm, hvote⟩, hlog⟩, hbase⟩, hseed⟩, hcommit⟩ := steady
      refine ⟨hterm, hvote, hlog, hbase, hseed.trans A.seed, ?_⟩
      rw [hterm, hlog]
      exact A.commit.below hcommit
  exact A.restarted V saved 0

end Core

/-- The fleet is as the ledger has it, and everything in logs and in the mail is marked. -/
structure Tracks (config : ClusterConfig) (Q : List Entry → Entry → Prop) (h : Ledger Entry NodeId)
    (f : Fleet) : Prop where
  valid : h.Valid (scheme config.setup)
  fair : Fair config.setup h
  agrees : ∀ v, Agrees config.setup h v (f.nodes v).raft
  marked : ∀ v, Marked Q (f.nodes v).raft.log
  mail : ∀ v d m, (d, m) ∈ (f.nodes v).mail → Backed config.setup h d m ∧ Carried Q h m

namespace Tracks
variable {config} {Q Q' : List Entry → Entry → Prop} {h h' : Ledger Entry NodeId} {f : Fleet}

lemma begin (clock : NodeId → Nat) (hroot : Q [] root) : Tracks config Q blank (.begin config clock) where
  valid := blank_valid _
  fair := nofun
  agrees _ := agrees_new config.setup 0 rfl rfl rfl
  marked _ := (show Marked Q ([] : List Entry) from nofun).append hroot
  mail _ _ _ hm := by cases hm

section
variable (T : Tracks config Q h f)
include T

lemma mono (imp : ∀ l e, Q l e → Q' l e) : Tracks config Q' h f where
  valid := T.valid
  fair := T.fair
  agrees := T.agrees
  marked v := (T.marked v).mono imp
  mail v d m hm := by
    obtain ⟨hb, hc⟩ := T.mail v d m hm
    refine ⟨hb, ?_⟩
    cases m with
    | append => exact Marked.mono hc imp
    | _ => trivial

variable {incoming : Option Message}

/-- A turn of a node's driver, up to where it looks for something to promote. -/
lemma ticked {n : NodeId} {now : Nat} (genuine : ∀ m, incoming = some m → ∃ v, (n, m) ∈ (f.nodes v).mail)
    (steady : (f.nodes n).steady (.turn incoming now) = true) (noop : ∀ l T, Q l ⟨T, .noop⟩) :
    ∃ h', Trail config.setup Q n h (f.nodes n).raft h'
      (((Controller.delivered (f.nodes n).raft incoming now).1.tick now).1,
        (Controller.delivered (f.nodes n).raft incoming now).2.merge
          ((Controller.delivered (f.nodes n).raft incoming now).1.tick now).2) := by
  refine (T.agrees n).ticked T.valid T.fair (T.marked n) (fun m hm => ?_) ?_ noop
  · subst hm
    obtain ⟨v, hv⟩ := genuine m rfl
    obtain ⟨hb, hc⟩ := T.mail v n m hv
    refine ⟨⟨hb, fun u hu role x hx hlearner => ?_⟩, hc⟩
    subst hu
    simp [Controller.steady, role, hx, hlearner] at steady
  · simp only [Controller.steady, Bool.and_eq_true, decide_eq_true_eq] at steady
    exact steady.1

lemma driven {n : NodeId} {now : Nat} (genuine : ∀ m, incoming = some m → ∃ v, (n, m) ∈ (f.nodes v).mail)
    (idle : (f.nodes n).phase = .idle) (up : (f.nodes n).wedged = false)
    (steady : (f.nodes n).steady (.turn incoming now) = true) (noop : ∀ l T, Q l ⟨T, .noop⟩)
    (hprop : ∀ r d, (f.nodes n).accepts (config.of n) (.turn incoming now) = some (r, d) → Q r.log ⟨r.term, d⟩) :
    ∃ h', Trail config.setup Q n h (f.nodes n).raft h'
      (driven (config.of n) (f.nodes n).raft (f.nodes n).ranges incoming now) := by
  obtain ⟨h₁, R⟩ := T.ticked genuine steady noop
  refine (T.agrees n).driven T.valid R rfl rfl noop fun m hm role => hprop _ _ ?_
  simp only [accepts, idle, up, role, Bool.not_false, decide_true, Bool.and_self, if_true, hm, Option.map_some]

end

variable {action : Controller.Action}

section
variable (T : Tracks config Q h f)
include T

variable {n : NodeId} {d : Decision}

/-- What a call that was let through does to it. -/
lemma proposed {y : Raft × Output} (steady : (f.nodes n).steady action = true)
    (accepted : (f.nodes n).refuses action = false) (asked : (f.nodes n).asks action = some d)
    (hp : (f.nodes n).raft.propose d = some y) (noop : ∀ l T, Q l ⟨T, .noop⟩)
    (hprop : ∀ r d, (f.nodes n).accepts (config.of n) action = some (r, d) → Q r.log ⟨r.term, d⟩) :
    ∃ h', Trail config.setup Q n h (f.nodes n).raft h' y := by
  have A := T.agrees n
  have allowed : Allowed config.setup h n (f.nodes n).raft (.proposal d) := by
    intro role hd
    cases action with
    | proposeMap next | markRepaired node =>
      cases asked
      cases hd
    | proposeMembers next =>
      have hown : (f.nodes n).raft.termAt (f.nodes n).raft.commit = some (f.nodes n).raft.term := by
        simpa [Controller.steady, accepted] using steady
      have hsettled : (f.nodes n).raft.commit = (f.nodes n).raft.lastIndex := by
        simp only [refuses, Bool.or_eq_false_iff, decide_eq_false_iff_not, not_not] at accepted
        exact accepted.1.2
      obtain ⟨k, hk, hch⟩ := (A.leads role).own hown
      refine ⟨_, k, hch, hk, fun j x hj _ _ => ?_⟩
      have := A.lastIndex_eq T.valid
      omega
    | _ => cases asked
  have hlast : (f.nodes n).accepts (config.of n) action = some ((f.nodes n).raft, d) := by
    cases action with
    | turn => cases asked
    | _ => simp only [accepts, accepted, asked, map_some, Bool.false_eq_true, if_false]
  exact A.trail T.valid T.fair allowed (T.marked n) (fun m hm => by cases hm) noop
    (fun d' hd' => by cases hd'; exact hprop _ _ hlast) (Raft.propose_acts hp)

section
variable (genuine : ∀ m now, action = .turn (some m) now → ∃ v, (n, m) ∈ (f.nodes v).mail)
include genuine

/-- The core something is appended to. -/
lemma proposer {r : Raft} (steady : (f.nodes n).steady action = true) (noop : ∀ l T, Q l ⟨T, .noop⟩)
    (haccepts : (f.nodes n).accepts (config.of n) action = some (r, d)) :
    r.id = n ∧ Marked Q r.log ∧ ∃ out, (f.nodes n).raft.Progress (r, out) := by
  rcases accepts_cases haccepts with ⟨incoming, now, m, rfl, rfl, -⟩ | ⟨rfl, -⟩
  · obtain ⟨h', R⟩ := T.ticked (fun m hm => genuine m now (by rw [hm])) steady noop
    exact ⟨R.moved.agrees.id, R.marked, _, R.toProgress⟩
  · have R := Trail.refl T.valid T.fair (T.agrees n) (T.marked n)
    exact ⟨(T.agrees n).id, T.marked n, _, R.toProgress⟩

omit genuine in
lemma update {c : Controller} {f' : Fleet}
    (hnodes : f'.nodes = update f.nodes n c) (M : Moved config.setup n h h' c.raft) (marked : Marked Q c.raft.log)
    (mail : ∀ d m, (d, m) ∈ c.mail → (d, m) ∈ (f.nodes n).mail ∨ Backed config.setup h' d m ∧ Carried Q h' m) :
    Tracks config Q h' f' := by
  have self : f'.nodes n = c := by rw [hnodes, update_self]
  have other : ∀ v, v ≠ n → f'.nodes v = f.nodes v := fun v hv => by rw [hnodes, update_of_ne hv]
  have old : ∀ v d m, (d, m) ∈ (f.nodes v).mail → Backed config.setup h' d m ∧ Carried Q h' m := by
    intro v d m hm
    obtain ⟨hb, hc⟩ := T.mail v d m hm
    exact ⟨hb.extend M.grows, hc.extend hb M.grows⟩
  refine ⟨M.valid, M.fair, fun v => ?_, fun v => ?_, fun v d m hm => ?_⟩
  · by_cases hv : v = n
    · rw [hv, self]
      exact M.agrees
    · rw [other v hv]
      exact (T.agrees v).other M hv
  · by_cases hv : v = n
    · rw [hv, self]
      exact marked
    · rw [other v hv]
      exact T.marked v
  · by_cases hv : v = n
    · rw [hv, self] at hm
      rcases mail d m hm with hm | hm
      · exact old n d m hm
      · exact hm
    · rw [other v hv] at hm
      exact old v d m hm

/-- **One action of one node.** -/
lemma run (steady : (f.nodes n).steady action = true) (noop : ∀ l T, Q l ⟨T, .noop⟩)
    (hprop : ∀ r d, (f.nodes n).accepts (config.of n) action = some (r, d) → Q r.log ⟨r.term, d⟩) :
    ∃ h', Extends h h' ∧ Tracks config Q h' (f.run config n action) := by
  have hstep := step_step (config.of n) (f.nodes n) action
  have hnodes : (f.run config n action).nodes = Function.update f.nodes n ((f.nodes n).step (config.of n) action) := rfl
  generalize (f.nodes n).step (config.of n) action = c at hstep hnodes
  -- most steps leave the core alone
  have still : c.raft = (f.nodes n).raft → (∀ d m, (d, m) ∈ c.mail → (d, m) ∈ (f.nodes n).mail) →
      ∃ h', Extends h h' ∧ Tracks config Q h' (f.run config n action) := by
    intro hraft hmail
    refine ⟨h, .refl h, T.update hnodes ?_ ?_ fun d m hm => .inl (hmail d m hm)⟩
    · rw [hraft]
      exact .refl T.valid T.fair (T.agrees n)
    · rw [hraft]
      exact T.marked n
  -- and only move what is to be sent from one place to another
  have phases : ∀ {p : Phase}, (f.nodes n).phase = p → c.raft = (f.nodes n).raft →
      (∀ d m, (d, m) ∈ c.mail → (d, m) ∈ (f.nodes n).sent ++ p.pending) →
      ∃ h', Extends h h' ∧ Tracks config Q h' (f.run config n action) := by
    rintro p rfl hraft hmail
    exact still hraft hmail
  cases hstep with
  | stay => exact still rfl (fun d m hm => hm)
  | @turn incoming now r out leaseAt idle up hdriven =>
    obtain ⟨h', R⟩ := T.driven (fun m hm => genuine m now (by rw [hm])) idle up steady noop hprop
    rw [hdriven] at R
    refine ⟨h', R.moved.grows, T.update hnodes R.moved R.marked fun d m hm => ?_⟩
    rcases mem_append.1 hm with hm | hm
    · exact .inl (mem_append_left _ hm)
    · exact .inr (R.sends d m hm)
  | skip hphase | save hphase | refresh hphase | fold hphase | publish hphase | rest hphase =>
    exact phases hphase rfl fun d m hm => hm
  | wedge hphase =>
    refine phases hphase rfl fun d m hm => mem_append_left _ ?_
    exact (mem_append.1 hm).resolve_right nofun
  | post hphase =>
    refine phases hphase rfl fun d m hm => ?_
    rw [Controller.mail, Phase.pending, append_assoc] at hm
    exact hm
  | @propose _ d r out accepted asked hp =>
    obtain ⟨h', R⟩ := T.proposed steady accepted asked hp noop hprop
    exact ⟨h', R.moved.grows, T.update hnodes R.moved R.marked fun d m hm => .inl hm⟩
  | restart =>
    have A := (T.agrees n).started T.valid steady
    refine ⟨h, .refl h, T.update hnodes (.refl T.valid T.fair A) ?_ fun d m hm => .inl ?_⟩
    · have hlog : (start (config.of n) (f.nodes n).disk).raft.log = (f.nodes n).raft.log := by
        rw [← A.log, (T.agrees n).log]
      show Marked Q (start (config.of n) (f.nodes n).disk).raft.log
      rw [hlog]
      exact T.marked n
    · refine mem_append_left _ ?_
      exact (List.mem_append.1 hm).resolve_right nofun

end

/-- **One step of the fleet.** -/
lemma step {a : FleetAction} (steady : f.steady a = true) (noop : ∀ l T, Q l ⟨T, .noop⟩)
    (hprop : ∀ n action r d, f.acts a = some (n, action) →
      (f.nodes n).accepts (config.of n) action = some (r, d) → Q r.log ⟨r.term, d⟩) :
    ∃ h', Extends h h' ∧ Tracks config Q h' (f.step config a) := by
  rcases f.step_cases config a with ⟨time, -, heq⟩ | heq | ⟨n, action, hacts, heq⟩
  · rw [heq]
    exact ⟨h, .refl h, T.valid, T.fair, T.agrees, T.marked, T.mail⟩
  · rw [heq]
    exact ⟨h, .refl h, T⟩
  · rw [heq]
    exact T.run (Fleet.genuine hacts) (Fleet.steady_of_acts hacts steady) noop fun r d => hprop n action r d hacts

end

/-- **A whole run**, of steps that let only marked entries be appended. -/
lemma along {f' : Fleet} {ok : Fleet → FleetAction → Bool} (T : Tracks config Q h f)
    (noop : ∀ l T, Q l ⟨T, .noop⟩) (steady : ∀ g a, ok g a = true → g.steady a = true)
    (hprop : ∀ g a, ok g a = true → ∀ n action r d, g.acts a = some (n, action) →
      (g.nodes n).accepts (config.of n) action = some (r, d) → Q r.log ⟨r.term, d⟩)
    (run : Run (Fleet.step config) (fun f a => ok f a = true) f f') :
    ∃ h', Extends h h' ∧ Tracks config Q h' f' := by
  refine run.run (P := fun g => ∃ h', Extends h h' ∧ Tracks config Q h' g) ⟨h, .refl h, T⟩ ?_
  rintro g a hok ⟨h₁, grows, T₁⟩
  obtain ⟨h₂, grows', T₂⟩ := T₁.step (steady g a hok) noop (hprop g a hok)
  exact ⟨h₂, grows.trans grows', T₂⟩

/-- What two nodes have committed at one index, one of them perhaps earlier, is the same. -/
lemma committed_agree {f' : Fleet} (T : Tracks config Q h f) (T' : Tracks config Q h' f')
    (grows : Extends h h') {v w : NodeId} {i : Nat} (hv : i ≤ (f.nodes v).raft.commit)
    (hw : i ≤ (f'.nodes w).raft.commit) : (f.nodes v).raft.log[i]? = (f'.nodes w).raft.log[i]? := by
  have first := getElem?_of_isPrefix ((T.agrees v).log_root T.valid) (i := 0) rfl
  have first' := getElem?_of_isPrefix ((T'.agrees w).log_root T'.valid) (i := 0) rfl
  rcases (T.agrees v).commit.below hv with rfl | ⟨t, k, n, hc, -, hk, hp⟩
  · rw [first, first']
  rcases (T'.agrees w).commit.below hw with rfl | ⟨t', k', n', hc', -, hk', hp'⟩
  · rw [first, first']
  -- both are what was chosen
  have held : ∀ {l log : List Entry}, i < l.length → l.take (i + 1) <+: log → log[i]? = l[i]? := by
    intro l log hlt hp
    refine getElem?_of_isPrefix hp ?_ |>.trans (getElem?_eq_getElem hlt).symm
    rw [getElem?_take_of_lt (Nat.lt_succ_self i), getElem?_eq_getElem hlt]
  have hlt : i < (h.lead t).length := by
    have := hc.1
    have := hc.2.1
    omega
  have hlt' : i < (h'.lead t').length := by
    have := hc'.1
    have := hc'.2.1
    omega
  have hlead : (h'.lead t)[i]? = (h.lead t)[i]? := by
    rw [getElem?_eq_getElem hlt]
    exact getElem?_of_isPrefix (grows.lead t) (getElem?_eq_getElem hlt)
  rw [held hlt hp, held hlt' hp', ← hlead]
  exact chosen_agree T'.valid (grows.chosen hc) hc' hk hk'

end Tracks

/-! ## Runs to look at -/

namespace Fleet

/-- A turn of a node's driver from top to top, when it has at most two decisions to fold and two
messages to hand over. -/
def round (n : NodeId) (incoming : Option (NodeId × Nat)) : List FleetAction :=
  [.turn n incoming, .act n (.save true), .act n .refresh, .act n .fold, .act n .fold, .act n .publish,
    .act n .post, .act n .post, .act n .post]

/-- A run of a fleet whose clocks all start at zero. -/
def exec (config : ClusterConfig) (actions : List FleetAction) : Fleet :=
  play (step config) (begin config fun _ => 0) (actions.map fun a _ => a)

/-- Node 0 of two stands, wins and has its first entry acknowledged. -/
def duoElects : List FleetAction :=
  .pass 5000 :: round 0 none ++ round 1 (some (0, 0)) ++ round 0 (some (1, 0)) ++ round 1 (some (0, 1)) ++
    round 0 (some (1, 1))

/-- What it has appended since goes to node 1 and is acknowledged; each of the two has sent `i`
messages before. -/
def duoCommits (i : Nat) : List FleetAction :=
  .pass 1000 :: round 0 none ++ round 1 (some (0, i)) ++ round 0 (some (1, i))

end Fleet

end BigDb.Cluster
