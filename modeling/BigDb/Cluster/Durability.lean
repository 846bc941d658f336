import BigDb.Cluster.Controller

/-!
# What is on disk before it counts

The driver saves what a turn changed before it hands anything of the turn over, so a node
never speaks for an entry its disk does not hold. A caller's proposal goes past the driver:
the core appends it, counts itself for it and drops the `Output` that asks for the save.
`persist_before_count` is the guarantee for the runs in which no caller's proposal is
accepted.
-/

namespace BigDb.Cluster
open Lib List Function Bool Raft

/-! ## Entries on disk -/

/-- A log that starts at `base` holds an entry at a position, or has it behind its base. -/
def Covers (base : Nat) (log : List Entry) (i : Nat) (e : Entry) : Prop :=
  i < base ∨ log[i - base]? = some e

instance (base : Nat) (log : List Entry) (i : Nat) (e : Entry) : Decidable (Covers base log i e) :=
  inferInstanceAs (Decidable (_ ∨ _))

/-- The log a restart takes from a saved state: an empty one stands for the log every node
starts from. -/
def State.recalled (st : State) : List Entry := if st.log.isEmpty then [root] else st.log

/-- The store holds an entry. A store that has saved nothing holds what every log starts
from. -/
def Stored : Option State → Nat → Entry → Prop
  | some st, i, e => Covers st.base st.recalled i e
  | none, i, e => Covers 0 [root] i e

instance : (disk : Option State) → (i : Nat) → (e : Entry) → Decidable (Stored disk i e)
  | some st, i, e => inferInstanceAs (Decidable (Covers st.base st.recalled i e))
  | none, i, e => inferInstanceAs (Decidable (Covers 0 [root] i e))

/-- The entries a message carries, with their positions. -/
def Message.carried : Message → List (Nat × Entry)
  | .append _ _ prev _ entries _ => entries.zipIdx.map fun p => (prev + 1 + p.2, p.1)
  | _ => []

/-- The position up to which a message says its sender holds the log. -/
def Message.acked? : Message → Option Nat
  | .appendReply _ _ true i => some i
  | _ => none

namespace Raft
variable {r r₀ : Raft} {i : Nat} {e : Entry}

lemma covers_of_entryAt (h : r.entryAt i = some e) : Covers r.base r.log i e :=
  .inr (entryAt_some h).2

lemma stored_of_covers (h : Covers r.base r.log i e) : Stored (some r.state) i e := by
  rcases h with hlt | hget
  · exact .inl hlt
  refine .inr ?_
  have hne : r.log.isEmpty = false := by
    cases hlog : r.log with
    | nil => rw [hlog] at hget; cases hget
    | cons => rfl
  show (if r.log.isEmpty then [root] else r.log)[i - r.base]? = some e
  rw [hne]
  exact hget

/-! ## What one call of the core does -/

/-- A leader's `next` is a position past the first. -/
def NextPositive (r : Raft) : Prop := ∀ u n, r.next u = some n → 1 ≤ n

lemma NextPositive.update (hnext : r.NextPositive) (u : NodeId) {k : Nat} (pos : 1 ≤ k) :
    ∀ v n, Function.update r.next u (some k) v = some n → 1 ≤ n := by
  intro v n hn
  by_cases hv : v = u
  · subst hv
    rw [update_self] at hn
    cases hn
    exact pos
  · rw [update_of_ne hv] at hn
    exact hnext v n hn

lemma carried_appendTo (hnext : r.NextPositive) {peer : NodeId}
    (h : (i, e) ∈ (r.appendTo peer).carried) : r.entryAt i = some e := by
  have hpos : 1 ≤ (r.next peer).getD (r.lastIndex + 1) := by
    cases hn : r.next peer with
    | none => exact Nat.succ_pos _
    | some n => exact hnext peer n hn
  unfold appendTo at h
  dsimp only at h
  split at h
  · cases h
  obtain ⟨⟨e', j⟩, hmem, heq⟩ := mem_map.1 h
  obtain ⟨rfl, rfl⟩ := Prod.mk.inj heq
  have hget := mk_mem_zipIdx_iff_getElem?.1 hmem
  unfold entriesFrom at hget
  split at hget
  · rw [getElem?_drop] at hget
    rw [entryAt_eq (by omega), ← hget]
    congr 1
    simp only
    omega
  · cases hget

variable {x y : Raft × Output} {c : Cause}

/-- A log that was appended to or shortened from the front covers what it covered. -/
lemma Act.covers (hact : Act c x y) (own : c.leader? = none)
    (h : Covers x.1.base x.1.log i e) : Covers y.1.base y.1.log i e := by
  have longer : ∀ {base : Nat} {log : List Entry} (e' : Entry), Covers base log i e →
      Covers base (log ++ [e']) i e := by
    intro base log e' h
    apply h.imp_right
    intro hget
    rw [List.getElem?_append_left (lt_of_getElem? hget), hget]
  cases hact with
  | win => exact longer _ h
  | append =>
    rw [appended_frame]
    exact longer _ h
  | @compact r out keep =>
    rcases r.compact_cases keep with heq | ⟨d, -, -, -, -, heq⟩
    · rw [heq]
      exact h
    rw [heq]
    rcases Nat.lt_or_ge i (r.base + d) with hlt | hge
    · exact .inl hlt
    refine .inr ?_
    show (r.log.drop d)[i - (r.base + d)]? = some e
    rw [getElem?_drop, ← h.resolve_left (by simp only; omega)]
    congr 1
    simp only
    omega
  | accept hm | install hm =>
    rw [hm] at own
    cases own
  | _ => exact h

lemma Acts.covers (acts : Acts c x y) (own : c.leader? = none)
    (h : Covers x.1.base x.1.log i e) : Covers y.1.base y.1.log i e :=
  acts.run (P := fun z => Covers z.1.base z.1.log i e) h fun _ _ _ hact h => hact.covers own h

/-- What a call of the core says, and what it does to the log. Whatever a message carries or
acknowledges is in the log; and if the call asks for no save, it was there before. -/
structure Backs (r₀ : Raft) (x : Raft × Output) : Prop where
  next : x.1.NextPositive
  held : x.2.persist = false → ∀ i e, x.1.entryAt i = some e → r₀.entryAt i = some e
  carried : ∀ d m, (d, m) ∈ x.2.send → ∀ i e, (i, e) ∈ m.carried →
    Covers x.1.base x.1.log i e ∧ (x.2.persist = false → r₀.entryAt i = some e)
  acked : ∀ d m, (d, m) ∈ x.2.send → ∀ i, m.acked? = some i → ∃ e,
    Covers x.1.base x.1.log i e ∧ (x.2.persist = false → r₀.entryAt i = some e)

namespace Backs

lemma start (hnext : r₀.NextPositive) : Backs r₀ (r₀, default) where
  next := hnext
  held _ _ _ h := h
  carried _ _ h := by cases h
  acked _ _ h := by cases h

variable {r' : Raft} {out out' : Output}

/-- Nothing was sent and no entry is new, unless it is saved. -/
lemma silent (B : Backs r₀ (r, out)) (hnext : r'.NextPositive)
    (hcovers : ∀ i e, Covers r.base r.log i e → Covers r'.base r'.log i e)
    (hheld : out'.persist = false → ∀ i e, r'.entryAt i = some e → r.entryAt i = some e)
    (hsend : out'.send = out.send) (hp : out'.persist = false → out.persist = false) : Backs r₀ (r', out') where
  next := hnext
  held h i e hi := B.held (hp h) i e (hheld h i e hi)
  carried d m hm i e hi := by
    obtain ⟨h1, h2⟩ := B.carried d m (hsend ▸ hm) i e hi
    exact ⟨hcovers i e h1, fun h => h2 (hp h)⟩
  acked d m hm i hi := by
    obtain ⟨e, h1, h2⟩ := B.acked d m (hsend ▸ hm) i hi
    exact ⟨e, hcovers i e h1, fun h => h2 (hp h)⟩

/-- A message was sent that carries only what the log holds and acknowledges nothing. -/
lemma sends (B : Backs r₀ (r, out)) {dest : NodeId} {m : Message}
    (hcarried : ∀ i e, (i, e) ∈ m.carried → r.entryAt i = some e) (hacked : m.acked? = none) :
    Backs r₀ (r, out.to dest m) where
  next := B.next
  held := B.held
  carried d m' hm' i e hi := by
    rcases mem_append.1 hm' with hm' | hm'
    · exact B.carried d m' hm' i e hi
    cases mem_singleton.1 hm'
    have h := hcarried i e hi
    exact ⟨covers_of_entryAt h, fun hp => B.held hp i e h⟩
  acked d m' hm' i hi := by
    rcases mem_append.1 hm' with hm' | hm'
    · exact B.acked d m' hm' i hi
    cases mem_singleton.1 hm'
    rw [hacked] at hi
    cases hi

end Backs

/-- After an append is taken the log reaches as far as the append does. -/
lemma taken_reaches {prev pt : Nat} (entries : List Entry) (hprev : r.termAt prev = some pt) :
    ∃ e, (r.filled prev entries false).raft.log[prev + entries.length - r.base]? = some e ∧
      r.base ≤ prev + entries.length := by
  obtain ⟨hb, hend, e₀, he₀, -⟩ := termAt_some hprev
  rcases filled_cases entries hprev with ⟨hagree, hf⟩ | ⟨j, hcut, hf⟩
  · rw [hf]
    rcases eq_nil_or_concat' entries with rfl | ⟨init, last, rfl⟩
    · exact ⟨e₀, he₀, hb⟩
    have hlast : (init ++ [last])[init.length]? = some last := by simp
    obtain ⟨hb', -, e, he, -⟩ := termAt_some (hagree _ _ hlast)
    rw [length_append, length_singleton]
    refine ⟨e, ?_, by omega⟩
    rw [← he]
    congr 1
    omega
  · rw [hf]
    have hreach := hcut.reach hend
    have hlt := hcut.lt
    refine ⟨entries[entries.length - 1], ?_, by omega⟩
    show (r.log.take (prev + 1 + j - r.base) ++ entries.drop j)[_]? = _
    rw [getElem?_append_right (by rw [length_take]; omega), length_take,
      min_eq_left (by omega), getElem?_drop, getElem?_eq_getElem (by omega)]
    congr 2
    omega

lemma Backs.act (B : Backs r₀ x) (hact : Act c x y) : Backs r₀ y := by
  have covers : c.leader? = none → ∀ i e, Covers x.1.base x.1.log i e → Covers y.1.base y.1.log i e :=
    fun own _ _ h => hact.covers own h
  cases hact with
  | note | observe | follow | stand | count | commit =>
    refine B.silent B.next (fun _ _ h => h) (fun _ _ _ h => h) rfl ?_
    intro hp
    first | exact hp | cases hp
  | @refuse r out dest reply hr =>
    cases reply with
    | voteReply => exact B.sends (fun _ _ h => by cases h) rfl
    | appendReply term sender success =>
      cases success with
      | true => cases hr
      | false => exact B.sends (fun _ _ h => by cases h) rfl
    | _ => cases hr
  | @grant r out cand li lt hm hg =>
    have B' : Backs r₀ ({ r with votedFor := some cand }, { out with persist := true }) :=
      B.silent B.next (fun _ _ h => h) (fun _ _ _ h => h) rfl (fun hp => by cases hp)
    exact B'.sends (fun _ _ h => by cases h) rfl
  | canvass => exact B.sends (fun _ _ h => by cases h) rfl
  | replicate =>
    refine B.sends (fun _ _ h => carried_appendTo B.next h) ?_
    unfold appendTo
    dsimp only
    split <;> rfl
  | @win r out now polls =>
    refine B.silent ?_ (covers (Cause.leader?_of_polls polls)) (fun hp => by cases hp) rfl (fun hp => by cases hp)
    intro u n hn
    have hn : (if u ∈ r.peers then some (r.lastIndex + 1) else none) = some n := hn
    split at hn
    · cases hn
      exact Nat.succ_pos _
    · cases hn
  | @append r out d hm first role rule =>
    refine B.silent ?_ (covers (by rw [hm]; rfl)) (fun hp => by cases hp) rfl (fun hp => by cases hp)
    rw [appended_frame]
    exact B.next
  | @heardMatch r out u i hm =>
    exact B.silent (B.next.update u (Nat.succ_pos _)) (fun _ _ h => h) (fun _ _ _ h => h) rfl (fun hp => hp)
  | @backOff r out u i hm first role =>
    have hnext : (r.backedOff u).NextPositive := B.next.update u (le_max_right _ _)
    have B' : Backs r₀ (r.backedOff u, out) :=
      B.silent hnext (fun _ _ h => h) (fun _ _ _ h => h) rfl (fun hp => hp)
    refine B'.sends (fun _ _ h => carried_appendTo hnext h) ?_
    unfold appendTo
    dsimp only
    split <;> rfl
  | @accept r out l prev pt entries commit hm first role hprev =>
    have hbase : ((r.taken prev entries).caughtUp commit).base = r.base := by
      rw [caughtUp_frame, taken_frame]
    have hlog : ((r.taken prev entries).caughtUp commit).log = (r.filled prev entries false).raft.log := by
      rw [caughtUp_frame, taken_frame]
    have hsame : (r.filled prev entries false).persist = false →
        ∀ i e, ((r.taken prev entries).caughtUp commit).entryAt i = some e → r.entryAt i = some e := by
      intro hp i e hi
      rw [entryAt, hbase, hlog, filled_log_of_not_persist hprev hp] at hi
      exact hi
    refine ⟨?_, ?_, ?_, ?_⟩
    · rw [caughtUp_frame, taken_frame]
      exact B.next
    · intro hp i e hi
      obtain ⟨hout, hfill⟩ := or_eq_false_iff.1 hp
      exact B.held hout i e (hsame hfill i e hi)
    · intro d m hmem i e hi
      cases eq_of_mem_concat first hmem
      cases hi
    · intro d m hmem i hi
      cases eq_of_mem_concat first hmem
      obtain rfl : prev + entries.length = i := Option.some.inj hi
      obtain ⟨e, he, hb⟩ := taken_reaches entries hprev
      refine ⟨e, .inr ?_, ?_⟩
      · rw [hbase, hlog]
        exact he
      · intro hp
        obtain ⟨hout, hfill⟩ := or_eq_false_iff.1 hp
        refine B.held hout _ e ?_
        rw [entryAt_eq hb, ← filled_log_of_not_persist hprev hfill]
        exact he
  | @install r out l index lt ranges ms hm first =>
    refine ⟨B.next, (fun hp => by cases hp), ?_, ?_⟩
    · intro d m hmem i e hi
      cases eq_of_mem_concat first hmem
      cases hi
    · intro d m hmem i hi
      cases eq_of_mem_concat first hmem
      obtain rfl : index = i := Option.some.inj hi
      refine ⟨⟨lt, .ranges ranges⟩, .inr ?_, (fun hp => by cases hp)⟩
      show ([⟨lt, .ranges ranges⟩] : List Entry)[index - index]? = _
      rw [Nat.sub_self]
      rfl
  | @compact r out keep hm role =>
    have hown : c.leader? = none := by
      cases c with
      | message m => cases hm
      | _ => rfl
    refine B.silent ?_ (covers hown) ?_ rfl (fun hp => hp)
    · rw [compact_frame]
      exact B.next
    · intro _ i e hi
      rw [← entryAt_compact (entryAt_some hi).1]
      exact hi

/-- **One call of the core.** -/
lemma Acts.backs {y : Raft × Output} (acts : Acts c (r₀, default) y) (hnext : r₀.NextPositive) : Backs r₀ y :=
  acts.run (.start hnext) fun _ _ _ hact B => B.act hact

/-- One call after another. -/
lemma Backs.merge {r₁ r₂ : Raft} {out₁ out₂ : Output} (B : Backs r₀ (r₁, out₁)) (B' : Backs r₁ (r₂, out₂))
    (hcovers : ∀ i e, Covers r₁.base r₁.log i e → Covers r₂.base r₂.log i e) : Backs r₀ (r₂, out₁.merge out₂) where
  next := B'.next
  held h i e hi := by
    obtain ⟨h₁, h₂⟩ := or_eq_false_iff.1 h
    exact B.held h₁ i e (B'.held h₂ i e hi)
  carried d m hm i e hi := by
    rcases mem_append.1 hm with hm | hm
    · obtain ⟨hc, hs⟩ := B.carried d m hm i e hi
      exact ⟨hcovers i e hc, fun h => hs (or_eq_false_iff.1 h).1⟩
    · obtain ⟨hc, hs⟩ := B'.carried d m hm i e hi
      refine ⟨hc, fun h => ?_⟩
      obtain ⟨h₁, h₂⟩ := or_eq_false_iff.1 h
      exact B.held h₁ i e (hs h₂)
  acked d m hm i hi := by
    rcases mem_append.1 hm with hm | hm
    · obtain ⟨e, hc, hs⟩ := B.acked d m hm i hi
      exact ⟨e, hcovers i e hc, fun h => hs (or_eq_false_iff.1 h).1⟩
    · obtain ⟨e, hc, hs⟩ := B'.acked d m hm i hi
      refine ⟨e, hc, fun h => ?_⟩
      obtain ⟨h₁, h₂⟩ := or_eq_false_iff.1 h
      exact B.held h₁ i e (hs h₂)

end Raft

/-! ## A turn of the driver -/

/-- What a phase has still to hand over. -/
def Phase.pending : Phase → List (NodeId × Message)
  | .idle => []
  | .saving _ out _ => out.send
  | .saved out _ => out.send
  | .folding _ send _ => send
  | .sending send => send

def Phase.unsaved : Phase → Option State
  | .saving state _ _ => state
  | _ => none

namespace Controller
variable {config : ClusterConfig} {c : Controller}

/-- The section under the core's lock. -/
lemma driven_backs (config : ClusterConfig) (r : Raft) (hnext : r.NextPositive) (ranges : RangeMap)
    (incoming : Option Message) (now : Nat) : r.Backs (driven config r ranges incoming now) := by
  unfold driven
  have B₁ : r.Backs (delivered r incoming now) := by
    cases incoming with
    | none => exact .start hnext
    | some m =>
      rw [delivered_some]
      exact (deliver_acts r m now).backs hnext
  generalize delivered r incoming now = x₁ at B₁ ⊢
  obtain ⟨r₁, out₁⟩ := x₁
  have acts₂ : Raft.Acts (.clock (some Raft.keepEntries)) (r₁, default) (r₁.tick now) :=
    tick_acts _ r₁ now
  dsimp only
  generalize r₁.tick now = x₂ at acts₂ ⊢
  obtain ⟨r₂, out₂⟩ := x₂
  have B₂ := B₁.merge (acts₂.backs B₁.next) fun i e h => acts₂.covers rfl h
  rcases promoted_cases config r₂ ranges now with ⟨m, -, hm⟩ | heq
  · have acts₃ := propose_acts hm
    exact B₂.merge (acts₃.backs B₂.next) fun i e h => acts₃.covers rfl h
  · dsimp only
    rw [heq]
    exact B₂.merge (.start B₂.next) fun _ _ h => h

/-- What the store holds once the save in progress is done. -/
def target (c : Controller) : Option State := c.phase.unsaved.or c.disk

/-- **The invariant of the driver.** Once the save in progress is done, every entry of the log
is on disk, and so is whatever a message still to be handed over speaks for. -/
structure Backed (c : Controller) : Prop where
  next : c.raft.NextPositive
  held : c.wedged = false → ∀ i e, c.raft.entryAt i = some e → Stored c.target i e
  carried : ∀ p ∈ c.phase.pending, ∀ i e, (i, e) ∈ p.2.carried → Stored c.target i e
  acked : ∀ p ∈ c.phase.pending, ∀ i, p.2.acked? = some i → ∃ e, Stored c.target i e

variable {disk : Option State} {e : Entry} {i : Nat}

lemma stored_start (config : ClusterConfig) (h : (start config disk).raft.entryAt i = some e) : Stored disk i e := by
  have h := covers_of_entryAt h
  cases disk with
  | none => exact h
  | some st =>
    have h : Covers (Raft.restore _ st).base (Raft.restore _ st).log i e := h
    rw [restore_eq _ st rfl rfl] at h
    exact h

namespace Backed
variable (config disk) in
lemma start (sent : List (NodeId × Message)) : Backed { Controller.start config disk with sent } where
  next u n hn := by
    cases disk with
    | none => cases hn
    | some st =>
      have hn : (Raft.restore _ st).next u = some n := hn
      rw [restore_eq _ st rfl rfl] at hn
      cases hn
  held _ _ _ h := stored_start config h
  carried _ h := by cases h
  acked _ h := by cases h

/-- The driver got further without touching the core. -/
lemma onward (B : Backed c) {c' : Controller} (hraft : c'.raft = c.raft)
    (hwedged : c'.wedged = c.wedged) (htarget : c'.target = c.target)
    (hpending : ∀ p ∈ c'.phase.pending, p ∈ c.phase.pending) : Backed c' where
  next := hraft ▸ B.next
  held h := by
    rw [hraft, htarget]
    exact B.held (hwedged ▸ h)
  carried p hp := htarget ▸ B.carried p (hpending p hp)
  acked p hp := htarget ▸ B.acked p (hpending p hp)

lemma turn (B : Backed c) {incoming : Option Message} {now : Nat} {r : Raft} {out : Output}
    (idle : c.phase = .idle) (up : c.wedged = false)
    (h : driven config c.raft c.ranges incoming now = (r, out)) {leaseAt : Option Nat} {upTo : Nat} :
    Backed { c.moved r out with
      leaseAt, phase := .saving (if out.persist then some r.state else none) out upTo } := by
  have T := driven_backs config c.raft B.next c.ranges incoming now
  rw [h] at T
  -- what was there before the turn is on disk
  have old : ∀ i e, c.raft.entryAt i = some e → Stored c.disk i e := by
    intro i e he
    have hs := B.held up i e he
    rwa [target, idle] at hs
  have backed : ∀ i e, Covers r.base r.log i e ∧ (out.persist = false → c.raft.entryAt i = some e) →
      Stored ((if out.persist then some r.state else none).or c.disk) i e := by
    intro i e he
    cases hp : out.persist with
    | true => exact stored_of_covers he.1
    | false => exact old i e (he.2 hp)
  refine ⟨T.next, fun _ i e he => ?_, fun p hp i e he => ?_, fun p hp i hi => ?_⟩
  · exact backed i e ⟨covers_of_entryAt he, fun hp => T.held hp i e he⟩
  · exact backed i e (T.carried p.1 p.2 hp i e he)
  · obtain ⟨e, he⟩ := T.acked p.1 p.2 hp i hi
    exact ⟨e, backed i e he⟩

/-- **One action** that is not an accepted call. -/
lemma step (B : Backed c) {action : Action} (h : c.refuses action = true) :
    Backed (Controller.step config c action) := by
  have hstep := step_step config c action
  generalize Controller.step config c action = c' at hstep ⊢
  cases hstep with
  | stay => exact B
  | turn idle up hd => exact B.turn idle up hd
  | wedge hp =>
    exact ⟨B.next, nofun, nofun, nofun⟩
  | skip hp | save hp | refresh hp | fold hp | publish hp | post hp | rest hp =>
    refine B.onward rfl rfl ?_ ?_
    · rw [target, target, hp]
      rfl
    · rw [hp]
      intro m hm
      first | exact hm | exact mem_cons_of_mem _ hm
  | propose accepted =>
    rw [h] at accepted
    cases accepted
  | restart => exact .start config c.disk c.sent

end Backed

/-! ## Whole runs -/

/-- What a node says for itself is on its disk. -/
structure Durable (config : ClusterConfig) (c : Controller) : Prop where
  /-- an index a leader counts itself for, once the turn that appended it has saved -/
  counted : c.wedged = false → c.phase.unsaved = none → c.raft.role = .leader →
    ∀ k, c.raft.matched c.raft.id = some k → ∀ i ≤ k, ∀ e, c.raft.entryAt i = some e → Stored c.disk i e
  /-- an entry a message about to be handed over carries -/
  sends : ∀ send, c.phase = .sending send → ∀ p ∈ send, ∀ i e, (i, e) ∈ p.2.carried → Stored c.disk i e
  /-- a position a message about to be handed over acknowledges -/
  acks : ∀ send, c.phase = .sending send → ∀ p ∈ send, ∀ i, p.2.acked? = some i → ∃ e, Stored c.disk i e
  /-- the whole log, in the process that comes after this one -/
  survives : c.wedged = false → c.phase.unsaved = none → ∀ i e, c.raft.entryAt i = some e →
    Covers (start config c.disk).raft.base (start config c.disk).raft.log i e

/-- **Persist before count.** In every run in which no call of `proposeMap`, `proposeMembers`
or `markRepaired` is accepted, whatever messages arrive, wherever the process is killed and
whichever saves fail, a node speaks only for what its disk holds. -/
theorem persist_before_count (config : ClusterConfig) {disk : Option State}
    (run : Run (step config) (fun c a => c.refuses a = true) (start config disk) c) :
    Durable config c := by
  have B : Backed c := run.run (Backed.start config disk []) fun _ _ h B => B.step h
  have saved : c.phase.unsaved = none → c.target = c.disk := by
    intro h
    rw [target, h]
    rfl
  have sending : ∀ send, c.phase = .sending send → c.target = c.disk ∧ c.phase.pending = send := by
    intro send h
    rw [target, h]
    exact ⟨rfl, rfl⟩
  refine ⟨?_, ?_, ?_, ?_⟩
  · intro up hs _ k _ i _ e he
    exact saved hs ▸ B.held up i e he
  · intro send h p hp i e hi
    obtain ⟨ht, hpending⟩ := sending send h
    exact ht ▸ B.carried p (hpending ▸ hp) i e hi
  · intro send h p hp i hi
    obtain ⟨ht, hpending⟩ := sending send h
    exact ht ▸ B.acked p (hpending ▸ hp) i hi
  · intro up hs i e he
    have stored : Stored c.disk i e := saved hs ▸ B.held up i e he
    generalize c.disk = disk at stored ⊢
    cases disk with
    | none => exact stored
    | some st =>
      show Covers (Raft.restore _ st).base (Raft.restore _ st).log i e
      rw [restore_eq _ st rfl rfl]
      exact stored

/-- The leader counts itself for its first entry, which is on disk. -/
theorem persist_before_count_duo :
    let c := exec duoConfig (start duoConfig none) duoLeads
    c.raft.role = .leader ∧ c.raft.matched 0 = some 1 ∧ Durable duoConfig c := by
  intro c
  have hrun : Run (step duoConfig) (fun c a => c.refuses a = true) (start duoConfig none) c :=
    Run.play (fun c a => c.refuses a) _ (by decide +kernel) (fun _ _ h => h)
  have hlead : c.raft.role = .leader ∧ c.raft.matched 0 = some 1 := by decide +kernel
  clear_value c
  exact ⟨hlead.1, hlead.2, persist_before_count duoConfig hrun⟩

/-- The entry an accepted `proposeMap duoMap` appends. -/
def duoEntry : Entry := ⟨1, .ranges { duoMap with epoch := 1 }⟩

/-- The map a caller proposed is counted by the leader, carried by the next heartbeat,
committed when the follower acknowledges it and read by every request, while the leader's disk
does not hold it: the next process of the leader has forgotten it. -/
theorem proposal_counted_unsaved :
    let c := exec duoConfig (start duoConfig none) (duoLeads ++ [.proposeMap duoMap])
    let d := exec duoConfig c [.turn none 5401, .save true, .refresh, .publish]
    let e := exec duoConfig d (.post :: .post :: round (some (.appendReply 1 1 true 2)) 5402)
    ¬ Durable duoConfig c ∧ ¬ Durable duoConfig d ∧
      (e.raft.commit = 2 ∧ e.raft.entryAt 2 = some duoEntry ∧ e.ranges.epoch = 1 ∧
        (start duoConfig e.disk).raft.lastIndex = 1 ∧ (start duoConfig e.disk).ranges.epoch = 0) := by
  refine ⟨fun h => ?_, fun h => ?_, by decide +kernel⟩
  · have hs := h.counted (by decide +kernel) (by decide +kernel) (by decide +kernel) 2
      (by decide +kernel) 2 (Nat.le_refl 2) duoEntry (by decide +kernel)
    revert hs
    decide +kernel
  · have hs := h.sends _ rfl _ (mem_singleton_self _) 2 duoEntry (by decide +kernel)
    revert hs
    decide +kernel

end Controller

end BigDb.Cluster
