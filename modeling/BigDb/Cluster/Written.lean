import BigDb.Cluster.Publishing
import BigDb.Cluster.Safety
import BigDb.Lib.Marked

/-!
# What gets into a log

A log grows by what its node appends while it leads, or becomes a piece of its leader's. So what
held of every entry when a leader appended it, given the log it was appended to, holds of every
entry of every log. What a node has committed stays where it is, and what it applies is handed out
in order.
-/

namespace BigDb.Cluster
open Lib Lib.Ledger List
variable {s : Setup} {h h' : Ledger Entry NodeId} {v : NodeId} {Q : List Entry → Entry → Prop}

variable (Q) in
/-- The piece of a leader's log that a message speaks for is marked. -/
def Carried (h : Ledger Entry NodeId) : Message → Prop
  | .append T _ prev _ entries _ => Marked Q ((h.lead T).take (prev + 1 + entries.length))
  | _ => True

lemma Carried.extend {dest : NodeId} {m : Message} (hc : Carried Q h m) (hb : Backed s h dest m)
    (grows : Extends h h') : Carried Q h' m := by
  cases m with
  | append T c prev pt entries cm =>
    obtain ⟨l, -, hlen, -⟩ := hb
    show Marked Q ((h'.lead T).take (prev + 1 + entries.length))
    rw [grows.take_lead hlen]
    exact hc
  | _ => trivial

namespace Raft
variable {c : Cause} {x y : Raft × Output}

/-- What an act makes of the log, as long as nothing is cut off. -/
inductive Wrote (c : Cause) (x : Raft × Output) : List Entry → Prop where
  | same : Wrote c x x.1.log
  | noop : Wrote c x (x.1.log ++ [⟨x.1.term, .noop⟩])
  | proposal {d} (hm : c = .proposal d) (first : x.2.persist = false) : Wrote c x (x.1.log ++ [⟨x.1.term, d⟩])
  | accept {l prev pt entries cm} (hm : c = .message (.append x.1.term l prev pt entries cm))
      (hprev : x.1.termAt prev = some pt) : Wrote c x (x.1.filled prev entries false).raft.log

section
variable (whole : ∀ t l i lt m ms, c ≠ .message (.snapshot t l i lt m ms))
include whole

lemma Act.wrote (hact : Act c x y) (hkeep : c.keep? = none) : Wrote c x y.1.log := by
  cases hact with
  | win => exact .noop
  | append hm first =>
    rw [appended_frame]
    exact .proposal hm first
  | accept hm first role hprev =>
    rw [caughtUp_frame, taken_frame]
    exact .accept hm hprev
  | install hm => exact absurd hm (whole _ _ _ _ _ _)
  | compact hm =>
    rw [hkeep] at hm
    cases hm
  | _ => exact .same

omit whole in
/-- What committing hands out. -/
lemma handedBy_eq {r r' : Raft} (hbase : r'.base = 0) : (r.handedBy r').map (fun p => p.2.decision) =
      (stretch r'.log r.applied r'.applied).map Entry.decision := by
  rw [stretch, drop_take, Nat.add_sub_add_right, ← filterMap_range'_eq_take_drop, handedBy, map_filterMap, map_filterMap]
  congr 1
  funext i
  simp [entryAt, hbase, Option.map_map, Function.comp_def]

/-- An act hands out what it applies, in order. -/
lemma Act.handed (hact : Act c x y) (hbase : y.1.base = 0) : x.1.applied ≤ y.1.applied ∧
      y.2.applied = x.2.applied ++ (stretch y.1.log x.1.applied y.1.applied).map Entry.decision := by
  have nothing : ∀ {log : List Entry} {i : Nat} {ds : List Decision},
      ds = ds ++ (stretch log i i).map Entry.decision := by
    intro log i ds
    rw [stretch_self, map_nil, append_nil]
  cases hact with
  | append =>
    rw [appended_frame]
    exact ⟨le_rfl, nothing⟩
  | @commit r out k =>
    refine ⟨le_max_left _ _, ?_⟩
    show out.applied ++ (r.handedBy (r.committed k)).map _ = _
    rw [handedBy_eq hbase]
  | @accept r out l prev pt entries commit =>
    have htaken : (r.taken prev entries).applied = r.applied := by rw [taken_frame]
    refine ⟨htaken ▸ (r.taken prev entries).applied_le_caughtUp commit, ?_⟩
    show out.applied ++ ((r.taken prev entries).handedBy ((r.taken prev entries).caughtUp commit)).map _ = _
    rw [handedBy_eq hbase, htaken]
  | install hm => exact absurd hm (whole _ _ _ _ _ _)
  | compact =>
    rw [compact_frame]
    exact ⟨le_rfl, nothing⟩
  | _ => exact ⟨le_rfl, nothing⟩

/-- The commit index does not go back, as long as the log still reaches it. -/
lemma Act.commit_le (hact : Act c x y) (hbase : y.1.base = 0) (hlen : x.1.commit < y.1.log.length) :
    x.1.commit ≤ y.1.commit := by
  cases hact with
  | append =>
    rw [appended_frame]
  | commit own role h => exact h.past.le
  | @accept r out l prev pt entries commit =>
    have hcommit : (r.taken prev entries).commit = r.commit := by rw [taken_frame]
    have hlast : r.commit ≤ (r.taken prev entries).lastIndex := by
      have hlog : ((r.taken prev entries).caughtUp commit).log = (r.taken prev entries).log := by
        rw [caughtUp_frame]
      have hlen : r.commit < ((r.taken prev entries).caughtUp commit).log.length := hlen
      rw [hlog] at hlen
      unfold lastIndex
      omega
    show r.commit ≤ ((r.taken prev entries).caughtUp commit).commit
    unfold caughtUp
    split
    · next hlt => exact le_min (hcommit ▸ hlt.le) hlast
    · exact hcommit.ge
  | install hm => exact absurd hm (whole _ _ _ _ _ _)
  | compact =>
    rw [compact_frame]
  | _ => exact le_rfl

end

end Raft

/-- What a core that was `r` has got to: what was committed is still in its log, and what was
applied since has been handed out. -/
structure Raft.Progress (r : Raft) (x : Raft × Output) : Prop where
  applied : r.applied ≤ x.1.applied
  committed : r.commit ≤ x.1.commit
  kept : r.log.take (r.commit + 1) <+: x.1.log
  handed : x.2.applied = (stretch x.1.log r.applied x.1.applied).map Entry.decision

variable (s Q) in
/-- What a chain of acts of node `v` has done since its core was `r`: the ledger has moved on, and
what it has sent and what it has in its log is backed and marked. -/
structure Trail (v : NodeId) (h : Ledger Entry NodeId)
    (r : Raft) (h' : Ledger Entry NodeId) (x : Raft × Output) : Prop extends r.Progress x where
  moved : Moved s v h h' x.1
  sends : ∀ d m, (d, m) ∈ x.2.send → Backed s h' d m ∧ Carried Q h' m
  marked : Marked Q x.1.log

section Trails
variable {r : Raft} {c : Raft.Cause} {x : Raft × Output} {log : List Entry}

section
variable (V : h.Valid (scheme s))
include V

/-- What a node has committed is in the log an act leaves it with. -/
lemma Agrees.kept (A : Agrees s h v x.1) (hmsg : ∀ m, c = .message m → Backed s h v m) (rooted : [root] <+: log)
    (wrote : Raft.Wrote c x log) : x.1.log.take (x.1.commit + 1) <+: log := by
  have own : x.1.log.take (x.1.commit + 1) <+: x.1.log := take_prefix _ _
  cases wrote with
  | same => exact own
  | noop | proposal => exact own.trans (prefix_append _ _)
  | @accept l prev pt entries cm hm hprev =>
    have hb := hmsg _ hm
    have merged := A.merged V hb hprev
    obtain ⟨l₀, hel, -⟩ := hb
    rcases A.commit with h0 | ⟨t, k, n, hc, ht, hk, hp⟩
    · -- all that is committed is the root
      rw [h0]
      have : x.1.log.take (0 + 1) = [root].take (0 + 1) :=
        (take_eq_take_of_isPrefix (A.log_root V) le_rfl).symm
      rw [this]
      exact rooted
    · have hlen : x.1.commit + 1 ≤ (h.lead t).length := by
        have := hc.1
        have := hc.2.1
        omega
      have heq : x.1.log.take (x.1.commit + 1) = (h.lead t).take (x.1.commit + 1) := by
        rw [← take_eq_take_of_isPrefix hp (by rw [length_take]; omega), take_take, min_self]
      rw [heq]
      refine merged.keeps hp ?_
      exact (take_prefix_take_left (by omega)).trans (hc.prefix_lead V ht hel)

lemma Agrees.marked (A : Agrees s h v x.1) (marked : Marked Q x.1.log)
    (hmsg : ∀ m, c = .message m → Backed s h v m ∧ Carried Q h m) (noop : ∀ l T, Q l ⟨T, .noop⟩)
    (hprop : ∀ d, c = .proposal d → x.2.persist = false → Q x.1.log ⟨x.1.term, d⟩)
    (wrote : Raft.Wrote c x log) : Marked Q log := by
  cases wrote with
  | same => exact marked
  | noop => exact marked.append (noop _ _)
  | proposal hm first => exact marked.append (hprop _ hm first)
  | accept hm hprev =>
    obtain ⟨hb, hc⟩ := hmsg _ hm
    rcases A.merged V hb hprev with ⟨-, heq⟩ | ⟨-, heq⟩
    · rw [heq]
      exact marked
    · rw [heq]
      exact hc

omit V in
/-- What an act sends in a leader's name is marked. -/
lemma Raft.Act.carried {x y : Raft × Output} (hact : Raft.Act c x y)
    (V : h.Valid (scheme s)) (A : Agrees s h v y.1) (marked : Marked Q y.1.log) {d : NodeId} {m : Message}
    (hm : (d, m) ∈ y.2.send) : (d, m) ∈ x.2.send ∨ Carried Q h m := by
  -- an act that sends one message sends it last
  have last : ∀ {out : Output} {dest : NodeId} {reply : Message}, (d, m) ∈ (out.to dest reply).send →
      Carried Q h reply → (d, m) ∈ out.send ∨ Carried Q h m := by
    intro out dest reply hm hc
    rcases mem_append.1 hm with hm | hm
    · exact .inl hm
    · cases mem_singleton.1 hm
      exact .inr hc
  cases hact with
  | refuse hr =>
    refine last hm ?_
    rename_i reply
    cases reply with
    | append => cases hr
    | _ => trivial
  | grant | canvass | accept | install => exact last hm trivial
  | replicate own role | backOff _ _ role =>
    refine last hm ?_
    unfold Raft.appendTo
    dsimp only
    split
    · trivial
    show Marked Q ((h.lead _).take _)
    rw [A.lead_eq V role]
    exact marked.of_prefix (List.take_prefix _ _)
  | _ => exact .inl hm

lemma Trail.refl (F : Fair s h) (A : Agrees s h v r) (marked : Marked Q r.log) : Trail s Q v h r h (r, default) where
  moved := .refl V F A
  sends _ _ hm := by cases hm
  marked := marked
  applied := le_rfl
  committed := le_rfl
  kept := take_prefix _ _
  handed := by
    rw [stretch_self]
    rfl

lemma Agrees.commit_lt (A : Agrees s h v r) : r.commit < r.log.length :=
  A.commit.lt_length (A.log_ne V)

omit V in
/-- A log up to an index that was committed, after the piece up to there was kept. -/
lemma take_eq_of_kept {log' : List Entry} {i j : Nat} (hkept : log.take (j + 1) <+: log')
    (hlen : j < log.length) (hij : i ≤ j) : log'.take (i + 1) = log.take (i + 1) := by
  have hle : i + 1 ≤ (log.take (j + 1)).length := by
    rw [length_take]
    omega
  rw [← take_eq_take_of_isPrefix hkept hle, take_take, Nat.min_eq_left (by omega)]

omit V in
/-- One trail after another. -/
lemma Trail.merge {r₁ r₂ : Raft} {out₁ out₂ : Output} {h₂ : Ledger Entry NodeId}
    (T : Trail s Q v h r h' (r₁, out₁)) (T' : Trail s Q v h' r₁ h₂ (r₂, out₂))
    (hlen : r.commit < r.log.length) : Trail s Q v h r h₂ (r₂, out₁.merge out₂) where
  moved := T.moved.trans T'.moved
  sends d m hm := by
    rcases mem_append.1 hm with hm | hm
    · obtain ⟨hb, hc⟩ := T.sends d m hm
      exact ⟨hb.extend T'.moved.grows, hc.extend hb T'.moved.grows⟩
    · exact T'.sends d m hm
  marked := T'.marked
  applied := T.applied.trans T'.applied
  committed := T.committed.trans T'.committed
  kept := by
    rw [← take_eq_of_kept T.kept hlen le_rfl]
    exact (take_prefix_take_left (Nat.succ_le_succ T.committed)).trans T'.kept
  handed := by
    have A₁ := T.moved.agrees
    have htake := take_eq_of_kept T'.kept (A₁.commit_lt T.moved.valid) A₁.applied
    show out₁.applied ++ out₂.applied = _
    rw [T.handed, T'.handed, ← map_append, stretch_congr htake.symm, stretch_append T.applied T'.applied]

/-- **A whole step of a core.** -/
lemma Agrees.trail {y : Raft × Output} (F : Fair s h)
    (A : Agrees s h v r) (ok : Allowed s h v r c) (marked : Marked Q r.log)
    (hcarried : ∀ m, c = .message m → Carried Q h m) (noop : ∀ l T, Q l ⟨T, .noop⟩)
    (hprop : ∀ d, c = .proposal d → Q r.log ⟨r.term, d⟩)
    (acts : Raft.Acts c (r, default) y) : ∃ h', Trail s Q v h r h' y := by
  refine acts.run (P := fun x => ∃ h', Trail s Q v h r h' x) ⟨h, .refl V F A marked⟩ ?_
  rintro a b hchain hact ⟨h₁, T⟩
  have M := T.moved
  obtain ⟨hmsg, hcount, hmay⟩ := ok.act V A hchain M
  obtain ⟨h₂, M', hsent⟩ := Agrees.act M.valid M.fair M.agrees hact ok.keep? hmsg hcount hmay
  have whole : ∀ t l i lt m ms, c ≠ .message (.snapshot t l i lt m ms) :=
    fun t l i lt m ms hm => hmsg _ hm
  have wrote := hact.wrote whole ok.keep?
  have hcarried' : ∀ m, c = .message m → Backed s h₁ v m ∧ Carried Q h₁ m := by
    rintro m rfl
    exact ⟨hmsg m rfl, (hcarried m rfl).extend ok.1 M.grows⟩
  have hprop' : ∀ d, c = .proposal d → a.2.persist = false → Q a.1.log ⟨a.1.term, d⟩ := by
    rintro d rfl hp
    obtain ⟨hlog, -, -⟩ := hchain.log_saved rfl hp
    obtain ⟨hterm, -⟩ := hchain.vote_saved hp
    rw [hlog, hterm]
    exact hprop d rfl
  have marked' := M.agrees.marked M.valid T.marked hcarried' noop hprop' wrote
  have kept := M.agrees.kept M.valid hmsg (M'.agrees.log_root M'.valid) wrote
  obtain ⟨happlied, hhanded⟩ := hact.handed whole M'.agrees.base
  have hlen := M.agrees.commit_lt M.valid
  have htake := take_eq_of_kept kept hlen M.agrees.applied
  have hcommit : a.1.commit ≤ b.1.commit := by
    refine hact.commit_le whole M'.agrees.base ?_
    have := kept.length_le
    rw [length_take] at this
    omega
  refine ⟨h₂, ⟨T.applied.trans happlied, T.committed.trans hcommit, ?_, ?_⟩, M.trans M',
    fun d m hm => ⟨?_, ?_⟩, marked'⟩
  · rw [← take_eq_of_kept T.kept (A.commit_lt V) le_rfl]
    exact (take_prefix_take_left (Nat.succ_le_succ T.committed)).trans kept
  · rw [hhanded, T.handed, ← map_append, stretch_congr htake.symm, stretch_append T.applied happlied]
  · rcases hsent d m hm with hold | hnew
    · exact (T.sends d m hold).1.extend M'.grows
    · exact hnew
  · rcases hact.carried M'.valid M'.agrees marked' hm with hold | hnew
    · exact (T.sends d m hold).2.extend (T.sends d m hold).1 M'.grows
    · exact hnew

end

end Trails

end BigDb.Cluster
