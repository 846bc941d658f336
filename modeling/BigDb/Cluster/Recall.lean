import BigDb.Cluster.Network

/-!
# What a shortened log still says

A node's map and members are not kept anywhere: they are replayed from the log, and the log
is shortened. `Recalls` says when a log that starts at `base`, with a seed, still replays to
what the whole history behind it does, and how each thing that can happen to a log keeps
that: appending, cutting the end off, committing, compacting, and being replaced by a
snapshot. Compacting keeps it only if the newest committed map and the newest committed
membership stay in the log.
-/

namespace BigDb.Cluster
open Lib List

/-! ## Replaying a log -/

variable (seed : List Member)

/-- The map and the members a log leads to, from the members it starts with. -/
def replay (log : List Entry) : RangeMap × List Member :=
  log.foldl Raft.foldDecision (default, seed)

lemma foldl_foldDecision (log : List Entry) (state : RangeMap × List Member) : log.foldl Raft.foldDecision state =
      (newest (fun e => e.decision.ranges?) state.1 log, latestMembers state.2 log) := by
  induction log generalizing state with
  | nil => rfl
  | cons e log ih =>
    rw [foldl_cons, ih, latestMembers, latestMembers, newest_cons, newest_cons]
    unfold Raft.foldDecision
    cases e.decision <;> rfl

lemma replay_eq (log : List Entry) :
    replay seed log = (newest (fun e => e.decision.ranges?) default log, latestMembers seed log) :=
  foldl_foldDecision log _

lemma replay_append (a b : List Entry) :
    replay seed (a ++ b) = b.foldl Raft.foldDecision (replay seed a) := foldl_append ..

/-- Nothing is lost with the first `d` entries if, of either kind, none of them decides
anything or one of the others does. -/
lemma replay_drop {l : List Entry} {d : Nat} (h : ∀ want ∈ [Decision.isRanges, Decision.isMembers],
      (∀ e ∈ l.take d, want e.decision = false) ∨ ∃ e ∈ l.drop d, want e.decision = true) :
    replay seed (l.drop d) = replay seed l := by
  have hr := h Decision.isRanges (by simp)
  have hm := h Decision.isMembers (by simp)
  rw [replay_eq, replay_eq, latestMembers, latestMembers, newest_drop, newest_drop]
  · apply hm.imp
    · intro hq e he
      exact Decision.members?_eq_none (hq e he)
    · rintro ⟨e, he, hw⟩
      refine ⟨e, he, ?_⟩
      revert hw
      cases e.decision <;> simp [Decision.isMembers, Decision.members?]
  · apply hr.imp
    · intro hq e he
      have := hq e he
      revert this
      cases e.decision <;> simp [Decision.isRanges, Decision.ranges?]
    · rintro ⟨e, he, hw⟩
      refine ⟨e, he, ?_⟩
      revert hw
      cases e.decision <;> simp [Decision.isRanges, Decision.ranges?]

/-! ## A log and the history behind it -/

/-- The log, read from its seed, says what the history says, from the commit point on. Below
the commit point it need not: what is newest there may be all that compaction kept. -/
structure Recalls (members seed : List Member) (log : List Entry) (base commit : Nat)
    (history : List Entry) : Prop where
  held : log ≠ []
  reach : base < history.length
  tail : history.drop (base + 1) = log.tail
  low : base ≤ commit
  high : commit < history.length
  replays : replay seed (log.take (commit + 1 - base)) = replay members (history.take (commit + 1))
  whole : base = 0 → seed = members ∧ log = history
  /-- `restore` takes an empty seed for no seed -/
  seeded : seed = [] → seed = members

namespace Recalls
variable {members seed : List Member} {log history : List Entry} {base commit : Nat}

section
variable (R : Recalls members seed log base commit history)
include R

lemma length : history.length = base + log.length := by
  have htail := congrArg List.length R.tail
  rw [length_drop, length_tail] at htail
  have := length_pos_iff.2 R.held
  have := R.reach
  omega

variable {k : Nat} {m : Nat}

lemma drop_eq (hk : base < k) : history.drop k = log.drop (k - base) := by
  have hsplit : history.drop k = (history.drop (base + 1)).drop (k - (base + 1)) := by
    rw [drop_drop]
    congr 1
    omega
  rw [hsplit, R.tail, ← drop_one, drop_drop]
  congr 1
  omega

/-- So a piece of the history that reaches past the base ends as the log does. -/
lemma take_eq (hm : 0 < m) : history.take (base + m) = history.take (base + 1) ++ (log.take m).tail := by
  have hsplit : base + m = base + 1 + (m - 1) := by omega
  have htail : (log.take m).tail = log.tail.take (m - 1) := by
    rw [← drop_one, drop_take, drop_one]
  rw [hsplit, take_add (i := base + 1), R.tail, htail]

lemma replays_at
    (hk : commit ≤ k) : replay seed (log.take (k + 1 - base)) = replay members (history.take (k + 1)) := by
  have hlow := R.low
  have hlog : k + 1 - base = commit + 1 - base + (k - commit) := by omega
  have hhist : k + 1 = commit + 1 + (k - commit) := by omega
  rw [hlog, take_add, replay_append, R.replays]
  conv_rhs => rw [hhist, take_add, replay_append, R.drop_eq (by omega)]

lemma replays_all : replay seed log = replay members history := by
  have hall := R.replays_at (k := history.length - 1) (by have := R.high; omega)
  have := R.length
  rwa [take_of_length_le (by omega), take_of_length_le (by omega)] at hall

lemma latest : latestMembers seed log = latestMembers members history := by
  have hall := R.replays_all
  rw [replay_eq, replay_eq] at hall
  exact congrArg Prod.snd hall

lemma push (e : Entry) : Recalls members seed (log ++ [e]) base commit (history ++ [e]) := by
  have hlen := R.length
  have hreach := R.reach
  have hhigh := R.high
  have hlow := R.low
  refine ⟨by simp, ?_, ?_, hlow, ?_, ?_, ?_, R.seeded⟩
  · rw [length_append]
    omega
  · rw [drop_append_of_le_length (by omega), R.tail, tail_append_of_ne_nil R.held]
  · rw [length_append]
    omega
  · rw [take_append_of_le_length (by omega), take_append_of_le_length (by omega)]
    exact R.replays
  · intro h0
    obtain ⟨hseed, hlog⟩ := R.whole h0
    exact ⟨hseed, by rw [hlog]⟩

/-- The end past the commit point is cut off and replaced. -/
lemma cut (rest : List Entry) (hm : commit < base + m) (hle : base + m ≤ history.length) :
    Recalls members seed (log.take m ++ rest) base commit (history.take (base + m) ++ rest) := by
  have hlow := R.low
  have hlen := R.length
  have hlog : (log.take m).length = m := by rw [length_take]; omega
  have hhist : (history.take (base + m)).length = base + m := by rw [length_take]; omega
  have hne : log.take m ≠ [] := length_pos_iff.1 (by omega)
  refine ⟨by simp [hne], ?_, ?_, hlow, ?_, ?_, ?_, R.seeded⟩
  · rw [length_append, hhist]
    omega
  · rw [drop_append_of_le_length (by omega), drop_take, R.tail,
      tail_append_of_ne_nil hne, ← drop_one (l := log.take m), drop_take,
      drop_one]
    congr 2
    omega
  · rw [length_append, hhist]
    omega
  · rw [take_append_of_le_length (by omega), take_append_of_le_length (by omega),
      take_take, take_take, min_eq_left (by omega), min_eq_left (by omega)]
    exact R.replays
  · intro h0
    obtain ⟨hseed, rfl⟩ := R.whole h0
    exact ⟨hseed, by rw [h0, Nat.zero_add]⟩

/-- A prefix is dropped that holds neither the newest committed map nor the newest
committed membership. -/
lemma shorten {d : Nat} (hd : base + d ≤ commit) (kept : ∀ want ∈ [Decision.isRanges, Decision.isMembers],
      (∀ e ∈ (log.take (commit + 1 - base)).take d, want e.decision = false) ∨
        ∃ e ∈ (log.take (commit + 1 - base)).drop d, want e.decision = true) :
    Recalls members seed (log.drop d) (base + d) commit history := by
  have hlen := R.length
  have hhigh := R.high
  refine ⟨?_, by omega, ?_, hd, hhigh, ?_, ?_, R.seeded⟩
  · intro hnil
    have := congrArg List.length hnil
    rw [length_drop, length_nil] at this
    omega
  · rw [R.drop_eq (by omega), ← drop_one, drop_drop]
    congr 1
    omega
  · have htake : (log.drop d).take (commit + 1 - (base + d)) = (log.take (commit + 1 - base)).drop d := by
      rw [drop_take]
      congr 1
      omega
    rw [htake, replay_drop seed kept, R.replays]
  · intro h0
    obtain rfl : d = 0 := by omega
    exact R.whole (by omega)

end

end Recalls

end BigDb.Cluster
