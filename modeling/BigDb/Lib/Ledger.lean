import BigDb.Lib.Lists
import BigDb.Lib.Newest
import Mathlib.Data.Finset.Basic
import Mathlib.Data.Nat.Find

/-!
# Ledgers of a replicated log

A log that is replicated by a succession of leaders, one a term, with the set of voters
itself decided by entries of the log. `Ledger` is everything such a protocol has done so
far, as history: every node's term and log, every ballot with the log the voter held when
it cast it, every election with the log the leader started from, every leader's log as far
as it got, and every acknowledgement.

`Ledger.Valid` collects what the protocol's rules guarantee of a ledger, and
`Valid.complete` is what they are for: whatever was chosen in one term is in the log that
every leader of a later term started from. Nothing here names a program; a protocol is an
instance of `Scheme`, and `BigDb.Lib.LedgerSteps` has the moves that keep a ledger valid.
-/

namespace BigDb.Lib
open List

/-- The parameters of the protocol: what an entry's term is, which entries change the
configuration, which sets of nodes decide under a configuration, and which changes of
configuration are small enough that old and new deciding sets still meet. -/
structure Scheme (E N C : Type) where
  term : E → Nat
  conf? : E → Option C
  seed : C
  root : E
  quorum : C → Finset N → Prop
  near : C → C → Prop
  term_root : term root = 0
  conf_root : conf? root = none
  meet : ∀ {c Q Q'}, quorum c Q → quorum c Q' → ∃ v, v ∈ Q ∧ v ∈ Q'
  meet_near : ∀ {c c' Q Q'}, near c c' → quorum c Q → quorum c' Q' → ∃ v, v ∈ Q ∧ v ∈ Q'

/-! ## Prefixes -/

section Prefixes
variable {α : Type} {a l : List α}

lemma take_eq_take_of_isPrefix {n : Nat} (h : a <+: l) (hn : n ≤ a.length) : a.take n = l.take n := by
  obtain ⟨t, rfl⟩ := h
  rw [take_append_of_le_length hn]

lemma getElem?_of_isPrefix {i : Nat} {e : α} (h : a <+: l) (he : a[i]? = some e) : l[i]? = some e := by
  obtain ⟨t, rfl⟩ := h
  rw [List.getElem?_append_left (lt_of_getElem? he), he]

end Prefixes

variable {E N C : Type}

/-! ## The configuration a log describes -/

namespace Scheme
variable (S : Scheme E N C)

/-- The configuration in force at the end of a log: the newest one it carries, the seed if
it carries none. -/
def conf (l : List E) : C := newest S.conf? S.seed l

lemma conf_concat (l : List E) (e : E) : S.conf (l ++ [e]) = (S.conf? e).getD (S.conf l) := by
  unfold conf
  rw [newest_append, newest_singleton]

variable {l : List E} {e : E}

/-- Entries that change no configuration leave it as it was. -/
lemma conf_take_eq {m n : Nat} (h : m ≤ n) (quiet : ∀ j e, m ≤ j → j < n → l[j]? = some e → S.conf? e = none) :
    S.conf (l.take n) = S.conf (l.take m) := by
  induction n, h using Nat.le_induction with
  | base => rfl
  | succ n hmn ih =>
    have ih := ih fun j e h1 h2 => quiet j e h1 (by omega)
    rw [take_add_one]
    cases he : l[n]? with
    | none => simpa using ih
    | some e =>
      rw [Option.toList_some, S.conf_concat, quiet n e hmn (by omega) he]
      simpa using ih

lemma conf_take_succ {d : Nat} (he : l[d]? = some e) :
    S.conf (l.take (d + 1)) = (S.conf? e).getD (S.conf (l.take d)) := by
  rw [take_add_one, he, Option.toList_some, S.conf_concat]

/-- The entry at `d` is the first from `m` on to change the configuration. -/
structure FirstChange (l : List E) (m d : Nat) (e : E) : Prop where
  le : m ≤ d
  entry : l[d]? = some e
  change : S.conf? e ≠ none
  quiet : ∀ j x, m ≤ j → j < d → l[j]? = some x → S.conf? x = none

/-- Between two positions of a log either nothing changes the configuration or there is a
first entry that does. -/
lemma quiet_or_change (l : List E) (m n : Nat) : (∀ j e, m ≤ j → j < n → l[j]? = some e → S.conf? e = none) ∨
      ∃ d e, d < n ∧ S.FirstChange l m d e := by
  classical
  by_cases h : ∃ d, m ≤ d ∧ d < n ∧ ∃ e, l[d]? = some e ∧ S.conf? e ≠ none
  · obtain ⟨hm, hn, e, he, hc⟩ := Nat.find_spec h
    refine .inr ⟨Nat.find h, e, hn, hm, he, hc, fun j x h1 h2 hx => ?_⟩
    by_contra hne
    exact Nat.find_min h h2 ⟨h1, by omega, x, hx, hne⟩
  · refine .inl fun j e h1 h2 he => ?_
    by_contra hne
    exact h ⟨j, h1, h2, e, he, hne⟩

def lastTerm (l : List E) : Nat := (l.getLast?.map S.term).getD 0

/-- `l` is at least as up to date as `l'`: by last term first and length second. -/
def AtLeast (l l' : List E) : Prop :=
  S.lastTerm l' < S.lastTerm l ∨ (S.lastTerm l' = S.lastTerm l ∧ l'.length ≤ l.length)

lemma lastTerm_of_getElem? (h : l[l.length - 1]? = some e) : S.lastTerm l = S.term e := by
  rw [lastTerm, getLast?_eq_getElem?, h]; rfl

end Scheme

/-! ## Ledgers -/

/-- Everything the nodes have done, as history. -/
structure Ledger (E N : Type) where
  term : N → Nat
  log : N → List E
  /-- whom a node voted for in a term, and the log it held at that moment -/
  ballot : N → Nat → Option (N × List E)
  /-- who won a term, and the log it started from -/
  elected : Nat → Option (N × List E)
  /-- the log of a term's leader, as far as it got -/
  lead : Nat → List E
  /-- the node has told the leader of a term that it holds its log up to an index -/
  acked : N → Nat → Nat → Prop

namespace Ledger
variable (S : Scheme E N C) (h : Ledger E N)

/-- Every entry of the log, with everything before it, is in the log of its term's leader. -/
def Sound (l : List E) : Prop :=
  ∀ i e, l[i]? = some e → l.take (i + 1) <+: h.lead (S.term e)

/-- Index `k` of term `t` was counted by a deciding set, while the leader held `n`
entries. -/
def Chosen (t k n : Nat) : Prop :=
  k < n ∧ n ≤ (h.lead t).length ∧ (∃ e, (h.lead t)[k]? = some e ∧ S.term e = t) ∧
    ∃ Q, S.quorum (S.conf ((h.lead t).take n)) Q ∧ ∀ v ∈ Q, ∃ i, k ≤ i ∧ h.acked v t i

/-- A log still has the first `j + 1` entries of term `t`'s leader, unless a leader
elected in between, before term `b`, started without them. -/
def Kept (t j : Nat) (l : List E) (b : Nat) : Prop :=
  (h.lead t).take (j + 1) <+: l ∨
    ∃ u c l', t < u ∧ u < b ∧ h.elected u = some (c, l') ∧ ¬ (h.lead t).take (j + 1) <+: l'

/-- What a node needs to lead term `t` from log `l`. -/
structure Mandate (t : Nat) (c : N) (l : List E) : Prop where
  sound : h.Sound S l
  root : [S.root] <+: l
  terms : ∀ e ∈ l, S.term e < t
  votes : ∃ Q, S.quorum (S.conf l) Q ∧ ∀ v ∈ Q, ∃ l', h.ballot v t = some (c, l') ∧ S.AtLeast l l'

/-- A configuration may be appended by the leader of `t` at `d` once it has committed an
entry of its own at or past every configuration it already holds. -/
def MayChange (t d : Nat) : Prop :=
  ∃ k n, h.Chosen S t k n ∧ n ≤ d ∧ ∀ j e, j < d → (h.lead t)[j]? = some e → S.conf? e ≠ none → j ≤ k

/-- What is known of a term that has a leader. -/
structure Reign (t : Nat) (c : N) (l : List E) : Prop where
  mandate : h.Mandate S t c l
  start : l <+: h.lead t
  own : ∀ i e, l.length ≤ i → (h.lead t)[i]? = some e → S.term e = t
  /-- the ballots of the mandate were cast before the election -/
  early : ∃ Q, S.quorum (S.conf l) Q ∧ ∀ v ∈ Q, ∃ l', h.ballot v t = some (c, l') ∧
    S.AtLeast l l' ∧ ∀ s i j, h.acked v s i → j ≤ i → s < t → h.Kept s j l' t
  term_le : t ≤ h.term c
  leader_log : h.term c = t → h.log c = h.lead t
  change : ∀ d e x, l.length ≤ d → (h.lead t)[d]? = some e → S.conf? e = some x →
    S.near (S.conf ((h.lead t).take d)) x ∧ h.MayChange S t d

/-- What the rules of the protocol guarantee. -/
structure Valid : Prop where
  lead_zero : h.lead 0 = [S.root]
  elected_zero : h.elected 0 = none
  lead_none : ∀ t, t ≠ 0 → h.elected t = none → h.lead t = []
  reign : ∀ t c l, h.elected t = some (c, l) → h.Reign S t c l
  log_root : ∀ v, [S.root] <+: h.log v
  log_sound : ∀ v, h.Sound S (h.log v)
  log_terms : ∀ v, ∀ e ∈ h.log v, S.term e ≤ h.term v
  ballot_term : ∀ v t c l, h.ballot v t = some (c, l) → t ≤ h.term v
  ballot_sound : ∀ v t c l, h.ballot v t = some (c, l) → h.Sound S l
  ballot_root : ∀ v t c l, h.ballot v t = some (c, l) → [S.root] <+: l
  ballot_self : ∀ v t l, h.ballot v t = some (v, l) → ∀ e ∈ l, S.term e < t
  ballot_kept : ∀ v t c l s i j, h.ballot v t = some (c, l) → h.acked v s i → j ≤ i → s < t → h.Kept s j l (t + 1)
  acked_term : ∀ v t i, h.acked v t i → t ≤ h.term v
  acked_elected : ∀ v t i, h.acked v t i → ∃ c l, h.elected t = some (c, l)
  acked_lt : ∀ v t i, h.acked v t i → i < (h.lead t).length
  log_kept : ∀ v t i j, h.acked v t i → j ≤ i → h.Kept t j (h.log v) (h.term v + 1)

variable {S h}

/-! ## Terms along a log -/

lemma Sound.last {l : List E} (sound : h.Sound S l) (ne : l ≠ []) : l <+: h.lead (S.lastTerm l) := by
  have hlen := length_pos_iff.2 ne
  have he : l[l.length - 1]? = some (l[l.length - 1]) := getElem?_eq_getElem (by omega)
  have := sound _ _ he
  rwa [show l.length - 1 + 1 = l.length by omega, take_length, ← S.lastTerm_of_getElem? he] at this

lemma Sound.of_isPrefix {a l : List E} (sound : h.Sound S l) (ha : a <+: l) : h.Sound S a := by
  intro i e he
  have hi := lt_of_getElem? he
  rw [take_eq_take_of_isPrefix ha hi]
  exact sound i e (getElem?_of_isPrefix ha he)

/-- Log matching: entries of one term at one index have the same log before them. -/
lemma Sound.matching {l l' : List E} (sound : h.Sound S l) (sound' : h.Sound S l') {i : Nat}
    {a b : E} (ha : l[i]? = some a) (hb : l'[i]? = some b) (hab : S.term a = S.term b) :
    l.take (i + 1) = l'.take (i + 1) := by
  have h1 := sound i a ha
  have h2 := sound' i b hb
  rw [← hab] at h2
  have hi := lt_of_getElem? ha
  have hi' := lt_of_getElem? hb
  have hlen : (l.take (i + 1)).length = (l'.take (i + 1)).length := by
    rw [length_take, length_take]
    omega
  exact (prefix_of_prefix_length_le h1 h2 hlen.le).eq_of_length hlen

namespace Valid
variable (V : h.Valid S)
include V

variable {l : List E} {e : E} {t : Nat} {i : Nat} {c : N}

/-- A term with a log is term zero or one that was won. -/
lemma elected_of_lead (he : (h.lead t)[i]? = some e) (ht : t ≠ 0) : ∃ c l, h.elected t = some (c, l) := by
  cases hel : h.elected t with
  | none => simp [V.lead_none t ht hel] at he
  | some p => exact ⟨p.1, p.2, rfl⟩

/-- Entries of a leader's log are of its term or older. -/
lemma lead_terms {t i : Nat} (he : (h.lead t)[i]? = some e) : S.term e ≤ t := by
  rcases Nat.eq_zero_or_pos t with rfl | ht
  · rw [V.lead_zero] at he
    have : e = S.root := mem_singleton.1 (mem_of_getElem? he)
    rw [this, S.term_root]
  obtain ⟨c, l, hel⟩ := V.elected_of_lead he (by omega)
  have R := V.reign t c l hel
  by_cases hi : i < l.length
  · have : l[i]? = some e := by
      rw [getElem?_eq_getElem hi]
      rw [← getElem?_of_isPrefix R.start (getElem?_eq_getElem hi), he]
    exact (R.mandate.terms e (mem_of_getElem? this)).le
  · exact (R.own i e (by omega) he).le

/-- Terms never go down along a sound log. -/
lemma terms_mono (sound : h.Sound S l) {i j : Nat} {a b : E} (hij : i ≤ j)
    (ha : l[i]? = some a) (hb : l[j]? = some b) : S.term a ≤ S.term b := by
  have hi := lt_of_getElem? ha
  have hat : (l.take (j + 1))[i]? = some a := by
    rw [List.getElem?_take_of_lt (by omega), ha]
  exact V.lead_terms (getElem?_of_isPrefix (sound j b hb) hat)

lemma term_le_lastTerm (sound : h.Sound S l) (he : l[i]? = some e) : S.term e ≤ S.lastTerm l := by
  have hi := lt_of_getElem? he
  have hl : l[l.length - 1]? = some (l[l.length - 1]) := List.getElem?_eq_getElem (by omega)
  rw [S.lastTerm_of_getElem? hl]
  exact V.terms_mono sound (by omega) he hl

/-- A leader's own log is sound. -/
lemma lead_sound (t : Nat) : h.Sound S (h.lead t) := by
  intro i e he
  rcases Nat.eq_zero_or_pos t with rfl | ht
  · rw [V.lead_zero] at he ⊢
    have : e = S.root := mem_singleton.1 (mem_of_getElem? he)
    rw [this, S.term_root, V.lead_zero]
    exact take_prefix _ _
  obtain ⟨c, l, hel⟩ := V.elected_of_lead he (by omega)
  have R := V.reign t c l hel
  by_cases hi : i < l.length
  · rw [← take_eq_take_of_isPrefix R.start (by omega : i + 1 ≤ l.length)]
    refine R.mandate.sound i e ?_
    rw [getElem?_eq_getElem hi, ← he, getElem?_of_isPrefix R.start (getElem?_eq_getElem hi)]
  · rw [R.own i e (by omega) he]
    exact take_prefix _ _

/-- An entry of the leader's own term lies past the log it started from. -/
lemma own_index (hel : h.elected t = some (c, l)) {k : Nat}
    (he : (h.lead t)[k]? = some e) (ht : S.term e = t) : l.length ≤ k := by
  by_contra hlt
  have R := V.reign t c l hel
  have : l[k]? = some e := by
    rw [getElem?_eq_getElem (by omega), ← he, getElem?_of_isPrefix R.start (getElem?_eq_getElem (by omega))]
  have := R.mandate.terms e (mem_of_getElem? this)
  omega

/-- A log that ends in a term extends the log its leader started from. -/
lemma start_isPrefix (sound : h.Sound S l) (ne : l ≠ [])
    {l' : List E} (hel : h.elected t = some (c, l')) (ht : S.lastTerm l = t) : l' <+: l := by
  have R := V.reign t c l' hel
  have hl : l <+: h.lead t := ht ▸ sound.last ne
  refine prefix_of_prefix_length_le R.start hl ?_
  have hpos := length_pos_iff.2 ne
  have he : l[l.length - 1]? = some (l[l.length - 1]) := getElem?_eq_getElem (by omega)
  have := V.own_index hel (getElem?_of_isPrefix hl he) (by rw [← S.lastTerm_of_getElem? he, ht])
  omega

end Valid

end Ledger

end BigDb.Lib
