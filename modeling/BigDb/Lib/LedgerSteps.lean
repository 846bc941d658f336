import BigDb.Lib.LedgerComplete

/-!
# The moves that keep a ledger valid

Five moves: a node raises its term, casts a ballot, is elected, appends an entry as the
leader, accepts a leader's entries. Each only adds to the ledger (`Extends`), so whatever
was said of an older ledger by way of ballots, elections, leaders' logs and
acknowledgements stays true, and each keeps `Valid`.
-/

namespace BigDb.Lib.Ledger
open List Function
variable {E N C : Type} {S : Scheme E N C} {h h' : Ledger E N} {t : Nat} {c : N} {l : List E}

/-- A later ledger says everything an earlier one does. -/
structure Extends (h h' : Ledger E N) : Prop where
  term : ∀ v, h.term v ≤ h'.term v
  ballot : ∀ v t b, h.ballot v t = some b → h'.ballot v t = some b
  elected : ∀ t e, h.elected t = some e → h'.elected t = some e
  lead : ∀ t, h.lead t <+: h'.lead t
  acked : ∀ v t i, h.acked v t i → h'.acked v t i

namespace Extends

lemma refl (h : Ledger E N) : Extends h h :=
  ⟨fun _ => le_rfl, fun _ _ _ => id, fun _ _ => id, fun _ => prefix_rfl, fun _ _ _ => id⟩

lemma trans {h'' : Ledger E N} (a : Extends h h') (b : Extends h' h'') : Extends h h'' where
  term v := (a.term v).trans (b.term v)
  ballot v t x hx := b.ballot v t x (a.ballot v t x hx)
  elected t x hx := b.elected t x (a.elected t x hx)
  lead t := (a.lead t).trans (b.lead t)
  acked v t i hx := b.acked v t i (a.acked v t i hx)

variable (grows : Extends h h')
include grows

lemma take_lead {t n : Nat} (hn : n ≤ (h.lead t).length) : (h'.lead t).take n = (h.lead t).take n :=
  (take_eq_take_of_isPrefix (grows.lead t) hn).symm

lemma sound (hs : h.Sound S l) : h'.Sound S l :=
  fun i e he => (hs i e he).trans (grows.lead _)

lemma chosen {t k n : Nat} (hc : h.Chosen S t k n) : h'.Chosen S t k n := by
  obtain ⟨hkn, hn, ⟨e, he, het⟩, Q, hQ, hack⟩ := hc
  refine ⟨hkn, hn.trans (grows.lead t).length_le, ⟨e, getElem?_of_isPrefix (grows.lead t) he, het⟩, Q,
    ?_, fun v hv => ?_⟩
  · rw [grows.take_lead hn]
    exact hQ
  · obtain ⟨i, hki, ha⟩ := hack v hv
    exact ⟨i, hki, grows.acked v t i ha⟩

lemma kept {t j b : Nat} (hj : j < (h.lead t).length) (hk : h.Kept t j l b) : h'.Kept t j l b := by
  rw [Kept, grows.take_lead (by omega)]
  rcases hk with hl | ⟨u, c, l', htu, hub, hel, hno⟩
  · exact .inl hl
  · exact .inr ⟨u, c, l', htu, hub, grows.elected u _ hel, hno⟩

lemma mandate {t : Nat} {c : N} (M : h.Mandate S t c l) : h'.Mandate S t c l := by
  obtain ⟨Q, hQ, hv⟩ := M.votes
  refine ⟨grows.sound M.sound, M.root, M.terms, Q, hQ, fun v hvQ => ?_⟩
  obtain ⟨l', hb, newer⟩ := hv v hvQ
  exact ⟨l', grows.ballot v t _ hb, newer⟩

lemma mayChange {t d : Nat} (hd : d ≤ (h.lead t).length) (hm : h.MayChange S t d) : h'.MayChange S t d := by
  obtain ⟨k, n, hc, hn, hall⟩ := hm
  refine ⟨k, n, grows.chosen hc, hn, fun j e hj he => hall j e hj ?_⟩
  rw [← getElem?_take_of_lt hj, ← grows.take_lead hd, getElem?_take_of_lt hj, he]

end Extends

/-- Acknowledgements are given in the term the node is in. -/
def FreshAcks (h h' : Ledger E N) : Prop :=
  ∀ v t i, h'.acked v t i → h.acked v t i ∨ h.term v ≤ t

/-- What is known of a term carries over, its leader's log aside. -/
lemma Reign.extend (V : h.Valid S) (grows : Extends h h') (fresh : FreshAcks h h') (R : h.Reign S t c l)
    (own : ∀ i e, l.length ≤ i → (h'.lead t)[i]? = some e → S.term e = t)
    (leader_log : h'.term c = t → h'.log c = h'.lead t)
    (change : ∀ d e x, (h.lead t).length ≤ d → (h'.lead t)[d]? = some e → S.conf? e = some x →
      S.near (S.conf ((h'.lead t).take d)) x ∧ h'.MayChange S t d) :
    h'.Reign S t c l where
  mandate := grows.mandate R.mandate
  start := R.start.trans (grows.lead t)
  own := own
  early := by
    obtain ⟨Q, hQ, hv⟩ := R.early
    refine ⟨Q, hQ, fun v hvQ => ?_⟩
    obtain ⟨l', hb, newer, kept⟩ := hv v hvQ
    refine ⟨l', grows.ballot v t _ hb, newer, fun s i j ha hj hs => ?_⟩
    rcases fresh v s i ha with ha | hle
    · exact grows.kept (by have := V.acked_lt v s i ha; omega) (kept s i j ha hj hs)
    · have := V.ballot_term v t c l' hb
      omega
  term_le := R.term_le.trans (grows.term c)
  leader_log := leader_log
  change := by
    intro d e x hd he hx
    by_cases hlt : d < (h.lead t).length
    · have hold : (h.lead t)[d]? = some e := by
        rw [getElem?_eq_getElem hlt, ← he, getElem?_of_isPrefix (grows.lead t) (getElem?_eq_getElem hlt)]
      obtain ⟨hnear, hmay⟩ := R.change d e x hd hold hx
      rw [grows.take_lead hlt.le]
      exact ⟨hnear, grows.mayChange hlt.le hmay⟩
    · exact change d e x (by omega) he hx

/-- The same when the leaders' logs are as they were. -/
lemma Reign.extend_same (V : h.Valid S) (grows : Extends h h') (fresh : FreshAcks h h')
    (same : h'.lead = h.lead) (R : h.Reign S t c l)
    (leader_log : h'.term c = t → h'.log c = h.lead t) : h'.Reign S t c l := by
  refine R.extend V grows fresh ?_ ?_ ?_
  · rw [same]
    exact R.own
  · rw [same]
    exact leader_log
  · intro d e x hd he
    rw [same, getElem?_eq_none hd] at he
    cases he

/-! ## Merging logs -/

/-- The log a node has after taking the first `k` entries of a leader's: its own, if they
are in it, and those entries alone otherwise. -/
def Merged (old new l : List E) : Prop := (new <+: old ∧ l = old) ∨ (¬ new <+: old ∧ l = new)

lemma Merged.prefix_of {old new l : List E} (hm : Merged old new l) : new <+: l := by
  rcases hm with ⟨hp, rfl⟩ | ⟨-, rfl⟩
  · exact hp
  · exact prefix_rfl

variable {k : Nat} {v : N} {e : E}

/-- A prefix common to both logs survives. -/
lemma Merged.keeps {old full l x : List E} (hm : Merged old (full.take k) l)
    (h1 : x <+: old) (h2 : x <+: full) : x <+: l := by
  rcases hm with ⟨-, rfl⟩ | ⟨hno, rfl⟩
  · exact h1
  refine prefix_take_iff.2 ⟨h2, ?_⟩
  by_contra hlt
  refine hno (List.IsPrefix.trans ?_ h1)
  rw [← take_eq_take_of_isPrefix h2 (by omega)]
  exact take_prefix _ _

/-! ## Winning an election -/

/-- A node leads the term it is in, from the log it holds. -/
def elect (h : Ledger E N) (c : N) : Ledger E N :=
  { h with
    elected := update h.elected (h.term c) (some (c, h.log c))
    lead := update h.lead (h.term c) (h.log c) }

/-- Nobody else can have been elected in a term for which a node has a mandate. -/
lemma Valid.elected_none (V : h.Valid S) (M : h.Mandate S t c (h.log c))
    (first : ∀ l, h.elected t ≠ some (c, l)) : h.elected t = none := by
  cases hel : h.elected t with
  | none => rfl
  | some p =>
    obtain ⟨d, l⟩ := p
    have := Mandate.unique V (V.reign t d l hel).mandate M
    exact (first l (this ▸ hel)).elim

lemma extends_elect (V : h.Valid S) (hpos : h.term c ≠ 0)
    (hnone : h.elected (h.term c) = none) : Extends h (h.elect c) where
  term _ := le_rfl
  ballot _ _ _ := id
  elected t e he := by
    have : t ≠ h.term c := by
      rintro rfl
      rw [hnone] at he
      cases he
    simpa [elect, this] using he
  lead t := by
    by_cases ht : t = h.term c
    · subst ht
      rw [V.lead_none _ hpos hnone]
      exact nil_prefix
    · simp [elect, ht]
  acked _ _ _ := id

lemma Valid.elect (V : h.Valid S) (M : h.Mandate S (h.term c) c (h.log c))
    (first : ∀ l, h.elected (h.term c) ≠ some (c, l)) : (h.elect c).Valid S := by
  have hnone := V.elected_none M first
  have hpos : h.term c ≠ 0 := by
    intro h0
    have := M.terms S.root (M.root.subset (mem_singleton_self _))
    omega
  have grows := extends_elect V hpos hnone
  have lead_ne : ∀ {t}, t ≠ h.term c → (h.elect c).lead t = h.lead t := fun ht => by
    simp [Ledger.elect, ht]
  have lead_eq : (h.elect c).lead (h.term c) = h.log c := by simp [Ledger.elect]
  refine { V with
    lead_zero := by rw [lead_ne hpos.symm]; exact V.lead_zero
    elected_zero := by simpa [Ledger.elect, hpos.symm] using V.elected_zero
    lead_none := fun t ht hel => ?_
    reign := fun t d l hel => ?_
    log_sound := fun v => grows.sound (V.log_sound v)
    ballot_sound := fun v t d l hb => grows.sound (V.ballot_sound v t d l hb)
    ballot_kept := fun v t d l s i j hb ha hj hs =>
      grows.kept (by have := V.acked_lt v s i ha; omega) (V.ballot_kept v t d l s i j hb ha hj hs)
    acked_elected := fun v t i ha => ?_
    acked_lt := fun v t i ha => (V.acked_lt v t i ha).trans_le (grows.lead t).length_le
    log_kept := fun v t i j ha hj =>
      grows.kept (by have := V.acked_lt v t i ha; omega) (V.log_kept v t i j ha hj) }
  · have hne : t ≠ h.term c := by
      rintro rfl
      simp [Ledger.elect] at hel
    rw [lead_ne hne]
    exact V.lead_none t ht (by simpa [Ledger.elect, hne] using hel)
  · by_cases ht : t = h.term c
    · subst ht
      obtain ⟨rfl, rfl⟩ : c = d ∧ h.log c = l := by simpa [Ledger.elect] using hel
      refine {
        mandate := grows.mandate M
        start := by rw [lead_eq]
        own := fun i e hi he => ?_
        early := ?_
        term_le := le_rfl
        leader_log := fun _ => lead_eq.symm
        change := fun i e x hi he => ?_ }
      · rw [lead_eq, getElem?_eq_none hi] at he
        cases he
      · -- nobody led this term yet, so what a voter lost it lost to an earlier leader
        obtain ⟨Q, hQ, hv⟩ := M.votes
        refine ⟨Q, hQ, fun v hvQ => ?_⟩
        obtain ⟨l', hb, newer⟩ := hv v hvQ
        refine ⟨l', hb, newer, fun s i j ha hj hs => ?_⟩
        refine grows.kept (by have := V.acked_lt v s i ha; omega) ?_
        rcases V.ballot_kept v _ _ l' s i j hb ha hj hs with hl | ⟨u, d, l'', h1, h2, h3, h4⟩
        · exact .inl hl
        have : u ≠ h.term c := by
          rintro rfl
          rw [hnone] at h3
          cases h3
        exact .inr ⟨u, d, l'', h1, by omega, h3, h4⟩
      · rw [lead_eq, getElem?_eq_none hi] at he
        cases he
    · have R := V.reign t d l (by simpa [Ledger.elect, ht] using hel)
      refine R.extend V grows (fun _ _ _ => .inl) ?_ ?_ ?_
      · rw [lead_ne ht]
        exact R.own
      · rw [lead_ne ht]
        exact R.leader_log
      · intro i e x hi he
        rw [lead_ne ht, getElem?_eq_none hi] at he
        cases he
  · obtain ⟨d, l, hel⟩ := V.acked_elected v t i ha
    exact ⟨d, l, grows.elected t _ hel⟩

variable [DecidableEq N]

/-! ## Raising a term -/

/-- A node moves to a later term. -/
def raise (h : Ledger E N) (v : N) (t : Nat) : Ledger E N :=
  { h with term := update h.term v t }

lemma extends_raise (ht : h.term v ≤ t) : Extends h (h.raise v t) where
  term u := by
    by_cases hu : u = v
    · subst hu; simpa [raise] using ht
    · simp [raise, hu]
  ballot _ _ _ := id
  elected _ _ := id
  lead _ := prefix_rfl
  acked _ _ _ := id

lemma Valid.raise (V : h.Valid S) (ht : h.term v ≤ t) : (h.raise v t).Valid S := by
  have grows := extends_raise (h := h) ht
  refine { V with
    reign := fun u c l hel => ?_
    log_terms := fun u e he => (V.log_terms u e he).trans (grows.term u)
    ballot_term := fun u s c l hb => (V.ballot_term u s c l hb).trans (grows.term u)
    acked_term := fun u s i ha => (V.acked_term u s i ha).trans (grows.term u)
    log_kept := fun u s i j ha hj => ?_ }
  · have R := V.reign u c l hel
    refine R.extend_same V grows (fun _ _ _ => .inl) rfl fun hc => ?_
    have := R.term_le
    have := grows.term c
    exact R.leader_log (by omega)
  · rcases V.log_kept u s i j ha hj with hl | ⟨w, c, l', h1, h2, h3⟩
    · exact .inl hl
    · exact .inr ⟨w, c, l', h1, by have := grows.term u; omega, h3⟩

/-! ## Casting a ballot -/

/-- A node votes in the term it is in. -/
def vote (h : Ledger E N) (v c : N) : Ledger E N :=
  { h with ballot := fun u s => if u = v ∧ s = h.term v then some (c, h.log v) else h.ballot u s }

lemma extends_vote {v c : N} (hfree : h.ballot v (h.term v) = none) : Extends h (h.vote v c) where
  term _ := le_rfl
  ballot u s b hb := by
    have : ¬ (u = v ∧ s = h.term v) := by
      rintro ⟨rfl, rfl⟩
      rw [hfree] at hb
      cases hb
    simpa [vote, this] using hb
  elected _ _ := id
  lead _ := prefix_rfl
  acked _ _ _ := id

/-- A ballot of the new ledger is an old one or the one just cast. -/
lemma ballot_vote {v c u d : N} {s : Nat} (hb : (h.vote v c).ballot u s = some (d, l)) :
    h.ballot u s = some (d, l) ∨ (u = v ∧ s = h.term v ∧ d = c ∧ l = h.log v) := by
  unfold vote at hb
  simp only at hb
  split at hb
  · next hu =>
    obtain ⟨rfl, rfl⟩ := hu
    cases hb
    exact .inr ⟨rfl, rfl, rfl, rfl⟩
  · exact .inl hb

lemma Valid.vote (V : h.Valid S) {v c : N} (hfree : h.ballot v (h.term v) = none)
    (self : c = v → ∀ e ∈ h.log v, S.term e < h.term v) : (h.vote v c).Valid S := by
  have grows := extends_vote (h := h) (c := c) hfree
  refine { V with
    reign := fun t d l hel => ?_
    ballot_term := fun u s d l hb => ?_
    ballot_sound := fun u s d l hb => ?_
    ballot_root := fun u s d l hb => ?_
    ballot_self := fun u s l hb => ?_
    ballot_kept := fun u s d l t i j hb ha hj ht => ?_ }
  · have R := V.reign t d l hel
    exact R.extend_same V grows (fun _ _ _ => .inl) rfl R.leader_log
  · rcases ballot_vote hb with hb | ⟨rfl, rfl, -, -⟩
    · exact V.ballot_term u s d l hb
    · exact le_rfl
  · rcases ballot_vote hb with hb | ⟨rfl, -, -, rfl⟩
    · exact V.ballot_sound u s d l hb
    · exact V.log_sound u
  · rcases ballot_vote hb with hb | ⟨rfl, -, -, rfl⟩
    · exact V.ballot_root u s d l hb
    · exact V.log_root u
  · rcases ballot_vote hb with hb | ⟨rfl, rfl, hc, rfl⟩
    · exact V.ballot_self u s l hb
    · exact self hc.symm
  · rcases ballot_vote hb with hb | ⟨rfl, rfl, -, rfl⟩
    · exact V.ballot_kept u s d l t i j hb ha hj ht
    · exact V.log_kept u t i j ha hj

/-! ## Appending as the leader -/

/-- The leader of the term `c` is in appends an entry, and holds it. -/
def append (h : Ledger E N) (c : N) (e : E) : Ledger E N :=
  { h with
    log := update h.log c (h.log c ++ [e])
    lead := update h.lead (h.term c) (h.lead (h.term c) ++ [e])
    acked := fun v t i => h.acked v t i ∨ (v = c ∧ t = h.term c ∧ i ≤ (h.log c).length) }

lemma extends_append : Extends h (h.append c e) where
  term _ := le_rfl
  ballot _ _ _ := id
  elected _ _ := id
  lead t := by
    by_cases ht : t = h.term c
    · subst ht; simp [append]
    · simp [append, ht]
  acked _ _ _ := .inl

lemma Valid.append (V : h.Valid S) (hel : h.elected (h.term c) = some (c, l)) (het : S.term e = h.term c)
    (rule : ∀ x, S.conf? e = some x → S.near (S.conf (h.log c)) x ∧ h.MayChange S (h.term c) (h.log c).length) :
    (h.append c e).Valid S := by
  have grows := extends_append (h := h) (c := c) (e := e)
  have R := V.reign _ c l hel
  have hlog := R.leader_log rfl
  have fresh : FreshAcks h (h.append c e) := by
    rintro v t i (ha | ⟨rfl, rfl, -⟩)
    · exact .inl ha
    · exact .inr le_rfl
  have lead_ne : ∀ {t}, t ≠ h.term c → (h.append c e).lead t = h.lead t := fun ht => by
    simp [Ledger.append, ht]
  have lead_eq : (h.append c e).lead (h.term c) = h.lead (h.term c) ++ [e] := by
    simp [Ledger.append]
  have log_ne : ∀ {v}, v ≠ c → (h.append c e).log v = h.log v := fun hv => by
    simp [Ledger.append, hv]
  have log_eq : (h.append c e).log c = h.lead (h.term c) ++ [e] := by simp [Ledger.append, hlog]
  have hpos : h.term c ≠ 0 := by
    intro h0
    rw [h0, V.elected_zero] at hel
    cases hel
  refine { V with
    lead_zero := by rw [lead_ne hpos.symm]; exact V.lead_zero
    lead_none := fun t ht hn => ?_
    reign := fun t d l' hel' => ?_
    log_root := (forall_update_iff _ fun _ l => [S.root] <+: l).2
      ⟨(V.log_root c).trans (prefix_append _ _), fun v _ => V.log_root v⟩
    log_sound := (forall_update_iff _ fun _ l => (h.append c e).Sound S l).2
      ⟨?_, fun v _ => grows.sound (V.log_sound v)⟩
    log_terms := (forall_update_iff _ fun v l => ∀ x ∈ l, S.term x ≤ h.term v).2
      ⟨fun x hx => ?_, fun v _ => V.log_terms v⟩
    ballot_sound := fun v t d l' hb => grows.sound (V.ballot_sound v t d l' hb)
    ballot_kept := fun v t d l' s i j hb ha hj hs => ?_
    acked_term := fun v t i ha => ?_
    acked_elected := fun v t i ha => ?_
    acked_lt := fun v t i ha => ?_
    log_kept := fun v t i j ha hj => ?_ }
  · have hne : t ≠ h.term c := by
      rintro rfl
      have : h.elected (h.term c) = none := hn
      rw [hel] at this
      cases this
    rw [lead_ne hne]
    exact V.lead_none t ht hn
  · have R' := V.reign t d l' hel'
    by_cases ht : t = h.term c
    · subst ht
      obtain ⟨rfl, rfl⟩ : c = d ∧ l = l' := by
        have : some (c, l) = some (d, l') := hel.symm.trans hel'
        simpa using this
      refine R.extend V grows fresh (fun i x hi hx => ?_) (fun _ => log_eq.trans lead_eq.symm) fun i x y hi hx hy => ?_
      · rw [lead_eq] at hx
        by_cases hlt : i < (h.lead (h.term c)).length
        · rw [getElem?_append_left hlt] at hx
          exact R.own i x hi hx
        · rw [getElem?_append_right (by omega)] at hx
          rw [mem_singleton.1 (mem_of_getElem? hx), het]
      · rw [lead_eq] at hx
        rw [getElem?_append_right hi] at hx
        have hx' := mem_singleton.1 (mem_of_getElem? hx)
        subst hx'
        have hi' : i = (h.lead (h.term c)).length := by
          have := lt_of_getElem? hx
          simp only [length_singleton] at this
          omega
        subst hi'
        obtain ⟨hnear, hmay⟩ := rule y hy
        rw [grows.take_lead le_rfl, take_length]
        rw [hlog] at hnear hmay
        exact ⟨hnear, grows.mayChange le_rfl hmay⟩
    · refine R'.extend V grows fresh ?_ (fun hd => ?_) ?_
      · rw [lead_ne ht]
        exact R'.own
      · have hdc : d ≠ c := by
          rintro rfl
          exact ht hd.symm
        rw [lead_ne ht, log_ne hdc]
        exact R'.leader_log hd
      · intro i x y hi hx
        rw [lead_ne ht, getElem?_eq_none hi] at hx
        cases hx
  · rw [hlog]
    intro i x hx
    by_cases hlt : i < (h.lead (h.term c)).length
    · rw [getElem?_append_left hlt] at hx
      rw [take_append_of_le_length (by omega)]
      exact (V.lead_sound _ i x hx).trans (grows.lead _)
    · rw [getElem?_append_right (by omega)] at hx
      rw [mem_singleton.1 (mem_of_getElem? hx), het, lead_eq]
      exact take_prefix _ _
  · rw [mem_append, mem_singleton] at hx
    rcases hx with hx | rfl
    · exact V.log_terms c x hx
    · exact het.le
  · rcases ha with ha | ⟨rfl, rfl, -⟩
    · exact grows.kept (by have := V.acked_lt v s i ha; omega) (V.ballot_kept v t d l' s i j hb ha hj hs)
    · have := V.ballot_term v t d l' hb
      omega
  · rcases ha with ha | ⟨rfl, rfl, -⟩
    · exact V.acked_term v t i ha
    · exact le_rfl
  · rcases ha with ha | ⟨rfl, rfl, -⟩
    · exact V.acked_elected v t i ha
    · exact ⟨v, l, hel⟩
  · rcases ha with ha | ⟨rfl, rfl, hi⟩
    · exact (V.acked_lt v t i ha).trans_le (grows.lead t).length_le
    · rw [lead_eq, ← hlog, length_append, length_singleton]
      omega
  · rcases ha with ha | ⟨rfl, rfl, hi⟩
    · have hlt : j < (h.lead t).length := by have := V.acked_lt v t i ha; omega
      have hk := grows.kept hlt (V.log_kept v t i j ha hj)
      by_cases hv : v = c
      · subst hv
        rcases hk with hl | hr
        · refine .inl (hl.trans ?_)
          rw [log_eq, ← hlog]
          exact prefix_append _ _
        · exact .inr hr
      · rw [log_ne hv]
        exact hk
    · left
      rw [log_eq, lead_eq]
      exact take_prefix _ _

/-! ## Accepting a leader's entries -/

/-- A node of the leader's term takes its log to be `l` and acknowledges `k` entries. -/
def accept (h : Ledger E N) (v : N) (k : Nat) (l : List E) : Ledger E N :=
  { h with
    log := update h.log v l
    acked := fun u t i => h.acked u t i ∨ (u = v ∧ t = h.term v ∧ i < k) }

lemma extends_accept : Extends h (h.accept v k l) where
  term _ := le_rfl
  ballot _ _ _ := id
  elected _ _ := id
  lead _ := prefix_rfl
  acked _ _ _ := .inl

lemma Valid.accept (V : h.Valid S) {v c : N} {l₀ l : List E}
    (hel : h.elected (h.term v) = some (c, l₀)) (hk : k ≤ (h.lead (h.term v)).length) (hk0 : 0 < k)
    (hm : Merged (h.log v) ((h.lead (h.term v)).take k) l) : (h.accept v k l).Valid S := by
  have grows := extends_accept (h := h) (v := v) (k := k) (l := l)
  have R := V.reign _ c l₀ hel
  have fresh : FreshAcks h (h.accept v k l) := by
    rintro u t i (ha | ⟨rfl, rfl, -⟩)
    · exact .inl ha
    · exact .inr le_rfl
  have log_ne : ∀ {u}, u ≠ v → (h.accept v k l).log u = h.log u := fun hu => by
    simp [Ledger.accept, hu]
  have log_eq : (h.accept v k l).log v = l := by simp [Ledger.accept]
  have take_root : [S.root] <+: (h.lead (h.term v)).take k :=
    prefix_take_iff.2 ⟨R.mandate.root.trans R.start, Nat.succ_le_of_lt hk0⟩
  refine { V with
    reign := fun t d l' hel' => ?_
    log_root := (forall_update_iff _ fun _ l => [S.root] <+: l).2
      ⟨take_root.trans hm.prefix_of, fun u _ => V.log_root u⟩
    log_sound := (forall_update_iff _ fun _ l => h.Sound S l).2 ⟨?_, fun u _ => V.log_sound u⟩
    log_terms := (forall_update_iff _ fun u l => ∀ x ∈ l, S.term x ≤ h.term u).2
      ⟨fun x hx => ?_, fun u _ => V.log_terms u⟩
    ballot_sound := fun u t d l' hb => grows.sound (V.ballot_sound u t d l' hb)
    ballot_kept := fun u t d l' s i j hb ha hj hs => ?_
    acked_term := fun u t i ha => ?_
    acked_elected := fun u t i ha => ?_
    acked_lt := fun u t i ha => ?_
    log_kept := fun u t i j ha hj => ?_ }
  · have R' := V.reign t d l' hel'
    refine R'.extend_same V grows fresh rfl fun hd => ?_
    by_cases hdv : d = v
    · -- the leader itself already holds what it would take
      subst hdv
      obtain rfl : h.term d = t := hd
      have hlog := R'.leader_log rfl
      rw [log_eq, ← hlog]
      rcases hm with ⟨-, rfl⟩ | ⟨hno, -⟩
      · rfl
      · rw [hlog] at hno
        exact (hno (List.take_prefix _ _)).elim
    · rw [log_ne hdv]
      exact R'.leader_log hd
  · rcases hm with ⟨-, rfl⟩ | ⟨-, rfl⟩
    · exact V.log_sound v
    · exact (V.lead_sound _).of_isPrefix (List.take_prefix _ _)
  · rcases hm with ⟨-, rfl⟩ | ⟨-, rfl⟩
    · exact V.log_terms v x hx
    · obtain ⟨i, hi⟩ := mem_iff_getElem?.1 (mem_of_mem_take hx)
      exact V.lead_terms hi
  · rcases ha with ha | ⟨rfl, rfl, -⟩
    · exact V.ballot_kept u t d l' s i j hb ha hj hs
    · have := V.ballot_term u t d l' hb
      omega
  · rcases ha with ha | ⟨rfl, rfl, -⟩
    · exact V.acked_term u t i ha
    · exact le_rfl
  · rcases ha with ha | ⟨rfl, rfl, -⟩
    · exact V.acked_elected u t i ha
    · exact ⟨c, l₀, hel⟩
  · rcases ha with ha | ⟨rfl, rfl, hi⟩
    · exact V.acked_lt u t i ha
    · exact hi.trans_le hk
  · rcases ha with ha | ⟨rfl, rfl, hi⟩
    · have hkept := V.log_kept u t i j ha hj
      by_cases hu : u = v
      · subst hu
        show Kept (h.accept u k l) t j ((h.accept u k l).log u) (h.term u + 1)
        rw [log_eq]
        rcases hkept with hl | hr
        · -- entries the new leader started with are common to both logs
          rcases Nat.lt_or_eq_of_le (V.acked_term u t i ha) with hlt | rfl
          · by_cases hin : (h.lead t).take (j + 1) <+: l₀
            · exact .inl (hm.keeps hl (hin.trans R.start))
            · exact .inr ⟨_, c, l₀, hlt, Nat.lt_succ_self _, hel, hin⟩
          · exact .inl (hm.keeps hl (List.take_prefix _ _))
        · exact .inr hr
      · rw [log_ne hu]
        exact hkept
    · left
      rw [log_eq]
      exact (take_prefix_take_left (by omega)).trans hm.prefix_of

end BigDb.Lib.Ledger
