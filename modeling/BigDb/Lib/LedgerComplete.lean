import BigDb.Lib.Ledger

/-!
# What was chosen is in every later leader's log

Two results about a valid ledger. `conf_close`: two logs that both hold everything chosen
before a term describe configurations that are equal or one small change apart, however
far the logs themselves have diverged. `complete`: a mandate for a term holds everything
chosen in earlier terms, by induction on the term; the deciding sets meet because the
configurations are close, and the node in both carries the chosen entries over.
-/

namespace BigDb.Lib.Ledger
open List Option
variable {E N C : Type} {S : Scheme E N C} {h : Ledger E N} {l₁ l₂ : List E}

/-- A log holds everything chosen in terms before `t`. -/
def Complete (S : Scheme E N C) (h : Ledger E N) (t : Nat) (l : List E) : Prop :=
  ∀ s k n, s < t → h.Chosen S s k n → (h.lead s).take (k + 1) <+: l

/-- Configurations whose deciding sets meet. -/
def Close (S : Scheme E N C) (c c' : C) : Prop := c = c' ∨ S.near c c' ∨ S.near c' c

lemma Close.meet {c c' : C} (close : Close S c c') {Q Q' : Finset N} (hQ : S.quorum c Q)
    (hQ' : S.quorum c' Q') : ∃ v, v ∈ Q ∧ v ∈ Q' := by
  rcases close with rfl | hn | hn
  · exact S.meet hQ hQ'
  · exact S.meet_near hn hQ hQ'
  · obtain ⟨v, hv', hv⟩ := S.meet_near hn hQ' hQ
    exact ⟨v, hv, hv'⟩

/-- The deciding set of a choice has somebody in it, so its term has a leader. -/
lemma Chosen.elected (V : h.Valid S) {t k n : Nat} (hc : h.Chosen S t k n) : ∃ c l, h.elected t = some (c, l) := by
  obtain ⟨-, -, -, Q, hQ, hack⟩ := hc
  obtain ⟨v, hv, -⟩ := S.meet hQ hQ
  obtain ⟨i, -, ha⟩ := hack v hv
  exact V.acked_elected v t i ha

/-! ## Where two logs part -/

/-- The length of the longest common start of two logs. -/
structure Parts (l₁ l₂ : List E) (p : Nat) : Prop where
  le_left : p ≤ l₁.length
  le_right : p ≤ l₂.length
  same : l₁.take p = l₂.take p
  max : ∀ q, q ≤ l₁.length → q ≤ l₂.length → l₁.take q = l₂.take q → q ≤ p

variable {c : N} {p : Nat} {e : E}

lemma Parts.symm (hp : Parts l₁ l₂ p) : Parts l₂ l₁ p :=
  ⟨hp.le_right, hp.le_left, hp.same.symm, fun q h1 h2 h3 => hp.max q h2 h1 h3.symm⟩

lemma exists_parts (l₁ l₂ : List E) : ∃ p, Parts l₁ l₂ p := by
  classical
  let ok := fun q => q ≤ l₁.length ∧ q ≤ l₂.length ∧ l₁.take q = l₂.take q
  have h0 : ok 0 := ⟨Nat.zero_le _, Nat.zero_le _, by simp⟩
  have spec : ok (Nat.findGreatest ok l₁.length) := Nat.findGreatest_spec (Nat.zero_le _) h0
  exact ⟨_, spec.1, spec.2.1, spec.2.2, fun q h1 h2 h3 => Nat.le_findGreatest h1 ⟨h1, h2, h3⟩⟩

/-- A common prefix is no longer than the point where the logs part. -/
lemma Parts.of_isPrefix (hp : Parts l₁ l₂ p) {x : List E} (h1 : x <+: l₁) (h2 : x <+: l₂) : x.length ≤ p :=
  hp.max _ h1.length_le h2.length_le
    ((take_eq_take_of_isPrefix h1 le_rfl).symm.trans (take_eq_take_of_isPrefix h2 le_rfl))

variable (V : h.Valid S)
include V

variable {l : List E} {t : Nat}

/-- A configuration entry of a sound log was appended under the rule for changes: its
leader had by then chosen an entry of its own at or past every configuration before it. -/
lemma change_rule (sound : h.Sound S l) {d : Nat} (he : l[d]? = some e) (hc : S.conf? e ≠ none) :
    S.near (S.conf (l.take d)) (S.conf (l.take (d + 1))) ∧
      ∃ k n, h.Chosen S (S.term e) k n ∧ n ≤ d ∧ (h.lead (S.term e)).take (k + 1) <+: l ∧
        ∀ j x, j < d → l[j]? = some x → S.conf? x ≠ none → j ≤ k := by
  have hd := lt_of_getElem? he
  have hpre := sound d e he
  have hlead : (h.lead (S.term e))[d]? = some e :=
    getElem?_of_isPrefix hpre (by rw [List.getElem?_take_of_lt (by omega), he])
  have hlen : (l.take (d + 1)).length = d + 1 := by rw [length_take]; omega
  have hsame : ∀ m, m ≤ d + 1 → (h.lead (S.term e)).take m = l.take m := by
    intro m hm
    rw [← take_eq_take_of_isPrefix hpre (by omega), take_take, min_eq_left hm]
  obtain ⟨x, hx⟩ := Option.ne_none_iff_exists'.1 hc
  have ht : S.term e ≠ 0 := by
    intro h0
    rw [h0, V.lead_zero] at hlead
    rw [mem_singleton.1 (mem_of_getElem? hlead), S.conf_root] at hx
    cases hx
  obtain ⟨c, l', hel⟩ := V.elected_of_lead hlead ht
  have R := V.reign _ c l' hel
  obtain ⟨hnear, k, n, hch, hn, hall⟩ := R.change d e x (V.own_index hel hlead rfl) hlead hx
  refine ⟨?_, k, n, hch, hn, ?_, fun j y hj hy => hall j y hj ?_⟩
  · rw [S.conf_take_succ he, hx, Option.getD_some, ← hsame d (by omega)]
    exact hnear
  · have := hch.1
    rw [hsame (k + 1) (by omega)]
    exact take_prefix _ _
  · rw [← hy, ← List.getElem?_take_of_lt hj, hsame d (by omega), List.getElem?_take_of_lt hj]

/-- Past the point where it parts from a complete log, a sound log changes its
configuration at most once. -/
lemma one_change (s₁ : h.Sound S l₁) (ht : ∀ e ∈ l₁, S.term e < t)
    (c₂ : h.Complete S t l₂) {p d : Nat} (hp : Parts l₁ l₂ p) (hd : S.FirstChange l₁ p d e) :
    S.conf l₁ = S.conf (l₁.take (d + 1)) := by
  have hdl := lt_of_getElem? hd.entry
  rcases S.quiet_or_change l₁ (d + 1) l₁.length with quiet | ⟨d₂, e₂, hd₂, F⟩
  · rw [← S.conf_take_eq (by omega) quiet, take_length]
  -- a second change needs the first to have been chosen, so the other log has it too
  obtain ⟨-, k, n, hch, hn, hpre, hall⟩ := change_rule V s₁ F.entry F.change
  have hk : d ≤ k := hall d e (by have := F.le; omega) hd.entry hd.change
  have h2 := c₂ _ _ _ (ht e₂ (mem_of_getElem? F.entry)) hch
  have := hp.of_isPrefix hpre h2
  have hlen : ((h.lead (S.term e₂)).take (k + 1)).length = k + 1 := by
    rw [length_take]
    have := hch.1; have := hch.2.1
    omega
  have := hd.le
  omega

/-- Two complete logs do not both change their configuration past the point where they
part. -/
lemma not_both_change (s₁ : h.Sound S l₁) (s₂ : h.Sound S l₂)
    (t₁ : ∀ e ∈ l₁, S.term e < t) (t₂ : ∀ e ∈ l₂, S.term e < t) (c₁ : h.Complete S t l₁)
    (c₂ : h.Complete S t l₂) {p d₁ d₂ : Nat} (hp : Parts l₁ l₂ p) {e₁ e₂ : E}
    (h₁ : S.FirstChange l₁ p d₁ e₁) (h₂ : S.FirstChange l₂ p d₂ e₂) : False := by
  obtain ⟨-, k₁, n₁, ch₁, -, pre₁, -⟩ := change_rule V s₁ h₁.entry h₁.change
  obtain ⟨-, k₂, n₂, ch₂, -, pre₂, -⟩ := change_rule V s₂ h₂.entry h₂.change
  -- what each leader had chosen before it changed the configuration is common to both logs
  have at₁ : ∀ {s k n}, h.Chosen S s k n → ((h.lead s).take (k + 1)).length = k + 1 ∧
      ∃ x, ((h.lead s).take (k + 1))[k]? = some x ∧ S.term x = s := by
    rintro s k n ⟨hkn, hn, ⟨x, hx, hxt⟩, -⟩
    refine ⟨by rw [length_take]; omega, x, ?_, hxt⟩
    rw [getElem?_take_of_lt (by omega), hx]
  obtain ⟨len₁, x₁, hx₁, xt₁⟩ := at₁ ch₁
  obtain ⟨len₂, x₂, hx₂, xt₂⟩ := at₁ ch₂
  have in₂ := c₂ _ _ _ (t₁ e₁ (mem_of_getElem? h₁.entry)) ch₁
  have in₁ := c₁ _ _ _ (t₂ e₂ (mem_of_getElem? h₂.entry)) ch₂
  have k₁p := hp.of_isPrefix pre₁ in₂
  have k₂p := hp.of_isPrefix in₁ pre₂
  have le₁₂ : S.term e₁ ≤ S.term e₂ := by
    rw [← xt₁]
    exact V.terms_mono s₂ (by have := h₂.le; omega) (getElem?_of_isPrefix in₂ hx₁) h₂.entry
  have le₂₁ : S.term e₂ ≤ S.term e₁ := by
    rw [← xt₂]
    exact V.terms_mono s₁ (by have := h₁.le; omega) (getElem?_of_isPrefix in₁ hx₂) h₁.entry
  have heq : S.term e₁ = S.term e₂ := le_antisymm le₁₂ le₂₁
  -- so both changes are in the log of one leader, and the earlier one is common as well
  have q₁ := s₁ _ _ h₁.entry
  have q₂ := s₂ _ _ h₂.entry
  rw [heq] at q₁
  have l₁' : d₁ < l₁.length := lt_of_getElem? h₁.entry
  have l₂' : d₂ < l₂.length := lt_of_getElem? h₂.entry
  have hm : l₁.take (min d₁ d₂ + 1) = l₂.take (min d₁ d₂ + 1) := by
    have e1 := take_eq_take_of_isPrefix q₁ (n := min d₁ d₂ + 1) (by rw [length_take]; omega)
    have e2 := take_eq_take_of_isPrefix q₂ (n := min d₁ d₂ + 1) (by rw [length_take]; omega)
    rw [take_take, min_eq_left (by omega)] at e1 e2
    rw [e1, e2]
  have := hp.max _ (by omega) (by omega) hm
  have := h₁.le
  have := h₂.le
  omega

/-- Two complete logs describe configurations at most one small change apart. -/
lemma conf_close (s₁ : h.Sound S l₁) (s₂ : h.Sound S l₂)
    (t₁ : ∀ e ∈ l₁, S.term e < t) (t₂ : ∀ e ∈ l₂, S.term e < t) (c₁ : h.Complete S t l₁)
    (c₂ : h.Complete S t l₂) : Close S (S.conf l₁) (S.conf l₂) := by
  obtain ⟨p, hp⟩ := exists_parts l₁ l₂
  -- one log changes past the parting point, the other stays as it was there
  have one : ∀ {l₁ l₂ : List E}, h.Sound S l₁ → (∀ e ∈ l₁, S.term e < t) → h.Complete S t l₂ →
      Parts l₁ l₂ p → S.conf l₂ = S.conf (l₂.take p) → ∀ d e, S.FirstChange l₁ p d e →
      S.near (S.conf l₂) (S.conf l₁) := by
    intro l₁ l₂ s₁ t₁ c₂ hp flat d e F
    obtain ⟨hnear, -⟩ := change_rule V s₁ F.entry F.change
    rw [one_change V s₁ t₁ c₂ hp F, flat, ← hp.same, ← S.conf_take_eq F.le F.quiet]
    exact hnear
  have flat : ∀ {l : List E}, p ≤ l.length → (∀ j e, p ≤ j → j < l.length → l[j]? = some e → S.conf? e = none) →
      S.conf l = S.conf (l.take p) := by
    intro l hl quiet
    rw [← S.conf_take_eq hl quiet, take_length]
  rcases S.quiet_or_change l₁ p l₁.length with q₁ | ⟨d₁, e₁, -, F₁⟩ <;>
    rcases S.quiet_or_change l₂ p l₂.length with q₂ | ⟨d₂, e₂, -, F₂⟩
  · exact .inl (by rw [flat hp.le_left q₁, flat hp.le_right q₂, hp.same])
  · exact .inr (.inl (one s₂ t₂ c₁ hp.symm (flat hp.le_left q₁) d₂ e₂ F₂))
  · exact .inr (.inr (one s₁ t₁ c₂ hp (flat hp.le_right q₂) d₁ e₁ F₁))
  · exact (not_both_change V s₁ s₂ t₁ t₂ c₁ c₂ hp F₁ F₂).elim

/-! ## Carrying what was chosen over -/

/-- Every leader elected before term `b` started from a complete log. -/
def CompleteBefore (S : Scheme E N C) (h : Ledger E N) (b : Nat) : Prop :=
  ∀ u, u < b → ∀ c l, h.elected u = some (c, l) → h.Complete S u l

/-- What was chosen and is in one log is in every log at least as up to date. -/
lemma carry {t k n b : Nat} (hch : h.Chosen S t k n) (done : CompleteBefore S h b)
    {l l' : List E} (sl : h.Sound S l) (sl' : h.Sound S l') (ne : l' ≠ [])
    (terms : ∀ e ∈ l', S.term e < b) (newer : S.AtLeast l' l)
    (hl : (h.lead t).take (k + 1) <+: l) : (h.lead t).take (k + 1) <+: l' := by
  have hch' := hch
  obtain ⟨hkn, hn, ⟨e, he, het⟩, -⟩ := hch'
  have hel : l[k]? = some e :=
    getElem?_of_isPrefix hl (by rw [getElem?_take_of_lt (by omega), he])
  have hlast : t ≤ S.lastTerm l := het ▸ V.term_le_lastTerm sl hel
  have nel : l ≠ [] := by rintro rfl; simp at hel
  rcases newer with hlt | ⟨heq, hlen⟩
  · -- the newer log ends in a later term, whose leader had the entries
    have hpos := length_pos_iff.2 ne
    have hl' : l'[l'.length - 1]? = some (l'[l'.length - 1]) := getElem?_eq_getElem (by omega)
    have hlt' : S.lastTerm l' < b := by
      rw [S.lastTerm_of_getElem? hl']
      exact terms _ (getElem_mem _)
    obtain ⟨c, s, hes⟩ := V.elected_of_lead (getElem?_of_isPrefix (sl'.last ne) hl') (by omega)
    exact (done _ hlt' c s hes t k n (by omega) hch).trans (V.start_isPrefix sl' ne hes rfl)
  · -- both end in one term, so the longer extends the shorter
    refine hl.trans (prefix_of_prefix_length_le (sl.last nel) ?_ hlen)
    rw [heq]
    exact sl'.last ne

/-- The configuration in force when term `t` was won is also one under which its leader
chose something, if it chose anything. -/
lemma chosen_at_start {t k n : Nat} (hch : h.Chosen S t k n) (hel : h.elected t = some (c, l)) :
    ∃ k n, h.Chosen S t k n ∧ S.conf ((h.lead t).take n) = S.conf l := by
  have R := V.reign t c l hel
  have past : ∀ {k n}, h.Chosen S t k n → l.length < n := by
    rintro k n ⟨hkn, -, ⟨e, he, het⟩, -⟩
    have := V.own_index hel he het
    omega
  have hl : (h.lead t).take l.length = l := by
    rw [← take_eq_take_of_isPrefix R.start le_rfl, take_length]
  rcases S.quiet_or_change (h.lead t) l.length n with quiet | ⟨d, e, hd, F⟩
  · exact ⟨k, n, hch, by rw [S.conf_take_eq (past hch).le quiet, hl]⟩
  obtain ⟨x, hx⟩ := ne_none_iff_exists'.1 F.change
  obtain ⟨-, k', n', hch', hn', -⟩ := R.change d e x F.le F.entry hx
  refine ⟨k', n', hch', ?_⟩
  rw [S.conf_take_eq (past hch').le fun j x h1 h2 => F.quiet j x h1 (by omega), hl]

/-- A log that ends in term `t` and is cut off before index `k` is close in configuration
to some choice of term `t` that it does not have. -/
lemma chosen_past {t k n : Nat} (hch : h.Chosen S t k n)
    (hel : h.elected t = some (c, l)) {m : Nat} (hm : l.length ≤ m) (hk : m ≤ k) :
    ∃ k n, h.Chosen S t k n ∧ m ≤ k ∧ Close S (S.conf ((h.lead t).take n)) (S.conf ((h.lead t).take m)) := by
  have R := V.reign t c l hel
  have hkn := hch.1
  rcases S.quiet_or_change (h.lead t) m n with quiet | ⟨d₁, e₁, hd₁, F₁⟩
  · exact ⟨k, n, hch, hk, .inl (S.conf_take_eq (by omega) quiet)⟩
  obtain ⟨x₁, hx₁⟩ := ne_none_iff_exists'.1 F₁.change
  have hnear : S.near (S.conf ((h.lead t).take m)) (S.conf ((h.lead t).take (d₁ + 1))) := by
    rw [← S.conf_take_eq F₁.le F₁.quiet, S.conf_take_succ F₁.entry, hx₁]
    exact (R.change d₁ e₁ x₁ (by have := F₁.le; omega) F₁.entry hx₁).1
  rcases S.quiet_or_change (h.lead t) (d₁ + 1) n with quiet | ⟨d₂, e₂, hd₂, F₂⟩
  · refine ⟨k, n, hch, hk, .inr (.inr ?_)⟩
    rwa [S.conf_take_eq (by omega) quiet]
  -- the second change waited until the first had been chosen
  obtain ⟨x₂, hx₂⟩ := ne_none_iff_exists'.1 F₂.change
  have hle₁ := F₁.le
  have hle₂ := F₂.le
  obtain ⟨-, k', n', hch', hn', hall⟩ := R.change d₂ e₂ x₂ (by omega) F₂.entry hx₂
  have hk' : d₁ ≤ k' := hall d₁ e₁ (by omega) F₁.entry F₁.change
  have := hch'.1
  refine ⟨k', n', hch', by omega, .inr (.inr ?_)⟩
  rwa [S.conf_take_eq (by omega : d₁ + 1 ≤ n') fun j x h1 h2 => F₂.quiet j x h1 (by omega)]

/-- A log with enough votes for term `t'`, cast by nodes that kept what they had
acknowledged, holds everything chosen before. -/
lemma complete_of {t' b : Nat} {c' : N} {l' : List E} (hb : t' ≤ b) (sound : h.Sound S l')
    (ne : l' ≠ []) (terms : ∀ e ∈ l', S.term e < t') (done : CompleteBefore S h b)
    (votes : ∃ Q, S.quorum (S.conf l') Q ∧ ∀ v ∈ Q, ∃ l, h.ballot v t' = some (c', l) ∧
      S.AtLeast l' l ∧ ∀ s i j, h.acked v s i → j ≤ i → s < t' → h.Kept s j l b) :
    h.Complete S t' l' := by
  obtain ⟨Q', hQ', hvotes⟩ := votes
  intro t
  induction t using Nat.strong_induction_on with
  | _ t ih =>
  intro k n ht hch
  -- where the deciding sets meet, the voter carries the choice over
  have carried : ∀ k n, h.Chosen S t k n → Close S (S.conf ((h.lead t).take n)) (S.conf l') →
      (h.lead t).take (k + 1) <+: l' := by
    intro k n hch close
    obtain ⟨-, -, -, Q, hQ, hack⟩ := id hch
    obtain ⟨v, hv, hv'⟩ := close.meet hQ hQ'
    obtain ⟨i, hki, hai⟩ := hack v hv
    obtain ⟨l, hbal, newer, kept⟩ := hvotes v hv'
    rcases kept t i k hai hki ht with hl | ⟨u, c, s, htu, hub, hes, hno⟩
    · exact carry V hch done (V.ballot_sound _ _ _ _ hbal) sound ne (fun e he => by have := terms e he; omega) newer hl
    · exact (hno (done u hub c s hes t k n htu hch)).elim
  obtain ⟨c, l, hel⟩ := hch.elected V
  have R := V.reign t c l hel
  have hlen := length_pos_iff.2 ne
  have hend : l'[l'.length - 1]? = some (l'[l'.length - 1]) := getElem?_eq_getElem (by omega)
  have hend' : S.lastTerm l' < t' := by
    rw [S.lastTerm_of_getElem? hend]
    exact terms _ (getElem_mem _)
  rcases Nat.lt_trichotomy (S.lastTerm l') t with hlt | heq | hgt
  · -- the log ends before term `t`: its configuration is close to the one `t` was won under
    obtain ⟨k₀, n₀, hch₀, hconf⟩ := chosen_at_start V hch hel
    have below : ∀ e ∈ l', S.term e < t := by
      intro e he
      obtain ⟨i, hi⟩ := mem_iff_getElem?.1 he
      exact (V.term_le_lastTerm sound hi).trans_lt hlt
    have close := conf_close V R.mandate.sound sound R.mandate.terms below
      (done t (by omega) c l hel) fun s k n hs hc => ih s hs k n (by omega) hc
    have hpre := carried k₀ n₀ hch₀ (hconf ▸ close)
    obtain ⟨hkn, -, ⟨e, he, het⟩, -⟩ := hch₀
    have hin : l'[k₀]? = some e :=
      getElem?_of_isPrefix hpre (by rw [getElem?_take_of_lt (Nat.lt_succ_self _), he])
    have := below e (mem_of_getElem? hin)
    omega
  · -- it ends in term `t`, so it is a prefix of that leader's log
    have hpre : l' <+: h.lead t := heq ▸ sound.last ne
    have hstart : l.length ≤ l'.length := (V.start_isPrefix sound ne hel heq).length_le
    have htake : (h.lead t).take l'.length = l' := by
      rw [← take_eq_take_of_isPrefix hpre le_rfl, take_length]
    by_cases hk : k < l'.length
    · rw [← htake]
      exact take_prefix_take_left (by omega)
    obtain ⟨k₀, n₀, hch₀, hk₀, close⟩ := chosen_past V hch hel hstart (by omega)
    rw [htake] at close
    have := (carried k₀ n₀ hch₀ close).length_le
    obtain ⟨hkn, hn, -⟩ := hch₀
    rw [length_take] at this
    omega
  · -- it ends in a later term, whose leader had it
    obtain ⟨c₁, l₁, hel₁⟩ := V.elected_of_lead (getElem?_of_isPrefix (sound.last ne) hend) (by omega)
    exact (done _ (by omega) c₁ l₁ hel₁ t k n hgt hch).trans (V.start_isPrefix sound ne hel₁ rfl)

omit V in
lemma ne_nil_of_root (hr : [S.root] <+: l) : l ≠ [] := by
  rintro rfl
  simp at hr

/-- **Every leader starts from everything chosen before its term.** -/
lemma complete (t : Nat) : CompleteBefore S h t := by
  induction t with
  | zero => exact fun u hu => absurd hu (by omega)
  | succ t ih =>
    intro u hu c l hel
    rcases Nat.lt_succ_iff_lt_or_eq.1 hu with hlt | rfl
    · exact ih u hlt c l hel
    · have R := V.reign u c l hel
      exact complete_of V le_rfl R.mandate.sound (ne_nil_of_root R.mandate.root) R.mandate.terms ih R.early

/-- The same for any mandate, before anybody is elected on it. -/
lemma Mandate.complete (M : h.Mandate S t c l) : h.Complete S t l := by
  have votes : ∃ Q, S.quorum (S.conf l) Q ∧ ∀ v ∈ Q, ∃ l', h.ballot v t = some (c, l') ∧
      S.AtLeast l l' ∧ ∀ s i j, h.acked v s i → j ≤ i → s < t → h.Kept s j l' (t + 1) := by
    obtain ⟨Q, hQ, hv⟩ := M.votes
    refine ⟨Q, hQ, fun v hvQ => ?_⟩
    obtain ⟨l', hb, newer⟩ := hv v hvQ
    exact ⟨l', hb, newer, fun s i j => V.ballot_kept v t c l' s i j hb⟩
  exact complete_of V (Nat.le_succ t) M.sound (ne_nil_of_root M.root) M.terms (Ledger.complete V _) votes

/-- **A term has one mandate.** -/
lemma Mandate.unique {c c' : N} {l l' : List E} (M : h.Mandate S t c l) (M' : h.Mandate S t c' l') : c = c' := by
  have close := conf_close V M.sound M'.sound M.terms M'.terms (M.complete V) (M'.complete V)
  obtain ⟨Q, hQ, hv⟩ := M.votes
  obtain ⟨Q', hQ', hv'⟩ := M'.votes
  obtain ⟨v, h1, h2⟩ := close.meet hQ hQ'
  obtain ⟨_, hb, -⟩ := hv v h1
  obtain ⟨_, hb', -⟩ := hv' v h2
  rw [hb] at hb'
  exact congrArg Prod.fst (some.inj hb')

/-- What was chosen is in the log of every leader of the same or a later term. -/
lemma Chosen.prefix_lead {t u k n : Nat} (hc : h.Chosen S t k n) (htu : t ≤ u)
    (hel : h.elected u = some (c, l)) : (h.lead t).take (k + 1) <+: h.lead u := by
  rcases Nat.lt_or_eq_of_le htu with hlt | rfl
  · exact (complete V (u + 1) u (by omega) c l hel t k n hlt hc).trans (V.reign u c l hel).start
  · exact take_prefix _ _

/-- **Agreement.** Two choices that reach an index have the same entry there. -/
lemma chosen_agree {t t' k k' n n' : Nat} (hc : h.Chosen S t k n) (hc' : h.Chosen S t' k' n')
    {i : Nat} (hi : i ≤ k) (hi' : i ≤ k') : (h.lead t)[i]? = (h.lead t')[i]? := by
  -- the earlier term's choice is in the log the later one's leader started from
  have key : ∀ {t t' k k' n n'}, h.Chosen S t k n → h.Chosen S t' k' n' → i ≤ k → t < t' →
      (h.lead t)[i]? = (h.lead t')[i]? := by
    intro t t' k k' n n' hc hc' hi ht
    obtain ⟨c, l, hel⟩ := hc'.elected V
    have hpre := hc.prefix_lead V ht.le hel
    have hlt : i < (h.lead t).length := by have := hc.1; have := hc.2.1; omega
    have he : (h.lead t)[i]? = some ((h.lead t)[i]) := getElem?_eq_getElem hlt
    rw [he]
    exact (getElem?_of_isPrefix hpre (by rw [getElem?_take_of_lt (by omega), he])).symm
  rcases Nat.lt_trichotomy t t' with hlt | rfl | hgt
  · exact key hc hc' hi hlt
  · rfl
  · exact (key hc' hc hi' hgt).symm

end BigDb.Lib.Ledger
