import BigDb.Cluster.Controller
import BigDb.Cluster.Network

/-!
# Applied decisions reach the map

The core marks an entry applied under its lock and hands its decision to whoever called it.
The driver folds what it is handed into the map that requests read, and publishes how far it
has got only then; a caller of `proposeMap` or `markRepaired` drops what it is handed. As
long as a call commits nothing on the spot there is nothing to drop, which is always so when
the leader needs another voter to commit. On a sole voter it never is.
-/

namespace BigDb.Cluster
open Lib Bool List Raft

namespace Raft
variable {r r₀ : Raft}

/-! ## The applied index -/

/-- The applied index does not go back, and moves on whenever something is handed out. -/
structure Applies (r₀ : Raft) (x : Raft × Output) : Prop where
  mono : r₀.applied ≤ x.1.applied
  grows : x.2.applied ≠ [] → r₀.applied < x.1.applied

lemma Applies.start (r₀ : Raft) : Applies r₀ (r₀, default) := ⟨le_rfl, fun h => absurd rfl h⟩

lemma Applies.merge {r₁ r₂ : Raft} {out₁ out₂ : Output} (A : Applies r₀ (r₁, out₁))
    (A' : Applies r₁ (r₂, out₂)) : Applies r₀ (r₂, out₁.merge out₂) := by
  refine ⟨A.mono.trans A'.mono, fun h => ?_⟩
  by_cases h₁ : out₁.applied = []
  · have h₂ : out₂.applied ≠ [] := by
      intro h₂
      apply h
      show out₁.applied ++ out₂.applied = []
      rw [h₁, h₂]
      rfl
    exact lt_of_le_of_lt A.mono (A'.grows h₂)
  · exact lt_of_lt_of_le (A.grows h₁) A'.mono

variable {out : Output} {r' : Raft} {c : Cause}

lemma Applies.handing {r r' : Raft} (A : Applies r₀ (r, out))
    (h : r.applied ≤ r'.applied) : Applies r₀ (r', Raft.handing out r r') := by
  refine ⟨A.mono.trans h, fun hne => ?_⟩
  rcases h.eq_or_lt with heq | hlt
  · rw [Raft.handing, handedBy, Nat.sub_eq_zero_of_le heq.ge, range'_zero, filterMap_nil, map_nil, append_nil] at hne
    exact lt_of_lt_of_le (A.grows hne) h
  · exact lt_of_le_of_lt A.mono hlt

lemma applied_le_caughtUp (r : Raft) (commit : Nat) : r.applied ≤ (r.caughtUp commit).applied := by
  unfold caughtUp
  split
  · exact le_max_left _ _
  · exact le_rfl

/-- One act, when no snapshot goes back behind what is applied. -/
lemma Applies.act {x y : Raft × Output} (A : Applies r₀ x) (hact : Act c x y)
    (ahead : ∀ t l i lt m ms, c = .message (.snapshot t l i lt m ms) → r₀.applied < i) : Applies r₀ y := by
  cases hact with
  | append =>
    rw [appended_frame]
    exact ⟨A.mono, A.grows⟩
  | commit => exact A.handing (le_max_left _ _)
  | @accept r out l prev pt entries commit =>
    have htaken : (r.taken prev entries).applied = r.applied := by rw [taken_frame]
    have A' : Applies r₀ (r.taken prev entries, out) := ⟨htaken ▸ A.mono, htaken ▸ A.grows⟩
    have A'' := A'.handing ((r.taken prev entries).applied_le_caughtUp commit)
    exact ⟨A''.mono, A''.grows⟩
  | install hm =>
    have hlt := ahead _ _ _ _ _ _ hm
    exact ⟨hlt.le, fun _ => hlt⟩
  | @compact r =>
    rw [compact_frame]
    exact ⟨A.mono, A.grows⟩
  | _ => exact ⟨A.mono, A.grows⟩

lemma Acts.applies {y : Raft × Output} (acts : Acts c (r₀, default) y)
    (ahead : ∀ t l i lt m ms, c = .message (.snapshot t l i lt m ms) → r₀.applied < i) : Applies r₀ y :=
  acts.run (.start r₀) fun _ _ _ hact A => A.act hact ahead

/-- A message that is not a snapshot of something the node has left behind. -/
def current (r : Raft) : Message → Bool
  | .snapshot term _ index .. => term < r.term || index ≤ r.base || r.applied < index
  | _ => true

lemma deliver_applies (r : Raft) (m : Message) (now : Nat) (h : r.current m = true) :
    Applies r (r.deliver m now) := by
  cases m with
  | snapshot term l index lt ranges members =>
    simp only [current, or_eq_true, decide_eq_true_eq] at h
    rcases h with hrefused | hahead
    · rw [deliver_snapshot_refuses l lt ranges members now hrefused]
      unfold observe
      split <;> exact ⟨le_rfl, fun h => absurd rfl h⟩
    · refine (deliver_acts r _ now).applies ?_
      intro t l' i lt' m' ms' heq
      cases heq
      exact hahead
  | _ =>
    refine (deliver_acts r _ now).applies ?_
    intro t l' i lt' m' ms' heq
    cases heq

/-! ## What a proposal commits on the spot -/

/-- Whether a proposal would apply a map at once: a majority of the voters holds some index
past the commit point, by the match table with this node counted for the new entry, and
between it and what is applied lies a map. -/
def handsMap (r : Raft) (d : Decision) : Bool :=
  let r' := r.appended d
  (range' (r.commit + 1) (r'.lastIndex - r.commit)).any fun k =>
    r'.termAt k = some r'.term && r'.majority ≤ r'.replicas k &&
      (range' (r.applied + 1) (k - r.applied)).any fun i =>
        ((r'.entryAt i).bind fun e => e.decision.ranges?).isSome

/-- A proposal that applies no map leaves the last one applied. -/
lemma propose_quiet {d : Decision} (h : r.propose d = some (r', out))
    (hm : r.handsMap d = false) (m : RangeMap) : newest Decision.ranges? m out.applied = m := by
  obtain ⟨-, out₀, hnil, heq⟩ := propose_eq h
  rcases (r.appended d).advanceCommit_cases out₀ with hstay | ⟨k, hk, hcommit⟩
  · rw [hstay] at heq
    cases heq
    rw [hnil]
    rfl
  rw [hcommit] at heq
  cases heq
  have hsame : (r.appended d).commit = r.commit ∧ (r.appended d).applied = r.applied := by
    rw [appended_frame]
    exact ⟨rfl, rfl⟩
  refine newest_quiet m fun dec hdec => ?_
  by_contra hw
  -- the index committed, and the position of the map, are what `handsMap` looks for
  refine absurd hm (not_eq_false _ ▸ ?_)
  rw [Raft.handing, hnil, nil_append] at hdec
  obtain ⟨⟨i, e⟩, hmem, rfl⟩ := mem_map.1 hdec
  obtain ⟨j, hj, he⟩ := mem_filterMap.1 hmem
  obtain ⟨e', he', hpair⟩ := Option.map_eq_some_iff.1 he
  cases hpair
  have hrange := mem_range'_1.1 hj
  simp only [committed, hsame.2] at hrange
  have hpast := hk.past
  have hheld := hk.held
  rw [hsame.1] at hpast
  refine any_eq_true.2 ⟨k, mem_range'_1.2 ⟨hpast, by omega⟩, ?_⟩
  rw [and_eq_true, and_eq_true, decide_eq_true_eq, decide_eq_true_eq]
  refine ⟨⟨hk.own, hk.majority⟩, any_eq_true.2 ⟨i, mem_range'_1.2 ⟨by omega, by omega⟩, ?_⟩⟩
  have he' : (r.appended d).entryAt i = some e := he'
  rw [he']
  exact Option.isSome_iff_ne_none.2 hw

end Raft

/-! ## The watermark -/

/-- The decisions a phase has still to fold into the map. -/
def Phase.decisions : Phase → List Decision
  | .saving _ out _ | .saved out _ => out.applied
  | .folding decisions _ _ => decisions
  | _ => []

/-- How far the watermark will be raised. -/
def Phase.upTo? : Phase → Option Nat
  | .saving _ _ upTo | .saved _ upTo | .folding _ _ upTo => some upTo
  | _ => none

namespace Controller
variable {config : ClusterConfig} {c : Controller}

/-- An action that drops no map: no snapshot of something the node has left behind is
delivered, and no accepted call applies a map on the spot. -/
def orderly (c : Controller) : Action → Bool
  | .turn (some m) _ => c.raft.current m
  | action => c.refuses action || (c.asks action).all fun d => !c.raft.handsMap d

lemma driven_applies (config : ClusterConfig) (r : Raft) (ranges : RangeMap)
    (incoming : Option Message) (now : Nat) (h : ∀ m, incoming = some m → r.current m = true) :
    r.Applies (driven config r ranges incoming now) := by
  unfold driven
  have A₁ : r.Applies (delivered r incoming now) := by
    cases incoming with
    | none => exact .start r
    | some m =>
      rw [delivered_some]
      exact r.deliver_applies m now (h m rfl)
  generalize delivered r incoming now = x₁ at A₁ ⊢
  obtain ⟨r₁, out₁⟩ := x₁
  have A₂ : r₁.Applies (r₁.tick now) :=
    (tick_acts (some Raft.keepEntries) r₁ now).applies nofun
  dsimp only
  generalize r₁.tick now = x₂ at A₂ ⊢
  obtain ⟨r₂, out₂⟩ := x₂
  rcases promoted_cases config r₂ ranges now with ⟨m, -, hm⟩ | heq
  · exact (A₁.merge A₂).merge ((propose_acts hm).applies nofun)
  rw [heq]
  exact (A₁.merge A₂).merge (.start r₂)

/-- **The invariant of the watermark.** -/
structure Follows (c : Controller) : Prop where
  running : c.wedged = true → c.phase = .idle
  low : c.published ≤ c.raft.applied
  upTo : ∀ k, c.phase.upTo? = some k → k ≤ c.raft.applied
  pending : c.phase.decisions ≠ [] → c.published < c.raft.applied
  map : c.wedged = false → newest Decision.ranges? c.ranges c.phase.decisions = c.lastApplied
  lag : c.raft.applied ≤ c.published → c.ranges = c.lastApplied

namespace Follows

lemma start (config : ClusterConfig) (disk : Option State) (sent : List (NodeId × Message)) :
    Follows { Controller.start config disk with sent } where
  running h := by cases h
  low := Nat.zero_le _
  upTo _ h := by cases h
  pending h := absurd rfl h
  map _ := rfl
  lag _ := rfl

variable {out : Output} {r : Raft}

lemma turn (F : Follows c) (idle : c.phase = .idle) (up : c.wedged = false) (A : c.raft.Applies (r, out))
    {leaseAt : Option Nat} {state : Option State} :
    Follows { c.moved r out with leaseAt, phase := .saving state out r.applied } := by
  have hmap : c.ranges = c.lastApplied := by
    have h := F.map up
    rwa [idle] at h
  have hpending : out.applied ≠ [] → c.published < r.applied := by
    intro h
    exact lt_of_le_of_lt F.low (A.grows h)
  refine ⟨?_, F.low.trans A.mono, ?_, hpending, ?_, ?_⟩
  · intro hw
    exact absurd (up.symm.trans hw) false_ne_true
  · intro k hk
    cases hk
    exact le_rfl
  · intro _
    show newest _ c.ranges out.applied = newest _ c.lastApplied out.applied
    rw [hmap]
  intro hle
  show c.ranges = newest _ c.lastApplied out.applied
  have hnil : out.applied = [] := by
    by_contra h
    exact absurd (hpending h) (Nat.not_lt_of_le hle)
  rw [hnil]
  exact hmap

/-- A call that applies no map. -/
lemma propose (F : Follows c) {d : Decision} (h : c.raft.propose d = some (r, out)) (hm : c.raft.handsMap d = false) :
    Follows (c.moved r out) := by
  have A : c.raft.Applies (r, out) :=
    (propose_acts h).applies nofun
  have hlast : (c.moved r out).lastApplied = c.lastApplied := propose_quiet h hm _
  refine ⟨F.running, F.low.trans A.mono, fun k hk => (F.upTo k hk).trans A.mono, ?_, ?_, ?_⟩
  · intro hp
    exact lt_of_lt_of_le (F.pending hp) A.mono
  · intro up
    rw [hlast]
    exact F.map up
  · intro hle
    rw [hlast]
    exact F.lag (A.mono.trans hle)

/-- **One action.** -/
lemma step (F : Follows c) {action : Action} (h : c.orderly action = true) :
    Follows (Controller.step config c action) := by
  have hstep := step_step config c action
  generalize Controller.step config c action = c' at hstep ⊢
  -- a node that is in the middle of a turn is not wedged
  have busy : c.phase ≠ .idle → c.wedged = false := by
    intro hp
    exact eq_false_iff.2 fun hw => hp (F.running hw)
  cases hstep with
  | stay => exact F
  | @turn incoming now r out leaseAt idle up hd =>
    have A : c.raft.Applies (r, out) := by
      rw [← hd]
      refine driven_applies config c.raft c.ranges incoming now fun m hm => ?_
      subst hm
      exact h
    exact F.turn idle up A
  | wedge hp =>
    exact ⟨fun _ => rfl, F.low, nofun, fun h => absurd rfl h, nofun, F.lag⟩
  | @fold d decisions send upTo hp =>
    have up : c.wedged = false := busy (by rw [hp]; exact nofun)
    have hlt : c.published < c.raft.applied := by
      apply F.pending
      rw [hp]
      exact cons_ne_nil _ _
    have hmap := F.map up
    rw [hp] at hmap
    refine ⟨fun hw => absurd (up.symm.trans hw) false_ne_true, F.low, ?_, fun _ => hlt, fun _ => ?_,
      fun hle => absurd hlt (Nat.not_lt_of_le hle)⟩
    · intro k hk
      refine F.upTo k ?_
      rw [hp]
      exact hk
    · rw [← hmap]
      exact (newest_cons c.ranges d decisions).symm
  | @publish send upTo hp =>
    have up : c.wedged = false := busy (by rw [hp]; exact nofun)
    have hle : upTo ≤ c.raft.applied := by
      apply F.upTo
      rw [hp]
      rfl
    have hmap := F.map up
    rw [hp] at hmap
    exact ⟨fun hw => absurd (up.symm.trans hw) false_ne_true, hle, nofun,
      fun h => absurd rfl h, fun _ => hmap, fun _ => hmap⟩
  | skip hp | save hp | refresh hp | post hp | rest hp =>
    have up : c.wedged = false := busy (by rw [hp]; exact nofun)
    obtain ⟨-, low, upTo, pending, map, lag⟩ := F
    rw [hp] at upTo pending map
    exact ⟨fun hw => absurd (up.symm.trans hw) false_ne_true, low, upTo, pending, map, lag⟩
  | propose accepted asked hp =>
    refine F.propose hp ?_
    have hcall : (c.refuses action || (c.asks action).all fun d => !c.raft.handsMap d) = true := by
      cases action with
      | turn => cases asked
      | _ => exact h
    rw [accepted, asked] at hcall
    simpa using hcall
  | restart => exact .start config c.disk c.sent

end Follows

/-- **Applied decisions reach the map.** In every run in which no snapshot of something the
node has left behind is delivered and no accepted call applies a map on the spot: once the
watermark has caught up with the core, the map that requests read is the last one the core
applied; and so it is whenever a running driver has nothing left to fold. -/
theorem applied_reaches_map (config : ClusterConfig) {disk : Option State}
    (run : Run (step config) (fun c a => c.orderly a = true) (start config disk) c) :
    (c.raft.applied ≤ c.published → c.ranges = c.lastApplied) ∧
      (c.wedged = false → c.phase.decisions = [] → c.ranges = c.lastApplied) := by
  have F : Follows c := run.run (Follows.start config disk []) fun _ _ h F => F.step h
  refine ⟨F.lag, fun up hnil => ?_⟩
  have hmap := F.map up
  rwa [hnil] at hmap

/-- With a second voter a caller's map is committed by a reply, and the driver folds it. -/
theorem applied_reaches_map_duo :
    let c := exec duoConfig (start duoConfig none)
      (duoLeads ++ [.proposeMap duoMap] ++ round none 5401 ++
        round (some (.appendReply 1 1 true 2)) 5402)
    c.raft.applied = 2 ∧ c.published = 2 ∧ c.lastApplied.epoch = 1 ∧ c.ranges = c.lastApplied := by
  intro c
  have hrun : Run (step duoConfig) (fun c a => c.orderly a = true) (start duoConfig none) c :=
    Run.play (fun c a => c.orderly a) _ (by decide +kernel) (fun _ _ h => h)
  have hc : c.raft.applied = 2 ∧ c.published = 2 ∧ c.lastApplied.epoch = 1 := by decide +kernel
  clear_value c
  obtain ⟨happlied, hpublished, hepoch⟩ := hc
  refine ⟨happlied, hpublished, hepoch, (applied_reaches_map duoConfig hrun).1 ?_⟩
  rw [happlied, hpublished]

/-- One range on the only node. -/
def soloMap : RangeMap :=
  { (default : RangeMap) with ranges := [⟨0, ⟨0, none⟩, [0], 0, none⟩] }

def soloConfig : ClusterConfig := ⟨0, [.named "a" .voter], soloMap, default, default⟩

/-- The second node of the two, which has applied two maps of the leader's. -/
def duoFollows : List Action :=
  round (some (.append 1 0 0 0 [⟨1, .ranges { duoMap with epoch := 1 }⟩,
    ⟨1, .ranges { duoMap with epoch := 2 }⟩] 2)) 100 ++ [.fold, .publish, .post, .post]

/-- A caller's map on a sole voter is applied by the core at once and folded by nobody: the
next turn publishes past it. And a snapshot that is taken although the node is past it takes
the applied index back, so that until it is folded the watermark vouches for the wrong map. -/
theorem applied_map_dropped :
    (let c := exec soloConfig (start soloConfig none)
      (round none 5000 ++ [.proposeMap soloMap] ++ round none 5100)
    c.raft.applied = 2 ∧ c.published = 2 ∧ c.behindAgreement = false ∧ c.phase.decisions = [] ∧
      c.lastApplied.epoch = 1 ∧ c.ranges.epoch = 0 ∧
      ¬ (c.raft.applied ≤ c.published → c.ranges = c.lastApplied)) ∧
    (let c := exec { duoConfig with this := 1 } (start { duoConfig with this := 1 } none)
      (duoFollows ++ [.turn (some (.snapshot 1 0 1 1 { duoMap with epoch := 1 } duo)) 101])
    c.raft.applied = 1 ∧ c.published = 2 ∧
      ¬ (c.raft.applied ≤ c.published → c.ranges = c.lastApplied)) := by
  decide +kernel

end Controller

end BigDb.Cluster
