import BigDb.Cluster.Admin
import BigDb.Cluster.Primaries
import BigDb.Lib.Fallible

/-!
# What the mutations of a map keep

Each mutation changes a copy of the agreed map, which is then checked and proposed. A mutation that is
refused has not touched the copy, and one that is not keeps the shape of the space: ids of their
own, holders that include the one that serves, and shards that tile. A copy of a range being moved
is filled behind the group's back, so a move's target is not to be one of the group.

Two mutations can do otherwise. `add_holder` does not look at a move in flight, and `split` takes its
new id from a sum that can wrap.
-/

namespace BigDb.Cluster
open Lib List

/-- One of the methods that change a map, with its arguments. -/
inductive Mutation where
  | split (pos : Nat)
  | merge (id : RangeId)
  | beginMove (id : RangeId) (target : NodeId)
  | setMoveState (id : RangeId) (state : MoveState)
  | finishMove (id : RangeId)
  | cancelMove (id : RangeId)
  | addHolder (id : RangeId) (node : NodeId)
  | dropHolder (id : RangeId) (node : NodeId)
  | reserve (table : String) (upto : Nat)
deriving DecidableEq, Repr

def Mutation.apply (m : RangeMap) : Mutation → Except Refusal RangeMap
  | .split pos => (m.split pos).mapError .split |>.map Prod.fst
  | .merge id => (m.merge id).mapError .merge
  | .beginMove id target => (m.beginMove id target).mapError .move
  | .setMoveState id state => (m.setMoveState id state).mapError .move
  | .finishMove id => (m.finishMove id).mapError .move
  | .cancelMove id => (m.cancelMove id).mapError .move
  | .addHolder id node => (m.addHolder id node).mapError .map
  | .dropHolder id node => (m.dropHolder id node).mapError .map
  | .reserve table upto => .ok (m.reserve table upto)

/-- A call on a map that is there to be changed: the answer, and the map afterwards. Every mutation
makes all its checks before it writes to the map for the first time. -/
def Mutation.call (m : RangeMap) (v : Mutation) : Except Refusal Unit × RangeMap :=
  match v.apply m with
  | .ok next => (.ok (), next)
  | .error e => (.error e, m)

namespace RangeMap
variable {m : RangeMap} {rs : List Range} {id : RangeId}

/-! ## What a check amounts to -/

lemma checkRanges_iff {seen : List RangeId} : checkRanges rs seen = .ok () ↔
    (rs.map Range.id).Nodup ∧ (∀ r ∈ rs, r.id ∉ seen) ∧ ∀ r ∈ rs, r.primary ∈ r.group := by
  induction rs generalizing seen with
  | nil => simp [checkRanges]
  | cons r rs ih =>
    rw [checkRanges]
    split
    · next taken => simp [taken]
    · next fresh =>
      split
      · next empty => simp [isEmpty_iff.1 empty]
      split
      · next outside => simp [outside]
      · next inside =>
        rw [ih, forall_mem_cons, forall_mem_cons]
        simp only [map_cons, nodup_cons, mem_map, mem_cons, not_or, not_exists, not_and]
        constructor
        · rintro ⟨apart, unseen, held⟩
          exact ⟨⟨fun r' hr' => (unseen r' hr').1, apart⟩, ⟨fresh, fun r' hr' => (unseen r' hr').2⟩,
            not_not.1 inside, held⟩
        · rintro ⟨⟨other, apart⟩, ⟨-, unseen⟩, -, held⟩
          exact ⟨apart, fun r' hr' => ⟨other r' hr', unseen r' hr'⟩, held⟩

lemma checkPairs_of_tiled (h : Tiled rs) (pos : Nat) : checkPairs rs pos = .ok () := by
  induction rs generalizing pos with
  | nil => exact h.elim
  | cons r rs ih =>
    cases rs with
    | nil => rfl
    | cons next rest =>
      obtain ⟨order, stop, tail⟩ := h
      rw [checkPairs, if_neg (not_lt.2 order), stop]
      exact (if_pos rfl).trans (ih tail _)

lemma stop_of_tiled (h : Tiled rs) {last : Range} (hl : rs.getLast? = some last) : last.shards.stop = none := by
  induction rs with
  | nil => exact h.elim
  | cons r rs ih =>
    cases rs with
    | nil =>
      cases hl
      exact h
    | cons next rest =>
      rw [getLast?_cons_cons] at hl
      exact ih h.2.2 hl

/-- The shape `check` asks for. -/
structure Shaped (rs : List Range) : Prop where
  ids : (rs.map Range.id).Nodup
  held : ∀ r ∈ rs, r.primary ∈ r.group
  tiled : Tiled rs
  first : ∀ r, rs.head? = some r → r.shards.start = 0

lemma check_iff : m.check = .ok () ↔ Shaped m.ranges := by
  constructor
  · intro h
    obtain ⟨ranges, tiled, first⟩ := check_ok h
    obtain ⟨ids, -, held⟩ := checkRanges_iff.1 ranges
    exact ⟨ids, held, tiled, first⟩
  intro h
  have ranges : checkRanges m.ranges [] = .ok () :=
    checkRanges_iff.2 ⟨h.ids, fun _ _ => not_mem_nil, h.held⟩
  have pairs := checkPairs_of_tiled h.tiled 1
  unfold check
  cases hr : m.ranges with
  | nil =>
    have tiled := h.tiled
    rw [hr] at tiled
    exact tiled.elim
  | cons r rs =>
    have last : (r :: rs).getLast? = some (rs.getLast?.getD r) := getLast?_cons
    have start : r.shards.start = 0 := h.first r (by rw [hr]; rfl)
    have stop : (rs.getLast?.getD r).shards.stop = none := stop_of_tiled h.tiled (hr ▸ last)
    rw [hr] at ranges pairs
    rw [head?_cons, last]
    dsimp only
    rw [if_neg (not_not.2 start), ranges, pairs, stop]
    rfl

variable {next : RangeMap} {r : Range} {r' : Range}

/-- What stands before a range sees only where it begins. -/
lemma Tiled.behind {before after after' : List Range}
    (start : r'.shards.start = r.shards.start) (tail : Tiled (r :: after) → Tiled (r' :: after'))
    (h : Tiled (before ++ r :: after)) : Tiled (before ++ r' :: after') := by
  induction before with
  | nil => exact tail h
  | cons b before ih =>
    cases before with
    | nil =>
      obtain ⟨order, stop, rest⟩ := h
      exact ⟨start ▸ order, start ▸ stop, tail rest⟩
    | cons b' before =>
      obtain ⟨order, stop, rest⟩ := h
      exact ⟨order, stop, ih rest⟩

/-! ## Where a mutation cuts the list -/

/-- The list around a position, whatever is put there. -/
lemma exists_cut {i : Nat} (h : rs[i]? = some r) :
    ∃ before after, before.length = i ∧ rs = before ++ r :: after ∧ ∀ r', rs.set i r' = before ++ r' :: after := by
  obtain ⟨hlt, rfl⟩ := List.getElem?_eq_some_iff.1 h
  refine ⟨rs.take i, rs.drop (i + 1), length_take_of_le hlt.le, ?_, fun r' => ?_⟩
  · rw [getElem_cons_drop, take_append_drop]
  · rw [set_eq_take_append_cons_drop, if_pos hlt]

lemma insertIdx_behind (before after : List Range) (r x : Range) :
    (before ++ r :: after).insertIdx (before.length + 1) x = before ++ r :: x :: after := by
  induction before with
  | nil => rfl
  | cons b before ih => simpa using ih

lemma id_of_position {i : Nat} (hi : m.position id = some i) (hr : m.ranges[i]? = some r) : r.id = id := by
  obtain ⟨hlt, hid, -⟩ := findIdx?_eq_some_iff_getElem.1 hi
  obtain rfl := Option.some.inj ((getElem?_eq_getElem hlt).symm.trans hr)
  exact of_decide_eq_true hid

lemma editRange_cut {ε : Type} {missing : ε} {f : Range → Except ε Range} (h : m.editRange id missing f = .ok next) :
    ∃ before r r' after, m.ranges = before ++ r :: after ∧ r.id = id ∧ f r = .ok r' ∧
      next = { m with ranges := before ++ r' :: after } := by
  obtain ⟨i, r, r', hi, hr, hf, rfl⟩ := editRange_ok h
  obtain ⟨before, after, -, hranges, hset⟩ := exists_cut hr
  exact ⟨before, r, r', after, hranges, id_of_position hi hr, hf, by rw [setRange, hset]⟩

lemma split_cut (checked : m.check = .ok ()) {pos : Nat} (h : m.split pos = .ok (next, id)) :
    ∃ before r after, m.ranges = before ++ r :: after ∧ r.shards.contains pos = true ∧
      pos ≠ r.shards.start ∧ r.moving = none ∧ id = m.nextId ∧
      next = { m with ranges := before ++ { r with shards := { r.shards with stop := some pos } } ::
        ⟨m.nextId, ⟨pos, r.shards.stop⟩, r.group, r.primary, none⟩ :: after } := by
  obtain ⟨r, hr, hin⟩ := rangeOf_contains checked pos
  unfold split at h
  simp only [hr] at h
  split at h
  · cases h
  · next inside =>
    split at h
    · cases h
    · next still =>
      cases h
      obtain ⟨before, after, hlen, hranges, hset⟩ := exists_cut hr
      refine ⟨before, r, after, hranges, hin, inside, by simpa using still, rfl, ?_⟩
      rw [hset, ← hlen, insertIdx_behind]

lemma merge_cut (h : m.merge id = .ok next) :
    ∃ before a b after, m.ranges = before ++ a :: b :: after ∧ a.id = id ∧ a.moving = none ∧ b.moving = none ∧
      next = { m with ranges :=
        before ++ { a with shards := { a.shards with stop := b.shards.stop } } :: after } := by
  unfold merge at h
  split at h
  · cases h
  · next i hi =>
    split at h
    · next a b ha hb =>
      split at h
      · cases h
      · next still =>
        split at h
        · cases h
        cases h
        obtain ⟨before, rest, hlen, hranges, hset⟩ := exists_cut ha
        have hnext : rest.head? = some b := by
          rw [hranges, getElem?_append_right (by omega), hlen] at hb
          simpa [head?_eq_getElem?] using hb
        obtain ⟨after, rfl⟩ := head?_eq_some_iff.1 hnext
        simp only [Bool.or_eq_true, Option.isSome_iff_ne_none, not_or, not_not] at still
        refine ⟨before, a, b, after, hranges, id_of_position hi ha, still.1, still.2, ?_⟩
        rw [hset, ← hlen, eraseIdx_append_of_length_le (by omega)]
        simp
    · cases h

/-! ## The shape after a mutation -/

section Shape
variable {before after : List Range} {r a b : Range}

/-- The head of a list with a range in it, when that range is replaced by one that begins where it
did. -/
lemma head_behind {after' : List Range} (start : r'.shards.start = r.shards.start)
    (first : ∀ x, (before ++ r :: after).head? = some x → x.shards.start = 0) :
    ∀ x, (before ++ r' :: after').head? = some x → x.shards.start = 0 := by
  cases before with
  | nil =>
    rintro x ⟨⟩
    exact start.trans (first r rfl)
  | cons b before => exact fun x hx => first x hx

lemma Shaped.edit (h : Shaped (before ++ r :: after)) (id : r'.id = r.id)
    (shards : r'.shards = r.shards) (held : r'.primary ∈ r'.group) : Shaped (before ++ r' :: after) where
  ids := by simpa [id] using h.ids
  held := by
    have others := h.held
    simp only [forall_mem_append, forall_mem_cons] at others ⊢
    exact ⟨others.1, held, others.2.2⟩
  tiled := by
    refine h.tiled.behind (by rw [shards]) fun tail => ?_
    cases after with
    | nil =>
      change r'.shards.stop = none
      exact shards ▸ tail
    | cons next rest => exact ⟨shards ▸ tail.1, shards ▸ tail.2.1, tail.2.2⟩
  first := head_behind (by rw [shards]) h.first

/-- A range cut in two, the upper half under an id nobody has. -/
lemma Shaped.cut (h : Shaped (before ++ r :: after)) {pos : Nat} (hin : r.shards.contains pos = true)
    {id : RangeId} (fresh : ∀ x ∈ before ++ r :: after, x.id ≠ id) :
    Shaped (before ++ { r with shards := { r.shards with stop := some pos } } ::
      ⟨id, ⟨pos, r.shards.stop⟩, r.group, r.primary, none⟩ :: after) where
  ids := by
    have apart : (id :: (before ++ r :: after).map Range.id).Nodup := by
      refine nodup_cons.2 ⟨fun hid => ?_, h.ids⟩
      obtain ⟨x, hx, hid⟩ := mem_map.1 hid
      exact fresh x hx hid
    simp only [map_append, map_cons] at apart ⊢
    rw [append_cons, nodup_middle, ← append_cons]
    exact apart
  held := by
    have others := h.held
    simp only [forall_mem_append, forall_mem_cons] at others ⊢
    exact ⟨others.1, others.2.1, others.2.1, others.2.2⟩
  tiled := by
    obtain ⟨low, high⟩ := ShardRange.contains_iff.1 hin
    refine h.tiled.behind (r := r) rfl fun tail => ⟨low, rfl, ?_⟩
    cases after with
    | nil => exact tail
    | cons next rest => exact ⟨(high _ tail.2.1).le, tail.2.1, tail.2.2⟩
  first := head_behind (r := r) rfl h.first

/-- Two ranges joined. -/
lemma Shaped.join (h : Shaped (before ++ a :: b :: after)) :
    Shaped (before ++ { a with shards := { a.shards with stop := b.shards.stop } } :: after) where
  ids := by
    have ids := h.ids
    simp only [map_append, map_cons] at ids ⊢
    exact ids.sublist ((List.Sublist.refl _).append ((sublist_cons_self _ _).cons_cons _))
  held := by
    have others := h.held
    simp only [forall_mem_append, forall_mem_cons] at others ⊢
    exact ⟨others.1, others.2.1, others.2.2.2⟩
  tiled := by
    refine h.tiled.behind (r := a) rfl fun tail => ?_
    obtain ⟨order, -, rest⟩ := tail
    cases after with
    | nil => exact rest
    | cons next after => exact ⟨order.trans rest.1, rest.2.1, rest.2.2⟩
  first := head_behind (r := a) rfl h.first

end Shape

/-! ## Sound maps -/

def TargetOutside (r : Range) : Prop := ∀ moving, r.moving = some moving → moving.target ∉ r.group

instance (r : Range) : Decidable (TargetOutside r) :=
  decidable_of_iff (r.moving.all fun moving => moving.target ∉ r.group) <| by
    unfold TargetOutside
    cases r.moving <;> simp

/-- A map that passes the check, and whose moves go to nodes outside the group. -/
structure Sound (m : RangeMap) : Prop where
  check : m.check = .ok ()
  outside : ∀ r ∈ m.ranges, TargetOutside r

instance (m : RangeMap) : Decidable m.Sound :=
  decidable_of_iff (m.check.isOk = true ∧ ∀ r ∈ m.ranges, TargetOutside r)
    ⟨fun h => ⟨check_of_isOk h.1, h.2⟩, fun h => ⟨by rw [h.check]; rfl, h.outside⟩⟩

/-- The ids of a map are what a `RangeId` can hold. -/
def Sized (m : RangeMap) : Prop := ∀ r ∈ m.ranges, r.id < 2 ^ 64

instance (m : RangeMap) : Decidable m.Sized := inferInstanceAs (Decidable (∀ r ∈ m.ranges, r.id < 2 ^ 64))

/-- Where a new id comes from. -/
lemma nextId_of_check (checked : m.check = .ok ()) :
    ∃ top ∈ m.ranges, (∀ r ∈ m.ranges, r.id ≤ top.id) ∧ m.nextId = (top.id + 1) % 2 ^ 64 := by
  have tiled := (check_iff.1 checked).tiled
  cases hmax : (m.ranges.map Range.id).max? with
  | none =>
    rw [max?_eq_none_iff, map_eq_nil_iff] at hmax
    rw [hmax] at tiled
    exact tiled.elim
  | some id =>
    obtain ⟨hid, highest⟩ := max?_eq_some_iff.1 hmax
    obtain ⟨top, htop, rfl⟩ := mem_map.1 hid
    exact ⟨top, htop, fun r hr => highest _ (mem_map_of_mem hr), by rw [nextId, hmax]; rfl⟩

/-- Both ends of the id space are in use. -/
def WrapsOnto (m : RangeMap) : Prop := (∃ r ∈ m.ranges, r.id = 2 ^ 64 - 1) ∧ ∃ r ∈ m.ranges, r.id = 0

/-- The successor of a 64-bit number is above it, but for that of the last. -/
lemma succ_wraps {id top : Nat} (fits : top < 2 ^ 64) (below : id ≤ top) :
    id = (top + 1) % 2 ^ 64 ↔ top = 2 ^ 64 - 1 ∧ id = 0 := by
  omega

/-- A new id is nobody's, unless the sum wraps onto one. -/
lemma nextId_taken (checked : m.check = .ok ()) (sized : m.Sized) :
    (∃ r ∈ m.ranges, r.id = m.nextId) ↔ m.WrapsOnto := by
  obtain ⟨top, htop, highest, hnext⟩ := nextId_of_check checked
  have wraps := fun r hr => succ_wraps (sized top htop) (highest r hr)
  constructor
  · rintro ⟨r, hr, hid⟩
    obtain ⟨hlast, hzero⟩ := (wraps r hr).1 (hid.trans hnext)
    exact ⟨⟨top, htop, hlast⟩, r, hr, hzero⟩
  · rintro ⟨⟨last, hlast, hid⟩, zero, hzero, h0⟩
    have htop : top.id = 2 ^ 64 - 1 :=
      Nat.le_antisymm (Nat.le_sub_one_of_lt (sized top htop)) (hid ▸ highest last hlast)
    exact ⟨zero, hzero, ((wraps zero hzero).2 ⟨htop, h0⟩).trans hnext.symm⟩

lemma addHolder_cut {node : NodeId} (h : m.addHolder id node = .ok next) :
    ∃ before r after stale, m.ranges = before ++ r :: after ∧ r.id = id ∧
      next = { m with ranges := before ++ { r with group := r.group ++ [node] } :: after, stale := stale } := by
  obtain ⟨edited, hedit, rfl⟩ := map_ok h
  obtain ⟨before, r, r', after, hranges, hid, hf, rfl⟩ := editRange_cut hedit
  split at hf
  · cases hf
  cases hf
  -- marked already, or marked now
  split <;> exact ⟨before, r, after, _, hranges, hid, rfl⟩

end RangeMap

open RangeMap

/-! ## What a mutation does to the ranges -/

/-- What a mutation is not to meet: a new copy that is the target of the range's move, and a cut that
is not refused while the id after the last is in use. -/
def Mutation.Safe (m : RangeMap) : Mutation → Prop
  | .addHolder id node => ∀ r ∈ m.ranges, r.id = id → r.moving.map Move.target ≠ some node
  | .split pos => m.WrapsOnto → ∀ r ∈ m.ranges, r.shards.contains pos = true →
      pos = r.shards.start ∨ r.moving.isSome = true
  | _ => True

/-- What an edit of one range keeps. -/
structure RangeKept (r r' : Range) : Prop where
  id : r'.id = r.id
  shards : r'.shards = r.shards
  held : r.primary ∈ r.group → r'.primary ∈ r'.group

/-- Everything an accepted mutation can make of the ranges. -/
inductive Reshaped (m : RangeMap) : Mutation → List Range → Prop where
  | same {v : Mutation} : Reshaped m v m.ranges
  | edit {v : Mutation} {before after : List Range} {r r' : Range} : m.ranges = before ++ r :: after →
      RangeKept r r' → (v.Safe m → TargetOutside r → TargetOutside r') → Reshaped m v (before ++ r' :: after)
  | cut {pos : Nat} {before after : List Range} {r : Range} : m.ranges = before ++ r :: after →
      r.shards.contains pos = true → pos ≠ r.shards.start → r.moving = none →
      Reshaped m (.split pos) (before ++ { r with shards := { r.shards with stop := some pos } } ::
        ⟨m.nextId, ⟨pos, r.shards.stop⟩, r.group, r.primary, none⟩ :: after)
  | join {before after : List Range} {a b : Range} : m.ranges = before ++ a :: b :: after → Reshaped m (.merge a.id)
        (before ++ { a with shards := { a.shards with stop := b.shards.stop } } :: after)

section Reshaped
variable {m next : RangeMap} {id : RangeId} {v : Mutation}

lemma Reshaped.of_edit {ε : Type} {missing : ε} {f : Range → Except ε Range} (h : m.editRange id missing f = .ok next)
    (keep : ∀ r r', f r = .ok r' → RangeKept r r' ∧ (TargetOutside r → TargetOutside r')) :
    Reshaped m v next.ranges := by
  obtain ⟨before, r, r', after, hranges, -, hf, rfl⟩ := editRange_cut h
  exact .edit hranges (keep r r' hf).1 fun _ => (keep r r' hf).2

/-- **What an accepted mutation has done.** -/
lemma reshaped_of_apply (checked : m.check = .ok ()) (h : v.apply m = .ok next) : Reshaped m v next.ranges := by
  cases v with
  | split pos =>
    obtain ⟨⟨_, id⟩, hsplit, rfl⟩ := map_ok h
    obtain ⟨before, r, after, hranges, hin, inside, still, -, rfl⟩ :=
      split_cut checked (mapError_ok hsplit)
    exact .cut hranges hin inside still
  | merge id =>
    obtain ⟨before, a, b, after, hranges, rfl, -, -, rfl⟩ := merge_cut (mapError_ok h)
    exact .join hranges
  | beginMove id target =>
    refine .of_edit (mapError_ok h) fun r r' hf => ?_
    split at hf
    · cases hf
    split at hf
    · cases hf
    · next away =>
      cases hf
      refine ⟨⟨rfl, rfl, fun held => held⟩, fun _ moving hm => ?_⟩
      cases hm
      exact away
  | setMoveState id state =>
    refine .of_edit (mapError_ok h) fun r r' hf => ?_
    split at hf
    · cases hf
    · next moving hmoving =>
      cases hf
      refine ⟨⟨rfl, rfl, fun held => held⟩, fun outside moving' hm => ?_⟩
      cases hm
      exact outside moving hmoving
  | finishMove id =>
    refine .of_edit (mapError_ok h) fun r r' hf => ?_
    split at hf
    · cases hf
    · cases hf
      exact ⟨⟨rfl, rfl, fun _ => mem_singleton_self _⟩, fun _ moving hm => by cases hm⟩
  | cancelMove id =>
    refine .of_edit (mapError_ok h) fun r r' hf => ?_
    split at hf
    · cases hf
    · cases hf
      exact ⟨⟨rfl, rfl, fun held => held⟩, fun _ moving hm => by cases hm⟩
  | addHolder id node =>
    obtain ⟨before, r, after, stale, hranges, hid, rfl⟩ := addHolder_cut (mapError_ok h)
    refine .edit hranges ⟨rfl, rfl, fun held => mem_append_left _ held⟩ ?_
    intro safe outside moving hm hin
    rcases mem_append.1 hin with hin | hin
    · exact outside moving hm hin
    refine safe r (by simp [hranges]) hid ?_
    rw [show r.moving = some moving from hm]
    exact congrArg some (mem_singleton.1 hin)
  | dropHolder id node =>
    refine .of_edit (mapError_ok h) fun r r' hf => ?_
    split at hf
    · cases hf
    · next serves =>
      split at hf
      · cases hf
      cases hf
      refine ⟨⟨rfl, rfl, fun held => mem_filter.2 ⟨held, by simpa using serves⟩⟩, ?_⟩
      exact fun outside moving hm hin => outside moving hm (mem_filter.1 hin).1
  | reserve table upto =>
    cases h
    rw [reserve_frame]
    exact .same

variable {rs : List Range}

/-- The shape is kept, if the id of an upper half is nobody's. -/
lemma Reshaped.shaped (h : Reshaped m v rs) (shaped : Shaped m.ranges)
    (fresh : ∀ pos, v = .split pos → ∀ r ∈ m.ranges, r.shards.contains pos = true →
      pos ≠ r.shards.start → r.moving = none → ∀ x ∈ m.ranges, x.id ≠ m.nextId) : Shaped rs := by
  cases h with
  | same => exact shaped
  | edit hranges kept _ =>
    rw [hranges] at shaped
    exact shaped.edit kept.id kept.shards (kept.held (shaped.held _ (by simp)))
  | @cut pos before after r hranges hin inside still =>
    have fresh := fresh pos rfl r (by simp [hranges]) hin inside still
    rw [hranges] at shaped fresh
    exact shaped.cut hin fresh
  | join hranges =>
    rw [hranges] at shaped
    exact shaped.join

/-- Moves still go out of the group. -/
lemma Reshaped.outside (h : Reshaped m v rs) (safe : v.Safe m)
    (outside : ∀ r ∈ m.ranges, TargetOutside r) : ∀ r ∈ rs, TargetOutside r := by
  cases h with
  | same => exact outside
  | edit hranges _ keep =>
    rw [hranges] at outside
    simp only [forall_mem_append, forall_mem_cons] at outside ⊢
    exact ⟨outside.1, keep safe outside.2.1, outside.2.2⟩
  | cut hranges _ _ _ =>
    rw [hranges] at outside
    simp only [forall_mem_append, forall_mem_cons] at outside ⊢
    exact ⟨outside.1, outside.2.1, by simp [TargetOutside], outside.2.2⟩
  | join hranges =>
    rw [hranges] at outside
    simp only [forall_mem_append, forall_mem_cons] at outside ⊢
    exact ⟨outside.1, outside.2.1, outside.2.2.2⟩

lemma Mutation.Safe.sound (safe : v.Safe m) (sound : m.Sound) (sized : m.Sized)
    (h : v.apply m = .ok next) : next.Sound := by
  have done := reshaped_of_apply sound.check h
  refine ⟨check_iff.2 (done.shaped (check_iff.1 sound.check) ?_), done.outside safe sound.outside⟩
  rintro pos rfl r hr hin inside still x hx hid
  have wraps := (nextId_taken sound.check sized).1 ⟨x, hx, hid⟩
  rcases safe wraps r hr hin with hstart | hmoving
  · exact inside hstart
  · simp [still] at hmoving

end Reshaped

/-! ## Where a mutation goes wrong -/

namespace RangeMap
variable {m : RangeMap}

/-- The target of a range's move as a new copy of it. -/
lemma not_sound_addHolder (sound : m.Sound) {r : Range} (hr : r ∈ m.ranges) {node : NodeId}
    (moving : r.moving.map Move.target = some node) : ∃ next, m.addHolder r.id node = .ok next ∧ ¬ next.Sound := by
  obtain ⟨move, hmove, rfl⟩ := Option.map_eq_some_iff.1 moving
  have away := sound.outside r hr move hmove
  have found : m.rangeWith r.id = some r := by
    rw [rangeWith_eq_find?]
    exact (find?_of_checkRanges (check_ok sound.check).1 hr).2
  obtain ⟨i, hi, hget⟩ := Option.bind_eq_some_iff.1 found
  have accepted : ∃ next, m.addHolder r.id move.target = .ok next := by
    unfold RangeMap.addHolder editRange
    simp only [hi, hget, away, if_false]
    exact ⟨_, rfl⟩
  obtain ⟨next, hnext⟩ := accepted
  refine ⟨next, hnext, fun bad => ?_⟩
  obtain ⟨before, r', after, stale, hranges, hid, rfl⟩ := addHolder_cut hnext
  have hr' : r' ∈ m.ranges := by simp [hranges]
  have same : r' = r := inj_on_of_nodup_map (check_iff.1 sound.check).ids hr' hr hid
  subst same
  refine bad.outside { r' with group := r'.group ++ [move.target] } (by simp) move hmove ?_
  exact mem_append_right _ (mem_singleton_self _)

/-- A cut whose new id is in use. -/
lemma not_sound_split (sound : m.Sound) {r : Range} (hr : r ∈ m.ranges) {pos : Nat}
    (hin : r.shards.contains pos = true) (inside : pos ≠ r.shards.start) (still : r.moving = none)
    (taken : ∃ r ∈ m.ranges, r.id = m.nextId) : ∃ next, m.split pos = .ok (next, m.nextId) ∧ ¬ next.Sound := by
  obtain ⟨i, hi⟩ := getElem?_of_mem hr
  have accepted : ∃ next, m.split pos = .ok (next, m.nextId) := by
    unfold RangeMap.split
    simp only [rangeOf_eq sound.check hi hin, hi, inside, still, if_false, Option.isSome_none, Bool.false_eq_true]
    exact ⟨_, rfl⟩
  obtain ⟨next, hnext⟩ := accepted
  refine ⟨next, hnext, fun bad => ?_⟩
  obtain ⟨before, r', after, hranges, -, -, -, -, rfl⟩ := split_cut sound.check hnext
  obtain ⟨other, hother, hid⟩ := taken
  have ids := (check_iff.1 bad.check).ids
  simp only [map_append, map_cons] at ids
  rw [append_cons, nodup_middle, ← append_cons] at ids
  refine (nodup_cons.1 ids).1 ?_
  have hmem : other.id ∈ m.ranges.map Range.id := mem_map_of_mem hother
  rw [hranges, hid] at hmem
  simpa using hmem

end RangeMap

lemma Mutation.not_sound {m : RangeMap} {v : Mutation} (hazard : ¬ v.Safe m) (sound : m.Sound) (sized : m.Sized) :
    ∃ next, v.apply m = .ok next ∧ ¬ next.Sound := by
  cases v with
  | split pos =>
    simp only [Safe, not_forall, not_or] at hazard
    obtain ⟨wraps, r, hr, hin, inside, still⟩ := hazard
    have taken := (nextId_taken sound.check sized).2 wraps
    obtain ⟨next, hnext, bad⟩ := not_sound_split sound hr hin inside (by simpa using still) taken
    exact ⟨next, by rw [apply, hnext]; rfl, bad⟩
  | addHolder id node =>
    simp only [Safe, not_forall, not_not] at hazard
    obtain ⟨r, hr, rfl, moving⟩ := hazard
    obtain ⟨next, hnext, bad⟩ := not_sound_addHolder sound hr moving
    exact ⟨next, by rw [apply, hnext]; rfl, bad⟩
  | _ => exact absurd trivial hazard

/-- **In a checked map every shard is in one range, the one it is looked up in; and where no move
goes into its own group, a mutation is refused and changes nothing or leaves such a map, unless a copy
is added that a move is filling or a new id wraps onto an old one.** -/
theorem mutations_keep_maps_sound (m : RangeMap) (checked : m.check = .ok ()) :
    (∀ shard, ∃ r, m.ranges[m.rangeOf shard]? = some r ∧ r.shards.contains shard = true ∧
      ∀ i r', m.ranges[i]? = some r' → r'.shards.contains shard = true → i = m.rangeOf shard) ∧
    (m.Sized → (∀ r ∈ m.ranges, TargetOutside r) → ∀ v : Mutation,
      ((∃ e, v.call m = (.error e, m)) ∨ ∃ next, v.call m = (.ok (), next) ∧ next.Sound) ↔ v.Safe m) := by
  refine ⟨fun shard => ?_, fun sized outside v => ⟨fun kept => ?_, fun safe => ?_⟩⟩
  · obtain ⟨r, hr, hin⟩ := rangeOf_contains checked shard
    exact ⟨r, hr, hin, fun i r' hi hin' => (rangeOf_eq checked hi hin').symm⟩
  · by_contra hazard
    obtain ⟨next, happly, bad⟩ := Mutation.not_sound hazard ⟨checked, outside⟩ sized
    rw [Mutation.call, happly] at kept
    rcases kept with ⟨e, he⟩ | ⟨next', hnext, sound⟩
    · cases he
    · cases hnext
      exact bad sound
  · cases happly : v.apply m with
    | error e => exact .inl ⟨e, by rw [Mutation.call, happly]⟩
    | ok next =>
      have sound := safe.sound ⟨checked, outside⟩ sized happly
      exact .inr ⟨next, by rw [Mutation.call, happly], sound⟩

/-- Two ranges, the first on its way to node 2. -/
def halfMoving : RangeMap :=
  ⟨1, [⟨0, ⟨0, some 8⟩, [0, 1], 0, some ⟨2, .seeding⟩⟩, ⟨1, ⟨8, none⟩, [1], 1, none⟩], [], 0, [], true⟩

theorem mutations_keep_maps_sound_halfMoving :
    (∃ next, (Mutation.split 9).call halfMoving = (.ok (), next) ∧ next.Sound) ∧
      (∃ e, (Mutation.split 3).call halfMoving = (.error e, halfMoving)) ∧ halfMoving.rangeOf 9 = 1 := by
  obtain ⟨lookup, kept⟩ := mutations_keep_maps_sound halfMoving (check_of_isOk (by decide))
  have kept := kept (by decide) (by decide)
  have free : ¬ halfMoving.WrapsOnto := fun h => absurd h.1 (by decide)
  obtain ⟨r, hr, hin, unique⟩ := lookup 9
  refine ⟨?_, ?_, (unique 1 _ rfl (by decide)).symm⟩
  · refine ((kept (.split 9)).2 fun wraps => absurd wraps free).resolve_left ?_
    rintro ⟨e, he⟩
    have accepted : ((Mutation.split 9).call halfMoving).1.isOk = true := by decide
    rw [he] at accepted
    cases accepted
  · refine ((kept (.split 3)).2 fun wraps => absurd wraps free).resolve_right ?_
    rintro ⟨next, hnext, -⟩
    have refused : ((Mutation.split 3).call halfMoving).1.isOk = false := by decide
    rw [hnext] at refused
    cases refused

def endsOfIds : RangeMap :=
  ⟨1, [⟨0, ⟨0, some 8⟩, [0], 0, none⟩, ⟨2 ^ 64 - 1, ⟨8, none⟩, [0], 0, none⟩], [], 0, [], true⟩

/-- A copy added to a range on the node it is being moved to, and a cut whose new id is another
range's. -/
theorem mutations_break_maps :
    (halfMoving.Sound ∧ halfMoving.Sized ∧ ∃ next, (Mutation.addHolder 0 2).call halfMoving = (.ok (), next) ∧
      next.ranges.head? = some ⟨0, ⟨0, some 8⟩, [0, 1, 2], 0, some ⟨2, .seeding⟩⟩ ∧ ¬ next.Sound) ∧
    endsOfIds.Sound ∧ endsOfIds.Sized ∧ ∃ next, (Mutation.split 9).call endsOfIds = (.ok (), next) ∧
      next.ranges.map Range.id = [0, 2 ^ 64 - 1, 0] ∧ ¬ next.Sound :=
  ⟨⟨by decide, by decide, _, rfl, by decide, by decide⟩, by decide, by decide, _, rfl, by decide, by decide⟩

end BigDb.Cluster
