import BigDb.Db.Readers
import Mathlib.Data.Nat.Bitwise

/-!
# Mutex fields

A record is in at most one row of the field. Which one is kept a second time in a shadow fragment, a
bit-sliced index of a fixed depth, so that a write finds the row the record leaves. `put` changes the
rows first and the shadow last, and only the shadow checks that the row fits it.

A fragment holds the records of one shard and every write goes to the fragments of its record's, so
the fragments of all the shards are taken together here.
-/

namespace BigDb.Db
open Lib List

def setBits (f bits : Bits) : Bits := bits ++ f

def clearBits (f bits : Bits) : Bits := f.filter fun b => !bits.contains b

namespace Bsi

structure ValueTooWide where
  value : Nat
  bitDepth : Nat
deriving DecidableEq

def fits (bitDepth value : Nat) : Bool := 64 ≤ bitDepth || value < 2 ^ bitDepth

/-- A value that is too wide is refused before any bit is written. -/
def set (bitDepth : Nat) (f : Bits) (record : RecordId) (value : Nat) : Except ValueTooWide Bits :=
  if fits bitDepth value then .ok (writeBits bitDepth f record value) else .error ⟨value, bitDepth⟩

def clear (bitDepth : Nat) (f : Bits) (record : RecordId) : Bits :=
  clearBits f ((existsRow, record) :: (range bitDepth).map fun i => (planeRow i, record))

variable {d v : Nat} {f f' : Bits} {r record : RecordId}

/-- A value is read off the rows its record is in. -/
lemma get_congr (same : ∀ row, (row, r) ∈ f' ↔ (row, r) ∈ f) : get d f' r = get d f r := by
  unfold get
  simp only [same]

lemma foldl_planes {p : Nat → Prop} [DecidablePred p] (n : Nat) (bits : ∀ i < n, p i ↔ v.testBit i = true) :
    (range n).foldl (fun w i => if p i then w + 2 ^ i else w) 0 = v % 2 ^ n := by
  induction n with
  | zero => simp [Nat.mod_one]
  | succ n ih =>
    rw [range_succ, foldl_append, ih fun i hi => bits i (by omega), Nat.mod_pow_succ]
    have bit := bits n (by omega)
    rw [Nat.testBit_eq_decide_div_mod_eq, decide_eq_true_eq] at bit
    by_cases set : p n
    · simp [set, bit.1 set]
    · simp [set, Nat.mod_two_ne_one.1 (mt bit.2 set)]

lemma mem_writeBits {row : RowId} : (row, r) ∈ writeBits d f record v ↔
    (r = record ∧ (row = existsRow ∨ ∃ i < d, row = planeRow i ∧ v.testBit i = true)) ∨
      (row, r) ∈ f ∧ (r ≠ record ∨ row ≠ existsRow ∧ ∀ i < d, row ≠ planeRow i) := by
  simp only [writeBits, cons_append, mem_cons, mem_append, mem_map, mem_filter, mem_range, decide_eq_true_eq]
  grind

lemma get_writeBits (low : v < 2 ^ d) : get d (writeBits d f record v) r = if r = record then some v else get d f r := by
  split
  · next same =>
    have planes : ∀ i < d, (planeRow i, r) ∈ writeBits d f record v ↔ v.testBit i = true := by
      intro i hi
      rw [mem_writeBits]
      unfold planeRow existsRow
      grind
    unfold get
    rw [if_pos (mem_writeBits.2 (.inl ⟨same, .inl rfl⟩)), foldl_planes d planes, Nat.mod_eq_of_lt low]
  · next ne =>
    apply get_congr
    simp [mem_writeBits, ne]

lemma get_clear : get d (clear d f record) r = if r = record then none else get d f r := by
  split
  · next same => simp [get, clear, clearBits, same]
  · next ne =>
    apply get_congr
    simp [clear, clearBits, ne, Ne.symm ne]

lemma fits_iff (v : UInt64) : fits d v.toNat = true ↔ v.toNat < 2 ^ d := by
  rw [fits, Bool.or_eq_true, decide_eq_true_eq, decide_eq_true_eq, or_iff_right_of_imp]
  exact fun deep => v.toNat_lt.trans_le (Nat.pow_le_pow_right (by decide) deep)

/-- A write of a record's value or, without one, its clearing. A fragment stays as it was if the value is refused. -/
def write (bitDepth : Nat) (f : Bits) (w : RecordId × Option UInt64) : Bits :=
  match w.2 with
  | some v => (set bitDepth f w.1 v.toNat).toOption.getD f
  | none => clear bitDepth f w.1

/-- A write that is not refused. -/
def accepts (bitDepth : Nat) (w : RecordId × Option UInt64) : Bool := w.2.all (fits bitDepth ·.toNat)

lemma get_write (w : RecordId × Option UInt64) :
    get d (write d f w) r = if accepts d w ∧ w.1 = r then w.2.map UInt64.toNat else get d f r := by
  obtain ⟨record, value⟩ := w
  cases value with
  | none => simp [write, accepts, get_clear, eq_comm]
  | some v =>
    by_cases fit : fits d v.toNat = true
    · simp [write, accepts, set, fit, Except.toOption, get_writeBits ((fits_iff v).1 fit), eq_comm]
    · simp [write, accepts, set, fit, Except.toOption]

/-- After any writes and clears a record reads as the last of its own left it that was not refused. -/
theorem get_last_write (writes : List (RecordId × Option UInt64)) :
    get d (writes.foldl (write d) f) r =
      ((writes.filter (accepts d)).reverse.find? (·.1 = r)).elim (get d f r) (·.2.map UInt64.toNat) := by
  induction writes generalizing f with
  | nil => rfl
  | cons w rest ih =>
    rw [foldl_cons, ih, get_write, filter_cons]
    by_cases taken : accepts d w = true
    · rw [if_pos taken, reverse_cons, find?_append]
      cases (rest.filter (accepts d)).reverse.find? (·.1 = r) with
      | some last => rfl
      | none => by_cases own : w.1 = r <;> simp [taken, own]
    · simp [taken]

/-! ## Comparisons -/

inductive RangeOp where
  | gt | ge | lt | le | eq | ne
deriving DecidableEq

abbrev RowSet := List RecordId

/-- `FragmentRead::row`. -/
def row (f : Bits) (i : RowId) : RowSet := (f.filter (·.1 = i)).map Prod.snd

/-- The planes below `i` from the top down, with the records that are greater and those equal so far. -/
def compare (f : Bits) (op : RangeOp) (k : Nat) : Nat → RowSet → RowSet → RowSet × RowSet
  | 0, gt, eq => (gt, eq)
  | i + 1, gt, eq =>
    let plane := row f (planeRow i)
    if eq = [] ∧ op = .eq then (gt, eq)
    else if k.testBit i then compare f op k i gt (eq.filter (· ∈ plane))
    else compare f op k i (gt ++ eq.filter (· ∈ plane)) (eq.filter (· ∉ plane))

def range (bitDepth : Nat) (f : Bits) (op : RangeOp) (k : Nat) : RowSet :=
  let all := row f existsRow
  if fits bitDepth k then
    let (gt, eq) := compare f op k bitDepth [] all
    match op with
    | .gt => gt
    | .ge => gt ++ eq
    | .le => all.filter (· ∉ gt)
    | .lt => all.filter (· ∉ gt ++ eq)
    | .eq => eq
    | .ne => all.filter (· ∉ eq)
  else
    match op with
    | .gt | .ge | .eq => []
    | .lt | .le | .ne => all

def RangeOp.holds (v k : Nat) : RangeOp → Prop
  | .gt => k < v
  | .ge => k ≤ v
  | .lt => v < k
  | .le => v ≤ k
  | .eq => v = k
  | .ne => v ≠ k

lemma mem_row {i : RowId} : r ∈ row f i ↔ (i, r) ∈ f := by simp [row]

/-- A value has the bits of the planes its record is in. -/
lemma exists_get : ∃ v < 2 ^ d, (∀ i < d, (planeRow i, r) ∈ f ↔ v.testBit i = true) ∧
    get d f r = if (existsRow, r) ∈ f then some v else none := by
  let v := Nat.ofBits fun i : Fin d => decide ((planeRow i, r) ∈ f)
  have low : v < 2 ^ d := Nat.ofBits_lt_two_pow _
  have bits : ∀ i < d, (planeRow i, r) ∈ f ↔ v.testBit i = true := fun i hi => by
    rw [Nat.testBit_ofBits_lt _ _ hi, decide_eq_true_eq]
  refine ⟨v, low, bits, ?_⟩
  rw [get, foldl_planes d bits, Nat.mod_eq_of_lt low]

/-- The planes below `i` tell those that were equal apart. A search for equal ones may stop before it knows the greater. -/
lemma mem_compare {op k i} {gt eq : RowSet} (bits : ∀ j < i, (planeRow j, r) ∈ f ↔ v.testBit j = true) :
    (r ∈ (compare f op k i gt eq).2 ↔ r ∈ eq ∧ v % 2 ^ i = k % 2 ^ i) ∧
      (op ≠ .eq → (r ∈ (compare f op k i gt eq).1 ↔ r ∈ gt ∨ r ∈ eq ∧ k % 2 ^ i < v % 2 ^ i)) := by
  induction i generalizing gt eq with
  | zero => simp [compare, Nat.mod_one]
  | succ i ih =>
    have ih {gt eq} := @ih gt eq fun j hj => bits j (hj.trans i.lt_succ_self)
    have bit := bits i i.lt_succ_self
    have hv := Nat.mod_lt v (Nat.two_pow_pos i)
    have hk := Nat.mod_lt k (Nat.two_pow_pos i)
    rw [Nat.testBit_eq_decide_div_mod_eq, decide_eq_true_eq] at bit
    rw [Nat.mod_pow_succ, Nat.mod_pow_succ, compare, Nat.testBit_eq_decide_div_mod_eq]
    -- the bit of the plane and that of the threshold
    rcases Nat.mod_two_eq_zero_or_one (v / 2 ^ i) with bv | bv <;>
      rcases Nat.mod_two_eq_zero_or_one (k / 2 ^ i) with bk | bk <;>
      rw [bv, bk] <;> rw [bv] at bit
    all_goals split
    all_goals grind [mem_row]

/-- A comparison finds the records whose values compare so, and no others. -/
theorem range_compares {op} (k : UInt64) : r ∈ range d f op k.toNat ↔ ∃ v, get d f r = some v ∧ op.holds v k.toNat := by
  obtain ⟨v, low, bits, value⟩ := exists_get (d := d) (f := f) (r := r)
  have found := @mem_compare _ _ _ op k.toNat _ [] (row f existsRow) bits
  rw [Nat.mod_eq_of_lt low, mem_row] at found
  have fit := fits_iff (d := d) k
  rw [value]
  unfold range
  split
  · next fits =>
    rw [Nat.mod_eq_of_lt (fit.1 fits)] at found
    cases op <;> grind [RangeOp.holds, mem_row]
  · cases op <;> grind [RangeOp.holds, mem_row]

end Bsi

namespace Mutex

/-- `SHADOW_DEPTH`. -/
def shadowDepth : Nat := 32

/-- The fragments of a field. -/
structure Fragments where
  values : Bits
  shadow : Bits

namespace Fragments
variable (m : Fragments) (record : RecordId)

/-- The row the shadow has for a record. -/
def get : Option RowId := Bsi.get shadowDepth m.shadow record

/-- The fragments are changed in place, and the rows stay changed when the shadow refuses. -/
def put (row : RowId) : Fragments × Except Bsi.ValueTooWide Unit :=
  let values := match m.get record with
    | some old => if old ≠ row then clearBits m.values [(old, record)] else m.values
    | none => m.values
  let values := setBits values [(row, record)]
  match Bsi.set shadowDepth m.shadow record row with
  | .ok shadow => (⟨values, shadow⟩, .ok ())
  | .error e => (⟨values, m.shadow⟩, .error e)

def clear : Fragments :=
  match m.get record with
  | some old => ⟨clearBits m.values [(old, record)], Bsi.clear shadowDepth m.shadow record⟩
  | none => m

/-- `clear_records`, of a fragment of either view. -/
def clearRecords (f : Bits) (records : List RecordId) : Bits := f.filter fun b => !records.contains b.2

def delete (records : List RecordId) : Fragments :=
  ⟨clearRecords m.values records, clearRecords m.shadow records⟩

end Fragments

/-- A field as the open transaction has it, and as it was committed. -/
structure State where
  working : Fragments
  committed : Fragments

inductive Action where
  | put (record : RecordId) (row : RowId)
  | clear (record : RecordId)
  | setMutex (record : RecordId) (row : RowId)
  | delete (records : List RecordId)
  | commit
  | rollback

namespace State

def init : State := ⟨⟨[], []⟩, ⟨[], []⟩⟩

variable (s : State)

/-- The fragments are saved only when the write went through. -/
def applyMutex (record : RecordId) (row : RowId) : State :=
  match s.working.put record row with
  | (working, .ok ()) => { s with working }
  | (_, .error _) => s

def step : Action → State
  | .put record row => { s with working := (s.working.put record row).1 }
  | .clear record => { s with working := s.working.clear record }
  | .setMutex record row => s.applyMutex record row
  | .delete records => { s with working := s.working.delete records }
  | .commit => { s with committed := s.working }
  | .rollback => { s with working := s.committed }

end State

/-- The row of a write fits the shadow. This is asked of `set_mutex` too: when it is refused, the tree that stays in
place has already given back pages, which are not modelled. -/
def Action.fits : Action → Bool
  | .put _ row | .setMutex _ row => row < 2 ^ shadowDepth
  | _ => true

/-- The shadow has the rows the records are in. -/
def Shadowed (m : Fragments) : Prop := ∀ record row, m.get record = some row ↔ (row, record) ∈ m.values

namespace Fragments
variable {m : Fragments} {record : RecordId} {row : RowId}

lemma shadowed_put (S : Shadowed m) (low : row < 2 ^ shadowDepth) : Shadowed (m.put record row).1 := by
  intro r row'
  have fit : Bsi.fits shadowDepth row = true := by simp [Bsi.fits, low]
  have held := S r row'
  simp only [put, Bsi.set, fit, get, Bsi.get_writeBits low, setBits, if_true] at held ⊢
  cases old : Bsi.get shadowDepth m.shadow record with
  | none => grind
  | some old => grind [clearBits]

lemma shadowed_clear (S : Shadowed m) : Shadowed (m.clear record) := by
  intro r row
  have kept := S r row
  unfold clear
  cases held : m.get record with
  | none => exact kept
  | some old =>
    simp only [get, Bsi.get_clear] at held kept ⊢
    grind [clearBits]

lemma shadowed_delete (S : Shadowed m) (records : List RecordId) : Shadowed (m.delete records) := by
  intro r row
  have mem (f : Bits) (row : RowId) : (row, r) ∈ clearRecords f records ↔ (row, r) ∈ f ∧ r ∉ records := by
    simp [clearRecords]
  rw [delete, mem, ← S]
  by_cases gone : r ∈ records
  · simp [get, Bsi.get, mem, gone]
  · simp [get, Bsi.get_congr fun row => (mem m.shadow row).trans (and_iff_left gone), gone]

end Fragments

/-- What one step keeps, of the open transaction and of what is committed. -/
lemma step_shadowed {s : State} {a : Action} (fits : a.fits = true) (S : Shadowed s.working ∧ Shadowed s.committed) :
    Shadowed (s.step a).working ∧ Shadowed (s.step a).committed := by
  obtain ⟨working, committed⟩ := S
  cases a with
  | put => exact ⟨Fragments.shadowed_put working (of_decide_eq_true fits), committed⟩
  | clear => exact ⟨Fragments.shadowed_clear working, committed⟩
  | setMutex record row =>
    have saved := @Fragments.shadowed_put s.working record row working (of_decide_eq_true fits)
    rw [State.step, State.applyMutex]
    split
    · next h => rw [h] at saved; exact ⟨saved, committed⟩
    · exact ⟨working, committed⟩
  | delete => exact ⟨Fragments.shadowed_delete working _, committed⟩
  | commit => exact ⟨working, working⟩
  | rollback => exact ⟨committed, committed⟩

/-- Every record is in at most one row, and the shadow has that row. -/
def Exclusive (m : Fragments) : Prop :=
  (∀ record row row', (row, record) ∈ m.values → (row', record) ∈ m.values → row = row') ∧ Shadowed m

/-- **A record is in one row of a mutex field**, and the shadow has it, after any writes whose rows
fit the shadow. -/
theorem mutex_rows_exclude {s : State} (run : Run State.step (fun _ a => a.fits = true) State.init s) :
    Exclusive s.working ∧ Exclusive s.committed := by
  have empty : Shadowed ⟨[], []⟩ := fun r row => by simp [Fragments.get, Bsi.get]
  have S := run.run (P := fun s => Shadowed s.working ∧ Shadowed s.committed) ⟨empty, empty⟩
    fun _ _ fits S => step_shadowed fits S
  have one {m} (S : Shadowed m) : Exclusive m :=
    ⟨fun r row row' h h' => Option.some.inj (((S r row).2 h).symm.trans ((S r row').2 h')), S⟩
  exact ⟨one S.1, one S.2⟩

/-- A record that moves to another row and stays there when a later transaction is dropped. -/
theorem mutex_rows_exclude_moved :
    let s := play State.step State.init [fun _ => .setMutex 7 1, fun _ => .setMutex 7 2, fun _ => .commit,
      fun _ => .delete [7], fun _ => .rollback]
    s.working.values = [(2, 7)] ∧ Exclusive s.working ∧ Exclusive s.committed := by
  intro s
  have run : Run State.step (fun _ a => a.fits = true) State.init s :=
    Run.play (fun _ a => a.fits) _ (by decide +kernel) fun _ _ fits => fits
  exact ⟨by decide +kernel, mutex_rows_exclude run⟩

/-- A row that does not fit is refused after the record was put in it, and stays when the record is
put in another. -/
theorem record_in_two_rows :
    let s := play State.step State.init [fun _ => .put 7 (2 ^ 32), fun _ => .put 7 1]
    (State.init.working.put 7 (2 ^ 32)).2.isOk = false ∧ (2 ^ 32, 7) ∈ s.working.values ∧
      (1, 7) ∈ s.working.values ∧ s.working.get 7 = some 1 := by
  decide +kernel

end Mutex

end BigDb.Db
