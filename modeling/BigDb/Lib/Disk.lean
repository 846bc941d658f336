import BigDb.Lib.Lists

/-!
# A disk that keeps what was synced

A file of pages behind a cache. What is written can be read back at once and is durable after the
next sync; a crash before that keeps any part of the operations since the last one, and may tear
the writes among those. What a torn write leaves is for the crash to choose, up to `spoil`: how the
garbage shows where a page of the given content was written.
-/

namespace BigDb.Lib
open List
variable {C : Type}

inductive DiskOp (C : Type) where
  | write (p : Nat) (content : C)
  | resize (pages : Nat)
deriving DecidableEq, Repr

/-- A file after an operation. A file that becomes longer is filled with the default page. -/
def DiskOp.apply [Inhabited C] (file : List C) : DiskOp C → List C
  | .write p content => (file ++ replicate (p + 1 - file.length) default).set p content
  | .resize pages => file.take pages ++ replicate (pages - file.length) default

/-- What becomes of an operation that was not synced. -/
inductive Fate (C : Type) where
  | lost
  | kept
  | torn (garbage : C)
deriving DecidableEq, Repr

def Fate.isTorn : Fate C → Bool
  | .torn _ => true
  | _ => false

def Fate.leaves (spoil : C → C → C) : Fate C → DiskOp C → Option (DiskOp C)
  | .lost, _ => none
  | .kept, op => some op
  | .torn garbage, .write p content => some (.write p (spoil content garbage))
  | .torn _, .resize _ => none

/-- The operations that reach the disk; those no fate is given for are lost. -/
def survivors (spoil : C → C → C) : List (DiskOp C) → List (Fate C) → List (DiskOp C)
  | op :: ops, fate :: fates => (fate.leaves spoil op).toList ++ survivors spoil ops fates
  | _, _ => []

structure Disk (C : Type) where
  durable : List C
  pending : List (DiskOp C)

namespace Disk

def of (file : List C) : Disk C := ⟨file, []⟩

def perform (d : Disk C) (op : DiskOp C) : Disk C := { d with pending := d.pending ++ [op] }

variable [Inhabited C]

/-- What a read sees. -/
def view (d : Disk C) : List C := d.pending.foldl DiskOp.apply d.durable

def sync (d : Disk C) : Disk C := .of d.view

/-- The file after a crash. -/
def crash (spoil : C → C → C) (d : Disk C) (fates : List (Fate C)) : List C :=
  (survivors spoil d.pending fates).foldl DiskOp.apply d.durable

def write (d : Disk C) (p : Nat) (content : C) : Disk C := d.perform (.write p content)

def grow (d : Disk C) (pages : Nat) : Disk C :=
  if d.view.length < pages then d.perform (.resize pages) else d

def truncate (d : Disk C) (pages : Nat) : Disk C :=
  if pages < d.view.length then d.perform (.resize pages) else d

end Disk

/-! ## Reading after an operation -/

section Reading
variable [Inhabited C] {file : List C} {p q n : Nat} {content : C} {op : DiskOp C}

@[simp] lemma length_write : (DiskOp.apply file (.write p content)).length = max file.length (p + 1) := by
  simp only [DiskOp.apply, length_set, length_append, length_replicate]
  omega

@[simp] lemma length_resize : (DiskOp.apply file (.resize n)).length = n := by
  simp only [DiskOp.apply, length_append, length_take, length_replicate]
  omega

lemma getElem?_write_self : (DiskOp.apply file (.write p content))[p]? = some content := by
  have long : p < (file ++ replicate (p + 1 - file.length) default).length := by
    simp only [length_append, length_replicate]
    omega
  simp only [DiskOp.apply, getElem?_set_self long]

lemma getElem?_write_ne (ne : q ≠ p) (inside : q < file.length) :
    (DiskOp.apply file (.write p content))[q]? = file[q]? := by
  simp only [DiskOp.apply, getElem?_set_ne (Ne.symm ne), getElem?_append_left inside]

lemma getElem?_resize (kept : q < n) (inside : q < file.length) : (DiskOp.apply file (.resize n))[q]? = file[q]? := by
  have taken : q < (file.take n).length := by
    rw [length_take]
    omega
  simp only [DiskOp.apply, getElem?_append_left taken, getElem?_take_of_lt kept]

end Reading

/-! ## Operations that leave pages alone -/

/-- An operation that leaves the pages of `S` as they are. -/
def DiskOp.Avoids (S : Nat → Prop) : DiskOp C → Prop
  | .write p _ => ¬S p
  | .resize pages => ∀ q, S q → q < pages

lemma DiskOp.Avoids.mono {S S' : Nat → Prop} {op : DiskOp C} (avoids : op.Avoids S) (sub : ∀ q, S' q → S q) :
    op.Avoids S' := by
  cases op with
  | write q content => exact fun h => avoids (sub q h)
  | resize pages => exact fun q h => avoids q (sub q h)

/-- An operation after which a file of `n` pages or more still has as many. -/
def DiskOp.Spares (n : Nat) : DiskOp C → Prop
  | .write _ _ => True
  | .resize pages => n ≤ pages

variable {ops : List (DiskOp C)} {fates : List (Fate C)}

/-- What reaches the disk was to be written, or is what a torn write left. -/
lemma mem_survivors {spoil : C → C → C} {op : DiskOp C} (h : op ∈ survivors spoil ops fates) :
    op ∈ ops ∨ ∃ (i p : Nat) (content garbage : C), ops[i]? = some (.write p content) ∧ fates[i]? = some (.torn garbage) ∧
      op = .write p (spoil content garbage) := by
  induction ops generalizing fates with
  | nil => simp [survivors] at h
  | cons first ops ih =>
    cases fates with
    | nil => simp [survivors] at h
    | cons fate fates =>
      rw [survivors, mem_append, Option.mem_toList] at h
      rcases h with here | later
      · cases fate with
        | lost => cases here
        | kept =>
          cases here
          exact .inl mem_cons_self
        | torn garbage =>
          cases first with
          | write p content =>
            cases here
            exact .inr ⟨0, p, content, garbage, rfl, rfl, rfl⟩
          | resize => cases here
      · rcases ih later with old | ⟨i, p, content, garbage, old, torn, rfl⟩
        · exact .inl (mem_cons_of_mem _ old)
        · exact .inr ⟨i + 1, p, content, garbage, old, torn, rfl⟩

section Framing
variable [Inhabited C] {S : Nat → Prop} {file : List C} {ops : List (DiskOp C)} {n q : Nat}

lemma length_le_foldl (long : n ≤ file.length) (h : ∀ op ∈ ops, op.Spares n) :
    n ≤ (ops.foldl DiskOp.apply file).length := by
  induction ops generalizing file with
  | nil => exact long
  | cons op ops ih =>
    refine ih ?_ fun o ho => h o (mem_cons_of_mem _ ho)
    have first := h op mem_cons_self
    cases op with
    | write p content => rw [length_write]; omega
    | resize pages => rwa [length_resize]

lemma getElem?_foldl (inS : S q) (inside : q < file.length) (h : ∀ op ∈ ops, op.Avoids S) :
    (ops.foldl DiskOp.apply file)[q]? = file[q]? := by
  induction ops generalizing file with
  | nil => rfl
  | cons op ops ih =>
    have first := h op mem_cons_self
    have rest : ∀ o ∈ ops, o.Avoids S := fun o ho => h o (mem_cons_of_mem _ ho)
    rw [foldl_cons]
    cases op with
    | write p content =>
      have ne : q ≠ p := fun e => first (e ▸ inS)
      rw [ih (by rw [length_write]; omega) rest, getElem?_write_ne ne inside]
    | resize pages =>
      have kept : q < pages := first q inS
      rw [ih (by rwa [length_resize]) rest, getElem?_resize kept inside]

lemma DiskOp.Avoids.getElem? {op : DiskOp C} (avoids : op.Avoids S) (inS : S q) (inside : q < file.length) :
    (op.apply file)[q]? = file[q]? :=
  getElem?_foldl inS inside fun o ho => (mem_singleton.1 ho : o = op) ▸ avoids

/-- A page to which only certain things are written has one of them, or what it had. -/
lemma getElem?_foldl_or {P : C → Prop} (inside : q < file.length)
    (h : ∀ op ∈ ops, op.Avoids (· = q) ∨ ∃ content, op = .write q content ∧ P content) :
    (ops.foldl DiskOp.apply file)[q]? = file[q]? ∨
      ∃ content, P content ∧ (ops.foldl DiskOp.apply file)[q]? = some content := by
  induction ops generalizing file with
  | nil => exact .inl rfl
  | cons op ops ih =>
    have rest := fun o ho => h o (mem_cons_of_mem _ ho)
    rcases h op mem_cons_self with avoids | ⟨content, rfl, good⟩
    · have same := avoids.getElem? rfl inside
      have inside' : q < (op.apply file).length :=
        (List.getElem?_eq_some_iff.1 (same.trans (List.getElem?_eq_getElem inside))).1
      exact (ih inside' rest).imp_left fun e => e.trans same
    have inside' : q < (DiskOp.apply file (.write q content)).length := by
      rw [length_write]
      omega
    rcases ih inside' rest with old | new
    · exact .inr ⟨content, good, old.trans getElem?_write_self⟩
    · exact .inr new

variable {d : Disk C} {spoil : C → C → C} {fates : List (Fate C)}

/-- A crash leaves them alone. -/
lemma crash_eq_durable (h : ∀ op ∈ d.pending, op.Avoids S) (inS : S q)
    (inside : q < d.durable.length) : (d.crash spoil fates)[q]? = d.durable[q]? := by
  refine getElem?_foldl inS inside fun op hop => ?_
  rcases mem_survivors hop with old | ⟨i, p, content, garbage, old, -, rfl⟩
  · exact h op old
  · exact h (.write p content) (mem_of_getElem? old)

/-- The last operation is lost, or some of it reaches what is left of the others. -/
lemma crash_perform (spoil : C → C → C) (d : Disk C) (op : DiskOp C) (fates : List (Fate C)) :
    (d.perform op).crash spoil fates = d.crash spoil fates ∨ ∃ fate op', fate ∈ fates[d.pending.length]? ∧
      Fate.leaves spoil fate op = some op' ∧ (d.perform op).crash spoil fates = op'.apply (d.crash spoil fates) := by
  have split : ∀ (ops : List (DiskOp C)) (fates : List (Fate C)), survivors spoil (ops ++ [op]) fates
      = survivors spoil ops fates ++ ((fates[ops.length]?).bind fun fate => fate.leaves spoil op).toList := by
    intro ops
    induction ops with
    | nil => rintro (_ | ⟨fate, fates⟩) <;> simp [survivors]
    | cons first ops ih =>
      rintro (_ | ⟨fate, fates⟩)
      · simp [survivors]
      · simp [survivors, ih]
  simp only [Disk.crash, Disk.perform, split, foldl_append]
  cases last : (fates[d.pending.length]?).bind fun fate => fate.leaves spoil op with
  | none => exact .inl rfl
  | some op' =>
    obtain ⟨fate, found, leaves⟩ := Option.bind_eq_some_iff.1 last
    exact .inr ⟨fate, op', found, leaves, rfl⟩

lemma length_le_crash (long : n ≤ d.durable.length) (h : ∀ op ∈ d.pending, op.Spares n) :
    n ≤ (d.crash spoil fates).length := by
  refine length_le_foldl long fun op hop => ?_
  rcases mem_survivors hop with old | ⟨-, -, -, -, -, -, rfl⟩
  · exact h op old
  · trivial

@[simp] lemma view_perform {op : DiskOp C} : (d.perform op).view = op.apply d.view := by
  simp only [Disk.perform, Disk.view, foldl_append, foldl_cons, foldl_nil]

@[simp] lemma view_of : (Disk.of file).view = file := rfl

lemma crash_kept (d : Disk C) : d.crash spoil (replicate d.pending.length .kept) = d.view := by
  have all : ∀ ops : List (DiskOp C), survivors spoil ops (replicate ops.length .kept) = ops := by
    intro ops
    induction ops with
    | nil => rfl
    | cons op ops ih =>
      rw [length_cons, replicate_succ, survivors, ih]
      rfl
  rw [Disk.crash, all, Disk.view]

@[simp] lemma crash_of : (Disk.of file).crash spoil fates = file := by
  simp only [Disk.crash, Disk.of, survivors, foldl_nil]

end Framing

/-! ## Files with pages written to them -/

section Files
variable [Inhabited C]

/-- A file with pages written to it. -/
def writeAll (file : List C) (out : List (Nat × C)) : List C :=
  out.foldl (fun file x => DiskOp.apply file (.write x.1 x.2)) file

def growTo (file : List C) (pages : Nat) : List C :=
  if file.length < pages then DiskOp.apply file (.resize pages) else file

variable {file : List C} {out : List (Nat × C)} {p n : Nat}

lemma length_growTo : (growTo file n).length = max file.length n := by
  rw [growTo]
  split_ifs
  · rw [length_resize]
    omega
  · omega

lemma getElem?_growTo (inside : p < file.length) : (growTo file n)[p]? = file[p]? := by
  rw [growTo]
  split_ifs
  · exact getElem?_resize (by omega) inside
  · rfl

lemma getElem?_growTo_new (outside : file.length ≤ p) (inside : p < n) : (growTo file n)[p]? = some default := by
  have short : file.take n = file := take_of_length_le (by omega)
  rw [growTo, if_pos (by omega), DiskOp.apply, short, getElem?_append_right outside, getElem?_replicate,
    if_pos (by omega)]

lemma length_writeAll (inside : ∀ x ∈ out, x.1 < file.length) : (writeAll file out).length = file.length := by
  induction out generalizing file with
  | nil => rfl
  | cons x out ih =>
    have here := inside x mem_cons_self
    have same : (DiskOp.apply file (.write x.1 x.2)).length = file.length := by
      rw [length_write]
      omega
    rw [writeAll, foldl_cons]
    exact (ih fun y hy => same ▸ inside y (mem_cons_of_mem _ hy)).trans same

lemma getElem?_writeAll_other (here : p < file.length) (other : p ∉ out.map Prod.fst) :
    (writeAll file out)[p]? = file[p]? := by
  induction out generalizing file with
  | nil => rfl
  | cons x out ih =>
    rw [map_cons, mem_cons, not_or] at other
    rw [writeAll, foldl_cons]
    refine (ih ?_ other.2).trans (getElem?_write_ne other.1 here)
    rw [length_write]
    omega

lemma getElem?_writeAll_mem {x : Nat × C} (once : (out.map Prod.fst).Nodup) (h : x ∈ out) :
    (writeAll file out)[x.1]? = some x.2 := by
  induction out generalizing file with
  | nil => cases h
  | cons y out ih =>
    rw [map_cons, nodup_cons] at once
    rw [writeAll, foldl_cons]
    rcases mem_cons.1 h with rfl | h
    · refine (getElem?_writeAll_other ?_ once.1).trans getElem?_write_self
      rw [length_write]
      omega
    · exact ih once.2 h

variable {d : Disk C}

@[simp] lemma view_write {content : C} :
    (d.write p content).view = DiskOp.apply d.view (.write p content) := view_perform

@[simp] lemma view_grow : (d.grow n).view = growTo d.view n := by
  rw [Disk.grow, growTo]
  split_ifs
  · exact view_perform
  · rfl

lemma length_truncate : (d.truncate n).view.length = min d.view.length n := by
  rw [Disk.truncate]
  split_ifs
  · rw [view_perform, length_resize]
    omega
  · omega

end Files

end BigDb.Lib
