/-
Maps from axes to values. A map holds at most six entries, keeps the order in which axes were added, and holds each
axis once; both facts are part of the type.

- `get?_insert`: an insertion is seen at its axis and nowhere else;
- `insert_eq_error`: it is refused exactly when the axis is new and the map is full;
- `get?_rename`: a renamed axis takes its value along.
-/
import Stencil.Axis.Dim
import Stencil.Error

namespace Stencil

/-- how many axes one map can hold -/
def maxDims : Nat := 6

/-- a map from axes to values, in order of insertion -/
structure DimMap (α : Type) where
  entries : List (Dim × α)
  nodup : (entries.map Prod.fst).Nodup
  length_le : entries.length ≤ maxDims

namespace DimMap

variable {α : Type}

theorem ext_entries {m o : DimMap α} (h : m.entries = o.entries) : m = o := by
  cases m; cases o; cases h; rfl

def empty : DimMap α := ⟨[], List.nodup_nil, Nat.zero_le _⟩

instance : Inhabited (DimMap α) := ⟨empty⟩

def keys (m : DimMap α) : List Dim := m.entries.map Prod.fst

def size (m : DimMap α) : Nat := m.entries.length

def isEmpty (m : DimMap α) : Bool := m.entries.isEmpty

/-! ## Looking up -/

/-- the value at an axis in a list of entries -/
def find (d : Dim) : List (Dim × α) → Option α
  | [] => none
  | (k, v) :: rest => if k = d then some v else find d rest

/-- the value at an axis -/
def get? (m : DimMap α) (d : Dim) : Option α := find d m.entries

def contains (m : DimMap α) (d : Dim) : Bool := (m.get? d).isSome

theorem find_eq_none {d : Dim} {l : List (Dim × α)} : find d l = none ↔ d ∉ l.map Prod.fst := by
  induction l with
  | nil => simp [find]
  | cons e l ih =>
    obtain ⟨k, v⟩ := e
    by_cases h : k = d
    · simp [find, h]
    · have : d ≠ k := fun e => h e.symm
      simp [find, h, this, ih]

theorem contains_iff {m : DimMap α} {d : Dim} : m.contains d = true ↔ d ∈ m.keys := by
  unfold contains get? keys
  by_cases h : d ∈ m.entries.map Prod.fst
  · simp only [h, iff_true]
    cases e : find d m.entries with
    | none => exact absurd h (find_eq_none.1 e)
    | some v => rfl
  · simp [h, find_eq_none.2 h]

/-! ## Inserting -/

/-- the entries with the value at `d` replaced in place, or added at the end -/
def put (d : Dim) (v : α) : List (Dim × α) → List (Dim × α)
  | [] => [(d, v)]
  | (k, w) :: rest => if k = d then (k, v) :: rest else (k, w) :: put d v rest

theorem keys_put (d : Dim) (v : α) (l : List (Dim × α)) :
    (put d v l).map Prod.fst = if d ∈ l.map Prod.fst then l.map Prod.fst else l.map Prod.fst ++ [d] := by
  induction l with
  | nil => simp [put]
  | cons e l ih =>
    obtain ⟨k, w⟩ := e
    by_cases h : k = d
    · simp [put, h]
    · have hd : d ≠ k := fun e => h e.symm
      simp only [put, h, if_false, List.map_cons, ih, List.mem_cons, hd, false_or]
      split <;> simp

theorem nodup_put {d : Dim} {v : α} {l : List (Dim × α)} (h : (l.map Prod.fst).Nodup) :
    ((put d v l).map Prod.fst).Nodup := by
  rw [keys_put]
  split
  · exact h
  · next hd =>
    rw [List.nodup_append]
    refine ⟨h, by simp, ?_⟩
    intro a ha b hb
    simp only [List.mem_singleton] at hb
    subst hb
    exact fun e => hd (e ▸ ha)

theorem length_put (d : Dim) (v : α) (l : List (Dim × α)) :
    (put d v l).length = if d ∈ l.map Prod.fst then l.length else l.length + 1 := by
  have := congrArg List.length (keys_put d v l)
  rw [List.length_map] at this
  rw [this]
  split <;> simp

theorem find_put (d e : Dim) (v : α) (l : List (Dim × α)) :
    find e (put d v l) = if d = e then some v else find e l := by
  induction l with
  | nil => simp [put, find]
  | cons x l ih =>
    obtain ⟨k, w⟩ := x
    by_cases h : k = d
    · subst h
      by_cases he : k = e <;> simp [put, find, he]
    · by_cases hk : k = e
      · subst hk
        have : d ≠ k := fun e => h e.symm
        simp [put, find, h, this]
      · simp [put, find, h, hk, ih]

/-- the map with `v` at `d`; a new axis needs room -/
def insert (m : DimMap α) (d : Dim) (v : α) : Except ContractViolation (DimMap α) :=
  if h : d ∈ m.keys ∨ m.size < maxDims then
    .ok ⟨put d v m.entries, nodup_put m.nodup, by
      have := length_put d v m.entries
      have hl := m.length_le
      simp only [keys, size] at h
      rw [this]
      split
      · exact hl
      · next hd => exact (h.resolve_left hd)⟩
  else .error (.tooManyDims maxDims)

theorem get?_insert {m m' : DimMap α} {d : Dim} {v : α} (h : m.insert d v = .ok m') (e : Dim) :
    m'.get? e = if d = e then some v else m.get? e := by
  unfold insert at h
  split at h
  · cases h
    exact find_put d e v m.entries
  · cases h

theorem insert_eq_error {m : DimMap α} {d : Dim} {v : α} {e : ContractViolation} :
    m.insert d v = .error e ↔ d ∉ m.keys ∧ m.size = maxDims ∧ e = .tooManyDims maxDims := by
  have hl : m.size ≤ maxDims := m.length_le
  unfold insert
  split
  · next h =>
    simp only [reduceCtorEq, false_iff]
    rintro ⟨h1, h2, -⟩
    rcases h with h | h
    · exact h1 h
    · omega
  · next h =>
    rw [not_or] at h
    constructor
    · intro he
      cases he
      exact ⟨h.1, by omega, rfl⟩
    · rintro ⟨-, -, rfl⟩
      rfl

/-- the map built by inserting entries in order -/
def ofList (entries : List (Dim × α)) : Except ContractViolation (DimMap α) :=
  entries.foldlM (fun m e => m.insert e.1 e.2) empty

/-- the map with one entry -/
def single (d : Dim) (v : α) : DimMap α := ⟨[(d, v)], by simp, by simp [maxDims]⟩

@[simp] theorem get?_single (d e : Dim) (v : α) : (single d v).get? e = if d = e then some v else none := by
  simp [single, get?, find]

/-! ## Renaming -/

/-- the entries with the axis `a` called `b` -/
def relabel (a b : Dim) (l : List (Dim × α)) : List (Dim × α) :=
  l.map fun e => if e.1 = a then (b, e.2) else e

theorem keys_relabel (a b : Dim) (l : List (Dim × α)) :
    (relabel a b l).map Prod.fst = (l.map Prod.fst).map fun k => if k = a then b else k := by
  simp only [relabel, List.map_map]
  refine List.map_congr_left fun e _ => ?_
  simp only [Function.comp_apply]
  split <;> rfl

theorem nodup_relabel {a b : Dim} {l : List (Dim × α)} (h : (l.map Prod.fst).Nodup)
    (hb : b ∉ l.map Prod.fst) : ((relabel a b l).map Prod.fst).Nodup := by
  rw [keys_relabel]
  refine List.pairwise_map.2 (h.imp_of_mem ?_)
  intro x y hx hy hxy
  have hbx : b ≠ x := fun e => hb (e ▸ hx)
  have hby : b ≠ y := fun e => hb (e ▸ hy)
  grind

/-- the map with the axis `a` called `b`, at the same place and with the same value; an absent axis changes nothing,
and two axes of one map cannot become one -/
def rename (m : DimMap α) (a b : Dim) : Except ContractViolation (DimMap α) :=
  if a = b ∨ a ∉ m.keys then .ok m
  else if h : b ∈ m.keys then .error (.duplicateDim b.label)
  else .ok ⟨relabel a b m.entries, nodup_relabel m.nodup h, by simpa [relabel] using m.length_le⟩

theorem find_relabel {a b : Dim} {l : List (Dim × α)} (hb : b ∉ l.map Prod.fst) (e : Dim) :
    find e (relabel a b l) = if e = b then find a l else if e = a then none else find e l := by
  induction l with
  | nil => simp [relabel, find]
  | cons x l ih =>
    obtain ⟨k, w⟩ := x
    simp only [List.map_cons, List.mem_cons, not_or] at hb
    have ih := ih hb.2
    simp only [relabel] at ih
    have hkb : k ≠ b := fun e => hb.1 e.symm
    simp only [relabel, List.map_cons]
    by_cases hka : k = a
    · subst hka
      by_cases heb : b = e
      · subst heb; simp [find]
      · have heb' : e ≠ b := fun h => heb h.symm
        by_cases hek : e = k
        · subst hek; simp [find, heb, heb', ih]
        · have : k ≠ e := fun h => hek h.symm
          simp [find, heb, heb', ih, hek, this]
    · by_cases hke : k = e
      · subst hke; simp [find, hka, hkb]
      · by_cases heb : e = b
        · subst heb; simp [find, hka, hke, ih]
        · simp [find, hka, hke, ih, heb]

theorem get?_rename {m m' : DimMap α} {a b : Dim} (h : m.rename a b = .ok m') (hab : a ≠ b) (ha : a ∈ m.keys)
    (e : Dim) : m'.get? e = if e = b then m.get? a else if e = a then none else m.get? e := by
  unfold rename at h
  simp only [hab, ha, not_true_eq_false, or_self, if_false] at h
  split at h
  · cases h
  · next hb =>
    cases h
    exact find_relabel hb e

/-! ## Equality -/

/-- whether two maps have as many entries and every entry of the first is found in the second -/
def agrees [BEq α] (m o : DimMap α) : Bool :=
  m.size == o.size && m.entries.all fun e => o.get? e.1 == some e.2

instance [BEq α] : BEq (DimMap α) := ⟨agrees⟩

/-! ## Text -/

def inspect (render : α → String) (m : DimMap α) : String :=
  Inspect.map (m.entries.map fun e => (Quoted.quote e.1.label, render e.2))

end DimMap

end Stencil
