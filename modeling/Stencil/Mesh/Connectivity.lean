/-
Neighbour tables: for each row element, up to `maxDegree` target elements, stored row after row and padded with the
entry that marks a missing neighbour. A table holds exactly `rows * maxDegree` entries; that is part of the type.
-/
import Stencil.Access.View
import Stencil.Memory.Buffer
import Stencil.Sweep.Reduction

namespace Stencil

/-- a table of neighbours with as many slots in every row -/
structure Connectivity where
  rows : Nat
  maxDegree : Nat
  data : Array Int32
  size_eq : data.size = rows * maxDegree
deriving DecidableEq

namespace Connectivity

/-- the entry of a slot without a neighbour -/
def skipValue : Int32 := -1

/-- a table from its entries, row after row -/
def ofData (rows maxDegree : Nat) (data : Array Int32) : Except ContractViolation Connectivity :=
  match fits (rows * maxDegree) with
  | none => .error (.layoutMismatch wordMax data.size)
  | some expected =>
    if h : data.size = rows * maxDegree then .ok ⟨rows, maxDegree, data, h⟩
    else .error (.layoutMismatch expected data.size)

/-- the length of the longest row -/
def longest (rows : List (List Int32)) : Nat := rows.foldl (fun n row => max n row.length) 0

/-- a row filled up to `degree` entries -/
def padded (degree : Nat) (row : List Int32) : List Int32 := row ++ List.replicate (degree - row.length) skipValue

theorem length_le_foldl_max (rows : List (List Int32)) (n : Nat) :
    n ≤ rows.foldl (fun n row => max n row.length) n ∧
      ∀ row ∈ rows, row.length ≤ rows.foldl (fun n row => max n row.length) n := by
  induction rows generalizing n with
  | nil => simp
  | cons r rows ih =>
    obtain ⟨h1, h2⟩ := ih (max n r.length)
    simp only [List.foldl_cons, List.mem_cons, forall_eq_or_imp]
    exact ⟨by omega, by omega, h2⟩

theorem length_le_longest {rows : List (List Int32)} {row : List Int32} (h : row ∈ rows) :
    row.length ≤ longest rows := (length_le_foldl_max rows 0).2 row h

theorem length_padded {degree : Nat} {row : List Int32} (h : row.length ≤ degree) :
    (padded degree row).length = degree := by
  simp only [padded, List.length_append, List.length_replicate]
  omega

theorem length_flatten_padded {degree : Nat} {rows : List (List Int32)} (h : ∀ row ∈ rows, row.length ≤ degree) :
    (rows.map (padded degree)).flatten.length = rows.length * degree := by
  induction rows with
  | nil => simp
  | cons r rows ih =>
    simp only [List.mem_cons, forall_eq_or_imp] at h
    simp only [List.map_cons, List.flatten_cons, List.length_append, length_padded h.1, ih h.2, List.length_cons,
      Nat.succ_mul]
    omega

/-- a table from rows of any lengths, each filled up to the longest -/
def ofRows (rows : List (List Int32)) : Connectivity where
  rows := rows.length
  maxDegree := longest rows
  data := ((rows.map (padded (longest rows))).flatten).toArray
  size_eq := by
    rw [List.size_toArray]
    exact length_flatten_padded fun _ h => length_le_longest h

/-- the bytes of an entry -/
def entryBytes : Nat := 4

/-- a table from rows of any lengths, for which room is asked first -/
def collect (rows : List (List Int32)) : Except Fault Connectivity :=
  match fits (rows.length * longest rows) with
  | none => .error (.overflow .multiply)
  | some entries => do
    Buffer.reserve entries entryBytes
    return ofRows rows

/-- the product of a row number and the degree, as a word; a product that is none is a fault, as where overflow is
checked -/
def rowStart (t : Connectivity) (row : Nat) : Except Fault Nat :=
  match fits (row * t.maxDegree) with
  | some start => .ok start
  | none => .error (.overflow .multiply)

/-- the slots of a row: the entries from its start to the start of the next row. Overflow is a fault here, as in a
development build; a release build wraps instead, so that row `2 ^ 63` of a table with two slots is its row 0. -/
def row (t : Connectivity) (row : Nat) : Except Fault (List Int32) := do
  let start ← t.rowStart row
  let some next := fits (row + 1) | throw (.overflow .add)
  let stop ← t.rowStart next
  if stop ≤ t.data.size then return (t.data.extract start stop).toList
  else throw .outside

/-- whether some slot has no neighbour -/
def hasSkipValues (t : Connectivity) : Bool := t.data.any fun v => v == skipValue

/-- whether an entry marks a missing neighbour or names one of `count` elements -/
def admits (count : UInt64) (v : Int32) : Bool := v == skipValue || (0 ≤ v.toInt && v.toInt < count.toNat)

/-- the first entry that is not admitted, with its position -/
def firstOffender (count : UInt64) : List Int32 → Nat → Option (Nat × Int32)
  | [], _ => none
  | v :: vs, i => if admits count v then firstOffender count vs (i + 1) else some (i, v)

/-- checks that every entry marks a missing neighbour or names one of `count` elements -/
def validate (t : Connectivity) (count : UInt64) : Except EngineError Unit :=
  match firstOffender count t.data.toList 0 with
  | none => .ok ()
  | some (i, v) =>
    .error (.indexOutOfRange (some (i / t.maxDegree)) (i % t.maxDegree) v.toInt count.toNat)

/-- the table as a field, rows along one axis and slots along another -/
def view (t : Connectivity) (row slot : Dim) (storage : Storage) : Except ContractViolation View :=
  View.ofLayout .readOnly t.data.size (.rowMajor [(row, clamp t.rows), (slot, clamp t.maxDegree)]) storage

/-- the entries as signed words -/
def entries (t : Connectivity) : Array Int64 := t.data.map Int32.toInt64

end Connectivity

end Stencil
