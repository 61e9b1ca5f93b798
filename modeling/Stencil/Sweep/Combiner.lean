/-
Ways to combine the values of a row: sum, product, least and greatest value start from a value of their own; the
others start from a value that is given.
-/
import Stencil.Sweep.Arithmetic
import Stencil.Sweep.Reduction

namespace Stencil

/-- how a value enters an accumulator -/
inductive Combiner where
  | sum
  | product
  | least
  | greatest
  /-- the accumulator less the value -/
  | difference
  /-- the value itself -/
  | latest
  /-- the value as the next decimal digit -/
  | digits
deriving DecidableEq, Repr

namespace Combiner

variable {α : Type}

/-- the value a row without entries reduces to, where the combiner has one of its own -/
def start? (a : Arithmetic α) : Combiner → Option α
  | sum => some a.zero
  | product => some a.one
  | least => some a.greatest
  | greatest => some a.least
  | _ => none

/-- the accumulator after one value; of two equal values the accumulator stays -/
def apply (a : Arithmetic α) (c : Combiner) (acc v : α) : Except Fault α :=
  match c with
  | sum => a.add acc v
  | product => a.mul acc v
  | least => .ok (if a.less v acc then v else acc)
  | greatest => .ok (if a.less acc v then v else acc)
  | difference => a.sub acc v
  | latest => .ok v
  | digits => do a.add (← a.mul acc a.ten) v

/-- the reduction of a row by a combiner; `init` is used where the combiner has no start of its own -/
def reduction (a : Arithmetic α) (c : Combiner) (init : α) (slot : Dim) (degree : Extent)
    (extract : Bundle Handle → Handle → Except Fault α) : NeighborFold (Except Fault) α where
  slot
  degree
  skips := true
  start := pure ((c.start? a).getD init)
  combine := c.apply a
  extract

end Combiner

/-! ## Rows with weights -/

/-- how a neighbour's value is read -/
inductive Extraction where
  /-- reading outside the target is a fault -/
  | value
  /-- reading outside the target gives zero -/
  | orZero
deriving DecidableEq, Repr

/-- a row reduction over plain data: the table under the first member, optional weights under the second -/
structure RowData (α : Type) where
  table : Array Int64
  weights : Option (Array α)
  target : Array α

namespace RowData

variable {α : Type}

/-- the table entry at the slot -/
def select (r : RowData α) (p : Bundle Handle) : Except Fault Int64 := (p.handle 0).read r.table

/-- the neighbour's value, times the weight at the slot where there are weights -/
def extract (r : RowData α) (a : Arithmetic α) (e : Extraction) (p : Bundle Handle) (n : Handle) : Except Fault α := do
  let v ← match e with
    | .value => n.read r.target
    | .orZero => pure ((n.read? r.target).getD a.zero)
  match r.weights with
  | none => return v
  | some weights => a.mul v (← (p.handle 1).read weights)

end RowData

end Stencil
