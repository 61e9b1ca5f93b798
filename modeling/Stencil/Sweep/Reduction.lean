/-
Reductions over the neighbours of an element. A reduction walks the slots of one table row in stored order. At each
slot it selects an entry; the entry `-1` marks a missing neighbour and is left out, unless skipping is off; any other
entry names a target element, whose contribution is combined into an accumulator. A row without entries reduces to
the starting value.

Entries are not checked against the target by `eval`; `tryEval` checks every entry of the row first.
Starting, selecting, extracting and combining may act in any monad.
-/
import Stencil.Sweep.Loop

namespace Stencil

/-- the table entry that marks a missing neighbour -/
def missingNeighbor : Int := -1

/-- integer types of table entries; an entry is taken as the signed word of its value -/
class TableEntry (ι : Type) where
  toInt : ι → Int
  widen : ι → Int64
  toInt_widen : ∀ entry, (widen entry).toInt = toInt entry

instance : TableEntry Int16 := ⟨Int16.toInt, Int16.toInt64, Int16.toInt_toInt64⟩

instance : TableEntry Int32 := ⟨Int32.toInt, Int32.toInt64, Int32.toInt_toInt64⟩

instance : TableEntry Int64 := ⟨Int64.toInt, id, fun _ => rfl⟩

@[simp] theorem TableEntry.widen_int32 (entry : Int32) : widen entry = entry.toInt64 := rfl

@[simp] theorem TableEntry.widen_int64 (entry : Int64) : widen entry = entry := rfl

/-- a reduction over the slots along an axis -/
structure NeighborFold (m : Type → Type) (α : Type) where
  slot : Dim
  degree : Extent
  skips : Bool
  /-- the value the accumulator starts from -/
  start : m α
  combine : α → α → m α
  /-- the contribution of a neighbour, from the handles at the slot and the neighbour's handle -/
  extract : Bundle Handle → Handle → m α

/-- a reduction whose slot steps are known -/
structure BoundFold (m : Type → Type) (α : Type) where
  fold : NeighborFold m α
  step : Bundle Int64

namespace NeighborFold

variable {m : Type → Type} {α : Type}

/-- the reduction with every slot taken as an entry -/
def withoutSkipValues (f : NeighborFold m α) : NeighborFold m α := { f with skips := false }

/-- the reduction with missing neighbours left out -/
def withSkipValues (f : NeighborFold m α) : NeighborFold m α := { f with skips := true }

/-- whether an entry is left out -/
def leavesOut (f : NeighborFold m α) (entry : Int64) : Bool := f.skips && entry.toInt == missingNeighbor

/-- the reduction with the steps of a bundle, some member of which must carry the slot axis -/
def bind (f : NeighborFold m α) (strides : Bundle (DimMap Int64)) : Except ContractViolation (BoundFold m α) := do
  let step ← strides.steps f.slot
  return ⟨f, step⟩

def inspect (f : NeighborFold m α) : String :=
  Inspect.record "NeighborFold"
    [("dim", Quoted.quote f.slot.label), ("degree", f.degree.inspect), ("skip", toString f.skips)]

end NeighborFold

namespace BoundFold

variable {m : Type → Type} [Monad m] {α ι : Type} [TableEntry ι]

/-- the accumulator after one slot -/
def visit (b : BoundFold m α) (select : Bundle Handle → m ι) (target : Neighbors) (acc : α)
    (p : Bundle Handle) : m α := do
  let entry := TableEntry.widen (← select p)
  if b.fold.leavesOut entry then return acc
  let value ← b.fold.extract p (target.element entry)
  b.fold.combine acc value

/-- reduces the row under `p` -/
def eval (b : BoundFold m α) (p : Bundle Handle) (select : Bundle Handle → m ι) (target : Neighbors) : m α := do
  sweep b.step (b.visit select target) b.fold.degree.get.toNat p (← b.fold.start)

/-- whether an entry is neither left out nor the number of a target element; the number of elements is taken as a
signed word -/
def offends (b : BoundFold m α) (target : Neighbors) (entry : Int64) : Bool :=
  !b.fold.leavesOut entry && !(0 ≤ entry.toInt && entry.toInt < target.count.toInt64.toInt)

/-- the first offending entry among `n` slots from `slot` on, with its slot -/
def firstOffender (b : BoundFold m α) (select : Bundle Handle → m ι) (target : Neighbors) :
    Nat → Nat → Bundle Handle → m (Option (Nat × Int64))
  | 0, _, _ => pure none
  | n + 1, slot, p => do
    let entry := TableEntry.widen (← select p)
    if b.offends target entry then return some (slot, entry)
    firstOffender b select target n (slot + 1) (p.shiftBy 1 b.step)

/-- reduces the row under `p`, unless an entry names no target element -/
def tryEval (b : BoundFold m α) (p : Bundle Handle) (select : Bundle Handle → m ι) (target : Neighbors) :
    m (Except EngineError α) := do
  match ← b.firstOffender select target b.fold.degree.get.toNat 0 p with
  | some (slot, entry) => return .error (.indexOutOfRange none slot entry.toInt target.count.toNat)
  | none => return .ok (← b.eval p select target)

end BoundFold

namespace NeighborFold

variable {m : Type → Type} [Monad m] {α ι : Type} [TableEntry ι]

/-- reduces the row under `p` with the steps of a bundle -/
def eval (f : NeighborFold m α) (p : Bundle Handle) (strides : Bundle (DimMap Int64))
    (select : Bundle Handle → m ι) (target : Neighbors) : Except ContractViolation (m α) := do
  let b ← f.bind strides
  return b.eval p select target

/-- reduces the row under `p` with the steps of a bundle, unless an entry names no target element -/
def tryEval (f : NeighborFold m α) (p : Bundle Handle) (strides : Bundle (DimMap Int64))
    (select : Bundle Handle → m ι) (target : Neighbors) : m (Except EngineError α) :=
  match f.bind strides with
  | .error e => pure (.error (.contract e))
  | .ok b => b.tryEval p select target

end NeighborFold

end Stencil
