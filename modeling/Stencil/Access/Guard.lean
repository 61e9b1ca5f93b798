/-
Guards: which element along an axis an offset belongs to. An offset is split into coordinates by taking the positive
strides of a field from the largest to the smallest, each taking the whole steps that fit; where two strides are
equal, the guarded axis comes first. The offset belongs to the element that its coordinate along the guarded axis
names, and a guard admits the offsets of one element only.
-/
import Stencil.Axis.DimMap

namespace Stencil

/-- confines a handle to one element along an axis -/
structure Guard where
  /-- the strides taken before the guarded axis, largest first -/
  larger : List Int
  /-- the stride of the guarded axis -/
  step : Int
  /-- the strides left over, largest first -/
  smaller : List Int
  /-- the element that is admitted -/
  owner : UInt64
deriving DecidableEq, Repr

namespace Guard

/-- the element an offset belongs to, given the strides taken first and the stride of the guarded axis -/
def elementAlong (larger : List Int) (step : Int) (offset : Int64) : UInt64 :=
  UInt64.ofInt ((larger.foldl (fun rest stride => rest % stride) offset.toInt) / step)

/-- the element an offset belongs to -/
def elementOf (g : Guard) (offset : Int64) : UInt64 := elementAlong g.larger g.step offset

/-- whether the offset belongs to the owned element -/
def admits (g : Guard) (offset : Int64) : Bool := g.elementOf offset == g.owner

/-- the positive strides of the other axes, largest first -/
def otherStrides (strides : DimMap Int64) (d : Dim) : List Int :=
  ((strides.entries.filter fun e => e.1 ≠ d && 0 < e.2.toInt).map fun e => e.2.toInt).mergeSort fun a b => b ≤ a

/-- the guard of element `index` along an axis, counted from the element that the offset `base` belongs to; there is
none when the axis has no positive stride -/
def forElement (strides : DimMap Int64) (d : Dim) (base : Int64) (index : UInt64) : Option Guard :=
  match strides.get? d with
  | none => none
  | some step =>
    if 0 < step.toInt then
      let others := otherStrides strides d
      let larger := others.filter fun s => step.toInt < s
      let smaller := others.filter fun s => s ≤ step.toInt
      some ⟨larger, step.toInt, smaller, elementAlong larger step.toInt base + index⟩
    else none

/-- the strides in the order in which they are taken, padded with zeros to the room of a map -/
def inspect (g : Guard) : String :=
  let taken := g.larger ++ g.step :: g.smaller
  let padded := taken ++ List.replicate (maxDims - taken.length) 0
  Inspect.record "ElementGuard"
    [("strides", Inspect.list (padded.map toString)), ("outer", toString g.larger.length),
      ("owner", toString g.owner)]

end Guard

end Stencil
