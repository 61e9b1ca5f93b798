/-
Layouts: how a flat buffer is addressed by several axes. The axes given without a stride are laid out row-major, the
first outermost; an axis with a stride of its own keeps it and takes no part in that. Resolving a layout gives the
stride and bound of each axis and the number of elements the layout reaches, or says why there are none.
-/
import Stencil.Axis.DimMap
import Stencil.Word

namespace Stencil

/-- one axis of a layout; without a stride it is laid out row-major -/
structure LayoutAxis where
  dim : Dim
  extent : UInt64
  stride : Option UInt64
deriving DecidableEq, Repr

/-- the axes of a buffer, outermost first -/
structure Layout where
  axes : List LayoutAxis
deriving DecidableEq, Repr

/-- a layout in terms of strides and bounds; `span` is one more than the largest offset in range, zero if none is -/
structure ResolvedLayout where
  strides : DimMap Int64
  bounds : DimMap UInt64
  span : Nat

namespace Layout

def rowMajor (dims : List (Dim × UInt64)) : Layout := ⟨dims.map fun d => ⟨d.1, d.2, none⟩⟩

/-- the extent along an axis -/
def extent? (l : Layout) (d : Dim) : Option UInt64 := (l.axes.find? fun a => a.dim = d).map LayoutAxis.extent

/-- the product of all extents, unless some product on the way is larger than a word -/
def elements (l : Layout) : Option Nat := l.axes.foldlM (fun acc a => fits (acc * a.extent.toNat)) 1

/-- the first axis that repeats an earlier one; `seen` are the earlier axes -/
def firstRepeated (seen : List Dim) : List LayoutAxis → Option Dim
  | [] => none
  | a :: rest => if a.dim ∈ seen then some a.dim else firstRepeated (a.dim :: seen) rest

/-- the stride of every axis, after the product of the row-major extents; nothing if a product exceeds a word -/
def strideList : List LayoutAxis → Option (Nat × List Nat)
  | [] => some (1, [])
  | a :: rest => do
    let (running, strides) ← strideList rest
    match a.stride with
    | some stride => some (running, stride.toNat :: strides)
    | none => (fits (running * a.extent.toNat)).map fun next => (next, running :: strides)

/-- the largest offset that the axes reach, given their strides -/
def reach : List LayoutAxis → List Nat → Nat
  | a :: axes, stride :: strides => (a.extent.toNat - 1) * stride + reach axes strides
  | _, _ => 0

/-- the elements reached by axes with the given strides -/
def spanOf (axes : List LayoutAxis) (strides : List Nat) : Option Nat :=
  if axes.any fun a => a.extent == 0 then some 0 else fits (1 + reach axes strides)

/-- the violation of a layout that no word can address -/
def unaddressable : ContractViolation := .layoutMismatch wordMax 0

/-- strides, bounds and span of a layout. More than six axes are refused first, then a repeated axis, then strides
and spans that are too large. -/
def resolve (l : Layout) : Except ContractViolation ResolvedLayout := do
  if maxDims < l.axes.length then throw (.tooManyDims maxDims)
  if let some d := firstRepeated [] l.axes then throw (.duplicateDim d.label)
  let some (_, strides) := strideList l.axes | throw unaddressable
  if strides.any fun s => signedMax < s then throw unaddressable
  let some span := spanOf l.axes strides | throw unaddressable
  let dims := l.axes.map LayoutAxis.dim
  let strideMap ← DimMap.ofList (dims.zip (strides.map fun s => Int64.ofNat s))
  let boundMap ← DimMap.ofList (dims.zip (l.axes.map LayoutAxis.extent))
  return ⟨strideMap, boundMap, span⟩

end Layout

end Stencil
