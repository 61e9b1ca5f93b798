/-
Plans of views: how a view over some buffer is to be made, without the buffer.
-/
import Stencil.Access.View

namespace Stencil

/-- how a plan addresses the buffer -/
inductive Addressing where
  /-- all elements along the element axis -/
  | elements
  | layout (l : Layout)
  /-- strides and bounds, each inserted in order -/
  | parts (strides : List (Dim × Int64)) (bounds : List (Dim × UInt64))

/-- a view to be made, and the changes to be made to it -/
structure ViewPlan where
  addressing : Addressing
  storage : Option Storage
  transforms : List View.Transform

/-- the view over a buffer of `length` elements; strides are put together before bounds, changes come last -/
def ViewPlan.build (p : ViewPlan) (access : Access) (length : Nat) (usual : Storage) :
    Except ContractViolation View := do
  let storage := p.storage.getD usual
  let v ← match p.addressing with
    | .elements => pure (View.ofElements access length storage)
    | .layout l => View.ofLayout access length l storage
    | .parts strides bounds => do
      let strides ← DimMap.ofList strides
      let bounds ← DimMap.ofList bounds
      pure (View.ofParts access length strides bounds storage)
  v.applyAll p.transforms

end Stencil
