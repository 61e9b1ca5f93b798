/-
Views: a position in a buffer with strides and bounds. A view says how a buffer is addressed and holds no data. Its
bounds count from the current position, so that moving a view moves them the other way. A read-only view hands out
unguarded handles; a writable view hands out, for each element along an axis, a handle that is confined to it.
-/
import Stencil.Access.Handle
import Stencil.Axis.Layout

namespace Stencil

/-- how a buffer of `length` elements is addressed -/
structure View where
  access : Access
  length : Nat
  offset : Int64
  strides : DimMap Int64
  bounds : DimMap UInt64
  storage : Storage

/-! ## Strides along an axis -/

namespace DimMap

/-- the step along an axis, zero where there is no stride -/
def stepOf (strides : DimMap Int64) (d : Dim) : Int64 := (strides.get? d).getD 0

/-- the step along an axis that must be there -/
def step (strides : DimMap Int64) (d : Dim) : Except ContractViolation Int64 :=
  if strides.contains d then .ok (strides.stepOf d) else .error (.missingStride d.label)

end DimMap

/-- a bound after a move by `count`, taken as a signed word and kept between zero and the largest signed word -/
def shiftBound (bound : UInt64) (count : Int64) : UInt64 :=
  UInt64.ofNat (min (bound.toInt64.toInt - count.toInt).toNat signedMax)

namespace View

/-! ## Building views -/

/-- a view from strides and bounds -/
def ofParts (access : Access) (length : Nat) (strides : DimMap Int64) (bounds : DimMap UInt64) (storage : Storage) :
    View := ⟨access, length, 0, strides, bounds, storage⟩

/-- a view over a layout, which must not reach past the buffer -/
def ofLayout (access : Access) (length : Nat) (layout : Layout) (storage : Storage) :
    Except ContractViolation View := do
  let resolved ← layout.resolve
  if length < resolved.span then throw (.layoutMismatch resolved.span length)
  return ofParts access length resolved.strides resolved.bounds storage

/-- a whole buffer along the element axis -/
def ofElements (access : Access) (length : Nat) (storage : Storage) : View :=
  ofParts access length (.single .horizontal 1) (.single .horizontal (clamp length)) storage

/-! ## Moving and renaming -/

/-- the view moved by `count` steps along an axis -/
def shifted (v : View) (d : Dim) (count : Int64) : Except ContractViolation View := do
  let step ← v.strides.step d
  let bounds ← match v.bounds.get? d with
    | some bound => v.bounds.insert d (shiftBound bound count)
    | none => pure v.bounds
  return { v with offset := v.offset + step * count, bounds }

/-- the view with the axis `a` called `b` -/
def rename (v : View) (a b : Dim) : Except ContractViolation View := do
  let strides ← v.strides.rename a b
  let bounds ← v.bounds.rename a b
  return { v with strides, bounds }

/-- a change of a view -/
inductive Transform where
  | shift (d : Dim) (count : Int64)
  | rename (a b : Dim)

def apply (v : View) : Transform → Except ContractViolation View
  | .shift d count => v.shifted d count
  | .rename a b => v.rename a b

/-- the view after all changes; the first that fails is the answer -/
def applyAll (v : View) (ts : List Transform) : Except ContractViolation View := ts.foldlM apply v

/-! ## Bounds and handles -/

/-- the bound along an axis that must have one -/
def upperBound (v : View) (d : Dim) : Except ContractViolation UInt64 :=
  match v.bounds.get? d with
  | some bound => .ok bound
  | none => .error (.missingBound d.label)

/-- a handle at the current position, not confined to any element -/
def origin (v : View) : Handle := ⟨v.access, v.length, v.offset, none⟩

/-- the offset of element `index` along an axis -/
def elementOffset (v : View) (d : Dim) (index : UInt64) : Int64 := v.offset + v.strides.stepOf d * index.toInt64

/-- a handle that may not access anything -/
def denied (v : View) (offset : Int64) : Handle := ⟨v.access, 0, offset, none⟩

/-- a handle at element `index` along an axis. Of a writable view it is confined to that element, and admits nothing
when the element lies beyond the bound or the view cannot be split by the axis. -/
def elementOrigin (v : View) (d : Dim) (index : UInt64) : Handle :=
  let offset := v.elementOffset d index
  match v.access with
  | .readOnly => v.origin.moveTo offset
  | .writable =>
    match (v.bounds.get? d).filter fun bound => index < bound with
    | none => v.denied offset
    | some _ =>
      match Guard.forElement v.strides d v.offset index with
      | none => v.denied offset
      | some g => { v.origin with offset, guard := some g }

/-! ## Sharing a view between units -/

/-- one unit of a launch: an element along the axis of the launch -/
structure LaunchUnit where
  dim : Dim
  index : UInt64
deriving DecidableEq, Repr

/-- what the units of a grid share of a view -/
structure Snapshot where
  access : Access
  length : Nat
  offset : Int64
  strides : DimMap Int64
  bounds : DimMap UInt64

/-- the shared form of a view -/
def share (v : View) : Snapshot := ⟨v.access, v.length, v.offset, v.strides, v.bounds⟩

namespace Snapshot

/-- the handle of one unit. Of a writable view it is confined to the unit's element, and admits nothing when the unit
is not below the extent (zero without a bound) or there is no guard. -/
def unitOrigin (s : Snapshot) (u : LaunchUnit) : Handle :=
  let offset := s.offset + s.strides.stepOf u.dim * u.index.toInt64
  match s.access with
  | .readOnly => .reading s.length offset
  | .writable =>
    let extent := (s.bounds.get? u.dim).getD 0
    let guard := if u.index < extent then Guard.forElement s.strides u.dim s.offset u.index else none
    match guard with
    | some g => ⟨.writable, s.length, offset, some g⟩
    | none => ⟨.writable, 0, offset, none⟩

/-- the shared form of a writable view, which shows no more than its buffer and position -/
def inspect (s : Snapshot) : String :=
  Inspect.record "SharedSidMut"
    [("buf", Inspect.record "SharedBuf" [("len", toString s.length)]), ("offset", toString s.offset)]

end Snapshot

/-! ## Launch checks -/

/-- the check of one member against a launch of `extent` along an axis over buffers in `storage`. A writable member
must be split by the axis and reach as far as the launch; a read-only member only if it has a stride and a bound. -/
def checkMember (v : View) (d : Dim) (extent : UInt64) (storage : Storage) : Except ContractViolation Unit := do
  unless storage = v.storage do throw (.storageMismatch storage v.storage)
  match v.access with
  | .readOnly =>
    if v.strides.contains d then
      if let some bound := v.bounds.get? d then
        if bound < extent then throw (.extentMismatch d.label extent.toNat bound.toNat)
  | .writable =>
    unless (v.strides.get? d).any fun s => 0 < s do throw (.notAddressable d.label)
    let bound ← v.upperBound d
    if bound < extent then throw (.extentMismatch d.label extent.toNat bound.toNat)

/-! ## Text -/

def inspectStrides (strides : DimMap Int64) : String := strides.inspect toString

def inspectBounds (bounds : DimMap UInt64) : String := bounds.inspect toString

def inspect (v : View) : String :=
  let name := match v.access with
    | .readOnly => "Sid"
    | .writable => "SidMut"
  Inspect.record name
    [("len", toString v.length), ("offset", toString v.offset), ("strides", inspectStrides v.strides),
      ("bounds", inspectBounds v.bounds), ("storage", v.storage.inspect)]

end View

/-! ## Targets of a reduction -/

/-- the elements a reduction reads: `count` of them, `stride` apart, from the position of a handle on -/
structure Neighbors where
  origin : Handle
  stride : Int64
  count : UInt64

namespace Neighbors

/-- a handle at target element `index`, which may be any word -/
def element (n : Neighbors) (index : Int64) : Handle := n.origin.shiftBy n.stride index

def inspect (n : Neighbors) : String :=
  Inspect.record "Neighbors"
    [("origin", n.origin.inspect), ("stride", toString n.stride), ("count", toString n.count)]

end Neighbors

/-- the elements of a view along the element axis, which needs a stride and a bound there -/
def View.neighbors (v : View) : Except ContractViolation Neighbors := do
  let stride ← v.strides.step .horizontal
  let count ← v.upperBound .horizontal
  return ⟨v.origin, stride, count⟩

end Stencil
