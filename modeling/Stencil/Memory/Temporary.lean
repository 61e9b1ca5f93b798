/-
Temporary fields: a fresh buffer from an allocator, laid out row-major with the first axis outermost.
-/
import Stencil.Access.View
import Stencil.Memory.Allocator

namespace Stencil

/-- a temporary field with its contents -/
structure Temporary (α : Type) where
  data : Array α
  elementSize : Nat
  strides : DimMap Int64
  bounds : DimMap UInt64
  storage : Storage

namespace Temporary

variable {α : Type}

/-- a temporary with the given extents, every element `zero`; the layout is resolved before memory is asked for -/
def make (system : System) (a : Allocator) (dims : List (Dim × UInt64)) (elementSize : Nat) (zero : α) :
    Except EngineError (Temporary α) × Allocator :=
  match (Layout.rowMajor dims).resolve with
  | .error e => (.error (.contract e), a)
  | .ok resolved =>
    match a.allocate system elementSize resolved.span zero with
    | (.error e, a) => (.error e.toEngineError, a)
    | (.ok data, a) => (.ok ⟨data, elementSize, resolved.strides, resolved.bounds, a.kind⟩, a)

/-- a temporary with `h` elements of `k` levels each -/
def makeSimple (system : System) (a : Allocator) (h k : UInt64) (elementSize : Nat) (zero : α) :
    Except EngineError (Temporary α) × Allocator :=
  make system a [(.horizontal, h), (.vertical, k)] elementSize zero

/-- a view of the whole field -/
def view (t : Temporary α) (access : Access) : View := .ofParts access t.data.size t.strides t.bounds t.storage

def size (t : Temporary α) : Nat := t.data.size

def bytes (t : Temporary α) : Nat := t.data.size * t.elementSize

/-- the extent along an axis, if the field has it -/
def extent? (t : Temporary α) (d : Dim) : Option UInt64 := t.bounds.get? d

def inspect (t : Temporary α) : String :=
  Inspect.record "TmpStorage"
    [("len", toString t.data.size), ("strides", View.inspectStrides t.strides),
      ("bounds", View.inspectBounds t.bounds), ("storage", t.storage.inspect)]

end Temporary

end Stencil
