/-
Handles: positions in a buffer. A handle moves by whole strides with wrapping arithmetic, and gives access to an
element only if it stands inside the buffer and, when it is guarded, on an element it owns. A handle holds no data;
the buffer is given where it is read or written.
-/
import Stencil.Access.Guard

namespace Stencil

/-- what a view or a handle may do with its buffer -/
inductive Access where
  | readOnly
  | writable
deriving DecidableEq, Repr, Inhabited

/-- a position in a buffer of `length` elements -/
structure Handle where
  access : Access
  length : Nat
  offset : Int64
  guard : Option Guard
deriving DecidableEq, Repr

namespace Handle

instance : Inhabited Handle := ⟨⟨.readOnly, 0, 0, none⟩⟩

/-- a handle that only reads, at an offset of a buffer -/
def reading (length : Nat) (offset : Int64) : Handle := ⟨.readOnly, length, offset, none⟩

/-- the same handle at another offset -/
def moveTo (h : Handle) (offset : Int64) : Handle := { h with offset }

/-- the handle moved by `count` steps -/
def shiftBy (h : Handle) (step count : Int64) : Handle := h.moveTo (h.offset + step * count)

/-- the handle, and where each move by so many steps of a stride takes it -/
def trail (h : Handle) : List (Int64 × Int64) → List Handle
  | [] => [h]
  | (stride, count) :: rest => h :: (h.shiftBy stride count).trail rest

/-- the position in the buffer, if the handle stands inside it -/
def position? (h : Handle) : Option Nat :=
  if 0 ≤ h.offset.toInt ∧ h.offset.toInt < h.length then some h.offset.toInt.toNat else none

/-- whether the guard, if there is one, admits the position -/
def admitted (h : Handle) : Bool :=
  match h.guard with
  | none => true
  | some g => g.admits h.offset

/-- the position in the buffer, if the handle may access it -/
def index? (h : Handle) : Option Nat := if h.admitted then h.position? else none

/-- the position in the buffer, if the handle may write it -/
def writeIndex? (h : Handle) : Option Nat :=
  match h.access with
  | .readOnly => none
  | .writable => h.index?

def accessible (h : Handle) : Bool := h.index?.isSome

/-- the fault of using a handle that may not access its position: standing outside the buffer is told before
standing on a foreign element -/
def refusal (h : Handle) : Fault :=
  match h.position?, h.guard with
  | some _, some g => .foreignElement h.offset (g.elementOf h.offset) g.owner
  | _, _ => .outOfBounds h.offset h.length

/-! ## Reading and writing a buffer -/

variable {α : Type}

/-- the value under the handle, if it may be accessed -/
def read? (h : Handle) (data : Array α) : Option α := h.index?.bind fun i => data[i]?

/-- the value under the handle -/
def read (h : Handle) (data : Array α) : Except Fault α :=
  match h.read? data with
  | some v => .ok v
  | none => .error h.refusal

/-- the buffer with `v` under the handle, if it may be accessed -/
def write? (h : Handle) (data : Array α) (v : α) : Option (Array α) :=
  match h.index? with
  | some i => some (data.setIfInBounds i v)
  | none => none

/-- the buffer with `v` under the handle -/
def write (h : Handle) (data : Array α) (v : α) : Except Fault (Array α) :=
  match h.write? data v with
  | some data => .ok data
  | none => .error h.refusal

/-- the buffer with the value under the handle replaced by its image -/
def update (h : Handle) (data : Array α) (f : α → α) : Except Fault (Array α) := do
  let v ← h.read data
  h.write data (f v)

def inspect (h : Handle) : String :=
  let place := [("offset", toString h.offset), ("len", toString h.length)]
  match h.access with
  | .readOnly => Inspect.record "Ptr" place
  | .writable => Inspect.record "PtrMut" (place ++ [("guard", Inspect.option (h.guard.map Guard.inspect))])

end Handle

end Stencil
