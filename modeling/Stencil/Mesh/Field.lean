/-
Owned fields of `h` elements with `k` levels each, the elements outermost. An element is found at `h * k + level` of
the flat data, and only that position is checked.
-/
import Stencil.Access.View
import Stencil.Memory.Buffer

namespace Stencil

/-- a two-dimensional field with its contents -/
structure Field (α : Type) where
  h : UInt64
  k : UInt64
  data : Array α
deriving DecidableEq

namespace Field

variable {α : Type}

/-- the product of two words, a fault if it is none -/
def product (a b : UInt64) : Except Fault Nat :=
  match fits (a.toNat * b.toNat) with
  | some n => .ok n
  | none => .error (.overflow .multiply)

/-- the bytes of a number -/
def elementBytes : Nat := 8

/-- a field of one value, of elements `elementSize` bytes large -/
def ofValue (elementSize : Nat) (h k : UInt64) (v : α) : Except Fault (Field α) := do
  return ⟨h, k, ← Buffer.replicate (← product h k) elementSize v⟩

/-- a field of one number -/
def replicate (h k : UInt64) (v : α) : Except Fault (Field α) := ofValue elementBytes h k v

/-- refuses a field of more elements than a word counts, or of more bytes than the system does -/
def room (h k : UInt64) (elementSize : Nat) : Except Fault Unit := do
  Buffer.reserve (← product h k) elementSize

/-- a field from a function of element and level, which may act in any monad. It is called for all levels of one
element after the other, and each result goes to the end of the data; without room for the data it is not called. -/
def ofFnM {m : Type → Type} [Monad m] (elementSize : Nat) (h k : UInt64) (f : Nat → Nat → m α) :
    m (Except Fault (Field α)) := do
  match room h k elementSize with
  | .error e => return .error e
  | .ok () =>
    let data ← (List.range h.toNat).foldlM (fun data i =>
      (List.range k.toNat).foldlM (fun data j => do return data.push (← f i j)) data) #[]
    return .ok ⟨h, k, data⟩

/-- a field of the numbers that a function of element and level gives -/
def ofFn (h k : UInt64) (f : Nat → Nat → α) : Except Fault (Field α) :=
  Id.run (ofFnM elementBytes h k fun i j => pure (f i j))

/-- a field from its data, of which there must be exactly enough -/
def ofData (h k : UInt64) (data : Array α) : Except Fault (Field α) := do
  let n ← product h k
  if data.size = n then return ⟨h, k, data⟩ else throw .outside

/-- the position of an element in the data, as a word -/
def position (f : Field α) (h k : UInt64) : Except Fault Nat := do
  let start ← product h f.k
  match fits (start + k.toNat) with
  | some n => return n
  | none => throw (.overflow .add)

def get (f : Field α) (h k : UInt64) : Except Fault α := do
  let n ← f.position h k
  match f.data[n]? with
  | some v => return v
  | none => throw .outside

def set (f : Field α) (h k : UInt64) (v : α) : Except Fault (Field α) := do
  let n ← f.position h k
  if n < f.data.size then return { f with data := f.data.setIfInBounds n v } else throw .outside

def layout (f : Field α) : Layout := .rowMajor [(.horizontal, f.h), (.vertical, f.k)]

/-- a view of the whole field; a field that no layout addresses is a fault -/
def view (f : Field α) (access : Access) (storage : Storage) : Except Fault View :=
  match f.layout.resolve with
  | .ok resolved => .ok (.ofParts access f.data.size resolved.strides resolved.bounds storage)
  | .error e => .error (.raised ("H and K are distinct: " ++ e.inspect))

end Field

end Stencil
