/-
Allocators of temporary fields. An allocator counts the bytes it has handed out and refuses what would exceed its
budget; what is within the budget it asks of the system, which may refuse too. A refused request changes nothing.
-/
import Stencil.Error
import Stencil.Word
import Stencil.WorkOrder

namespace Stencil

/-- why an allocation failed -/
inductive AllocationError where
  | capacityExceeded (requested available : Nat)
  /-- the byte size does not fit a word -/
  | sizeOverflow (elements elementSize : Nat)
  /-- the system refused the memory -/
  | reserveFailed (requested : Nat)
deriving DecidableEq, Repr

namespace AllocationError

def message : AllocationError → String
  | capacityExceeded requested available =>
    s!"allocator budget exceeded: requested {requested} bytes, {available} bytes available"
  | sizeOverflow elements size => s!"size overflow: {elements} elements of {size} bytes"
  | reserveFailed requested => s!"system allocator refused {requested} bytes"

/-- the name of a cause -/
def name : AllocationError → String
  | capacityExceeded .. => "CapacityExceeded"
  | sizeOverflow .. => "SizeOverflow"
  | reserveFailed .. => "ReserveFailed"

/-- the bytes the request asked for, at most what a word holds -/
def requestedBytes : AllocationError → Nat
  | capacityExceeded requested _ => requested
  | sizeOverflow elements size => min (elements * size) wordMax
  | reserveFailed requested => requested

def toEngineError (e : AllocationError) : EngineError := .allocationFailure e.requestedBytes e.message

end AllocationError

/-! ## Budget and ledger -/

/-- how many bytes an allocator may hand out over its lifetime; without a limit, as many as the system grants -/
structure Budget where
  limit : Option Nat
deriving DecidableEq, Repr

namespace Budget

def unlimited : Budget := ⟨none⟩

/-- the bytes left after `used` bytes -/
def available (b : Budget) (used : Nat) : Option Nat := b.limit.map fun limit => limit - used

def inspect (b : Budget) : String :=
  Inspect.record "AllocatorConfig" [("limit_bytes", Inspect.option (b.limit.map toString))]

end Budget

/-- what an allocator has handed out -/
structure Ledger where
  allocations : Nat
  bytes : Nat
deriving DecidableEq, Repr

namespace Ledger

def empty : Ledger := ⟨0, 0⟩

/-- the bytes of `len` elements, if they fit a word and the budget -/
def grant (l : Ledger) (budget : Budget) (elementSize len : Nat) : Except AllocationError Nat :=
  match fits (len * elementSize) with
  | none => .error (.sizeOverflow len elementSize)
  | some requested =>
    match budget.available l.bytes with
    | some available =>
      if available < requested then .error (.capacityExceeded requested available) else .ok requested
    | none => .ok requested

/-- the ledger with one more allocation; the byte total stops at the end of the word range -/
def commit (l : Ledger) (bytes : Nat) : Ledger := ⟨l.allocations + 1, min (l.bytes + bytes) wordMax⟩

def inspect (l : Ledger) : String :=
  Inspect.record "AllocationStats" [("allocations", toString l.allocations), ("bytes", toString l.bytes)]

end Ledger

/-! ## Allocators -/

/-- what a request meets outside the allocator -/
structure System where
  /-- whether the system grants so many bytes -/
  grants : Nat → Bool
  /-- the order in which workers fill a buffer of device memory -/
  filling : WorkOrder

namespace System

/-- a system that grants every request up to a number of bytes -/
def granting (limit : Nat) : System := ⟨fun bytes => decide (bytes ≤ limit), .ascending⟩

/-- whether a reservation succeeds: none is needed for no bytes, and none can be larger than a signed word -/
def reserves (s : System) (bytes : Nat) : Bool := bytes == 0 || (decide (bytes ≤ signedMax) && s.grants bytes)

end System

/-- a source of temporary buffers; one for device memory may have workers of its own -/
structure Allocator where
  kind : Storage
  budget : Budget
  pooled : Bool
  ledger : Ledger

namespace Allocator

def heap (budget : Budget) : Allocator := ⟨.host, budget, false, .empty⟩

def device (budget : Budget) (pooled : Bool) : Allocator := ⟨.device, budget, pooled, .empty⟩

/-- the bytes left in the budget -/
def available (a : Allocator) : Option Nat := a.budget.available a.ledger.bytes

/-- the elements of reserved memory: put there one after the other on the host, and by workers in device memory -/
def fill {α : Type} (system : System) (a : Allocator) (len : Nat) (zero : α) : Array α :=
  match a.kind with
  | .host => Array.replicate len zero
  | .device => system.filling.fill len zero

/-- a buffer of `len` elements, each `elementSize` bytes large and holding `zero` -/
def allocate {α : Type} (system : System) (a : Allocator) (elementSize len : Nat) (zero : α) :
    Except AllocationError (Array α) × Allocator :=
  match a.ledger.grant a.budget elementSize len with
  | .error e => (.error e, a)
  | .ok bytes =>
    if system.reserves bytes then
      (.ok (a.fill system len zero), { a with ledger := a.ledger.commit bytes })
    else (.error (.reserveFailed bytes), a)

def inspect (a : Allocator) : String :=
  match a.kind with
  | .host =>
    Inspect.record "HeapAllocator" [("config", a.budget.inspect), ("stats", a.ledger.inspect)]
  | .device =>
    Inspect.record "DeviceAllocator"
      [("config", a.budget.inspect), ("pooled", toString a.pooled), ("stats", a.ledger.inspect)]

end Allocator

end Stencil
