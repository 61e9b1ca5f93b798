/-
Causes of failure. A contract violation is found before any element is touched; an engine error is what an operation
of the engine reports to its caller; a fault is what ends one unit of a pass.
Each cause has one message.
-/
import Stencil.Text.Inspect
import Stencil.Text.Quoted

namespace Stencil

/-- where a buffer lives -/
inductive Storage where
  | host
  | device
deriving DecidableEq, Repr, Inhabited

namespace Storage

def inspect : Storage → String
  | host => "Host"
  | device => "Device"

end Storage

/-! ## Contract violations -/

/-- a view, bundle or invocation does not satisfy what a loop, fold or pass needs; `dim` is the label of the axis -/
inductive ContractViolation where
  | missingStride (dim : String)
  | missingBound (dim : String)
  /-- a member is shorter along the axis than the launch -/
  | extentMismatch (dim : String) (extent bound : Nat)
  /-- a writable member cannot be split by the axis -/
  | notAddressable (dim : String)
  | storageMismatch (expected found : Storage)
  | layoutMismatch (expected actual : Nat)
  | tooManyDims (capacity : Nat)
  | duplicateDim (dim : String)
  /-- an operation was attempted in a phase that does not admit it -/
  | invalidState (action state : String)
deriving DecidableEq, Repr

namespace ContractViolation

def message : ContractViolation → String
  | missingStride dim => s!"no stride for dimension '{dim}'"
  | missingBound dim => s!"no upper bound for dimension '{dim}'"
  | extentMismatch dim extent bound => s!"extent {extent} along '{dim}' exceeds member bound {bound}"
  | notAddressable dim => s!"writable member is not addressable along '{dim}'"
  | storageMismatch expected found =>
    "member built for " ++ found.inspect ++ " storage, backend uses " ++ expected.inspect
  | layoutMismatch expected actual => s!"layout addresses {expected} elements, buffer holds {actual}"
  | tooManyDims capacity => s!"more than {capacity} dimensions in one stride map"
  | duplicateDim dim => s!"dimension '{dim}' given twice"
  | invalidState action state => s!"cannot {action} while invocation is {state}"

/-- the name of a cause -/
def name : ContractViolation → String
  | missingStride .. => "MissingStride"
  | missingBound .. => "MissingBound"
  | extentMismatch .. => "ExtentMismatch"
  | notAddressable .. => "NotAddressable"
  | storageMismatch .. => "StorageMismatch"
  | layoutMismatch .. => "LayoutMismatch"
  | tooManyDims .. => "TooManyDims"
  | duplicateDim .. => "DuplicateDim"
  | invalidState .. => "InvalidState"

/-- what a cause names, part by part -/
def parts : ContractViolation → List (String × String)
  | missingStride dim => [("dim", Quoted.quote dim)]
  | missingBound dim => [("dim", Quoted.quote dim)]
  | extentMismatch dim extent bound =>
    [("dim", Quoted.quote dim), ("extent", toString extent), ("bound", toString bound)]
  | notAddressable dim => [("dim", Quoted.quote dim)]
  | storageMismatch expected found => [("expected", expected.inspect), ("found", found.inspect)]
  | layoutMismatch expected actual => [("expected", toString expected), ("actual", toString actual)]
  | tooManyDims capacity => [("capacity", toString capacity)]
  | duplicateDim dim => [("dim", Quoted.quote dim)]
  | invalidState action state => [("action", Quoted.quote action), ("state", Quoted.quote state)]

def inspect (v : ContractViolation) : String := Inspect.record v.name v.parts

end ContractViolation

/-! ## Engine errors -/

/-- what an operation of the engine reports -/
inductive EngineError where
  | contract (violation : ContractViolation)
  /-- an entry of a neighbour table names no element; the row is given where it is known -/
  | indexOutOfRange (row : Option Nat) (slot : Nat) (index : Int) (bound : Nat)
  | launchFailure (operation : String) (code : Nat) (detail : String)
  | allocationFailure (requestedBytes : Nat) (reason : String)
deriving DecidableEq, Repr

namespace EngineError

def message : EngineError → String
  | contract violation => "contract violation: " ++ violation.message
  | indexOutOfRange row slot index bound =>
    let place := match row with
      | none => ""
      | some row => s!" of row {row}"
    s!"connectivity value {index} at slot {slot}{place} outside [0, {bound})"
  | launchFailure operation code detail => s!"launch of '{operation}' failed with status {code}: {detail}"
  | allocationFailure requested reason => s!"allocation of {requested} bytes failed: {reason}"

/-- the cause behind an error, where there is one -/
def source : EngineError → Option ContractViolation
  | contract violation => some violation
  | _ => none

/-- the name of an error, a contract violation with the name of its cause -/
def name : EngineError → String
  | contract violation => "Contract:" ++ violation.name
  | indexOutOfRange .. => "IndexOutOfRange"
  | launchFailure .. => "LaunchFailure"
  | allocationFailure .. => "AllocationFailure"

def inspect : EngineError → String
  | contract violation => Inspect.payload "Contract" violation.inspect
  | indexOutOfRange row slot index bound =>
    Inspect.record "IndexOutOfRange"
      [("row", Inspect.option (row.map toString)), ("slot", toString slot), ("index", toString index),
        ("bound", toString bound)]
  | launchFailure operation code detail =>
    Inspect.record "LaunchFailure"
      [("operation", Quoted.quote operation), ("code", toString code), ("detail", Quoted.quote detail)]
  | allocationFailure requested reason =>
    Inspect.record "AllocationFailure" [("requested_bytes", toString requested), ("reason", Quoted.quote reason)]

end EngineError

/-! ## Faults -/

/-- integer operations that are checked for overflow -/
inductive Operation where
  | add
  | subtract
  | multiply
deriving DecidableEq, Repr

namespace Operation

def verb : Operation → String
  | add => "add"
  | subtract => "subtract"
  | multiply => "multiply"

end Operation

/-- what ends one unit of a pass, or a computation outside any pass -/
inductive Fault where
  | outOfBounds (offset : Int64) (length : Nat)
  /-- the offset belongs to another unit's element -/
  | foreignElement (offset : Int64) (element owner : UInt64)
  /-- a member that may only be read was written -/
  | readOnlyMember
  | floatForInteger
  /-- an operation left the range of its integer type -/
  | overflow (operation : Operation)
  /-- an operation of a kernel program left the range of its integers -/
  | programOverflow
  | violation (violation : ContractViolation)
  | engine (error : EngineError)
  | raised (text : String)
  /-- a fault that carries something other than text -/
  | textless
  /-- a position outside a table or field that is not reached through a handle -/
  | outside
  /-- a buffer of more bytes than a signed word counts -/
  | capacity
deriving DecidableEq, Repr

namespace Fault

/-- the text of a fault, where it has one -/
def message? : Fault → Option String
  | outOfBounds offset length => some s!"handle offset {offset} out of bounds for buffer of length {length}"
  | foreignElement offset element owner =>
    some s!"handle offset {offset} belongs to element {element} but this unit owns element {owner}"
  | readOnlyMember => some "member is read-only"
  | floatForInteger => some "float where an integer is needed"
  | overflow operation => some ("attempt to " ++ operation.verb ++ " with overflow")
  | programOverflow => some "integer overflow"
  | violation cause => some cause.message
  | engine error => some error.message
  | raised text => some text
  | textless => none
  | outside => none
  | capacity => some "capacity overflow"

end Fault

end Stencil
