/-
Invocations. An invocation owns the allocator of its temporaries and runs passes. Its phase only moves forward: it is
building, then allocating from the first request for a temporary on, then executing from the first pass on, and
released at the end. Once it is executing it hands out no temporary.
-/
import Stencil.Engine.Backend
import Stencil.Engine.Metrics
import Stencil.Memory.Temporary
import Stencil.Mesh.Connectivity
import Stencil.Mesh.Domain

namespace Stencil

/-- where an invocation stands -/
inductive Phase where
  | building
  | allocating
  /-- pass number `pass` is running or has run last -/
  | executing (pass : Nat)
  | released
deriving DecidableEq, Repr

namespace Phase

def name : Phase → String
  | building => "building"
  | allocating => "allocating"
  | executing _ => "executing"
  | released => "released"

def message : Phase → String
  | executing pass => s!"executing pass {pass}"
  | phase => phase.name

def inspect : Phase → String
  | building => "Building"
  | allocating => "Allocating"
  | executing pass => Inspect.record "Executing" [("pass", toString pass)]
  | released => "Released"

end Phase

structure Invocation where
  backend : Backend
  domain : Domain
  allocator : Allocator
  phase : Phase
  passes : List PassMetrics
  /-- how many passes have been asked for, whatever became of them -/
  asked : Nat

namespace Invocation

variable {α : Type}

/-- a fresh invocation -/
def start (backend : Backend) (domain : Domain) : Invocation :=
  ⟨backend, domain, backend.makeAllocator, .building, [], 0⟩

/-- the storage that fields of a pass must have -/
def storage (inv : Invocation) : Storage := inv.backend.storage

/-- what the failure policy makes of a failed allocation; contract violations are not fatal -/
def onAllocation (inv : Invocation) : EngineError → Failure
  | .allocationFailure bytes reason =>
    .escalate (.allocationFailure bytes reason) inv.backend.config.failurePolicy
  | e => .error e

/-- allocates a temporary with the given extents, unless a pass has run; the phase moves before memory is asked for -/
def alloc (system : System) (inv : Invocation) (dims : List (Dim × UInt64)) (elementSize : Nat) (zero : α) :
    Except Failure (Temporary α) × Invocation :=
  match inv.phase with
  | .building | .allocating =>
    let inv := { inv with phase := .allocating }
    match Temporary.make system inv.allocator dims elementSize zero with
    | (.ok t, allocator) => (.ok t, { inv with allocator })
    | (.error e, allocator) => (.error (inv.onAllocation e), { inv with allocator })
  | phase => (.error (.error (.contract (.invalidState "allocate a temporary" phase.name))), inv)

/-- allocates a temporary of `h` elements with `k` levels each -/
def allocSimple (system : System) (inv : Invocation) (h k : UInt64) (elementSize : Nat) (zero : α) :
    Except Failure (Temporary α) × Invocation :=
  inv.alloc system [(.horizontal, h), (.vertical, k)] elementSize zero

/-- allocates a temporary with an element for each of a kind, on every level of the domain -/
def allocAt (system : System) (inv : Invocation) (location : Location) (elementSize : Nat) (zero : α) :
    Except Failure (Temporary α) × Invocation :=
  inv.allocSimple system (inv.domain.count location) inv.domain.k elementSize zero

/-- checks a table against the number of elements of a kind, if tables are checked at all -/
def validateConnectivity (inv : Invocation) (table : Connectivity) (target : Location) : Except Failure Unit :=
  if inv.backend.config.checkConnectivity then
    (table.validate (inv.domain.count target)).mapError .error
  else .ok ()

/-- the backend as the next pass finds it -/
def launcher (inv : Invocation) : Backend := inv.backend.after inv.asked

/-- runs a pass; its number is one more than the passes that have succeeded, and only a success is recorded -/
def pass (inv : Invocation) (op : String) (extent : UInt64) (fields : Bundle View)
    (body : Bundle Handle → Bundle (DimMap Int64) → Kernel α Unit) (s : RunState α) :
    Except Failure Unit × Invocation × RunState α :=
  let launched := inv.launcher.launch op extent fields body s
  let inv := { inv with phase := .executing (inv.passes.length + 1), asked := inv.asked + 1 }
  match launched with
  | (.ok _, s) => (.ok (), { inv with passes := inv.passes ++ [⟨op, extent, 0⟩] }, s)
  | (.error e, s) => (.error e, inv, s)

/-- the figures of the invocation -/
def metrics (inv : Invocation) : InvocationMetrics :=
  ⟨inv.backend.name, 0, inv.passes, inv.allocator.ledger.allocations, inv.allocator.ledger.bytes⟩

/-- the end of an invocation -/
def release (inv : Invocation) : Invocation := { inv with phase := .released }

def inspect (inv : Invocation) : String :=
  Inspect.record "Invocation"
    [("backend", Quoted.quote inv.backend.name), ("domain", inv.domain.inspect), ("state", inv.phase.inspect)]

end Invocation

/-! ## Programs that use an invocation -/

/-- a computation with an invocation at hand and a state of its own; both outlast a failure -/
abbrev InvocationM (σ : Type) := ExceptT Failure (StateM (Invocation × σ))

namespace InvocationM

variable {σ α : Type}

def invocation : InvocationM σ Invocation := return (← get).1

/-- an operation of the invocation that may fail -/
def operate {ρ : Type} (f : Invocation → Except Failure ρ × Invocation) : InvocationM σ ρ := do
  let (inv, s) ← get
  let (r, inv) := f inv
  set (inv, s)
  liftExcept r
where
  liftExcept : Except Failure ρ → InvocationM σ ρ
    | .ok r => pure r
    | .error e => throw e

/-- a contract that must hold -/
def contract {ρ : Type} : Except ContractViolation ρ → InvocationM σ ρ
  | .ok r => pure r
  | .error e => throw (.error (.contract e))

/-- a computation outside any launch that must not fault -/
def noFault {ρ : Type} : Except Fault ρ → InvocationM σ ρ
  | .ok r => pure r
  | .error f => throw (.fault f)

def allocAt (system : System) (location : Location) (elementSize : Nat) (zero : α) : InvocationM σ (Temporary α) :=
  operate fun inv => inv.allocAt system location elementSize zero

def validateConnectivity (table : Connectivity) (target : Location) : InvocationM σ Unit :=
  operate fun inv => (inv.validateConnectivity table target, inv)

/-- runs a pass over fresh run state; the cells are given to `keep` whether it succeeds or not -/
def pass (op : String) (extent : UInt64) (fields : Bundle View)
    (body : Bundle Handle → Bundle (DimMap Int64) → Kernel α Unit) (cells : Cells α) (keep : Cells α → σ → σ) :
    InvocationM σ (Cells α) := do
  let (inv, s) ← get
  let (r, inv, run) := inv.pass op extent fields body ⟨cells, []⟩
  set (inv, keep run.cells s)
  match r with
  | .ok _ => return run.cells
  | .error e => throw e

end InvocationM

/-- runs a computation in a fresh invocation; its figures are the answer if it succeeds -/
def invoke {σ : Type} (backend : Backend) (domain : Domain) (f : InvocationM σ Unit) (s : σ) :
    Except Failure InvocationMetrics × σ :=
  let (r, inv, s) := f.run.run (.start backend domain, s)
  match r with
  | .ok _ => (.ok inv.release.metrics, s)
  | .error e => (.error e, s)

end Stencil
