/-
Backends run a pass: its body once for each element along the element axis. The sequential backend takes the elements
in ascending order. The parallel backend covers them by blocks and takes the blocks in the order of a schedule, another
one for each launch; the units of one block run in ascending order. A fault ends the unit, and with it the sequential
pass or the block; which blocks still run after a fault is up to the schedule. A launch checks the fields before any unit
runs.
-/
import Stencil.Engine.Geometry
import Stencil.Engine.Status
import Stencil.Kernel.Basic
import Stencil.WorkOrder

namespace Stencil

/-! ## Schedules -/

/-- how the blocks of a grid run: in which order, and which of them once a unit has faulted -/
structure Schedule extends WorkOrder where
  /-- whether the block at a turn still runs once a unit has faulted -/
  afterFault : Nat → Bool

/-- blocks in ascending order, none after a fault -/
def Schedule.ascending : Schedule := { WorkOrder.ascending with afterFault := fun _ => false }

/-! ## Backends -/

inductive BackendKind where
  | sequential
  | parallel
deriving DecidableEq, Repr

namespace BackendKind

def name : BackendKind → String
  | sequential => "sequential"
  | parallel => "parallel"

/-- the storage of the fields a backend takes -/
def storage : BackendKind → Storage
  | sequential => .host
  | parallel => .device

end BackendKind

structure Backend where
  kind : BackendKind
  config : EngineConfig
  /-- the schedule of each launch, counted from the next one on -/
  schedules : Nat → Schedule

namespace Backend

/-- a backend with a configuration that must be valid -/
def make (kind : BackendKind) (config : EngineConfig) : Except ConfigError Backend := do
  config.validate
  return ⟨kind, config, fun _ => .ascending⟩

/-- a backend with the standard configuration -/
def standard (kind : BackendKind) : Backend := ⟨kind, .standard, fun _ => .ascending⟩

/-- the schedule of the next launch -/
def schedule (b : Backend) : Schedule := b.schedules 0

/-- the backend after so many launches -/
def after (b : Backend) (launches : Nat) : Backend :=
  { b with schedules := fun launch => b.schedules (launches + launch) }

def name (b : Backend) : String := b.kind.name

def storage (b : Backend) : Storage := b.kind.storage

/-- whether the backend has workers of its own -/
def pooled (b : Backend) : Bool := b.config.workerThreads.isSome

/-- a fresh allocator for one invocation; only device memory has a budget -/
def makeAllocator (b : Backend) : Allocator :=
  match b.kind with
  | .sequential => .heap .unlimited
  | .parallel => .device b.config.deviceBudget b.pooled

def inspect (b : Backend) : String :=
  match b.kind with
  | .sequential => Inspect.record "SequentialBackend" [("config", b.config.inspect)]
  | .parallel =>
    Inspect.record "ParallelBackend" [("config", b.config.inspect), ("pooled", toString b.pooled)]

end Backend

/-! ## Running units -/

/-- what the units of a pass do: the handles of each, and the body -/
structure Pass (α : Type) where
  unitHandles : UInt64 → Bundle Handle
  strides : Bundle (DimMap Int64)
  body : Bundle Handle → Bundle (DimMap Int64) → Kernel α Unit

/-- a fault and the unit it ended -/
structure UnitFault where
  index : UInt64
  fault : Fault
deriving DecidableEq, Repr

namespace Pass

variable {α : Type}

/-- runs one unit -/
def runUnit (p : Pass α) (index : UInt64) (s : RunState α) : Except Fault Unit × RunState α :=
  let handles := p.unitHandles index
  (p.body handles p.strides).run handles.members s

/-- runs `n` units from `index` on, up to the first that faults -/
def runUnits (p : Pass α) : Nat → UInt64 → RunState α → Option UnitFault × RunState α
  | 0, _, s => (none, s)
  | n + 1, index, s =>
    match p.runUnit index s with
    | (.ok _, s) => p.runUnits n (index + 1) s
    | (.error fault, s) => (some ⟨index, fault⟩, s)

/-- the units of one block -/
def runBlock (p : Pass α) (g : Geometry) (extent : UInt64) (block : Nat) (s : RunState α) :
    Option UnitFault × RunState α :=
  let (start, stop) := g.activeRange (UInt64.ofNat block) extent
  p.runUnits (stop.toNat - start.toNat) start s

/-- of two faults the one of the lower unit -/
def earlier : Option UnitFault → Option UnitFault → Option UnitFault
  | some a, some b => if b.index < a.index then some b else some a
  | some a, none => some a
  | none, b => b

/-- runs the blocks of `n` turns of a schedule, from a turn on, with the earliest fault so far -/
def runBlocks (p : Pass α) (schedule : Schedule) (g : Geometry) (extent : UInt64) :
    Nat → Nat → Option UnitFault × RunState α → Option UnitFault × RunState α
  | 0, _, r => r
  | n + 1, turn, (fault, s) =>
    if fault.isSome && !schedule.afterFault turn then
      p.runBlocks schedule g extent n (turn + 1) (fault, s)
    else
      let (found, s) := p.runBlock g extent (schedule.piece g.blocks.toNat turn) s
      p.runBlocks schedule g extent n (turn + 1) (earlier fault found, s)

end Pass

/-! ## Reported rows -/

/-- whether a row comes before another: at the first place where they differ, or where it ends -/
def rowLe : List Int64 → List Int64 → Bool
  | [], _ => true
  | _ :: _, [] => false
  | a :: as, b :: bs => if a = b then rowLe as bs else a < b

/-- the rows a pass has reported: in order where units run in order, sorted where their order is up to a schedule -/
def Backend.rows {α : Type} (b : Backend) (s : RunState α) : List (List Int64) :=
  match b.kind with
  | .sequential => s.reported.reverse
  | .parallel => s.reported.mergeSort rowLe

/-! ## Launching -/

namespace Backend

variable {α : Type}

def statusOf : Option UnitFault → LaunchStatus
  | none => .success
  | some f => .ofFault f.fault

/-- runs the body for every element below the extent, without checking the fields -/
def dispatch (b : Backend) (extent : UInt64) (fields : Bundle View)
    (body : Bundle Handle → Bundle (DimMap Int64) → Kernel α Unit) (s : RunState α) : LaunchStatus × RunState α :=
  match b.kind with
  | .sequential =>
    let pass : Pass α := ⟨fields.elementOrigin .horizontal, fields.strides, body⟩
    let (fault, s) := pass.runUnits extent.toNat 0 s
    (statusOf fault, s)
  | .parallel =>
    let g := Geometry.forExtent extent
    if g.isValid then
      let shared := fields.share
      let pass : Pass α := ⟨fun index => shared.unitOrigin ⟨.horizontal, index⟩, fields.strides, body⟩
      let (fault, s) := pass.runBlocks b.schedule g extent g.blocks.toNat 0 (none, s)
      (statusOf fault, s)
    else (.invalidGeometry g.blocks, s)

/-- checks the fields, runs the pass `op`, and applies the failure policy to its status -/
def launch (b : Backend) (op : String) (extent : UInt64) (fields : Bundle View)
    (body : Bundle Handle → Bundle (DimMap Int64) → Kernel α Unit) (s : RunState α) :
    Except Failure Unit × RunState α :=
  match fields.checkOuter .horizontal extent b.storage with
  | .error e => (.error (.error (.contract e)), s)
  | .ok _ =>
    let (status, s) := b.dispatch extent fields body s
    (checkLaunch op status b.config.failurePolicy, s)

/-- launches a single pass whose body is given one more argument -/
def callKernel {ν : Type} (b : Backend) (op : String) (extent : UInt64) (fields : Bundle View) (neighbor : ν)
    (body : Bundle Handle → Bundle (DimMap Int64) → ν → Kernel α Unit) (s : RunState α) :
    Except Failure Unit × RunState α :=
  b.launch op extent fields (fun p strides => body p strides neighbor) s

end Backend

end Stencil
