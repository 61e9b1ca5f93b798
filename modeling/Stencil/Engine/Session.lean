/-
Sessions: an invocation driven step by step over a set of buffers. A step allocates or drops a temporary, checks a
table, runs a program as a pass over buffers and temporaries, or looks at what is there.
-/
import Stencil.Access.ViewPlan
import Stencil.Engine.Invocation
import Stencil.Kernel.Program

namespace Stencil

/-- a buffer of numbers -/
structure NumberBuffer where
  type : NumberType
  data : Array Number

/-- the place of the data of a field -/
inductive DataSource where
  | buffer (n : Nat)
  | temporary (n : Nat)

/-- a field of a pass; of a temporary only the changes of the plan are used -/
structure FieldPlan where
  source : DataSource
  access : Access
  plan : ViewPlan

structure PassPlan where
  op : String
  extent : UInt64
  fields : Bundle FieldPlan
  targets : List FieldPlan
  program : List Program.Instr

inductive SessionStep where
  | alloc (type : NumberType) (dims : List (Dim × UInt64))
  | allocSimple (type : NumberType) (h k : UInt64)
  | allocAt (type : NumberType) (location : Location)
  | validate (table : Except ContractViolation Connectivity) (location : Location)
  | read (temporary : Nat)
  | drop
  | info
  | fail (e : EngineError)
  | pass (plan : PassPlan)

/-- what a step answers -/
inductive SessionReply where
  | done
  | allocated (t : Temporary Number)
  | contents (data : Array Number)
  | info (inv : Invocation)
  | reported (rows : List (List Int64))

structure Session where
  inv : Invocation
  buffers : Array NumberBuffer
  temporaries : Array (NumberType × Temporary Number)
  /-- the extents of the passes that have failed, also of those refused before the invocation was asked -/
  failedExtents : List UInt64

namespace Session

/-- a session over buffers, at the start of an invocation -/
def start (backend : Backend) (domain : Domain) (buffers : Array NumberBuffer) : Session :=
  ⟨.start backend domain, buffers, #[], []⟩

/-- the type and data at a place -/
def data? (s : Session) : DataSource → Option (NumberType × Array Number)
  | .buffer n => s.buffers[n]?.map fun b => (b.type, b.data)
  | .temporary n => s.temporaries[n]?.map fun t => (t.1, t.2.data)

/-- the session with other data at a place -/
def put (s : Session) (source : DataSource) (data : Array Number) : Session :=
  match source with
  | .buffer n => { s with buffers := s.buffers.modify n fun b => { b with data } }
  | .temporary n => { s with temporaries := s.temporaries.modify n fun t => (t.1, { t.2 with data }) }

/-- the view of a field -/
def view (s : Session) (f : FieldPlan) : Except Failure View :=
  let built : Except Failure (Except ContractViolation View) := match f.source with
    | .buffer n =>
      match s.buffers[n]? with
      | some b => .ok (f.plan.build f.access b.data.size s.inv.storage)
      | none => .error (.fault .outside)
    | .temporary n =>
      match s.temporaries[n]? with
      | some (_, t) => .ok ((t.view f.access).applyAll f.plan.transforms)
      | none => .error (.fault .outside)
  match built with
  | .ok (.ok v) => .ok v
  | .ok (.error e) => .error (.error (.contract e))
  | .error e => .error e

/-- the type and data of a field -/
def content (s : Session) (f : FieldPlan) : NumberType × Array Number := (s.data? f.source).getD (.int64, #[])

/-- the targets of a pass: all views are made before the first is taken as a target -/
def targets (s : Session) (fs : List FieldPlan) : Except Failure (List Program.Target) := do
  let views ← fs.mapM s.view
  (fs.zip views).mapM fun (f, v) =>
    match v.neighbors with
    | .ok neighbors => .ok ⟨(s.content f).1, neighbors, (s.content f).2⟩
    | .error e => .error (.error (.contract e))

/-- the session with the cells of the writable members put back -/
def keep (s : Session) (fields : List FieldPlan) (cells : Cells Number) : Session :=
  (fields.zip cells.toList).foldl (fun s (f, data) =>
    match f.access with
    | .readOnly => s
    | .writable => s.put f.source data) s

/-- answers a pass with its failure, which is remembered -/
def failPass (s : Session) (p : PassPlan) (e : Failure) : Except Failure SessionReply × Session :=
  (.error e, { s with failedExtents := p.extent :: s.failedExtents })

/-- runs a program as a pass; views are made before the invocation is asked -/
def runPass (s : Session) (p : PassPlan) : Except Failure SessionReply × Session :=
  let prepared : Except Failure (Bundle View × List Program.Target) := do
    let views ← p.fields.traverse s.view
    return (views, ← s.targets p.targets)
  match prepared with
  | .error e => s.failPass p e
  | .ok (views, targets) =>
    let contents := p.fields.members.map s.content
    let context : Program.Context := ⟨contents.map Prod.fst, targets⟩
    let (r, inv, run) := s.inv.pass p.op p.extent views (Program.body context p.program)
      ⟨(contents.map Prod.snd).toArray, []⟩
    let s := { s.keep p.fields.members run.cells with inv }
    match r with
    | .ok _ => (.ok (.reported (inv.backend.rows run)), s)
    | .error e => s.failPass p e

/-- keeps a new temporary -/
def hold (s : Session) (type : NumberType) :
    Except Failure (Temporary Number) × Invocation → Except Failure SessionReply × Session
  | (.ok t, inv) => (.ok (.allocated t), { s with inv, temporaries := s.temporaries.push (type, t) })
  | (.error e, inv) => (.error e, { s with inv })

def step (system : System) (s : Session) : SessionStep → Except Failure SessionReply × Session
  | .alloc type dims => s.hold type (s.inv.alloc system dims type.bytes type.zero)
  | .allocSimple type h k => s.hold type (s.inv.allocSimple system h k type.bytes type.zero)
  | .allocAt type location => s.hold type (s.inv.allocAt system location type.bytes type.zero)
  | .validate (.error e) _ => (.error (.error (.contract e)), s)
  | .validate (.ok table) location => ((s.inv.validateConnectivity table location).map fun _ => .done, s)
  | .read n =>
    match s.temporaries[n]? with
    | some (_, t) => (.ok (.contents t.data), s)
    | none => (.error (.fault .outside), s)
  | .drop => (.ok .done, { s with temporaries := s.temporaries.pop })
  | .info => (.ok (.info s.inv), s)
  | .fail e => (.error (.error e), s)
  | .pass p => s.runPass p

/-- what a run of steps has led to -/
structure Record where
  /-- the answer of every step, with the phase after it -/
  answers : List (Except Failure SessionReply × Phase)
  result : Except Failure InvocationMetrics
  session : Session

/-- runs steps in order; a failing step ends the run with its failure if `stop`, and is passed over otherwise -/
def run (system : System) (stop : Bool) : List SessionStep → Session → Record
  | [], s => ⟨[], .ok s.inv.release.metrics, s⟩
  | step :: rest, s =>
    let (r, s) := s.step system step
    match r, stop with
    | .error e, true => ⟨[(r, s.inv.phase)], .error e, s⟩
    | _, _ =>
      let record := run system stop rest s
      { record with answers := (r, s.inv.phase) :: record.answers }

end Session

end Stencil
