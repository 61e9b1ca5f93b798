/-
Kernel programs: bodies written as instructions. A program moves handles of numbered members, loads and stores
through them, loops along axes and reduces over neighbours; its meaning is a kernel body. Members are numbered from
left to right through all groups of the bundle, targets in the order in which they are given.
-/
import Stencil.Kernel.Basic
import Stencil.Kernel.Number
import Stencil.Sweep.Combiner

namespace Stencil.Program

/-! ## Programs -/

/-- a reduction over the neighbours named by a table member -/
structure FoldSpec where
  combiner : Combiner
  slot : Dim
  degree : Extent
  table : Nat
  target : Nat
  weight : Option Nat
  checked : Bool
  skips : Bool

inductive BinaryOp where
  | add
  | sub
  | mul
  | div

inductive Expr where
  | number (n : Number)
  /-- the value under a member's handle -/
  | get (member : Nat)
  /-- the value under a member's handle, or another where the access is not granted -/
  | getOr (member : Nat) (otherwise : Expr)
  | offset (member : Nat)
  /-- the value an update replaces -/
  | old
  /-- the accumulator of the loop around -/
  | acc
  | binary (op : BinaryOp) (a b : Expr)
  /-- the value of an element of a target -/
  | neighbor (target : Nat) (index : Expr)
  /-- a fold along an axis, the body evaluated at every offset -/
  | loopFold (dim : Dim) (extent : Extent) (init body : Expr)
  | fold (spec : FoldSpec)

/-- the ways to run a loop; all mean the same -/
inductive LoopMode where
  | run
  | apply
  | each

inductive Instr where
  | set (member : Nat) (e : Expr)
  /-- stores if the access is granted, and reports whether it was -/
  | trySet (member : Nat) (e : Expr)
  | update (member : Nat) (e : Expr)
  | shift (member : Nat) (stride count : Int64)
  /-- moves every member along an axis -/
  | step (dim : Dim) (count : Int64)
  | loop (dim : Dim) (extent : Extent) (mode : LoopMode) (body : List Instr)
  /-- runs the body if a member stands at an offset -/
  | ifAt (member : Nat) (offset : Int64) (body : List Instr)
  | emit (row : List Expr)
  | raise (f : Fault)

/-! ## Meaning -/

/-- elements a program may read besides its members -/
structure Target where
  type : NumberType
  neighbors : Neighbors
  data : Array Number

/-- what a program is run with: the element types of its members, and its targets -/
structure Context where
  types : List NumberType
  targets : List Target

namespace Context

def typeOf (c : Context) (member : Nat) : NumberType := c.types[member]?.getD .int64

def target (c : Context) (n : Nat) : Except Fault Target :=
  match c.targets[n]? with
  | some t => .ok t
  | none => .error .outside

end Context

/-- the place a program has reached -/
structure Env where
  handles : Bundle Handle
  strides : Bundle (DimMap Int64)
  old : Number
  acc : Number

namespace BinaryOp

def apply : BinaryOp → Number → Number → Except Fault Number
  | add, a, b => a.add b
  | sub, a, b => a.sub b
  | mul, a, b => a.mul b
  | div, a, b => .ok (a.div b)

end BinaryOp

/-- a result of a loop or fold that a contract violation ends with a fault -/
def orFault {ρ : Type} : Except ContractViolation (Kernel Number ρ) → Kernel Number ρ
  | .ok k => k
  | .error e => .fault (.violation e)

/-- the value under the handle of a member -/
def loadMember (p : Bundle Handle) (member : Nat) : Kernel Number Number := Kernel.get member (p.handle member)

namespace FoldSpec

/-- the reduction a specification describes, over a target -/
def reduction (spec : FoldSpec) (target : Target) : NeighborFold (Kernel Number) Number :=
  let a := target.type.arithmetic
  { slot := spec.slot
    degree := spec.degree
    skips := spec.skips
    start := return (spec.combiner.start? a).getD a.zero
    combine := fun acc v => Kernel.lift (spec.combiner.apply a acc v)
    extract := fun p n => do
      let v ← Kernel.lift (n.read target.data)
      match spec.weight with
      | none => return v
      | some m =>
        let w ← loadMember p m
        Kernel.lift (do a.mul v (← target.type.accept w)) }

/-- the table entry at the slot -/
def select (spec : FoldSpec) (p : Bundle Handle) : Kernel Number Int64 := do
  Kernel.lift (← loadMember p spec.table).toInt

def eval (spec : FoldSpec) (c : Context) (env : Env) : Kernel Number Number := do
  let target ← Kernel.lift (c.target spec.target)
  let f := spec.reduction target
  if spec.checked then
    match ← f.tryEval env.handles env.strides spec.select target.neighbors with
    | .ok v => return v
    | .error e => .fault (.engine e)
  else orFault (f.eval env.handles env.strides spec.select target.neighbors)

end FoldSpec

namespace Expr

def eval (c : Context) : Expr → Env → Kernel Number Number
  | number n, _ => return n
  | get m, env => loadMember env.handles m
  | getOr m otherwise, env => do
    match ← Kernel.get? m (env.handles.handle m) with
    | some v => return v
    | none => otherwise.eval c env
  | offset m, env => return .int (env.handles.handle m).offset
  | old, env => return env.old
  | acc, env => return env.acc
  | binary op a b, env => do
    let x ← a.eval c env
    let y ← b.eval c env
    Kernel.lift (op.apply x y)
  | neighbor t index, env => do
    let i ← index.eval c env
    Kernel.lift (do
      let i ← i.toInt
      let target ← c.target t
      (target.neighbors.element i).read target.data)
  | loopFold d extent init body, env => do
    let start ← init.eval c env
    orFault (do
      let l ← (Loop.mk d extent).bind env.strides
      return l.fold env.handles start fun acc q => body.eval c { env with handles := q, acc })
  | fold spec, env => spec.eval c env

/-- the values of a row, each a whole number -/
def evalRow (c : Context) (env : Env) (row : List Expr) : Kernel Number (List Int64) :=
  row.mapM fun e => do Kernel.lift (← e.eval c env).toInt

end Expr

/-- the element a number becomes in a member; a member that may only be read refuses it -/
def converted (c : Context) (env : Env) (member : Nat) (v : Number) : Kernel Number Number :=
  match (env.handles.handle member).access with
  | .readOnly => .fault .readOnlyMember
  | .writable => Kernel.lift ((c.typeOf member).accept v)

mutual
/-- one instruction: the place it leads to -/
def exec (c : Context) : Instr → Env → Kernel Number Env
  | .set m e, env => do
    let v ← converted c env m (← e.eval c env)
    Kernel.set m (env.handles.handle m) v
    return env
  | .trySet m e, env => do
    let v ← converted c env m (← e.eval c env)
    let granted ← Kernel.set? m (env.handles.handle m) v
    Kernel.report [if granted then 1 else 0]
    return env
  | .update m e, env =>
    match (env.handles.handle m).access with
    | .readOnly => .fault .readOnlyMember
    | .writable => do
      Kernel.update m (env.handles.handle m) fun old => do
        converted c env m (← e.eval c { env with old })
      return env
  | .shift m stride count, env =>
    return { env with handles := env.handles.update (fun h => h.shiftBy stride count) m }
  | .step d count, env => return { env with handles := env.handles.shiftBy count (env.strides.stepsOf d) }
  | .loop d extent mode body, env => do
    let l := Loop.mk d extent
    match mode with
    | .run =>
      orFault (l.run env.handles env.strides fun q s => do
        let _ ← execAll c body { env with handles := q, strides := s })
    | .apply =>
      let call := l.apply fun q s => do
        let _ ← execAll c body { env with handles := q, strides := s }
      orFault (call.call env.handles env.strides)
    | .each =>
      orFault (do
        let bound ← l.bind env.strides
        return bound.forEach env.handles fun q => do
          let _ ← execAll c body { env with handles := q })
    return env
  | .ifAt m offset body, env => do
    if (env.handles.handle m).offset = offset then
      let _ ← execAll c body env
    return env
  | .emit row, env => do
    Kernel.report (← Expr.evalRow c env row)
    return env
  | .raise f, _ => .fault f
/-- instructions in order -/
def execAll (c : Context) : List Instr → Env → Kernel Number Env
  | [], env => return env
  | i :: rest, env => do execAll c rest (← exec c i env)
end

/-- the body a program describes -/
def body (c : Context) (program : List Instr) (p : Bundle Handle) (strides : Bundle (DimMap Int64)) :
    Kernel Number Unit := do
  let _ ← execAll c program ⟨p, strides, default, default⟩

end Stencil.Program
