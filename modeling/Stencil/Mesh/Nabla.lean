/-
The finite-volume gradient of a scalar on a mesh, in three passes on the engine:

1. for each edge and level, the mean of the scalar at both ends, scaled by each normal component of the edge;
2. for each vertex and level, the sum of the means of its edges, each with the sign of its end;
3. the division by the volume of the vertex.

`nabla` works for any scalars; `nablaDirect` computes the same fields with index loops.
-/
import Stencil.Engine.Invocation
import Stencil.Mesh.Basic
import Stencil.Mesh.Field
import Stencil.Mesh.Scalar

namespace Stencil

variable {ρ : Type}

structure NablaInputs (ρ : Type) where
  /-- x component of the normal of every edge -/
  sMxx : Array ρ
  /-- y component of the normal of every edge -/
  sMyy : Array ρ
  /-- scalar per vertex and level -/
  pp : Field ρ
  /-- volume of every vertex -/
  vol : Array ρ

structure NablaOutputs (ρ : Type) where
  mxx : Field ρ
  myy : Field ρ

namespace NablaOutputs

/-- outputs of zeros -/
def zeroed [Scalar ρ] (mesh : Mesh) (k : UInt64) : Except Fault (NablaOutputs ρ) := do
  let mxx ← Field.replicate (clamp mesh.vertexCount) k Scalar.zero
  let myy ← Field.replicate (clamp mesh.vertexCount) k Scalar.zero
  return ⟨mxx, myy⟩

/-- the largest distance of two floating-point outputs, over both components; a distance that is not a number does
not count -/
def maxAbsDiff (a b : NablaOutputs Float) : Float :=
  let distances (x y : Field Float) := (x.data.toList.zip y.data.toList).map fun p => (p.1 - p.2).abs
  (distances a.mxx b.mxx ++ distances a.myy b.myy).foldl (fun m d => if d.isNaN || d < m then m else d) 0.0

end NablaOutputs

namespace Nabla

variable [Scalar ρ]

/-! ## The passes -/

/-- reduces a row to a sum of scalars -/
def sumFold (slot : Dim) (degree : UInt64) (extract : Bundle Handle → Handle → Kernel ρ ρ) :
    NeighborFold (Kernel ρ) ρ where
  slot
  degree := .given degree
  skips := true
  start := return Scalar.zero
  combine a b := return a + b
  extract

/-- the elements of every level of a field -/
def levelTargets (field : View) (k : UInt64) : Except ContractViolation (List Neighbors) :=
  (List.range k.toNat).mapM fun level => do (← field.shifted .vertical (Int64.ofNat level)).neighbors

/-- the bytes of a fold's target: a pointer, a length, an offset, a stride and a count -/
def targetBytes : Nat := 40

/-- the elements of every level of a field, in a list that must fit in memory -/
def collectTargets {σ : Type} (field : View) (k : UInt64) : InvocationM σ (List Neighbors) := do
  let targets ← InvocationM.contract (levelTargets field k)
  InvocationM.noFault (Buffer.reserve k.toNat targetBytes)
  return targets

/-- the target of a level -/
def targetAt (targets : List Neighbors) (level : Nat) : Kernel ρ Neighbors :=
  match targets[level]? with
  | some t => .done t
  | none => .fault .outside

/-- the table entry under the first member -/
def tableEntry (table : Connectivity) (p : Bundle Handle) : Kernel ρ Int64 := do
  return (← Kernel.lift ((p.handle 0).read table.data)).toInt64

/-- the body of the first pass: members are the table of edge ends, both normals, and both means -/
def edgeBody (mesh : Mesh) (input : NablaInputs ρ) (levels : BoundLoop) (average : BoundFold (Kernel ρ) ρ)
    (targets : List Neighbors) (p : Bundle Handle) : Kernel ρ Unit := do
  let _ ← levels.fold p 0 fun level q => do
    let target ← targetAt targets level
    let mean := Scalar.half * (← average.eval q (tableEntry mesh.edgeVertices) target)
    Kernel.set 3 (q.handle 3) ((← Kernel.lift ((q.handle 1).read input.sMxx)) * mean)
    Kernel.set 4 (q.handle 4) ((← Kernel.lift ((q.handle 2).read input.sMyy)) * mean)
    return level + 1

/-- the signed contribution of an edge to a vertex: members are the table of edges, signs, and both outputs -/
def signedValue (signs : Array ρ) (edgeData : Array ρ) (p : Bundle Handle) (n : Handle) : Kernel ρ ρ := do
  let v ← Kernel.lift (n.read edgeData)
  return v * (← Kernel.lift ((p.handle 1).read signs))

/-- the body of the second pass -/
def vertexBody (mesh : Mesh) (levels : BoundLoop) (mxxSum myySum : BoundFold (Kernel ρ) ρ)
    (mxxTargets myyTargets : List Neighbors) (p : Bundle Handle) : Kernel ρ Unit := do
  let _ ← levels.fold p 0 fun level q => do
    let mxxTarget ← targetAt mxxTargets level
    Kernel.set 2 (q.handle 2) (← mxxSum.eval q (tableEntry mesh.vertexEdges) mxxTarget)
    let myyTarget ← targetAt myyTargets level
    Kernel.set 3 (q.handle 3) (← myySum.eval q (tableEntry mesh.vertexEdges) myyTarget)
    return level + 1

/-- the body of the third pass: members are the volumes and both outputs -/
def volumeBody (vol : Array ρ) (levels : BoundLoop) (p : Bundle Handle) : Kernel ρ Unit :=
  levels.forEach p fun q => do
    let v ← Kernel.lift ((q.handle 0).read vol)
    Kernel.update 1 (q.handle 1) fun x => return x / v
    Kernel.update 2 (q.handle 2) fun x => return x / v

/-- the table of edge ends, or of the edges of a vertex, with its slots along an axis of their own -/
def tableView (table : Connectivity) (slot : Dim) (storage : Storage) : Except ContractViolation View := do
  (← table.view .horizontal .neighbor storage).rename .neighbor slot

/-- the first pass; the answer is both fields of means -/
def edgePass (mesh : Mesh) (input : NablaInputs ρ) (storage : Storage) (mxx myy : Temporary ρ) :
    InvocationM (NablaOutputs ρ) (Temporary ρ × Temporary ρ) := do
  let table ← InvocationM.contract (tableView mesh.edgeVertices .edgeToVertex storage)
  let degree ← InvocationM.contract (table.upperBound .edgeToVertex)
  let pp ← InvocationM.noFault (input.pp.view .readOnly storage)
  let targets ← collectTargets pp input.pp.k
  let fields := Bundle.ofMembers
    [table, .ofElements .readOnly input.sMxx.size storage, .ofElements .readOnly input.sMyy.size storage,
      mxx.view .writable, myy.view .writable]
  let levels ← InvocationM.contract ((Loop.mk .vertical (.given input.pp.k)).bind fields.strides)
  let average := sumFold .edgeToVertex degree fun _ n => Kernel.lift (n.read input.pp.data)
  let average ← InvocationM.contract (average.bind fields.strides)
  let cells ← InvocationM.pass "nabla_edges" (← InvocationM.invocation).domain.edge fields
    (fun p _ => edgeBody mesh input levels average targets p) #[#[], #[], #[], mxx.data, myy.data] fun _ out => out
  return ({ mxx with data := cells[3]?.getD mxx.data }, { myy with data := cells[4]?.getD myy.data })

/-- the outputs with the data of two members -/
def keepOutputs (first second : Nat) (cells : Cells ρ) (out : NablaOutputs ρ) : NablaOutputs ρ where
  mxx := { out.mxx with data := cells[first]?.getD out.mxx.data }
  myy := { out.myy with data := cells[second]?.getD out.myy.data }

/-- the second pass -/
def vertexPass (mesh : Mesh) (k : UInt64) (storage : Storage) (mxx myy : Temporary ρ) :
    InvocationM (NablaOutputs ρ) Unit := do
  let table ← InvocationM.contract (tableView mesh.vertexEdges .vertexToEdge storage)
  let degree ← InvocationM.contract (table.upperBound .vertexToEdge)
  let signs : Array ρ := mesh.signs.map Scalar.ofInt
  let layout := Layout.rowMajor [(.horizontal, clamp mesh.vertexCount), (.neighbor, degree)]
  let signView ← InvocationM.contract (do
    (← View.ofLayout .readOnly signs.size layout storage).rename .neighbor .vertexToEdge)
  let mxxTargets ← collectTargets (mxx.view .readOnly) k
  let myyTargets ← collectTargets (myy.view .readOnly) k
  let (_, out) ← get
  let outMxx ← InvocationM.noFault (out.mxx.view .writable storage)
  let outMyy ← InvocationM.noFault (out.myy.view .writable storage)
  let fields := Bundle.ofMembers [table, signView, outMxx, outMyy]
  let levels ← InvocationM.contract ((Loop.mk .vertical (.given k)).bind fields.strides)
  let mxxSum ← InvocationM.contract ((sumFold .vertexToEdge degree (signedValue signs mxx.data)).bind fields.strides)
  let myySum ← InvocationM.contract ((sumFold .vertexToEdge degree (signedValue signs myy.data)).bind fields.strides)
  let _ ← InvocationM.pass "nabla_vertices" (← InvocationM.invocation).domain.vertex fields
    (fun p _ => vertexBody mesh levels mxxSum myySum mxxTargets myyTargets p)
    #[#[], #[], out.mxx.data, out.myy.data] (keepOutputs 2 3)

/-- the third pass -/
def volumePass (input : NablaInputs ρ) (storage : Storage) : InvocationM (NablaOutputs ρ) Unit := do
  let (_, out) ← get
  let outMxx ← InvocationM.noFault (out.mxx.view .writable storage)
  let outMyy ← InvocationM.noFault (out.myy.view .writable storage)
  let fields := Bundle.ofMembers [.ofElements .readOnly input.vol.size storage, outMxx, outMyy]
  let levels ← InvocationM.contract ((Loop.mk .vertical (.given input.pp.k)).bind fields.strides)
  let _ ← InvocationM.pass "nabla_volume" (← InvocationM.invocation).domain.vertex fields
    (fun p _ => volumeBody input.vol levels p) #[#[], out.mxx.data, out.myy.data] (keepOutputs 1 2)

end Nabla

/-- the gradient of `input.pp`, written to `out`; what a failing run has written stays -/
def nabla [Scalar ρ] (system : System) (backend : Backend) (mesh : Mesh) (input : NablaInputs ρ)
    (out : NablaOutputs ρ) : Except Failure InvocationMetrics × NablaOutputs ρ :=
  let program : InvocationM (NablaOutputs ρ) Unit := do
    let storage := backend.storage
    InvocationM.validateConnectivity mesh.edgeVertices .vertex
    InvocationM.validateConnectivity mesh.vertexEdges .edge
    let mxx ← InvocationM.allocAt system .edge Field.elementBytes (Scalar.zero : ρ)
    let myy ← InvocationM.allocAt system .edge Field.elementBytes (Scalar.zero : ρ)
    let (mxx, myy) ← Nabla.edgePass mesh input storage mxx myy
    Nabla.vertexPass mesh input.pp.k storage mxx myy
    Nabla.volumePass input storage
  invoke backend (mesh.domain input.pp.k) program out

/-! ## Index loops -/

namespace NablaDirect

variable [Scalar ρ]

/-- a value of flat data that must be there -/
def item {ι : Type} (data : Array ι) (n : Nat) : Except Fault ι :=
  match data[n]? with
  | some v => .ok v
  | none => .error .outside

/-- a vertex or edge number as a word -/
def number (v : Int32) : UInt64 := v.toInt64.toUInt64

/-- the mean of both ends of an edge on a level -/
def mean (input : NablaInputs ρ) (edge : Int32 × Int32) (level : Nat) : Except Fault ρ := do
  let a ← input.pp.get (number edge.1) (UInt64.ofNat level)
  let b ← input.pp.get (number edge.2) (UInt64.ofNat level)
  return Scalar.half * (a + b)

/-- the scaled means of all edges on all levels -/
def means (mesh : Mesh) (input : NablaInputs ρ) : Except Fault (Field ρ × Field ρ) := do
  let zero ← Field.replicate (clamp mesh.edgeCount) input.pp.k (Scalar.zero : ρ)
  mesh.edges.zipIdx.foldlM (fun fields (edge, e) =>
    (List.range input.pp.k.toNat).foldlM (fun (mxx, myy) level => do
      let m ← mean input edge level
      let mxx ← mxx.set (UInt64.ofNat e) (UInt64.ofNat level) ((← item input.sMxx e) * m)
      let myy ← myy.set (UInt64.ofNat e) (UInt64.ofNat level) ((← item input.sMyy e) * m)
      return (mxx, myy)) fields) (zero, zero)

/-- the signed sums of both means over the edges of a vertex on a level -/
def flux (mesh : Mesh) (mxx myy : Field ρ) (v level : Nat) : Except Fault (ρ × ρ) := do
  let row ← mesh.vertexEdges.row v
  row.zipIdx.foldlM (fun (x, y) (e, slot) => do
    if e == Connectivity.skipValue then return (x, y)
    let x := x + (← mxx.get (number e) (UInt64.ofNat level)) * Scalar.ofInt (← mesh.sign v slot)
    let y := y + (← myy.get (number e) (UInt64.ofNat level)) * Scalar.ofInt (← mesh.sign v slot)
    return (x, y)) (Scalar.zero, Scalar.zero)

end NablaDirect

/-- the gradient of `input.pp` by index loops over edges, vertices and levels -/
def nablaDirect [Scalar ρ] (mesh : Mesh) (input : NablaInputs ρ) : Except Fault (NablaOutputs ρ) := do
  let (mxx, myy) ← NablaDirect.means mesh input
  let out ← NablaOutputs.zeroed mesh input.pp.k
  (List.range mesh.vertexCount).foldlM (fun out v =>
    (List.range input.pp.k.toNat).foldlM (fun (out : NablaOutputs ρ) level => do
      let (x, y) ← NablaDirect.flux mesh mxx myy v level
      let outMxx ← out.mxx.set (UInt64.ofNat v) (UInt64.ofNat level) (x / (← NablaDirect.item input.vol v))
      let outMyy ← out.myy.set (UInt64.ofNat v) (UInt64.ofNat level) (y / (← NablaDirect.item input.vol v))
      return ⟨outMxx, outMyy⟩) out) out

end Stencil
