/-
The sum of edge values around each vertex, regardless of orientation, in one pass.
-/
import Stencil.Mesh.Nabla

namespace Stencil

variable {ρ : Type}

namespace VertexSum

variable [Scalar ρ]

/-- the body of the pass: members are the table of edges and the output -/
def body (mesh : Mesh) (sum : BoundFold (Kernel ρ) ρ) (p : Bundle Handle) (target : Neighbors) : Kernel ρ Unit := do
  Kernel.set 1 (p.handle 1) (← sum.eval p (Nabla.tableEntry mesh.vertexEdges) target)

end VertexSum

/-- sums the values of the edges around each vertex into `out`; what a failing run has written stays -/
def vertexSum [Scalar ρ] (backend : Backend) (mesh : Mesh) (edgeValues out : Array ρ) :
    Except Failure Unit × Array ρ :=
  let storage := backend.storage
  let prepared : Except ContractViolation (Bundle View × Neighbors × BoundFold (Kernel ρ) ρ) := do
    let table ← mesh.vertexEdges.view .horizontal .neighbor storage
    let degree ← table.upperBound .neighbor
    let fields := Bundle.ofMembers [table, .ofElements .writable out.size storage]
    let target ← (View.ofElements .readOnly edgeValues.size storage).neighbors
    let sum ← (Nabla.sumFold .neighbor degree fun _ n => Kernel.lift (n.read edgeValues)).bind fields.strides
    return (fields, target, sum)
  match prepared with
  | .error e => (.error (.error (.contract e)), out)
  | .ok (fields, target, sum) =>
    let (r, s) := backend.callKernel "vertex_sum" (clamp mesh.vertexCount) fields target
      (fun p _ target => VertexSum.body mesh sum p target) ⟨#[#[], out], []⟩
    (r, s.cells[1]?.getD out)

end Stencil
