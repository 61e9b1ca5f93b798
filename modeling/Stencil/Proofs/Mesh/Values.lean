/-
The gradient of a scalar on a mesh, value by value: what the fields of the passes hold, written down as functions of
element and level, for inputs that belong to a mesh and fit in memory.

- `Admissible`: such an input, with the sizes that follow;
- `fluxUpTo`, `gradientAt`: the sum around a vertex, slot after slot, and the gradient at a vertex on a level;
- `gradient`: the fields of the gradient.
-/
import Mathlib.Tactic
import Stencil.Proofs.Mesh.Columns
import Stencil.Proofs.Mesh.Tables

namespace Stencil

namespace Nabla

variable {ρ : Type}

/-! ## Admissible inputs -/

/-- the input belongs to the mesh, whose fields fit in memory -/
structure Admissible (mesh : Mesh) (input : NablaInputs ρ) : Prop where
  consistent : mesh.Consistent
  vertices : mesh.vertexCount < 2 ^ 31
  edges : mesh.edgeCount < 2 ^ 31
  levels : 0 < input.pp.k.toNat ∧ input.pp.k.toNat ≤ signedMax
  vertexBytes : mesh.vertexCount * input.pp.k.toNat * Field.elementBytes ≤ signedMax
  edgeBytes : mesh.edgeCount * input.pp.k.toNat * Field.elementBytes ≤ signedMax
  sMxx : input.sMxx.size = mesh.edgeCount
  sMyy : input.sMyy.size = mesh.edgeCount
  vol : input.vol.size = mesh.vertexCount
  pp : input.pp.HasShape mesh.vertexCount input.pp.k

namespace Admissible

variable {mesh : Mesh} {input : NablaInputs ρ}

theorem toNat_vertices (h : Admissible mesh input) : (clamp mesh.vertexCount).toNat = mesh.vertexCount := by
  have := h.vertices
  refine toNat_clamp_of_le ?_
  simp only [wordMax]
  omega

theorem toNat_edges (h : Admissible mesh input) : (clamp mesh.edgeCount).toNat = mesh.edgeCount := by
  have := h.edges
  refine toNat_clamp_of_le ?_
  simp only [wordMax]
  omega

theorem vertexGrid (h : Admissible mesh input) : (clamp mesh.vertexCount).toNat ≤ 32 * (2 ^ 31 - 1) := by
  have := h.vertices
  rw [h.toNat_vertices]
  omega

theorem edgeGrid (h : Admissible mesh input) : (clamp mesh.edgeCount).toNat ≤ 32 * (2 ^ 31 - 1) := by
  have := h.edges
  rw [h.toNat_edges]
  omega

theorem vertexEntries (h : Admissible mesh input) : mesh.vertexCount * input.pp.k.toNat ≤ signedMax := by
  have := h.vertexBytes
  simp only [Field.elementBytes] at this
  omega

theorem edgeEntries (h : Admissible mesh input) : mesh.edgeCount * input.pp.k.toNat ≤ signedMax := by
  have := h.edgeBytes
  simp only [Field.elementBytes] at this
  omega

theorem slots (h : Admissible mesh input) : mesh.vertexCount * mesh.vertexEdges.maxDegree ≤ signedMax := by
  have hv := h.vertices
  have he := h.edges
  have hd := h.consistent.vertexDegree
  calc mesh.vertexCount * mesh.vertexEdges.maxDegree ≤ (2 ^ 31 - 1) * (2 * (2 ^ 31 - 1)) :=
        Nat.mul_le_mul (by omega) (by omega)
    _ ≤ signedMax := by decide

theorem edgeSlots (h : Admissible mesh input) : mesh.edgeCount * mesh.edgeVertices.maxDegree ≤ signedMax := by
  have he := h.edges
  calc mesh.edgeCount * mesh.edgeVertices.maxDegree ≤ (2 ^ 31 - 1) * 2 :=
        Nat.mul_le_mul (by omega) h.consistent.edgeDegree
    _ ≤ signedMax := by decide

theorem edgeDegree (h : Admissible mesh input) : mesh.edgeVertices.maxDegree ≤ signedMax :=
  h.consistent.edgeDegree.trans (by decide)

theorem vertexDegree (h : Admissible mesh input) : mesh.vertexEdges.maxDegree ≤ signedMax := by
  have := h.edges
  have := h.consistent.vertexDegree
  simp only [signedMax]
  omega

theorem words (h : Admissible mesh input) : mesh.vertexCount ≤ wordMax ∧ mesh.edgeCount ≤ wordMax :=
  ⟨h.vertices.le.trans (by decide), h.edges.le.trans (by decide)⟩

theorem toNat_degree (h : Admissible mesh input) :
    (clamp mesh.vertexEdges.maxDegree).toNat = mesh.vertexEdges.maxDegree :=
  toNat_clamp_of_le (h.vertexDegree.trans (by decide))

end Admissible

/-! ## The gradient, value by value -/

variable [Scalar ρ]

/-- the value of flat data at a position, zero past the end -/
def entryAt (data : Array ρ) (p : Nat) : ρ := data[p]?.getD Scalar.zero

/-- the scalar at one end of an edge on a level -/
def endAt (input : NablaInputs ρ) (v : Int32) (l : Nat) : ρ :=
  entryAt input.pp.data (v.toInt.toNat * input.pp.k.toNat + l)

/-- the mean of both ends of an edge on a level -/
def meanAt (mesh : Mesh) (input : NablaInputs ρ) (e l : Nat) : ρ :=
  match mesh.edges[e]? with
  | some (a, b) => Scalar.half * (endAt input a l + endAt input b l)
  | none => Scalar.zero

/-- the mean of an edge, scaled by one component of its normal -/
def scaledAt (normals : Array ρ) (mesh : Mesh) (input : NablaInputs ρ) (e l : Nat) : ρ :=
  entryAt normals e * meanAt mesh input e l

/-- the signed sum of `x` over the first slots of a vertex on a level; slots without an edge are left out -/
def fluxUpTo (mesh : Mesh) (x : Nat → Nat → ρ) (v l : Nat) : Nat → ρ
  | 0 => Scalar.zero
  | slot + 1 =>
    let p := v * mesh.vertexEdges.maxDegree + slot
    match mesh.vertexEdges.data[p]? with
    | some entry =>
      if entry = Connectivity.skipValue then fluxUpTo mesh x v l slot
      else fluxUpTo mesh x v l slot + x entry.toInt.toNat l * Scalar.ofInt (mesh.signs[p]?.getD 0)
    | none => fluxUpTo mesh x v l slot

/-- the signed sum over all slots of a vertex on a level -/
def fluxAt (mesh : Mesh) (x : Nat → Nat → ρ) (v l : Nat) : ρ := fluxUpTo mesh x v l mesh.vertexEdges.maxDegree

/-- one component of the gradient at a vertex on a level -/
def gradientAt (normals : Array ρ) (mesh : Mesh) (input : NablaInputs ρ) (v l : Nat) : ρ :=
  fluxAt mesh (scaledAt normals mesh input) v l / entryAt input.vol v

/-- the gradient as fields -/
def gradient (mesh : Mesh) (input : NablaInputs ρ) : NablaOutputs ρ :=
  ⟨Field.tabulate mesh.vertexCount input.pp.k (gradientAt input.sMxx mesh input),
    Field.tabulate mesh.vertexCount input.pp.k (gradientAt input.sMyy mesh input)⟩

theorem getElem?_entryAt {data : Array ρ} {p : Nat} (hp : p < data.size) : data[p]? = some (entryAt data p) := by
  rw [entryAt, Array.getElem?_eq_getElem hp, Option.getD_some]

end Nabla

theorem toInt64_of_nonneg {v : Int32} (h : 0 ≤ v.toInt) : v.toInt64 = Int64.ofNat v.toInt.toNat := by
  apply Int64.toInt_inj.1
  have := v.toInt_lt
  rw [Int32.toInt_toInt64, Int64.toInt_ofNat_of_lt (by omega)]
  omega

end Stencil
