/-
The gradient on the engine. On either backend and in any order of the blocks of each pass, the three succeed on every
input that belongs to a mesh and fits in memory, and leave exactly the fields that the index loops compute.

- `nabla_eq_of_room`: what the three passes leave, value by value;
- `nabla_eq_nablaDirect`: with exact rationals, the engine and the index loops agree on every mesh made from edges.

The rationals enter only through `0 + a = a`, which floating-point numbers lack at the zero with a minus sign.
-/
import Mathlib.Tactic
import Stencil.Proofs.Mesh.Direct
import Stencil.Proofs.Mesh.Passes

namespace Stencil

namespace Nabla

open InvocationM

variable {ρ : Type} [Scalar ρ] {mesh : Mesh} {input : NablaInputs ρ} {out : NablaOutputs ρ} {backend : Backend}
  {system : System}

/-- the system grants the memory of the passes over so many edges: both fields of means, and the lists of the targets of
all levels -/
structure Granted (system : System) (edges : Nat) (k : UInt64) : Prop where
  means : system.reserves (edges * k.toNat * Field.elementBytes) = true
  targets : k.toNat * targetBytes ≤ signedMax

/-- **The three passes** leave the gradient, whatever the outputs held before, when the device memory has room for the
two fields of means and the system grants all memory. -/
theorem nabla_eq_of_room (h : Admissible mesh input) (hadd : ∀ a : ρ, Scalar.zero + a = a)
    (hlimit : ∀ limit, backend.kind = .parallel → backend.config.deviceMemoryLimit = some limit →
      2 * (mesh.edgeCount * input.pp.k.toNat * Field.elementBytes) ≤ limit.toNat)
    (hgranted : Granted system mesh.edgeCount input.pp.k)
    (hox : out.mxx.HasShape mesh.vertexCount input.pp.k) (hoy : out.myy.HasShape mesh.vertexCount input.pp.k) :
    ∃ metrics, nabla system backend mesh input out = (.ok metrics, gradient mesh input) := by
  have hedges : (clamp mesh.edgeCount).toNat = mesh.edgeCount := h.toNat_edges
  let domain := mesh.domain input.pp.k
  let bytes := mesh.edgeCount * input.pp.k.toNat * Field.elementBytes
  unfold nabla
  refine invoke_eq ?_
  have hstart : (Invocation.start backend domain).Allocating backend domain (bytes + (bytes + 0)) := by
    refine Invocation.start_allocating backend domain fun limit hparallel hsome => ?_
    have hle := hlimit limit hparallel hsome
    omega
  refine Ensures.bind (ensures_validateConnectivity (h.consistent.validate_edgeVertices h.words.1) ?_)
  refine Ensures.bind (ensures_validateConnectivity (h.consistent.validate_vertexEdges h.edges) ?_)
  have halloc {st : Invocation × NablaOutputs ρ} {room : Nat} (hst : st.1.Allocating backend domain (bytes + room))
      {Q : Temporary ρ → Invocation × NablaOutputs ρ → Prop}
      (hQ : ∀ t inv, inv.Allocating backend domain room →
        t.LaidOut backend.storage (clamp mesh.edgeCount) input.pp.k →
        t.data.size = mesh.edgeCount * input.pp.k.toNat → Q t (inv, st.2)) :
      Ensures (allocAt system .edge Field.elementBytes (Scalar.zero : ρ)) st Q := by
    have hcount : (domain.count .edge).toNat = mesh.edgeCount := hedges
    have hlevels : domain.k = input.pp.k := rfl
    have hroom : st.1.Allocating backend domain
        ((domain.count .edge).toNat * domain.k.toNat * Field.elementBytes + room) := by
      rw [hcount, hlevels]
      exact hst
    refine ensures_allocAt hroom h.levels.2 ?_ ?_ ?_ fun t inv hinv ht hdata => hQ t inv hinv ht ?_
    · rw [hcount, hlevels]
      exact h.edgeBytes
    · rw [hcount, hlevels]
      exact h.edgeEntries
    · rw [hcount, hlevels]
      exact hgranted.means
    · rw [hdata, Array.size_replicate, hcount, hlevels]
  refine Ensures.bind (halloc hstart ?_)
  intro mxx inv hinv hx hxs
  refine Ensures.bind (halloc hinv ?_)
  intro myy inv hinv hy hys
  refine Ensures.bind (edgePass_ensures h hadd hgranted.targets hinv.runsOn hx hy hxs hys ?_)
  intro inv hinv
  dsimp only
  refine Ensures.bind (vertexPass_ensures h hgranted.targets hinv (hx.withData _) (hy.withData _) rfl rfl hox hoy ?_)
  intro inv hinv
  exact volumePass_ensures h hinv rfl rfl fun inv => rfl

/-- the same when nothing limits the device memory -/
theorem nabla_eq (h : Admissible mesh input) (hadd : ∀ a : ρ, Scalar.zero + a = a)
    (hlimit : backend.kind = .parallel → backend.config.deviceMemoryLimit = none)
    (hgranted : Granted system mesh.edgeCount input.pp.k)
    (hox : out.mxx.HasShape mesh.vertexCount input.pp.k) (hoy : out.myy.HasShape mesh.vertexCount input.pp.k) :
    ∃ metrics, nabla system backend mesh input out = (.ok metrics, gradient mesh input) := by
  refine nabla_eq_of_room h hadd (fun limit hparallel hsome => ?_) hgranted hox hoy
  rw [hlimit hparallel] at hsome
  cases hsome

end Nabla

/-- **The engine and the index loops agree** with exact rationals: for every mesh made from edges, every number of
levels whose fields fit in memory and every input of matching shape, if the memory of the passes is granted, on either
backend and in any order of the blocks of each pass. -/
theorem nabla_eq_nablaDirect {n : Nat} {edges : List (Int32 × Int32)} {mesh : Mesh}
    (hmesh : Mesh.ofEdges n edges = .ok mesh) (hn : n ≤ 2 ^ 31 - 1) (he : edges.length ≤ 2 ^ 31 - 1)
    {input : NablaInputs Rat} {out : NablaOutputs Rat} (hk : 0 < input.pp.k.toNat ∧ input.pp.k.toNat ≤ signedMax)
    (hvertexBytes : n * input.pp.k.toNat * Field.elementBytes ≤ signedMax)
    (hedgeBytes : edges.length * input.pp.k.toNat * Field.elementBytes ≤ signedMax)
    (hsMxx : input.sMxx.size = edges.length) (hsMyy : input.sMyy.size = edges.length) (hvol : input.vol.size = n)
    (hpp : input.pp.HasShape n input.pp.k) (hox : out.mxx.HasShape n input.pp.k) (hoy : out.myy.HasShape n input.pp.k)
    (backend : Backend) (hlimit : backend.kind = .parallel → backend.config.deviceMemoryLimit = none) (system : System)
    (hgranted : Nabla.Granted system edges.length input.pp.k) :
    ∃ ref metrics, nablaDirect mesh input = .ok ref ∧ nabla system backend mesh input out = (.ok metrics, ref) := by
  obtain ⟨rfl, rfl, hconsistent⟩ := Mesh.ofEdges_consistent hmesh
  have h : Nabla.Admissible mesh input :=
    ⟨hconsistent, by omega, Nat.lt_of_le_of_lt he (by decide), hk, hvertexBytes, hedgeBytes, hsMxx, hsMyy, hvol, hpp⟩
  obtain ⟨metrics, hengine⟩ := Nabla.nabla_eq h Rat.zero_add hlimit hgranted hox hoy
  exact ⟨_, metrics, NablaDirect.nablaDirect_eq h, hengine⟩

namespace Nabla

/-- two edges between the first two vertices, a loop at the second, and nothing at the third -/
def loopEdges : List (Int32 × Int32) := [(0, 1), (1, 1), (0, 1)]

/-- an input over `loopEdges` with two levels -/
def loopInput : NablaInputs Rat where
  sMxx := #[1, 2, 3]
  sMyy := #[4, 5, 6]
  pp := ⟨3, 2, #[1, 2, 3, 4, 5, 6]⟩
  vol := #[2, 4, 8]

/-- outputs that hold something already -/
def usedOutputs : NablaOutputs Rat := ⟨⟨3, 2, Array.replicate 6 7⟩, ⟨3, 2, Array.replicate 6 9⟩⟩

/-- with another order of the blocks from pass to pass, on a mesh with a loop, a repeated edge and an isolated vertex -/
theorem nabla_eq_nablaDirect_loop :
    ∃ mesh ref metrics, Mesh.ofEdges 3 loopEdges = .ok mesh ∧ nablaDirect mesh loopInput = .ok ref ∧
      nabla (.granting 48) ⟨.parallel, .standard, Backend.alternating⟩ mesh loopInput usedOutputs =
        (.ok metrics, ref) := by
  obtain ⟨mesh, hmesh⟩ : ∃ mesh, Mesh.ofEdges 3 loopEdges = .ok mesh := ⟨_, rfl⟩
  have hk : 0 < loopInput.pp.k.toNat ∧ loopInput.pp.k.toNat ≤ signedMax := by decide
  have hbytes : loopEdges.length * loopInput.pp.k.toNat * Field.elementBytes ≤ signedMax := by decide
  have hpp : loopInput.pp.HasShape 3 loopInput.pp.k := ⟨rfl, rfl, rfl⟩
  have hox : usedOutputs.mxx.HasShape 3 loopInput.pp.k := ⟨rfl, rfl, rfl⟩
  have hoy : usedOutputs.myy.HasShape 3 loopInput.pp.k := ⟨rfl, rfl, rfl⟩
  obtain ⟨ref, metrics, hdirect, hengine⟩ := nabla_eq_nablaDirect hmesh (by decide) (by decide) hk hbytes hbytes rfl rfl
    rfl hpp hox hoy ⟨.parallel, .standard, Backend.alternating⟩ (fun _ => rfl) (.granting 48) ⟨by decide, by decide⟩
  exact ⟨mesh, ref, metrics, hmesh, hdirect, hengine⟩

end Nabla

end Stencil
