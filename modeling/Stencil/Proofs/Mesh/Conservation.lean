/-
Conservation. The gradient at a vertex, times its volume, is the sum of the scaled means of all edges, each counted with
the orientation of the edge at the vertex. An edge leaves its start and enters its end, so over all vertices nothing is
left.

- `rowFlux_incident`: what the incidences of a vertex add up to, edge by edge;
- `fluxAt_eq_sum`: the sum over the slots of a vertex is one over the edges;
- `nabla_conserves`: what the passes leave is balanced along the edges and adds up to nothing.
-/
import Mathlib.Tactic
import Stencil.Proofs.Mesh.Gradient
import Stencil.Proofs.Mesh.Incidence

namespace Stencil

namespace Mesh

/-! ## What the incidences of a vertex add up to -/

/-- how an edge counts at a vertex: once for its start and once, with a minus, for its end; a loop does not count -/
def orientation (a : Int32 × Int32) (v : Nat) : Rat :=
  (if a.1.toInt.toNat = v then 1 else 0) - (if a.2.toInt.toNat = v then 1 else 0)

theorem sum_orientation {n : Nat} {a : Int32 × Int32} (ha : isVertex n a.1 = true ∧ isVertex n a.2 = true) :
    ∑ v ∈ Finset.range n, orientation a v = 0 := by
  have hstart := isVertex_iff.1 ha.1
  have hend := isVertex_iff.1 ha.2
  have hs : a.1.toInt.toNat ∈ Finset.range n := Finset.mem_range.2 (by omega)
  have he : a.2.toInt.toNat ∈ Finset.range n := Finset.mem_range.2 (by omega)
  calc ∑ v ∈ Finset.range n, orientation a v
      = (∑ v ∈ Finset.range n, if a.1.toInt.toNat = v then (1 : Rat) else 0) -
          ∑ v ∈ Finset.range n, if a.2.toInt.toNat = v then (1 : Rat) else 0 := Finset.sum_sub_distrib _ _
    _ = 1 - 1 := by rw [Finset.sum_ite_eq, Finset.sum_ite_eq, if_pos hs, if_pos he]
    _ = 0 := sub_self 1

theorem orientation_eq {a : Int32 × Int32} (ha : 0 ≤ a.1.toInt ∧ 0 ≤ a.2.toInt) (v : Nat) :
    orientation a v = (if a.1.toInt = v then 1 else 0) - if a.2.toInt = v then 1 else 0 := by
  have hstart : a.1.toInt.toNat = v ↔ a.1.toInt = v := by omega
  have hend : a.2.toInt.toNat = v ↔ a.2.toInt = v := by omega
  rw [orientation, if_congr hstart rfl rfl, if_congr hend rfl rfl]

/-- what the incidences of a row add up to, each with its sign -/
def rowFlux (x : Nat → Rat) (row : List Incidence) : Rat :=
  (row.map fun i => x i.edge.toInt.toNat * (i.sign : Rat)).sum

theorem rowFlux_append (x : Nat → Rat) (row : List Incidence) (i : Incidence) :
    rowFlux x (row ++ [i]) = rowFlux x row + x i.edge.toInt.toNat * (i.sign : Rat) := by
  simp only [rowFlux, List.map_append, List.map_cons, List.map_nil, List.sum_append, List.sum_singleton]

variable {x : Nat → Rat} {v : Nat}

theorem rowFlux_incidencesOf {e : Nat} (he : e < 2 ^ 31) {a : Int32 × Int32} (ha : 0 ≤ a.1.toInt ∧ 0 ≤ a.2.toInt) :
    rowFlux x (incidencesOf v (a, e)) = orientation a v * x e := by
  rw [rowFlux, sum_incidencesOf, orientation_eq ha, toNat_edgeNumber he, Int.cast_neg, Int.cast_one, mul_neg, mul_one,
    sub_mul, sub_eq_add_neg]
  congr 1
  · rw [ite_mul, one_mul, zero_mul]
  · rw [ite_mul, one_mul, zero_mul]
    split
    · rfl
    · rw [neg_zero]

/-- the incidences at a vertex count every edge with its orientation -/
theorem rowFlux_incident {n : Nat} {edges : List (Int32 × Int32)} (he : edges.length ≤ 2 ^ 31)
    (hends : ∀ a ∈ edges, isVertex n a.1 = true ∧ isVertex n a.2 = true) :
    rowFlux x (incident edges v) = ∑ e : Fin edges.length, orientation edges[e] v * x e := by
  rw [rowFlux, sum_incident]
  refine Finset.sum_congr rfl fun e _ => ?_
  have hedge := hends _ (List.getElem_mem e.isLt)
  exact rowFlux_incidencesOf (by omega) ⟨(isVertex_iff.1 hedge.1).1, (isVertex_iff.1 hedge.2).1⟩

end Mesh

namespace Nabla

/-! ## The sum over the slots of a vertex -/

variable {n : Nat} {edges : List (Int32 × Int32)} {mesh : Mesh} {v : Nat}

/-- the first slots of a vertex count the first of its incidences -/
theorem fluxUpTo_eq_rowFlux (hmesh : Mesh.ofEdges n edges = .ok mesh) (he : edges.length ≤ 2 ^ 31) (hv : v < n)
    (x : Nat → Nat → Rat) (l : Nat) : ∀ slot ≤ mesh.vertexEdges.maxDegree,
      fluxUpTo mesh x v l slot = Mesh.rowFlux (x · l) ((Mesh.incident edges v).take slot) := by
  intro slot hslot
  induction slot with
  | zero => rfl
  | succ slot ih =>
    obtain ⟨hedge, hsign⟩ := Mesh.ofEdges_slot hmesh hv (show slot < mesh.vertexEdges.maxDegree by omega)
    rw [fluxUpTo, ih (by omega), List.take_add_one]
    simp only [hedge, hsign]
    cases hi : (Mesh.incident edges v)[slot]? with
    | none =>
      -- past the incidences of the vertex, the row is filled up with marks of missing neighbours
      rw [Option.map_none, Option.getD_none, if_pos rfl, Option.toList_none, List.append_nil]
    | some i =>
      obtain ⟨-, -, -, hne⟩ := Mesh.edge_of_mem_incident he (List.mem_of_getElem? hi)
      rw [Option.map_some, Option.map_some, Option.getD_some, Option.getD_some, if_neg hne, Option.toList_some,
        Mesh.rowFlux_append]
      rfl

/-- **The sum over the slots of a vertex** counts every edge with its orientation. -/
theorem fluxAt_eq_sum (hmesh : Mesh.ofEdges n edges = .ok mesh) (he : edges.length ≤ 2 ^ 31) (hv : v < n)
    (x : Nat → Nat → Rat) (l : Nat) :
    fluxAt mesh x v l = ∑ e : Fin edges.length, Mesh.orientation edges[e] v * x e l := by
  calc fluxAt mesh x v l = Mesh.rowFlux (x · l) ((Mesh.incident edges v).take mesh.vertexEdges.maxDegree) :=
        fluxUpTo_eq_rowFlux hmesh he hv x l _ le_rfl
    _ = Mesh.rowFlux (x · l) (Mesh.incident edges v) := by rw [List.take_of_length_le (Mesh.length_incident_le hmesh hv)]
    _ = ∑ e : Fin edges.length, Mesh.orientation edges[e] v * x e l :=
        Mesh.rowFlux_incident he (Mesh.ofEdges_ends hmesh)

/-! ## Balanced fields -/

/-- the value of a field at an element on a level -/
def valueAt {ρ : Type} [Scalar ρ] (f : Field ρ) (i l : Nat) : ρ := entryAt f.data (i * f.k.toNat + l)

theorem valueAt_tabulate {ρ : Type} [Scalar ρ] {k : UInt64} (f : Nat → Nat → ρ) {l : Nat} (hv : v < n)
    (hl : l < k.toNat) : valueAt (Field.tabulate n k f) v l = f v l := by
  simp only [valueAt, entryAt, Field.tabulate, Field.getElem?_table f hv hl, Option.getD_some]

/-- the field, weighted by the volumes, is what `x` carries along the edges into and out of every vertex, and adds up to
nothing on every level -/
structure Conserved (n : Nat) (edges : List (Int32 × Int32)) (vol : Array Rat) (k : UInt64) (x : Nat → Nat → Rat)
    (f : Field Rat) : Prop where
  shape : f.HasShape n k
  balance : ∀ v < n, ∀ l < k.toNat,
    entryAt vol v * valueAt f v l = ∑ e : Fin edges.length, Mesh.orientation edges[e] v * x e l
  total : ∀ l < k.toNat, ∑ v ∈ Finset.range n, entryAt vol v * valueAt f v l = 0

theorem Conserved.of_balance {vol : Array Rat} {k : UInt64} {x : Nat → Nat → Rat} {f : Field Rat}
    (hends : ∀ a ∈ edges, Mesh.isVertex n a.1 = true ∧ Mesh.isVertex n a.2 = true) (hf : f.HasShape n k)
    (hbalance : ∀ v < n, ∀ l < k.toNat,
      entryAt vol v * valueAt f v l = ∑ e : Fin edges.length, Mesh.orientation edges[e] v * x e l) :
    Conserved n edges vol k x f := by
  refine ⟨hf, hbalance, fun l hl => ?_⟩
  calc ∑ v ∈ Finset.range n, entryAt vol v * valueAt f v l
      = ∑ v ∈ Finset.range n, ∑ e : Fin edges.length, Mesh.orientation edges[e] v * x e l :=
        Finset.sum_congr rfl fun v hv => hbalance v (Finset.mem_range.1 hv) l hl
    _ = ∑ e : Fin edges.length, (∑ v ∈ Finset.range n, Mesh.orientation edges[e] v) * x e l := by
        rw [Finset.sum_comm]
        simp only [Finset.sum_mul]
    _ = 0 := by
        refine Finset.sum_eq_zero fun e _ => ?_
        have hedge : ∑ v ∈ Finset.range n, Mesh.orientation edges[e] v = 0 :=
          Mesh.sum_orientation (hends _ (List.getElem_mem e.isLt))
        rw [hedge, zero_mul]

theorem conserved_gradientAt (hmesh : Mesh.ofEdges n edges = .ok mesh) (he : edges.length ≤ 2 ^ 31)
    (input : NablaInputs Rat) (hvol : input.vol.size = n) (hvolumes : ∀ a ∈ input.vol, a ≠ 0) (normals : Array Rat) :
    Conserved n edges input.vol input.pp.k (scaledAt normals mesh input)
      (Field.tabulate n input.pp.k (gradientAt normals mesh input)) := by
  have hends := Mesh.checkEdges_eq_ok (Mesh.ofEdges_eq_ok hmesh).1
  refine .of_balance hends (Field.hasShape_tabulate n input.pp.k _) fun v hv l hl => ?_
  have hvolume : entryAt input.vol v ≠ 0 :=
    hvolumes _ (Array.mem_of_getElem? (getElem?_entryAt (hvol.symm ▸ hv)))
  rw [valueAt_tabulate _ hv hl, ← fluxAt_eq_sum hmesh he hv]
  exact mul_div_cancel₀ _ hvolume

end Nabla

/-- **Conservation**: on every input of matching shape over a mesh made from edges, whatever the outputs held before and
in whatever order each pass takes its blocks, the passes succeed if their memory is granted, and leave two components
that, weighted by the volumes, add up to nothing on every level: what an edge counts at its start it takes away at its
end. -/
theorem nabla_conserves {n : Nat} {edges : List (Int32 × Int32)} {mesh : Mesh}
    (hmesh : Mesh.ofEdges n edges = .ok mesh) (hn : n ≤ 2 ^ 31 - 1) (he : edges.length ≤ 2 ^ 31 - 1)
    {input : NablaInputs Rat} {out : NablaOutputs Rat} (hk : 0 < input.pp.k.toNat ∧ input.pp.k.toNat ≤ signedMax)
    (hvertexBytes : n * input.pp.k.toNat * Field.elementBytes ≤ signedMax)
    (hedgeBytes : edges.length * input.pp.k.toNat * Field.elementBytes ≤ signedMax)
    (hsMxx : input.sMxx.size = edges.length) (hsMyy : input.sMyy.size = edges.length) (hvol : input.vol.size = n)
    (hvolumes : ∀ a ∈ input.vol, a ≠ 0) (hpp : input.pp.HasShape n input.pp.k)
    (hox : out.mxx.HasShape n input.pp.k) (hoy : out.myy.HasShape n input.pp.k) (backend : Backend)
    (hlimit : ∀ limit, backend.kind = .parallel → backend.config.deviceMemoryLimit = some limit →
      2 * (edges.length * input.pp.k.toNat * Field.elementBytes) ≤ limit.toNat) (system : System)
    (hgranted : Nabla.Granted system edges.length input.pp.k) :
    ∃ metrics result, nabla system backend mesh input out = (.ok metrics, result) ∧
      Nabla.Conserved n edges input.vol input.pp.k (Nabla.scaledAt input.sMxx mesh input) result.mxx ∧
      Nabla.Conserved n edges input.vol input.pp.k (Nabla.scaledAt input.sMyy mesh input) result.myy := by
  have hconserved := Nabla.conserved_gradientAt hmesh (by omega) input hvol hvolumes
  obtain ⟨rfl, rfl, hconsistent⟩ := Mesh.ofEdges_consistent hmesh
  have h : Nabla.Admissible mesh input :=
    ⟨hconsistent, by omega, Nat.lt_of_le_of_lt he (by decide), hk, hvertexBytes, hedgeBytes, hsMxx, hsMyy, hvol, hpp⟩
  obtain ⟨metrics, hengine⟩ := Nabla.nabla_eq_of_room h Rat.zero_add hlimit hgranted hox hoy
  exact ⟨metrics, _, hengine, hconserved input.sMxx, hconserved input.sMyy⟩

namespace Nabla

/-- another order of the blocks from pass to pass, with device memory for exactly the two fields of means over
`loopEdges` -/
def tightBackend : Backend :=
  ⟨.parallel, { EngineConfig.standard with deviceMemoryLimit := some 96 }, Backend.alternating⟩

/-- on a mesh with a loop, a repeated edge and an isolated vertex -/
theorem nabla_conserves_loop :
    ∃ mesh metrics result, Mesh.ofEdges 3 loopEdges = .ok mesh ∧
      nabla (.granting 48) tightBackend mesh loopInput usedOutputs = (.ok metrics, result) ∧
      ∀ l < 2, ∑ v ∈ Finset.range 3, entryAt loopInput.vol v * valueAt result.mxx v l = 0 := by
  obtain ⟨mesh, hmesh⟩ : ∃ mesh, Mesh.ofEdges 3 loopEdges = .ok mesh := ⟨_, rfl⟩
  have hk : 0 < loopInput.pp.k.toNat ∧ loopInput.pp.k.toNat ≤ signedMax := by decide
  have hbytes : loopEdges.length * loopInput.pp.k.toNat * Field.elementBytes ≤ signedMax := by decide
  have hvolumes : ∀ a ∈ loopInput.vol, a ≠ 0 := by simp [loopInput]
  have hpp : loopInput.pp.HasShape 3 loopInput.pp.k := ⟨rfl, rfl, rfl⟩
  have hox : usedOutputs.mxx.HasShape 3 loopInput.pp.k := ⟨rfl, rfl, rfl⟩
  have hoy : usedOutputs.myy.HasShape 3 loopInput.pp.k := ⟨rfl, rfl, rfl⟩
  have hlimit (limit : UInt64) (_ : tightBackend.kind = .parallel)
      (hsome : tightBackend.config.deviceMemoryLimit = some limit) :
      2 * (loopEdges.length * loopInput.pp.k.toNat * Field.elementBytes) ≤ limit.toNat := by
    cases hsome
    decide
  obtain ⟨metrics, result, hengine, hmxx, -⟩ := nabla_conserves hmesh (by decide) (by decide) hk hbytes hbytes rfl
    rfl rfl hvolumes hpp hox hoy tightBackend hlimit (.granting 48) ⟨by decide, by decide⟩
  exact ⟨mesh, metrics, result, hmesh, hengine, hmxx.total⟩

end Nabla

end Stencil
