/-
Constant fields. The mean of a constant scalar is the same on every edge, so that with constant normals the gradient at
a vertex only counts: the edges that start there, less those that end there. In a ring every vertex starts one edge and
ends one, and nothing is left.

- `sum_orientation_eq`: what the orientations of all edges at a vertex add up to;
- `startsAt_ringEdges`, `endsAt_ringEdges`: the edges at a vertex of a ring;
- `nabla_uniform`: what the passes leave of constant fields on every mesh, and on a ring.
-/
import Mathlib.Tactic
import Stencil.Proofs.Mesh.Conservation

namespace Stencil

namespace Mesh

variable {n v : Nat} {edges : List (Int32 × Int32)}

/-! ## Starts and ends -/

/-- the orientations of all edges at a vertex add up to the starts there, less the ends -/
theorem sum_orientation_eq (hends : ∀ a ∈ edges, isVertex n a.1 = true ∧ isVertex n a.2 = true) :
    ∑ e : Fin edges.length, orientation (edges.get e) v = (startsAt edges v : Rat) - endsAt edges v := by
  have hlist : ∑ e : Fin edges.length, orientation (edges.get e) v = (edges.map fun a => orientation a v).sum :=
    Fin.sum_univ_fun_getElem edges fun a => orientation a v
  rw [hlist]
  clear hlist
  induction edges with
  | nil => simp [startsAt, endsAt]
  | cons a edges ih =>
    obtain ⟨⟨hstart, hend⟩, hrest⟩ := List.forall_mem_cons.1 hends
    rw [List.map_cons, List.sum_cons, ih hrest, orientation_eq ⟨(isVertex_iff.1 hstart).1, (isVertex_iff.1 hend).1⟩]
    simp only [startsAt, endsAt, List.countP_cons, decide_eq_true_eq]
    push_cast
    ring

/-! ## Rings -/

/-- the edges of a ring -/
def ringEdges (n : Nat) : List (Int32 × Int32) :=
  (List.range n).map fun e => (Int32.ofNat e, Int32.ofNat ((e + 1) % n))

theorem countP_range_eq_one {p : Nat → Bool} {w : Nat} (hw : w < n) (h : ∀ e < n, p e = true ↔ e = w) :
    (List.range n).countP p = 1 := by
  have hsame : (List.range n).countP p = (List.range n).count w :=
    List.countP_congr fun e he => by rw [h e (List.mem_range.1 he), beq_iff_eq]
  rw [hsame, List.count_eq_one_of_mem List.nodup_range (List.mem_range.2 hw)]

variable (hn : n ≤ 2 ^ 31 - 1)

include hn

/-- every vertex of a ring starts one edge -/
theorem startsAt_ringEdges (hv : v < n) : startsAt (ringEdges n) v = 1 := by
  rw [startsAt, ringEdges, List.countP_map]
  refine countP_range_eq_one hv fun e he => ?_
  simp only [Function.comp_apply, Int32.toInt_ofNat_of_lt (show e < 2 ^ 31 by omega), decide_eq_true_eq]
  omega

/-- every vertex of a ring ends one edge: that of the vertex before it -/
theorem endsAt_ringEdges (hv : v < n) : endsAt (ringEdges n) v = 1 := by
  rw [endsAt, ringEdges, List.countP_map]
  refine countP_range_eq_one (w := if v = 0 then n - 1 else v - 1) (by split <;> omega) fun e he => ?_
  have hnext := Nat.mod_lt (e + 1) (Nat.zero_lt_of_lt he)
  simp only [Function.comp_apply, Int32.toInt_ofNat_of_lt (show (e + 1) % n < 2 ^ 31 by omega), decide_eq_true_eq]
  rcases Nat.lt_or_eq_of_le (Nat.succ_le_of_lt he) with hlt | rfl
  · rw [Nat.mod_eq_of_lt hlt]
    split <;> omega
  · rw [Nat.mod_self]
    split <;> omega

theorem exists_ring : ∃ mesh, ring n = .ok mesh ∧ ofEdges n (ringEdges n) = .ok mesh := by
  have hends : ∀ a ∈ ringEdges n, isVertex n a.1 = true ∧ isVertex n a.2 = true := by
    intro a ha
    obtain ⟨e, he, rfl⟩ := List.mem_map.1 ha
    rw [List.mem_range] at he
    have hnext := Nat.mod_lt (e + 1) (Nat.zero_lt_of_lt he)
    simp only [isVertex_iff, Int32.toInt_ofNat_of_lt (show e < 2 ^ 31 by omega),
      Int32.toInt_ofNat_of_lt (show (e + 1) % n < 2 ^ 31 by omega)]
    omega
  have hroom : n * incidenceListBytes ≤ signedMax := by
    simp only [incidenceListBytes, signedMax]
    omega
  have hedges : n * edgeBytes ≤ signedMax := by
    simp only [edgeBytes, signedMax]
    omega
  -- every vertex of a ring has two ends of edges
  have hdegree : (vertexTable n (ringEdges n)).maxDegree ≤ 2 := by
    rw [maxDegree_vertexTable hends]
    refine Finset.sup_le fun v hv => ?_
    have hlt := Finset.mem_range.1 hv
    rw [startsAt_ringEdges hn hlt, endsAt_ringEdges hn hlt]
  have hsigns : n * (vertexTable n (ringEdges n)).maxDegree * signBytes ≤ signedMax :=
    (Nat.mul_le_mul_right signBytes (Nat.mul_le_mul hn hdegree)).trans (by decide)
  have hlength : (ringEdges n).length = n := by rw [ringEdges, List.length_map, List.length_range]
  obtain ⟨mesh, hmesh⟩ := exists_ofEdges hroom hends (by rwa [hlength]) hsigns
  refine ⟨mesh, ?_, hmesh⟩
  rw [ring, Buffer.reserve, if_pos hedges]
  exact hmesh

end Mesh

namespace Nabla

/-! ## Constant inputs -/

/-- a constant scalar on `n` vertices, and constant normals on `m` edges -/
def uniformInputs (n m : Nat) (k : UInt64) (c sx sy : Rat) (vol : Array Rat) : NablaInputs Rat where
  sMxx := .replicate m sx
  sMyy := .replicate m sy
  pp := ⟨clamp n, k, .replicate (n * k.toNat) c⟩
  vol

variable {n : Nat} {edges : List (Int32 × Int32)} {mesh : Mesh} {k : UInt64} {c sx sy : Rat} {vol : Array Rat}

theorem scaledAt_uniform (hmesh : Mesh.ofEdges n edges = .ok mesh) {normals : Array Rat} {s : Rat}
    (hnormals : normals = .replicate edges.length s) {e l : Nat} (he : e < edges.length) (hl : l < k.toNat) :
    scaledAt normals mesh (uniformInputs n edges.length k c sx sy vol) e l = c * s := by
  have hends := Mesh.ofEdges_ends hmesh _ (List.getElem_mem he)
  have hsame : mesh.edges = edges := (Mesh.ofEdges_consistent hmesh).2.1
  have hend {v : Int32} (hv : Mesh.isVertex n v = true) :
      endAt (uniformInputs n edges.length k c sx sy vol) v l = c := by
    obtain ⟨hnonneg, hlt⟩ := Mesh.isVertex_iff.1 hv
    have hlt' : v.toInt.toNat * k.toNat + l < n * k.toNat := Field.column_lt (by omega) hl
    have hentry : (uniformInputs n edges.length k c sx sy vol).pp.data[v.toInt.toNat * k.toNat + l]? = some c := by
      rw [uniformInputs, Array.getElem?_replicate, if_pos hlt']
    exact congrArg (Option.getD · (Scalar.zero : Rat)) hentry
  have hmean : meanAt mesh (uniformInputs n edges.length k c sx sy vol) e l = 1 / 2 * (c + c) := by
    rw [meanAt, hsame, List.getElem?_eq_getElem he]
    exact congrArg₂ (fun x y => (1 / 2 : Rat) * (x + y)) (hend hends.1) (hend hends.2)
  have hnormal : entryAt normals e = s := by
    rw [entryAt, hnormals, Array.getElem?_replicate, if_pos he, Option.getD_some]
  rw [scaledAt, hnormal, hmean]
  ring

/-- the field, weighted by the volumes, is at every vertex `x` times the number of edges that start there, less those
that end there; it is zero where these are as many -/
structure Counts (n : Nat) (edges : List (Int32 × Int32)) (vol : Array Rat) (k : UInt64) (x : Rat) (f : Field Rat) :
    Prop where
  shape : f.HasShape n k
  balance : ∀ v < n, ∀ l < k.toNat,
    entryAt vol v * valueAt f v l = x * ((Mesh.startsAt edges v : Rat) - Mesh.endsAt edges v)
  zero : ∀ v < n, Mesh.startsAt edges v = Mesh.endsAt edges v → ∀ l < k.toNat, valueAt f v l = 0

theorem counts_gradientAt (hmesh : Mesh.ofEdges n edges = .ok mesh) (he : edges.length ≤ 2 ^ 31) (hvol : vol.size = n)
    (hvolumes : ∀ a ∈ vol, a ≠ 0) {normals : Array Rat} {s : Rat} (hnormals : normals = .replicate edges.length s) :
    Counts n edges vol k (c * s)
      (Field.tabulate n k (gradientAt normals mesh (uniformInputs n edges.length k c sx sy vol))) := by
  have hends := Mesh.ofEdges_ends hmesh
  have hconserved : Conserved n edges vol k (scaledAt normals mesh (uniformInputs n edges.length k c sx sy vol))
      (Field.tabulate n k (gradientAt normals mesh (uniformInputs n edges.length k c sx sy vol))) :=
    conserved_gradientAt hmesh he (uniformInputs n edges.length k c sx sy vol) hvol hvolumes normals
  have hbalance (v : Nat) (hv : v < n) (l : Nat) (hl : l < k.toNat) :
      entryAt vol v * valueAt
        (Field.tabulate n k (gradientAt normals mesh (uniformInputs n edges.length k c sx sy vol))) v l =
      c * s * ((Mesh.startsAt edges v : Rat) - Mesh.endsAt edges v) :=
    calc entryAt vol v * valueAt _ v l
        = ∑ e : Fin edges.length, Mesh.orientation (edges.get e) v *
            scaledAt normals mesh (uniformInputs n edges.length k c sx sy vol) e l := hconserved.balance v hv l hl
      _ = ∑ e : Fin edges.length, Mesh.orientation (edges.get e) v * (c * s) :=
          Finset.sum_congr rfl fun e _ => by rw [scaledAt_uniform hmesh hnormals e.isLt hl]
      _ = c * s * ((Mesh.startsAt edges v : Rat) - Mesh.endsAt edges v) := by
          rw [← Finset.sum_mul, Mesh.sum_orientation_eq hends, mul_comm]
  refine ⟨hconserved.shape, hbalance, fun v hv hsame l hl => ?_⟩
  have hvolume : entryAt vol v ≠ 0 := hvolumes _ (Array.mem_of_getElem? (getElem?_entryAt (hvol.symm ▸ hv)))
  have hnone := hbalance v hv l hl
  rw [hsame, sub_self, mul_zero] at hnone
  exact (mul_eq_zero.1 hnone).resolve_left hvolume

end Nabla

open Nabla in
/-- **The gradient of a constant.** On every mesh made from edges, for a constant scalar, constant normals and volumes
other than zero, the passes succeed if their memory is granted, in whatever order each takes its blocks, and leave at
each vertex, times its volume, the constant and the normal times the number of edges that start there, less those that
end there; so nothing where these are as many, and nothing at all on a ring. -/
theorem nabla_uniform {n : Nat} {edges : List (Int32 × Int32)} {mesh : Mesh}
    (hmesh : Mesh.ofEdges n edges = .ok mesh) (hn : n ≤ 2 ^ 31 - 1) (he : edges.length ≤ 2 ^ 31 - 1) {k : UInt64}
    (hk : 0 < k.toNat ∧ k.toNat ≤ signedMax) (hvertexBytes : n * k.toNat * Field.elementBytes ≤ signedMax)
    (hedgeBytes : edges.length * k.toNat * Field.elementBytes ≤ signedMax) {vol : Array Rat} (hvol : vol.size = n)
    (hvolumes : ∀ a ∈ vol, a ≠ 0) (c sx sy : Rat) {out : NablaOutputs Rat} (hox : out.mxx.HasShape n k)
    (hoy : out.myy.HasShape n k) (backend : Backend)
    (hlimit : ∀ limit, backend.kind = .parallel → backend.config.deviceMemoryLimit = some limit →
      2 * (edges.length * k.toNat * Field.elementBytes) ≤ limit.toNat) (system : System)
    (hgranted : Granted system edges.length k) :
    ∃ metrics result,
      nabla system backend mesh (uniformInputs n edges.length k c sx sy vol) out = (.ok metrics, result) ∧
      Counts n edges vol k (c * sx) result.mxx ∧ Counts n edges vol k (c * sy) result.myy ∧
      ∃ ring, Mesh.ring n = .ok ring ∧ (mesh = ring → ∀ v < n, ∀ l < k.toNat,
        valueAt result.mxx v l = 0 ∧ valueAt result.myy v l = 0) := by
  have hx : Counts n edges vol k (c * sx) (gradient mesh (uniformInputs n edges.length k c sx sy vol)).mxx := by
    rw [Nabla.gradient, (Mesh.ofEdges_consistent hmesh).1]
    exact counts_gradientAt hmesh (by omega) hvol hvolumes rfl
  have hy : Counts n edges vol k (c * sy) (gradient mesh (uniformInputs n edges.length k c sx sy vol)).myy := by
    rw [Nabla.gradient, (Mesh.ofEdges_consistent hmesh).1]
    exact counts_gradientAt hmesh (by omega) hvol hvolumes rfl
  obtain ⟨ring, hring, hmade⟩ := Mesh.exists_ring hn
  have hedges : mesh = ring → edges = Mesh.ringEdges n := by
    rintro rfl
    exact (Mesh.ofEdges_consistent hmesh).2.1.symm.trans (Mesh.ofEdges_consistent hmade).2.1
  obtain ⟨rfl, rfl, hconsistent⟩ := Mesh.ofEdges_consistent hmesh
  have h : Admissible mesh (uniformInputs mesh.vertexCount mesh.edges.length k c sx sy vol) :=
    ⟨hconsistent, by omega, Nat.lt_of_le_of_lt he (by decide), hk, hvertexBytes, hedgeBytes, Array.size_replicate,
      Array.size_replicate, hvol, rfl, rfl, Array.size_replicate⟩
  obtain ⟨metrics, hengine⟩ := nabla_eq_of_room h Rat.zero_add hlimit hgranted hox hoy
  refine ⟨metrics, _, hengine, hx, hy, ring, hring, fun hsame v hv l hl => ?_⟩
  -- a vertex of a ring starts as many edges as it ends
  have hbalanced : Mesh.startsAt mesh.edges v = Mesh.endsAt mesh.edges v := by
    rw [hedges hsame, Mesh.startsAt_ringEdges hn hv, Mesh.endsAt_ringEdges hn hv]
  exact ⟨hx.zero v hv hbalanced l hl, hy.zero v hv hbalanced l hl⟩

namespace Nabla

/-- on a mesh where a vertex ends more edges than it starts, and on a ring, with two levels -/
theorem nabla_uniform_tangled :
    (∃ mesh metrics result, Mesh.ofEdges 3 Mesh.tangledEdges = .ok mesh ∧
      nabla (.granting 64) ⟨.parallel, .standard, Backend.alternating⟩ mesh
        (uniformInputs 3 4 2 7 (1 / 2) 5 #[1, -2, 3]) usedOutputs = (.ok metrics, result) ∧
      entryAt #[1, -2, 3] 0 * valueAt result.mxx 0 1 = 7 * (1 / 2) * ((2 : Nat) - (3 : Nat)) ∧
      valueAt result.myy 1 0 = 0) ∧
    ∃ ring metrics result, Mesh.ring 3 = .ok ring ∧
      nabla (.granting 48) tightBackend ring (uniformInputs 3 3 2 7 (1 / 2) 5 #[1, -2, 3]) usedOutputs =
        (.ok metrics, result) ∧
      ∀ v < 3, ∀ l < 2, valueAt result.mxx v l = 0 ∧ valueAt result.myy v l = 0 := by
  have hk : 0 < (2 : UInt64).toNat ∧ (2 : UInt64).toNat ≤ signedMax := by decide
  have hvolumes : ∀ a ∈ (#[1, -2, 3] : Array Rat), a ≠ 0 := by simp
  have hox : usedOutputs.mxx.HasShape 3 2 := ⟨rfl, rfl, rfl⟩
  have hoy : usedOutputs.myy.HasShape 3 2 := ⟨rfl, rfl, rfl⟩
  constructor
  · obtain ⟨mesh, hmesh⟩ : ∃ mesh, Mesh.ofEdges 3 Mesh.tangledEdges = .ok mesh := ⟨_, rfl⟩
    obtain ⟨metrics, result, hrun, hx, hy, -⟩ := nabla_uniform hmesh (by decide) (by decide) hk (by decide) (by decide)
      rfl hvolumes 7 (1 / 2) 5 hox hoy ⟨.parallel, .standard, Backend.alternating⟩ nofun (.granting 64)
      ⟨by decide, by decide⟩
    exact ⟨mesh, metrics, result, hmesh, hrun, hx.balance 0 (by decide) 1 (by decide),
      hy.zero 1 (by decide) (by decide) 0 (by decide)⟩
  · obtain ⟨ring, hring, hmesh⟩ := Mesh.exists_ring (n := 3) (by decide)
    have hlimit (limit : UInt64) (_ : tightBackend.kind = .parallel)
        (hsome : tightBackend.config.deviceMemoryLimit = some limit) :
        2 * ((Mesh.ringEdges 3).length * (2 : UInt64).toNat * Field.elementBytes) ≤ limit.toNat := by
      cases hsome
      decide
    obtain ⟨metrics, result, hrun, -, -, ring', hring', hnothing⟩ := nabla_uniform hmesh (by decide) (by decide) hk
      (by decide) (by decide) rfl hvolumes 7 (1 / 2) 5 hox hoy tightBackend hlimit (.granting 48) ⟨by decide, by decide⟩
    have hsame : ring = ring' := Except.ok.inj (hring.symm.trans hring')
    exact ⟨ring, metrics, result, hring, hrun, hnothing hsame⟩

end Nabla

end Stencil
