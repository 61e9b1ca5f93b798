/-
Transposed tables. A mesh made from edges has a table of the ends of every edge and a table of the edges at every
vertex, and each is the other one read the other way: an edge stands in the rows of its start and of its end, once for
each, and nowhere else.

- `pairwise_incident`: the incidences of a vertex ascend;
- `exists_places`: an edge has one place in the row of its start and one in the row of its end;
- `tables_transposed`: what the tables of every mesh hold, row by row and edge by edge.
-/
import Mathlib.Tactic
import Stencil.Proofs.Mesh.Incidence
import Stencil.Proofs.Mesh.RoundTrip

namespace Stencil

/-- the order in which incidences are entered: by edge, and for one edge its start before its end -/
def Incidence.Before (i j : Incidence) : Prop := i.edge < j.edge ∨ (i.edge = j.edge ∧ i.sign = 1 ∧ j.sign = -1)

theorem Incidence.Before.ne {i j : Incidence} (h : i.Before j) : i ≠ j := by
  rintro rfl
  rcases h with h | ⟨-, hstart, hend⟩
  · exact Int32.lt_irrefl h
  · omega

namespace Mesh

variable {n e v slot : Nat} {edges : List (Int32 × Int32)} {a : Int32 × Int32} {mesh : Mesh}

/-! ## Ascending rows -/

theorem toInt_edgeNumber (he : edges.length ≤ 2 ^ 31) (hlt : e < edges.length) : (Int32.ofNat e).toInt = e :=
  Int32.toInt_ofNat_of_lt (by omega)

theorem pairwise_incidencesOf (v : Nat) (a : (Int32 × Int32) × Nat) :
    (incidencesOf v a).Pairwise Incidence.Before := by
  rw [incidencesOf, List.pairwise_append]
  refine ⟨?_, ?_, ?_⟩
  · split <;> simp
  · split <;> simp
  · intro i hi j hj
    rw [List.mem_ite_nil_right, List.mem_singleton] at hi hj
    rw [hi.2, hj.2]
    exact Or.inr ⟨rfl, rfl, rfl⟩

theorem edge_of_mem_incidencesOf {a : (Int32 × Int32) × Nat} {i : Incidence} (hi : i ∈ incidencesOf v a) :
    i.edge = Int32.ofNat a.2 := by
  rcases mem_incidencesOf.1 hi with ⟨-, rfl⟩ | ⟨-, rfl⟩ <;> rfl

/-- **The incidences of a vertex** ascend. -/
theorem pairwise_incident (he : edges.length ≤ 2 ^ 31) : (incident edges v).Pairwise Incidence.Before := by
  rw [incident, List.pairwise_flatMap]
  refine ⟨fun a _ => pairwise_incidencesOf v a, ?_⟩
  -- the numbers of the edges ascend, and an incidence has the number of its edge
  have hnumbers : edges.zipIdx.Pairwise fun a b => a.2 < b.2 := by
    rw [← List.pairwise_map, List.zipIdx_map_snd]
    exact List.pairwise_lt_range'
  refine hnumbers.imp_of_mem fun {a b} ha hb hlt i hi j hj => Or.inl ?_
  have hnumber {c : (Int32 × Int32) × Nat} (hc : c ∈ edges.zipIdx) : c.2 < edges.length := by
    have hget := List.mem_zipIdx_iff_getElem?.1 hc
    exact (List.getElem?_eq_some_iff.1 hget).1
  rw [edge_of_mem_incidencesOf hi, edge_of_mem_incidencesOf hj, Int32.lt_iff_toInt_lt,
    toInt_edgeNumber he (hnumber ha), toInt_edgeNumber he (hnumber hb)]
  omega

/-! ## The places of an edge -/

theorem mem_incident_and_edge_iff (he : edges.length ≤ 2 ^ 31) (ha : edges[e]? = some a) {i : Incidence} :
    i ∈ incident edges v ∧ i.edge = Int32.ofNat e ↔
      (a.1.toInt = v ∧ i = ⟨Int32.ofNat e, 1⟩) ∨ (a.2.toInt = v ∧ i = ⟨Int32.ofNat e, -1⟩) := by
  constructor
  · rintro ⟨hmem, hedge⟩
    obtain ⟨e', a', ha', hkind⟩ := mem_incident.1 hmem
    have hsame : i.edge = Int32.ofNat e' := by
      rcases hkind with ⟨-, rfl⟩ | ⟨-, rfl⟩ <;> rfl
    have hnumbers : (e : Int) = e' := by
      rw [← toInt_edgeNumber he (List.getElem?_eq_some_iff.1 ha).1,
        ← toInt_edgeNumber he (List.getElem?_eq_some_iff.1 ha').1, ← hedge, hsame]
    obtain rfl : e = e' := by omega
    obtain rfl : a = a' := Option.some_inj.1 (ha.symm.trans ha')
    exact hkind
  · intro hkind
    refine ⟨mem_incident.2 ⟨e, a, ha, hkind⟩, ?_⟩
    rcases hkind with ⟨-, rfl⟩ | ⟨-, rfl⟩ <;> rfl

/-- **The places of an edge** are one in the row of its start and one in the row of its end. -/
theorem exists_places (he : edges.length ≤ 2 ^ 31) (ha : edges[e]? = some a)
    (hends : 0 ≤ a.1.toInt ∧ 0 ≤ a.2.toInt) :
    ∃ i j : Nat, (incident edges a.1.toInt.toNat)[i]? = some ⟨Int32.ofNat e, 1⟩ ∧
      (incident edges a.2.toInt.toNat)[j]? = some ⟨Int32.ofNat e, -1⟩ ∧
      ∀ v slot, (incident edges v)[slot]?.map Incidence.edge = some (Int32.ofNat e) ↔
        (a.1.toInt = v ∧ slot = i) ∨ (a.2.toInt = v ∧ slot = j) := by
  have hstart : a.1.toInt = (a.1.toInt.toNat : Int) := by omega
  have hend : a.2.toInt = (a.2.toInt.toNat : Int) := by omega
  obtain ⟨i, hi⟩ := List.mem_iff_getElem?.1 (mem_incident.2 ⟨e, a, ha, Or.inl ⟨hstart, rfl⟩⟩)
  obtain ⟨j, hj⟩ := List.mem_iff_getElem?.1 (mem_incident.2 ⟨e, a, ha, Or.inr ⟨hend, rfl⟩⟩)
  -- a row that ascends holds an incidence at one place only
  have hplace {w p q : Nat} {x : Incidence} (hp : (incident edges w)[p]? = some x)
      (hq : (incident edges w)[q]? = some x) : p = q :=
    (List.getElem?_inj (List.getElem?_eq_some_iff.1 hp).1 ((pairwise_incident he).imp Incidence.Before.ne)).1
      (hp.trans hq.symm)
  refine ⟨i, j, hi, hj, fun v slot => ?_⟩
  rw [Option.map_eq_some_iff]
  constructor
  · rintro ⟨x, hx, hedge⟩
    rcases (mem_incident_and_edge_iff he ha).1 ⟨List.mem_of_getElem? hx, hedge⟩ with ⟨hv, rfl⟩ | ⟨hv, rfl⟩
    · obtain rfl : a.1.toInt.toNat = v := by omega
      exact Or.inl ⟨hv, hplace hx hi⟩
    · obtain rfl : a.2.toInt.toNat = v := by omega
      exact Or.inr ⟨hv, hplace hx hj⟩
  · rintro (⟨hv, rfl⟩ | ⟨hv, rfl⟩)
    · obtain rfl : a.1.toInt.toNat = v := by omega
      exact ⟨_, hi, rfl⟩
    · obtain rfl : a.2.toInt.toNat = v := by omega
      exact ⟨_, hj, rfl⟩

/-! ## The two tables -/

/-- a slot of a vertex holds an edge -/
def HoldsAt (mesh : Mesh) (v slot e : Nat) : Prop :=
  ∃ slots, mesh.vertexEdges.row v = .ok slots ∧ slots[slot]? = some (Int32.ofNat e)

/-- the slots of a vertex list its incidences: all of them, ascending, each with its sign, and behind them nothing but
marks of missing neighbours -/
structure Lists (mesh : Mesh) (edges : List (Int32 × Int32)) (v : Nat) (row : List Incidence) : Prop where
  ascending : row.Pairwise Incidence.Before
  complete : ∀ i, i ∈ row ↔ ∃ (e : Nat) (a : Int32 × Int32), edges[e]? = some a ∧
    ((a.1.toInt = v ∧ i = ⟨Int32.ofNat e, 1⟩) ∨ (a.2.toInt = v ∧ i = ⟨Int32.ofNat e, -1⟩))
  length : row.length ≤ mesh.vertexEdges.maxDegree
  slots : mesh.vertexEdges.row v = .ok (row.map Incidence.edge ++
    List.replicate (mesh.vertexEdges.maxDegree - row.length) Connectivity.skipValue)
  signs : ∀ slot < mesh.vertexEdges.maxDegree, mesh.sign v slot = .ok ((row[slot]?.map Incidence.sign).getD 0)

/-- the tables of a mesh are those of its edges, each the other one read the other way -/
structure Transposed (mesh : Mesh) (n : Nat) (edges : List (Int32 × Int32)) : Prop where
  counts : mesh.edgeVertices.rows = edges.length ∧ mesh.vertexEdges.rows = n
  ends : ∀ (e : Nat) (a : Int32 × Int32), edges[e]? = some a → mesh.edgeVertices.row e = .ok [a.1, a.2]
  incidences : ∀ v < n, ∃ row, mesh.Lists edges v row
  twice : ∀ (e : Nat) (a : Int32 × Int32), edges[e]? = some a → ∃ i j : Nat,
    mesh.sign a.1.toInt.toNat i = .ok 1 ∧ mesh.sign a.2.toInt.toNat j = .ok (-1) ∧
    ∀ v < n, ∀ slot, mesh.HoldsAt v slot e ↔ (a.1.toInt = v ∧ slot = i) ∨ (a.2.toInt = v ∧ slot = j)
  degree : mesh.vertexEdges.maxDegree = (Finset.range n).sup fun v => startsAt edges v + endsAt edges v
  vertexNumbers : mesh.edgeVertices.validate (clamp n) = .ok ()
  edgeNumbers : mesh.vertexEdges.validate (clamp edges.length) = .ok ()

/-- all slots of all vertices are counted by a word -/
theorem slots_vertexTable_le (hn : n ≤ 2 ^ 31 - 1) (he : edges.length ≤ 2 ^ 31 - 1) :
    n * (vertexTable n edges).maxDegree ≤ wordMax :=
  calc n * (vertexTable n edges).maxDegree ≤ (2 ^ 31 - 1) * (2 * (2 ^ 31 - 1)) :=
        Nat.mul_le_mul hn ((maxDegree_vertexTable_le n edges).trans (Nat.mul_le_mul_left 2 he))
    _ ≤ wordMax := by decide

section

variable (hmesh : ofEdges n edges = .ok mesh) (he : edges.length ≤ 2 ^ 31 - 1)

include hmesh he

theorem row_edge (ha : edges[e]? = some a) : mesh.edgeVertices.row e = .ok [a.1, a.2] := by
  obtain ⟨-, rfl, hconsistent⟩ := ofEdges_consistent hmesh
  obtain ⟨hdegree, hstart, hend⟩ := hconsistent.edgeEntries e a ha
  have hlt : e < mesh.edges.length := (List.getElem?_eq_some_iff.1 ha).1
  have hrows : mesh.edgeVertices.rows = mesh.edges.length := hconsistent.edgeRows
  have hsize : mesh.edgeVertices.data.size ≤ wordMax := by
    rw [Connectivity.size_eq, hrows, hdegree, wordMax]
    omega
  have hslots : (List.range mesh.edgeVertices.maxDegree).map (mesh.edgeVertices.entry e) = [a.1, a.2] := by
    have htwo : List.range 2 = [0, 1] := rfl
    rw [hdegree, htwo]
    simp only [List.map_cons, List.map_nil, Connectivity.entry, hdegree, Nat.add_zero, hstart, hend, Option.getD_some]
  rw [Connectivity.row_eq_ok hsize (by rw [hrows, wordMax]; omega) (hrows ▸ hlt), hslots]

variable (hn : n ≤ 2 ^ 31 - 1)

include hn

theorem slots_le_wordMax : n * mesh.vertexEdges.maxDegree ≤ wordMax := by
  obtain ⟨-, rfl⟩ := ofEdges_eq_ok hmesh
  exact slots_vertexTable_le hn he

theorem lists_incident (hv : v < n) : mesh.Lists edges v (incident edges v) := by
  have hwords := slots_le_wordMax hmesh he hn
  refine ⟨pairwise_incident (by omega), fun i => mem_incident, length_incident_le hmesh hv, ?_, fun slot hslot => ?_⟩
  · have hrow := getElem?_incidences hmesh hv
    obtain ⟨-, rfl⟩ := ofEdges_eq_ok hmesh
    have hedges : ((incidences n edges).map fun row => row.map Incidence.edge)[v]? =
        some ((incident edges v).map Incidence.edge) := by rw [List.getElem?_map, hrow, Option.map_some]
    have hrows := length_vertexRows n edges
    refine (Connectivity.row_ofRows ?_ ?_ hedges).trans ?_
    · rw [hrows, wordMax]
      omega
    · rw [Connectivity.size_eq]
      exact (congrArg (· * _) hrows).trans_le hwords
    · rw [Connectivity.padded, List.length_map]
      rfl
  · have hplace : v * mesh.vertexEdges.maxDegree + slot < n * mesh.vertexEdges.maxDegree := by nlinarith
    exact sign_eq_ok (by omega) (ofEdges_slot hmesh hv hslot).2

theorem holdsAt_iff (hv : v < n) (hlt : e < edges.length) : mesh.HoldsAt v slot e ↔
    (incident edges v)[slot]?.map Incidence.edge = some (Int32.ofNat e) := by
  have hskip : Connectivity.skipValue ≠ Int32.ofNat e := by
    intro h
    have hint := toInt_edgeNumber (by omega) hlt
    rw [← h, show Connectivity.skipValue.toInt = -1 from rfl] at hint
    omega
  have hnone (k : Nat) : (List.replicate k Connectivity.skipValue)[slot - (incident edges v).length]? ≠
      some (Int32.ofNat e) := fun h => hskip (List.eq_of_mem_replicate (List.mem_of_getElem? h)).symm
  rw [HoldsAt, (lists_incident hmesh he hn hv).slots, ← List.getElem?_map]
  simp only [Except.ok.injEq, exists_eq_left']
  by_cases hslot : slot < (incident edges v).length
  · rw [List.getElem?_append_left (by rwa [List.length_map])]
  · -- behind the incidences, the slots hold marks
    have hend : ((incident edges v).map Incidence.edge)[slot]? = none :=
      List.getElem?_eq_none (by rw [List.length_map]; omega)
    rw [List.getElem?_append_right (by rw [List.length_map]; omega), List.length_map, hend]
    simp only [hnone, reduceCtorEq]

/-- an edge stands in exactly two slots, which have the signs of its start and of its end -/
theorem exists_slots (ha : edges[e]? = some a) : ∃ i j : Nat,
    mesh.sign a.1.toInt.toNat i = .ok 1 ∧ mesh.sign a.2.toInt.toNat j = .ok (-1) ∧
    ∀ v < n, ∀ slot, mesh.HoldsAt v slot e ↔ (a.1.toInt = v ∧ slot = i) ∨ (a.2.toInt = v ∧ slot = j) := by
  obtain ⟨hstart, hend⟩ := ofEdges_ends hmesh a (List.mem_of_getElem? ha)
  rw [isVertex_iff] at hstart hend
  obtain ⟨i, j, hi, hj, hplaces⟩ := exists_places (by omega) ha ⟨hstart.1, hend.1⟩
  have hsign {v slot : Nat} {x : Incidence} (hv : v < n) (hx : (incident edges v)[slot]? = some x) :
      mesh.sign v slot = .ok x.sign := by
    have hlists := lists_incident hmesh he hn hv
    have hslot := (List.getElem?_eq_some_iff.1 hx).1.trans_le hlists.length
    rw [hlists.signs slot hslot, hx, Option.map_some, Option.getD_some]
  refine ⟨i, j, hsign (by omega) hi, hsign (by omega) hj, fun v hv slot => ?_⟩
  rw [holdsAt_iff hmesh he hn hv (List.getElem?_eq_some_iff.1 ha).1, hplaces]

theorem transposed_of_ofEdges : mesh.Transposed n edges := by
  have hincidences (v : Nat) (hv : v < n) := lists_incident hmesh he hn hv
  have hdegree : mesh.vertexEdges.maxDegree = (Finset.range n).sup fun v => startsAt edges v + endsAt edges v := by
    rw [← maxDegree_vertexTable (ofEdges_ends hmesh), (ofEdges_eq_ok hmesh).2]
  have hends (e : Nat) (a : Int32 × Int32) (ha : edges[e]? = some a) := row_edge hmesh he ha
  have hslots (e : Nat) (a : Int32 × Int32) (ha : edges[e]? = some a) := exists_slots hmesh he hn ha
  obtain ⟨rfl, rfl, hconsistent⟩ := ofEdges_consistent hmesh
  have hword : 2 ^ 31 - 1 ≤ wordMax := by decide
  exact {
    counts := ⟨hconsistent.edgeRows, hconsistent.vertexRows⟩
    ends := hends
    incidences := fun v hv => ⟨_, hincidences v hv⟩
    twice := hslots
    degree := hdegree
    vertexNumbers := hconsistent.validate_edgeVertices (hn.trans hword)
    edgeNumbers := hconsistent.validate_vertexEdges (Nat.lt_of_le_of_lt he (by decide)) }

end

/-- **Transposed tables.** For up to 2^31 - 1 vertices and as many edges between them, the mesh is made if the system
can count the bytes of the signs, which take more than any table, and is refused for want of capacity if not. The row of
an edge is its start and its end; the row of a vertex is the edges that touch it, ascending, and behind them nothing but
marks, with the sign of each slot; and every edge stands in exactly two slots, one of its start and one of its end.
There are as many slots as a vertex has ends of edges at most, and both tables are validated. -/
theorem tables_transposed (hn : n ≤ 2 ^ 31 - 1) (he : edges.length ≤ 2 ^ 31 - 1)
    (hends : ∀ a ∈ edges, isVertex n a.1 = true ∧ isVertex n a.2 = true) :
    let slots := n * (Finset.range n).sup fun v => startsAt edges v + endsAt edges v
    (slots * signBytes ≤ signedMax → ∃ mesh, ofEdges n edges = .ok mesh ∧ mesh.Transposed n edges) ∧
      (signedMax < slots * signBytes → ofEdges n edges = .error .capacity) := by
  intro slots
  have hvertices : n * incidenceListBytes ≤ signedMax := by
    simp only [incidenceListBytes, signedMax]
    omega
  have hedges : edges.length * edgeBytes ≤ signedMax := by
    simp only [edgeBytes, signedMax]
    omega
  have hslots : n * (vertexTable n edges).maxDegree = slots := by rw [maxDegree_vertexTable hends]
  constructor
  · intro hsigns
    obtain ⟨mesh, hmesh⟩ := exists_ofEdges hvertices hends hedges (by rwa [hslots])
    exact ⟨mesh, hmesh, transposed_of_ofEdges hmesh he hn⟩
  · intro hsigns
    exact ofEdges_of_no_room hvertices hends (slots_vertexTable_le hn he) (by rwa [hslots])

/-- the loop stands twice in the row of its vertex, first as a start and then as an end -/
theorem tables_transposed_tangled : (∀ a ∈ tangledEdges, isVertex 3 a.1 = true ∧ isVertex 3 a.2 = true) ∧
    ∃ mesh, ofEdges 3 tangledEdges = .ok mesh ∧ mesh.Transposed 3 tangledEdges ∧
      mesh.vertexEdges.row 0 = .ok [0, 1, 1, 2, 3] ∧ mesh.vertexEdges.row 1 = .ok [-1, -1, -1, -1, -1] ∧
      mesh.vertexEdges.row 2 = .ok [0, 2, 3, -1, -1] ∧ mesh.sign 0 1 = .ok 1 ∧ mesh.sign 0 2 = .ok (-1) := by
  have hchecked : checkEdges 3 0 tangledEdges = .ok () := rfl
  have hends := checkEdges_eq_ok hchecked
  obtain ⟨mesh, hmesh, htransposed⟩ := (tables_transposed (n := 3) (by decide) (by decide) hends).1 (by decide)
  cases hmesh
  exact ⟨hends, _, rfl, htransposed, rfl, rfl, rfl, rfl, rfl⟩

end Mesh

end Stencil
