/-
The edges at a vertex. Edges are entered one after the other into the rows of their ends; what a row holds in the end
are the incidences of its vertex, edge after edge, the start of an edge before its end. The tables of a mesh hold these
rows, filled up.

- `getElem?_enterEdges`: what entering edges appends to a row, by induction over the edges;
- `incidences_eq`: the rows of all vertices;
- `sum_incident`: a sum over the row of a vertex is one over the edges;
- `length_incident`: a row is as long as there are ends of edges at its vertex;
- `ofEdges_slot`: the tables of a mesh, slot by slot.
-/
import Mathlib.Tactic
import Stencil.Proofs.Mesh.Tables

namespace Stencil

namespace Mesh

variable {n e v : Nat} {edges : List (Int32 × Int32)} {table : Array (List Incidence)}

/-! ## Rows of incidences -/

/-- the incidences of one edge, given with its number, at a vertex -/
def incidencesOf (v : Nat) (a : (Int32 × Int32) × Nat) : List Incidence :=
  (if a.1.1.toInt = v then [⟨Int32.ofNat a.2, 1⟩] else []) ++
    if a.1.2.toInt = v then [⟨Int32.ofNat a.2, -1⟩] else []

theorem mem_incidencesOf {a : Int32 × Int32} {i : Incidence} : i ∈ incidencesOf v (a, e) ↔
    (a.1.toInt = v ∧ i = ⟨Int32.ofNat e, 1⟩) ∨ (a.2.toInt = v ∧ i = ⟨Int32.ofNat e, -1⟩) := by
  rw [incidencesOf, List.mem_append, List.mem_ite_nil_right, List.mem_ite_nil_right, List.mem_singleton,
    List.mem_singleton]

theorem sum_incidencesOf {M : Type} [AddCommMonoid M] (w : Incidence → M) (a : Int32 × Int32) :
    ((incidencesOf v (a, e)).map w).sum =
      (if a.1.toInt = v then w ⟨Int32.ofNat e, 1⟩ else 0) + if a.2.toInt = v then w ⟨Int32.ofNat e, -1⟩ else 0 := by
  have hone {c : Prop} [Decidable c] (i : Incidence) :
      ((if c then [i] else []).map w).sum = if c then w i else 0 := by
    split
    · rw [List.map_singleton, List.sum_singleton]
    · rw [List.map_nil, List.sum_nil]
  rw [incidencesOf, List.map_append, List.sum_append, hone, hone]

/-- the incidences of all edges at a vertex -/
def incident (edges : List (Int32 × Int32)) (v : Nat) : List Incidence := edges.zipIdx.flatMap (incidencesOf v)

theorem getElem?_addIncidence {w : Int32} (hw : 0 ≤ w.toInt) (i : Incidence) :
    (addIncidence table w i)[v]? = table[v]?.map fun row => row ++ if w.toInt = v then [i] else [] := by
  have hsame : w.toInt.toNat = v ↔ w.toInt = v := by omega
  rw [addIncidence, Array.getElem?_modify]
  by_cases h : w.toInt = v
  · rw [if_pos (hsame.2 h), if_pos h]
  · rw [if_neg (mt hsame.1 h), if_neg h]
    simp

/-- **Entering edges** appends their incidences to the rows, edge after edge. -/
theorem getElem?_enterEdges (hends : ∀ a ∈ edges, 0 ≤ a.1.toInt ∧ 0 ≤ a.2.toInt) :
    (enterEdges table e edges)[v]? = table[v]?.map (· ++ (edges.zipIdx e).flatMap (incidencesOf v)) := by
  -- the table is general, since the first edge is entered into it before the others
  induction edges generalizing table e with
  | nil => simp [enterEdges]
  | cons a edges ih =>
    obtain ⟨ha, hrest⟩ := List.forall_mem_cons.1 hends
    have happend (row : List Incidence) :
        row ++ (if a.1.toInt = v then [⟨Int32.ofNat e, 1⟩] else []) ++
          (if a.2.toInt = v then [⟨Int32.ofNat e, -1⟩] else []) = row ++ incidencesOf v (a, e) :=
      List.append_assoc ..
    rw [enterEdges, ih hrest, getElem?_addIncidence ha.2, getElem?_addIncidence ha.1, Option.map_map, Option.map_map,
      List.zipIdx_cons, List.flatMap_cons]
    refine congrArg (Option.map · table[v]?) (funext fun row => ?_)
    simp only [Function.comp_apply, happend, List.append_assoc]

/-- **The rows of all vertices** hold the incidences of the vertices. -/
theorem incidences_eq (hends : ∀ a ∈ edges, isVertex n a.1 = true ∧ isVertex n a.2 = true) :
    incidences n edges = (List.range n).map (incident edges) := by
  have hpositive : ∀ a ∈ edges, 0 ≤ a.1.toInt ∧ 0 ≤ a.2.toInt := fun a ha =>
    ⟨(isVertex_iff.1 (hends a ha).1).1, (isVertex_iff.1 (hends a ha).2).1⟩
  refine List.ext_getElem? fun v => ?_
  rw [incidences, Array.getElem?_toList, getElem?_enterEdges hpositive, List.getElem?_map]
  by_cases hv : v < n
  · simp [hv, incident]
  · simp [hv]

theorem mem_incident {i : Incidence} : i ∈ incident edges v ↔ ∃ (e : Nat) (a : Int32 × Int32), edges[e]? = some a ∧
    ((a.1.toInt = v ∧ i = ⟨Int32.ofNat e, 1⟩) ∨ (a.2.toInt = v ∧ i = ⟨Int32.ofNat e, -1⟩)) := by
  simp only [incident, List.mem_flatMap, Prod.exists, List.mem_zipIdx_iff_getElem?, mem_incidencesOf]
  constructor
  · rintro ⟨a, b, e, he, hi⟩
    exact ⟨e, a, b, he, hi⟩
  · rintro ⟨e, a, b, he, hi⟩
    exact ⟨a, b, e, he, hi⟩

theorem toNat_edgeNumber (he : e < 2 ^ 31) : (Int32.ofNat e).toInt.toNat = e := by
  rw [Int32.toInt_ofNat_of_lt he, Int.toNat_natCast]

theorem edge_of_mem_incident (he : edges.length ≤ 2 ^ 31) {i : Incidence} (hi : i ∈ incident edges v) :
    ∃ e < edges.length, i.edge.toInt = e ∧ i.edge ≠ Connectivity.skipValue := by
  obtain ⟨e, a, ha, hkind⟩ := mem_incident.1 hi
  have hlt : e < edges.length := (List.getElem?_eq_some_iff.1 ha).1
  have hedge : i.edge = Int32.ofNat e := by
    rcases hkind with ⟨-, rfl⟩ | ⟨-, rfl⟩ <;> rfl
  have hint : i.edge.toInt = e := by rw [hedge, Int32.toInt_ofNat_of_lt (by omega)]
  refine ⟨e, hlt, hint, fun hskip => ?_⟩
  have hnegative : Connectivity.skipValue.toInt = -1 := rfl
  rw [hskip, hnegative] at hint
  omega

/-- a sum over the incidences of a vertex is one over the edges -/
theorem sum_incident {M : Type} [AddCommMonoid M] (w : Incidence → M) :
    ((incident edges v).map w).sum = ∑ e : Fin edges.length, ((incidencesOf v (edges.get e, e)).map w).sum := by
  have hzip : edges.zipIdx = List.ofFn fun e : Fin edges.length => (edges.get e, e.val) := by
    refine List.ext_getElem (by simp) fun e h h' => ?_
    simp
  rw [incident, hzip, List.map_flatMap, List.flatMap_def, List.sum_flatten, List.map_map, List.map_ofFn, List.sum_ofFn]
  rfl

/-- how many edges start at a vertex -/
def startsAt (edges : List (Int32 × Int32)) (v : Nat) : Nat := edges.countP fun a : Int32 × Int32 => a.1.toInt = v

/-- how many edges end at a vertex -/
def endsAt (edges : List (Int32 × Int32)) (v : Nat) : Nat := edges.countP fun a : Int32 × Int32 => a.2.toInt = v

/-- a vertex has an incidence for each end of an edge there -/
theorem length_incident (edges : List (Int32 × Int32)) (v : Nat) :
    (incident edges v).length = startsAt edges v + endsAt edges v := by
  have hrow (e : Nat) :
      ((edges.zipIdx e).flatMap (incidencesOf v)).length = startsAt edges v + endsAt edges v := by
    induction edges generalizing e with
    | nil => rfl
    | cons a edges ih =>
      have hone : (incidencesOf v (a, e)).length =
          (if a.1.toInt = v then 1 else 0) + if a.2.toInt = v then 1 else 0 := by
        rw [incidencesOf, List.length_append, apply_ite List.length, apply_ite List.length]
        rfl
      rw [List.zipIdx_cons, List.flatMap_cons, List.length_append, ih, hone]
      simp only [startsAt, endsAt, List.countP_cons, decide_eq_true_eq]
      omega
  exact hrow 0

/-- **The degree** of the table of the vertices is the largest number of ends of edges at one of them. -/
theorem maxDegree_vertexTable (hends : ∀ a ∈ edges, isVertex n a.1 = true ∧ isVertex n a.2 = true) :
    (vertexTable n edges).maxDegree = (Finset.range n).sup fun v => startsAt edges v + endsAt edges v := by
  have hrows := incidences_eq hends
  apply Nat.le_antisymm
  · refine Connectivity.longest_le fun row hrow => ?_
    rw [hrows, List.map_map, List.mem_map] at hrow
    obtain ⟨v, hv, rfl⟩ := hrow
    rw [Function.comp_apply, List.length_map, length_incident]
    exact Finset.le_sup (f := fun v => startsAt edges v + endsAt edges v)
      (Finset.mem_range.2 (List.mem_range.1 hv))
  · refine Finset.sup_le fun v hv => ?_
    rw [← length_incident]
    apply length_le_vertexTable
    rw [hrows]
    exact List.mem_map_of_mem (List.mem_range.2 (Finset.mem_range.1 hv))

/-- an edge that is repeated and turned round, a loop, and a vertex without edges -/
def tangledEdges : List (Int32 × Int32) := [(2, 0), (0, 0), (2, 0), (0, 2)]

/-! ## The tables, slot by slot -/

theorem getElem?_append_replicate {α : Type} (l : List α) (z : α) {d j : Nat} (hj : j < d) :
    (l ++ List.replicate (d - l.length) z)[j]? = some (l[j]?.getD z) := by
  by_cases hlt : j < l.length
  · rw [List.getElem?_append_left hlt, List.getElem?_eq_getElem hlt, Option.getD_some]
  · rw [List.getElem?_append_right (by omega), List.getElem?_replicate, if_pos (by omega),
      List.getElem?_eq_none (by omega), Option.getD_none]

variable {mesh : Mesh} {slot : Nat}

theorem ofEdges_ends (h : ofEdges n edges = .ok mesh) :
    ∀ a ∈ edges, isVertex n a.1 = true ∧ isVertex n a.2 = true := checkEdges_eq_ok (ofEdges_eq_ok h).1

theorem getElem?_incidences (h : ofEdges n edges = .ok mesh) (hv : v < n) :
    (incidences n edges)[v]? = some (incident edges v) := by
  rw [incidences_eq (ofEdges_ends h), List.getElem?_map, List.getElem?_range hv, Option.map_some]

theorem length_incident_le (h : ofEdges n edges = .ok mesh) (hv : v < n) :
    (incident edges v).length ≤ mesh.vertexEdges.maxDegree := by
  have hrow := List.mem_of_getElem? (getElem?_incidences h hv)
  obtain ⟨-, rfl⟩ := ofEdges_eq_ok h
  exact length_le_vertexTable hrow

/-- **The tables of a mesh** hold the incidences of a vertex, and then marks of missing neighbours. -/
theorem ofEdges_slot (h : ofEdges n edges = .ok mesh) (hv : v < n) (hslot : slot < mesh.vertexEdges.maxDegree) :
    mesh.vertexEdges.data[v * mesh.vertexEdges.maxDegree + slot]? =
        some (((incident edges v)[slot]?.map Incidence.edge).getD Connectivity.skipValue) ∧
      mesh.signs[v * mesh.vertexEdges.maxDegree + slot]? =
        some (((incident edges v)[slot]?.map Incidence.sign).getD 0) := by
  have hrow := getElem?_incidences h hv
  obtain ⟨-, rfl⟩ := ofEdges_eq_ok h
  let degree := (vertexTable n edges).maxDegree
  have hpadded : ∀ signs ∈ (incidences n edges).map (paddedSigns degree), signs.length = degree := by
    intro signs hsigns
    obtain ⟨incident, hmem, rfl⟩ := List.mem_map.1 hsigns
    exact length_paddedSigns (length_le_vertexTable hmem)
  change slot < degree at hslot
  constructor
  · refine (Connectivity.getElem?_ofRows _ hslot).trans ?_
    rw [List.getElem?_map, hrow, Option.map_some, Option.bind_some, ← List.getElem?_map]
    exact getElem?_append_replicate _ _ hslot
  · change ((incidences n edges).flatMap (paddedSigns degree)).toArray[v * degree + slot]? = _
    rw [List.getElem?_toArray, List.flatMap_def, getElem?_flatten_of_length hpadded hslot, List.getElem?_map, hrow,
      Option.map_some, Option.bind_some, paddedSigns, ← List.getElem?_map, ← List.length_map (f := Incidence.sign)]
    exact getElem?_append_replicate _ _ hslot

end Mesh

end Stencil
