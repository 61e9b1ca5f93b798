/-
The tables of a mesh. A mesh that is made from edges has only vertex numbers at the ends of its edges, and only edge
numbers or marks of missing neighbours in the rows of its vertices.

- `getElem?_ofRows`: where a table holds the entries of its rows;
- `validate_eq_ok_iff`: a table passes validation exactly when all its entries are admitted;
- `row_eq_ok`: a row of a table is the list of its entries;
- `EdgesBelow.enterEdges`: the rows of incidences name edges that were entered, by induction over the edges;
- `ofEdges_eq_ok`, `ofEdges_consistent`: what a mesh made from edges is, and what it satisfies;
- `Consistent.validate_edgeVertices`, `Consistent.validate_vertexEdges`: its tables pass validation.
-/
import Mathlib.Tactic
import Stencil.Mesh.Basic

namespace Stencil

theorem exists_of_bind_eq_ok {ε α β : Type} {x : Except ε α} {next : α → Except ε β} {b : β}
    (h : x >>= next = .ok b) : ∃ a, x = .ok a ∧ next a = .ok b := by
  cases x with
  | error e => cases h
  | ok a => exact ⟨a, rfl, h⟩

/-! ## Rows of a table -/

theorem getElem?_flatten_of_length {α : Type} {d : Nat} {l : List (List α)} (h : ∀ r ∈ l, r.length = d) {i j : Nat}
    (hj : j < d) : l.flatten[i * d + j]? = (l[i]?).bind fun r => r[j]? := by
  induction l generalizing i with
  | nil => simp
  | cons r l ih =>
    have hr : r.length = d := h r List.mem_cons_self
    have hl : ∀ r ∈ l, r.length = d := fun q hq => h q (List.mem_cons_of_mem r hq)
    rw [List.flatten_cons]
    cases i with
    | zero =>
      rw [Nat.zero_mul, Nat.zero_add, List.getElem?_append_left (by omega)]
      rfl
    | succ i =>
      have hle : d ≤ (i + 1) * d + j := by
        rw [Nat.succ_mul]
        omega
      have hsub : (i + 1) * d + j - d = i * d + j := by
        rw [Nat.succ_mul]
        omega
      rw [List.getElem?_append_right (by omega), hr, hsub, ih hl, List.getElem?_cons_succ]

namespace Connectivity

theorem longest_le {rows : List (List Int32)} {d : Nat} (h : ∀ row ∈ rows, row.length ≤ d) : longest rows ≤ d := by
  have hfold : ∀ n ≤ d, rows.foldl (fun n row => max n row.length) n ≤ d := by
    induction rows with
    | nil => exact fun n hn => hn
    | cons row rows ih =>
      intro n hn
      exact ih (fun r hr => h r (List.mem_cons_of_mem row hr)) _ (max_le hn (h row List.mem_cons_self))
  exact hfold 0 (Nat.zero_le d)

/-- a table holds the entries of a row after those of the rows before it -/
theorem getElem?_ofRows (rows : List (List Int32)) {i j : Nat} (hj : j < (ofRows rows).maxDegree) :
    (ofRows rows).data[i * (ofRows rows).maxDegree + j]? =
      (rows[i]?).bind fun row => (padded (ofRows rows).maxDegree row)[j]? := by
  have hpadded : ∀ r ∈ rows.map (padded (longest rows)), r.length = longest rows := by
    intro r hr
    obtain ⟨row, hrow, rfl⟩ := List.mem_map.1 hr
    exact length_padded (length_le_longest hrow)
  simp only [ofRows] at hj ⊢
  rw [List.getElem?_toArray, getElem?_flatten_of_length hpadded hj, List.getElem?_map]
  cases rows[i]? <;> rfl

theorem collect_eq_ok {rows : List (List Int32)} {t : Connectivity} (h : collect rows = .ok t) : t = ofRows rows := by
  unfold collect at h
  split at h
  · cases h
  · obtain ⟨-, -, h⟩ := exists_of_bind_eq_ok h
    exact (Except.ok.inj h).symm

theorem collect_of_room {rows : List (List Int32)} (hbytes : rows.length * longest rows * entryBytes ≤ signedMax) :
    collect rows = .ok (ofRows rows) := by
  have hword : rows.length * longest rows ≤ wordMax := by
    simp only [entryBytes, signedMax, wordMax] at hbytes ⊢
    omega
  have hfits := fits_eq_some.2 ⟨hword, rfl⟩
  simp only [collect, hfits, Buffer.reserve, hbytes, if_true, bind, Except.bind, pure, Except.pure]

theorem collect_of_no_room {rows : List (List Int32)} (hword : rows.length * longest rows ≤ wordMax)
    (hbytes : signedMax < rows.length * longest rows * entryBytes) : collect rows = .error .capacity := by
  have hfits := fits_eq_some.2 ⟨hword, rfl⟩
  simp only [collect, hfits, Buffer.reserve, Nat.not_le.2 hbytes, if_false, bind, Except.bind]

theorem mem_ofRows {rows : List (List Int32)} {v : Int32} (h : v ∈ (ofRows rows).data.toList) :
    v = skipValue ∨ ∃ row ∈ rows, v ∈ row := by
  simp only [ofRows, List.mem_flatten, List.mem_map] at h
  obtain ⟨_, ⟨row, hrow, rfl⟩, hv⟩ := h
  rcases List.mem_append.1 hv with hv | hv
  · exact Or.inr ⟨row, hrow, hv⟩
  · exact Or.inl (List.eq_of_mem_replicate hv)

theorem toInt_eq_missing_iff {v : Int32} : v.toInt = missingNeighbor ↔ v = skipValue := by
  rw [← Int32.toInt_inj, show skipValue.toInt = missingNeighbor from rfl]

theorem firstOffender_eq_none_iff {count : UInt64} {l : List Int32} {i : Nat} :
    firstOffender count l i = none ↔ ∀ v ∈ l, admits count v = true := by
  induction l generalizing i with
  | nil => simp [firstOffender]
  | cons v l ih =>
    rw [firstOffender, List.forall_mem_cons]
    by_cases hv : admits count v = true
    · rw [if_pos hv, ih]
      simp [hv]
    · simp [hv]

/-- a table passes validation exactly when all its entries are admitted -/
theorem validate_eq_ok_iff {t : Connectivity} {count : UInt64} :
    t.validate count = .ok () ↔ ∀ v ∈ t.data.toList, admits count v = true := by
  rw [← firstOffender_eq_none_iff (i := 0), validate]
  cases firstOffender count t.data.toList 0 <;> simp

/-- the entry at a slot of a row -/
def entry (t : Connectivity) (row slot : Nat) : Int32 := (t.data[row * t.maxDegree + slot]?).getD skipValue

variable {t : Connectivity} {row slot : Nat}

theorem getElem?_entry (hrow : row < t.rows) (hslot : slot < t.maxDegree) :
    t.data[row * t.maxDegree + slot]? = some (t.entry row slot) := by
  have hlt : row * t.maxDegree + slot < t.data.size := by
    have hnext := Nat.mul_le_mul_right t.maxDegree (Nat.succ_le_of_lt hrow)
    rw [Nat.succ_mul] at hnext
    rw [t.size_eq]
    omega
  unfold entry
  rw [Array.getElem?_eq_getElem hlt, Option.getD_some]

/-- a row of a table is the list of its entries, slot by slot -/
theorem row_eq_ok (hsize : t.data.size ≤ wordMax) (hrows : t.rows ≤ wordMax) (hrow : row < t.rows) :
    t.row row = .ok ((List.range t.maxDegree).map (t.entry row)) := by
  have hle : (row + 1) * t.maxDegree ≤ t.rows * t.maxDegree := Nat.mul_le_mul_right _ hrow
  have hnext : (row + 1) * t.maxDegree = row * t.maxDegree + t.maxDegree := Nat.succ_mul row _
  have hsize' := t.size_eq
  have hstart : fits (row * t.maxDegree) = some (row * t.maxDegree) := fits_eq_some.2 ⟨by omega, rfl⟩
  have hstop : fits ((row + 1) * t.maxDegree) = some ((row + 1) * t.maxDegree) := fits_eq_some.2 ⟨by omega, rfl⟩
  have hfits : fits (row + 1) = some (row + 1) := fits_eq_some.2 ⟨by omega, rfl⟩
  have hin : (row + 1) * t.maxDegree ≤ t.data.size := by omega
  have hslots : (t.data.extract (row * t.maxDegree) ((row + 1) * t.maxDegree)).toList =
      (List.range t.maxDegree).map (t.entry row) := by
    apply List.ext_getElem?
    intro slot
    by_cases hslot : slot < t.maxDegree
    · rw [Array.getElem?_toList, Array.getElem?_extract, if_pos (by omega), getElem?_entry hrow hslot,
        List.getElem?_map, List.getElem?_range hslot, Option.map_some]
    · rw [List.getElem?_eq_none, List.getElem?_eq_none]
      · simpa using hslot
      · rw [Array.length_toList, Array.size_extract]
        omega
  simp only [Connectivity.row, rowStart, hstart, hstop, hfits, hin, if_true, bind, Except.bind, pure, Except.pure,
    hslots]

end Connectivity

namespace Mesh

/-! ## Entering edges -/

theorem isVertex_iff {n : Nat} {v : Int32} : isVertex n v = true ↔ 0 ≤ v.toInt ∧ v.toInt < n := by
  simp [isVertex]

theorem checkEdges_eq_ok {n e : Nat} {edges : List (Int32 × Int32)} (h : checkEdges n e edges = .ok ()) :
    ∀ a ∈ edges, isVertex n a.1 = true ∧ isVertex n a.2 = true := by
  induction edges generalizing e with
  | nil => exact fun a ha => absurd ha List.not_mem_nil
  | cons a edges ih =>
    obtain ⟨a, b⟩ := a
    rw [checkEdges] at h
    by_cases ha : isVertex n a = true
    · by_cases hb : isVertex n b = true
      · simp only [ha, hb, if_true] at h
        exact List.forall_mem_cons.2 ⟨⟨ha, hb⟩, ih h⟩
      · simp only [ha, hb, if_true] at h
        cases h
    · simp only [ha] at h
      cases h

theorem checkEdges_of_ends {n e : Nat} {edges : List (Int32 × Int32)}
    (h : ∀ a ∈ edges, isVertex n a.1 = true ∧ isVertex n a.2 = true) : checkEdges n e edges = .ok () := by
  induction edges generalizing e with
  | nil => rfl
  | cons a edges ih =>
    obtain ⟨⟨ha, hb⟩, hrest⟩ := List.forall_mem_cons.1 h
    simp only [checkEdges, ha, hb, if_true, bind, Except.bind]
    exact ih hrest

/-- the rows hold at most `bound` incidences each, all of edges with a number below `count` -/
def EdgesBelow (count bound : Nat) (table : Array (List Incidence)) : Prop :=
  ∀ row ∈ table.toList, row.length ≤ bound ∧ ∀ i ∈ row, ∃ e < count, i.edge = Int32.ofNat e

theorem EdgesBelow.addIncidence {count bound : Nat} {table : Array (List Incidence)} (h : EdgesBelow count bound table)
    {e : Nat} (he : e < count) (v : Int32) (sign : Int) :
    EdgesBelow count (bound + 1) (addIncidence table v ⟨Int32.ofNat e, sign⟩) := by
  intro row hrow
  obtain ⟨n, hn⟩ := List.mem_iff_getElem?.1 hrow
  rw [Array.getElem?_toList, Mesh.addIncidence, Array.getElem?_modify] at hn
  split at hn
  · obtain ⟨old, hold, rfl⟩ := Option.map_eq_some_iff.1 hn
    obtain ⟨hlen, hedges⟩ := h old (List.mem_iff_getElem?.2 ⟨n, by rwa [Array.getElem?_toList]⟩)
    refine ⟨by simp [hlen], ?_⟩
    intro i hi
    rcases List.mem_append.1 hi with hi | hi
    · exact hedges i hi
    · rw [List.mem_singleton.1 hi]
      exact ⟨e, he, rfl⟩
  · obtain ⟨hlen, hedges⟩ := h row (List.mem_iff_getElem?.2 ⟨n, by rwa [Array.getElem?_toList]⟩)
    exact ⟨by omega, hedges⟩

/-- entering edges adds at most two incidences to a row for each, and names no other edges -/
theorem EdgesBelow.enterEdges {count bound : Nat} {table : Array (List Incidence)} (h : EdgesBelow count bound table)
    {e : Nat} {edges : List (Int32 × Int32)} (hcount : e + edges.length ≤ count) :
    EdgesBelow count (bound + 2 * edges.length) (enterEdges table e edges) := by
  induction edges generalizing e bound table with
  | nil => exact h
  | cons a edges ih =>
    obtain ⟨a, b⟩ := a
    rw [List.length_cons] at hcount ⊢
    have he : e < count := by omega
    have := ih ((h.addIncidence he a 1).addIncidence he b (-1)) (e := e + 1) (by omega)
    rw [show bound + 2 * (edges.length + 1) = bound + 1 + 1 + 2 * edges.length by ring]
    exact this

theorem size_enterEdges (table : Array (List Incidence)) (e : Nat) (edges : List (Int32 × Int32)) :
    (enterEdges table e edges).size = table.size := by
  induction edges generalizing table e with
  | nil => rfl
  | cons a edges ih => rw [enterEdges, ih, addIncidence, addIncidence, Array.size_modify, Array.size_modify]

theorem length_incidences (n : Nat) (edges : List (Int32 × Int32)) : (incidences n edges).length = n := by
  rw [incidences, Array.length_toList, size_enterEdges, Array.size_replicate]

/-- the incidences of a mesh: each row has at most two for each edge, all of edges of the mesh -/
theorem edgesBelow_incidences (n : Nat) (edges : List (Int32 × Int32)) {row : List Incidence}
    (h : row ∈ incidences n edges) :
    row.length ≤ 2 * edges.length ∧ ∀ i ∈ row, ∃ e < edges.length, i.edge = Int32.ofNat e := by
  have hempty : EdgesBelow edges.length 0 (Array.replicate n []) := by
    intro row hrow
    rw [Array.toList_replicate] at hrow
    rw [List.eq_of_mem_replicate hrow]
    exact ⟨le_rfl, fun i hi => absurd hi List.not_mem_nil⟩
  have := hempty.enterEdges (show 0 + edges.length ≤ edges.length by omega) row h
  rwa [Nat.zero_add] at this

/-! ## Meshes made from edges -/

/-- the tables of a mesh belong to its edges -/
structure Consistent (mesh : Mesh) : Prop where
  ends : ∀ a ∈ mesh.edges, isVertex mesh.vertexCount a.1 = true ∧ isVertex mesh.vertexCount a.2 = true
  edgeRows : mesh.edgeVertices.rows = mesh.edgeCount
  edgeDegree : mesh.edgeVertices.maxDegree ≤ 2
  edgeEntries : ∀ e a, mesh.edges[e]? = some a → mesh.edgeVertices.maxDegree = 2 ∧
    mesh.edgeVertices.data[e * 2]? = some a.1 ∧ mesh.edgeVertices.data[e * 2 + 1]? = some a.2
  edgeNumbers : ∀ v ∈ mesh.edgeVertices.data.toList, v = Connectivity.skipValue ∨ isVertex mesh.vertexCount v = true
  vertexRows : mesh.vertexEdges.rows = mesh.vertexCount
  vertexDegree : mesh.vertexEdges.maxDegree ≤ 2 * mesh.edgeCount
  vertexNumbers : ∀ v ∈ mesh.vertexEdges.data.toList, v = Connectivity.skipValue ∨
    ∃ e < mesh.edgeCount, v = Int32.ofNat e
  signs : mesh.signs.size = mesh.vertexCount * mesh.vertexEdges.maxDegree

theorem longest_edgeRows_le (edges : List (Int32 × Int32)) :
    Connectivity.longest (edges.map fun (a, b) => [a, b]) ≤ 2 := by
  apply Connectivity.longest_le
  intro row hrow
  obtain ⟨⟨a, b⟩, -, rfl⟩ := List.mem_map.1 hrow
  exact le_rfl

theorem getElem?_edgeRows {edges : List (Int32 × Int32)} {e : Nat} {a : Int32 × Int32} (h : edges[e]? = some a) :
    let table := Connectivity.ofRows (edges.map fun (a, b) => [a, b])
    table.maxDegree = 2 ∧ table.data[e * 2]? = some a.1 ∧ table.data[e * 2 + 1]? = some a.2 := by
  intro table
  have hrow : (edges.map fun (a, b) => [a, b])[e]? = some [a.1, a.2] := by rw [List.getElem?_map, h]; rfl
  have hdegree : table.maxDegree = 2 := by
    apply Nat.le_antisymm
    · exact longest_edgeRows_le edges
    · exact Connectivity.length_le_longest (List.mem_of_getElem? hrow)
  have hget (j : Nat) (hj : j < table.maxDegree) : table.data[e * table.maxDegree + j]? = [a.1, a.2][j]? := by
    rw [Connectivity.getElem?_ofRows _ hj, hrow, Option.bind_some]
    simp [table, hdegree, Connectivity.padded]
  rw [hdegree] at hget
  exact ⟨hdegree, hget 0 (by omega), hget 1 (by omega)⟩

theorem length_paddedSigns {d : Nat} {row : List Incidence} (h : row.length ≤ d) : (paddedSigns d row).length = d := by
  simp only [paddedSigns, List.length_append, List.length_map, List.length_replicate]
  omega

theorem length_flatMap_paddedSigns {d : Nat} {rows : List (List Incidence)} (h : ∀ row ∈ rows, row.length ≤ d) :
    (rows.flatMap (paddedSigns d)).length = rows.length * d := by
  induction rows with
  | nil => simp
  | cons row rows ih =>
    have hrow : (paddedSigns d row).length = d := length_paddedSigns (h row List.mem_cons_self)
    rw [List.flatMap_cons, List.length_append, hrow, ih fun r hr => h r (List.mem_cons_of_mem row hr), List.length_cons,
      Nat.succ_mul, Nat.add_comm]

/-- the table of the edges at every vertex -/
def vertexTable (n : Nat) (edges : List (Int32 × Int32)) : Connectivity :=
  .ofRows ((incidences n edges).map fun row => row.map Incidence.edge)

/-- what a mesh made from edges is -/
theorem ofEdges_eq_ok {n : Nat} {edges : List (Int32 × Int32)} {mesh : Mesh} (h : ofEdges n edges = .ok mesh) :
    checkEdges n 0 edges = .ok () ∧
      mesh = {
        vertexCount := n
        edges
        edgeVertices := .ofRows (edges.map fun (a, b) => [a, b])
        vertexEdges := vertexTable n edges
        signs := ((incidences n edges).flatMap (paddedSigns (vertexTable n edges).maxDegree)).toArray } := by
  obtain ⟨-, -, h⟩ := exists_of_bind_eq_ok h
  obtain ⟨_, hcheck, h⟩ := exists_of_bind_eq_ok h
  obtain ⟨vertexEdges, hvertexEdges, h⟩ := exists_of_bind_eq_ok h
  obtain ⟨-, -, h⟩ := exists_of_bind_eq_ok h
  obtain ⟨-, -, h⟩ := exists_of_bind_eq_ok h
  obtain ⟨edgeVertices, hedgeVertices, h⟩ := exists_of_bind_eq_ok h
  obtain rfl := Connectivity.collect_eq_ok hvertexEdges
  obtain rfl := Connectivity.collect_eq_ok hedgeVertices
  exact ⟨hcheck, (Except.ok.inj h).symm⟩

section room

variable {n : Nat} {edges : List (Int32 × Int32)}

theorem length_vertexRows (n : Nat) (edges : List (Int32 × Int32)) :
    ((incidences n edges).map fun row => row.map Incidence.edge).length = n := by
  rw [List.length_map, length_incidences]

theorem collect_vertexRows (htable : n * (vertexTable n edges).maxDegree * Connectivity.entryBytes ≤ signedMax) :
    Connectivity.collect ((incidences n edges).map fun row => row.map Incidence.edge) = .ok (vertexTable n edges) := by
  apply Connectivity.collect_of_room
  rwa [length_vertexRows]

theorem collect_edgeRows (hedges : edges.length * edgeBytes ≤ signedMax) :
    Connectivity.collect (edges.map fun (a, b) => [a, b]) = .ok (.ofRows (edges.map fun (a, b) => [a, b])) := by
  apply Connectivity.collect_of_room
  rw [List.length_map, Nat.mul_assoc]
  exact (Nat.mul_le_mul_left _ (Nat.mul_le_mul_right _ (longest_edgeRows_le edges))).trans hedges

variable (hvertices : n * incidenceListBytes ≤ signedMax)
  (hends : ∀ a ∈ edges, isVertex n a.1 = true ∧ isVertex n a.2 = true)

include hvertices hends

/-- edges between vertices make a mesh where there is room for the vertices, the edges, and the signs, which take more
than the table they belong to -/
theorem exists_ofEdges (hedges : edges.length * edgeBytes ≤ signedMax)
    (hsigns : n * (vertexTable n edges).maxDegree * signBytes ≤ signedMax) : ∃ mesh, ofEdges n edges = .ok mesh := by
  have hvertexEdges := collect_vertexRows ((Nat.mul_le_mul_left _ (by decide)).trans hsigns)
  simp only [ofEdges, hvertexEdges, collect_edgeRows hedges, Buffer.reserve, hvertices, hsigns, hedges, if_true,
    checkEdges_of_ends hends, bind, Except.bind, pure, Except.pure]
  exact ⟨_, rfl⟩

/-- without room for the signs there is no mesh -/
theorem ofEdges_of_no_room (hword : n * (vertexTable n edges).maxDegree ≤ wordMax)
    (hsigns : signedMax < n * (vertexTable n edges).maxDegree * signBytes) : ofEdges n edges = .error .capacity := by
  -- there may be no room for the table, which is asked for first
  by_cases htable : n * (vertexTable n edges).maxDegree * Connectivity.entryBytes ≤ signedMax
  · simp only [ofEdges, collect_vertexRows htable, Buffer.reserve, hvertices, Nat.not_le.2 hsigns, if_true, if_false,
      checkEdges_of_ends hends, bind, Except.bind]
  · have hrefused : Connectivity.collect ((incidences n edges).map fun row => row.map Incidence.edge) =
        .error .capacity := by
      apply Connectivity.collect_of_no_room
      · rwa [length_vertexRows]
      · rw [length_vertexRows]
        exact Nat.not_le.1 htable
    simp only [ofEdges, hrefused, Buffer.reserve, hvertices, if_true, checkEdges_of_ends hends, bind, Except.bind]

end room

theorem sign_eq_ok {mesh : Mesh} {v slot : Nat} {s : Int} (hword : v * mesh.vertexEdges.maxDegree + slot ≤ wordMax)
    (hs : mesh.signs[v * mesh.vertexEdges.maxDegree + slot]? = some s) : mesh.sign v slot = .ok s := by
  have hstart : fits (v * mesh.vertexEdges.maxDegree) = some (v * mesh.vertexEdges.maxDegree) :=
    fits_eq_some.2 ⟨by omega, rfl⟩
  have hplace : fits (v * mesh.vertexEdges.maxDegree + slot) = some (v * mesh.vertexEdges.maxDegree + slot) :=
    fits_eq_some.2 ⟨hword, rfl⟩
  simp only [sign, Connectivity.rowStart, hstart, hplace, hs, bind, Except.bind, pure, Except.pure]

theorem length_le_vertexTable {n : Nat} {edges : List (Int32 × Int32)} {row : List Incidence}
    (hrow : row ∈ incidences n edges) : row.length ≤ (vertexTable n edges).maxDegree := by
  have hle := Connectivity.length_le_longest (List.mem_map_of_mem (f := fun row => row.map Incidence.edge) hrow)
  rwa [List.length_map] at hle

theorem maxDegree_vertexTable_le (n : Nat) (edges : List (Int32 × Int32)) :
    (vertexTable n edges).maxDegree ≤ 2 * edges.length := by
  apply Connectivity.longest_le
  intro row hrow
  obtain ⟨incident, hmem, rfl⟩ := List.mem_map.1 hrow
  rw [List.length_map]
  exact (edgesBelow_incidences n edges hmem).1

/-- **A mesh made from edges** has consistent tables. -/
theorem ofEdges_consistent {n : Nat} {edges : List (Int32 × Int32)} {mesh : Mesh} (h : ofEdges n edges = .ok mesh) :
    mesh.vertexCount = n ∧ mesh.edges = edges ∧ mesh.Consistent := by
  obtain ⟨hcheck, rfl⟩ := ofEdges_eq_ok h
  have hvalid := checkEdges_eq_ok hcheck
  refine ⟨rfl, rfl, hvalid, ?_, ?_, fun e a ha => getElem?_edgeRows ha, ?_, ?_, ?_, ?_, ?_⟩
  · exact List.length_map _
  · exact longest_edgeRows_le edges
  · intro v hv
    refine (Connectivity.mem_ofRows hv).imp id ?_
    rintro ⟨row, hrow, hv⟩
    obtain ⟨⟨a, b⟩, hab, rfl⟩ := List.mem_map.1 hrow
    rcases List.mem_cons.1 hv with rfl | hv
    · exact (hvalid _ hab).1
    · exact List.mem_singleton.1 hv ▸ (hvalid _ hab).2
  · exact length_vertexRows n edges
  · exact maxDegree_vertexTable_le n edges
  · intro v hv
    refine (Connectivity.mem_ofRows hv).imp id ?_
    rintro ⟨row, hrow, hv⟩
    obtain ⟨incident, hmem, rfl⟩ := List.mem_map.1 hrow
    obtain ⟨i, hi, rfl⟩ := List.mem_map.1 hv
    exact (edgesBelow_incidences n edges hmem).2 i hi
  · exact (length_flatMap_paddedSigns fun _ => length_le_vertexTable).trans (by rw [length_incidences])

namespace Consistent

variable {mesh : Mesh}

theorem validate_edgeVertices (h : mesh.Consistent) (hn : mesh.vertexCount ≤ wordMax) :
    mesh.edgeVertices.validate (clamp mesh.vertexCount) = .ok () := by
  rw [Connectivity.validate_eq_ok_iff]
  intro v hv
  rcases h.edgeNumbers v hv with rfl | hv
  · rfl
  · rw [isVertex_iff] at hv
    simp [Connectivity.admits, toNat_clamp_of_le hn, hv]

theorem validate_vertexEdges (h : mesh.Consistent) (he : mesh.edgeCount < 2 ^ 31) :
    mesh.vertexEdges.validate (clamp mesh.edgeCount) = .ok () := by
  rw [Connectivity.validate_eq_ok_iff]
  intro v hv
  rcases h.vertexNumbers v hv with rfl | ⟨e, hlt, rfl⟩
  · rfl
  · have hint : (Int32.ofNat e).toInt = e := Int32.toInt_ofNat_of_lt (by omega)
    have hword : mesh.edgeCount ≤ wordMax := by simp only [wordMax]; omega
    simp [Connectivity.admits, toNat_clamp_of_le hword, hint, hlt]

theorem getElem?_vertexEdges (h : mesh.Consistent) {v slot : Nat} (hv : v < mesh.vertexCount)
    (hslot : slot < mesh.vertexEdges.maxDegree) :
    ∃ entry, mesh.vertexEdges.data[v * mesh.vertexEdges.maxDegree + slot]? = some entry ∧
      (entry = Connectivity.skipValue ∨ ∃ e < mesh.edgeCount, entry = Int32.ofNat e) := by
  have hlt : v * mesh.vertexEdges.maxDegree + slot < mesh.vertexEdges.data.size := by
    rw [mesh.vertexEdges.size_eq, h.vertexRows]
    nlinarith
  exact ⟨_, Array.getElem?_eq_getElem hlt, h.vertexNumbers _ (Array.getElem_mem_toList hlt)⟩

end Consistent

end Mesh

end Stencil
