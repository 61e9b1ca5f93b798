/-
The bodies of the gradient's passes, unit by unit. Each body is a loop over the levels; the bodies of edges and vertices
reduce a table row on every level. A unit ends without a fault, with the columns of its own element filled.

- `ensures_sum`: a reduction to a sum, from the partial sums over the slots;
- `average_ensures`, `flux_ensures`: the sums over the ends of an edge and over the edges of a vertex;
- `edgeBody_ensures`, `vertexBody_ensures`, `volumeBody_ensures`: what the unit of an element leaves in its columns.
-/
import Mathlib.Tactic
import Stencil.Proofs.Mesh.Cells
import Stencil.Proofs.Mesh.Values

namespace Stencil

namespace Nabla

open Cells (ColumnPair)

variable {ρ : Type}

/-! ## Entries and targets -/

theorem tableEntry_eq {table : Connectivity} {p : Bundle Handle} {q : Nat} {entry : Int32}
    (hi : (p.handle 0).index? = some q) (he : table.data[q]? = some entry) :
    (tableEntry table p : Kernel ρ Int64) = pure entry.toInt64 := by
  rw [tableEntry, Handle.read_eq_ok hi he]
  rfl

theorem ReachesLevel.read_eq {t : Neighbors} {n k : UInt64} {l : Nat} (h : ReachesLevel t n k l) {v : Int32}
    (hv : 0 ≤ v.toInt) (hlt : v.toInt.toNat < n.toNat) {data : Array ρ} {x : ρ}
    (hx : data[v.toInt.toNat * k.toNat + l]? = some x) : (t.element v.toInt64).read data = .ok x := by
  rw [toInt64_of_nonneg hv]
  exact Handle.read_eq_ok (h _ hlt) hx

theorem targetAt_eq {targets : List Neighbors} {t : Neighbors} {l : Nat} (h : targets[l]? = some t) :
    (targetAt targets l : Kernel ρ Neighbors) = pure t := by
  rw [targetAt, h]
  rfl

variable [Scalar ρ] {fields : Bundle View} {handles : List Handle} {s : RunState ρ}

/-! ## Sums over the slots of a row -/

/-- the reduction to a sum over the slots of a row, with the steps of the fields -/
abbrev boundSum (fields : Bundle View) (slot : Dim) (degree : UInt64) (extract : Bundle Handle → Handle → Kernel ρ ρ) :
    BoundFold (Kernel ρ) ρ :=
  ⟨sumFold slot degree extract, fields.map fun v => v.strides.stepOf slot⟩

theorem bind_sumFold (fields : Bundle View) {slot : Dim} (h : ∃ v ∈ fields.members, v.strides.contains slot = true)
    (degree : UInt64) (extract : Bundle Handle → Handle → Kernel ρ ρ) :
    (sumFold slot degree extract).bind fields.strides = .ok (boundSum fields slot degree extract) := by
  rw [NeighborFold.bind, show (sumFold slot degree extract).slot = slot from rfl, Bundle.steps_strides h]
  rfl

theorem bind_loop (fields : Bundle View) {d : Dim} (h : ∃ v ∈ fields.members, v.strides.contains d = true)
    (k : UInt64) :
    (Loop.mk d (.given k)).bind fields.strides = .ok ⟨fields.map fun v => v.strides.stepOf d, .given k⟩ := by
  rw [Loop.bind, Bundle.steps_strides h]
  rfl

theorem leavesOut_sumFold (slot : Dim) (degree : UInt64) (extract : Bundle Handle → Handle → Kernel ρ ρ)
    (entry : Int32) :
    (sumFold slot degree extract).leavesOut entry.toInt64 = decide (entry = Connectivity.skipValue) := by
  simp only [NeighborFold.leavesOut, sumFold, Int32.toInt_toInt64, Bool.true_and]
  rw [Bool.eq_iff_iff, beq_iff_eq, decide_eq_true_iff, Connectivity.toInt_eq_missing_iff]

/-- **A reduction to a sum** gives the last of the partial sums: a slot with the mark keeps the sum, any other adds what
is extracted under its handles. -/
theorem ensures_sum {place : View → Handle} {slot : Dim} {degree : UInt64}
    {extract : Bundle Handle → Handle → Kernel ρ ρ} {select : Bundle Handle → Kernel ρ Int64} {target : Neighbors}
    (upTo : Nat → ρ) (h0 : upTo 0 = Scalar.zero)
    (hslot : ∀ j < degree.toNat, ∀ q,
      q = (fields.map fun v => (place v).shiftBy (v.strides.stepOf slot) (Int64.ofNat j)) →
      ∃ entry : Int32, select q = pure entry.toInt64 ∧
        ((entry = Connectivity.skipValue ∧ upTo (j + 1) = upTo j) ∨ (entry ≠ Connectivity.skipValue ∧
          ∃ x, extract q (target.element entry.toInt64) = pure x ∧ upTo (j + 1) = upTo j + x)))
    {p : Bundle Handle} (hp : p = fields.map place) {Q : ρ → RunState ρ → Prop} (hQ : Q (upTo degree.toNat) s) :
    Kernel.Ensures handles ((boundSum fields slot degree extract).eval p select target) s Q := by
  subst hp
  have hsweep : Kernel.Ensures handles ((boundSum fields slot degree extract).eval (fields.map place) select target) s
      fun r t => r = upTo degree.toNat ∧ s = t := by
    refine Kernel.ensures_sweep (fun j r t => r = upTo j ∧ s = t) ⟨h0.symm, rfl⟩ ?_
    rintro j hj _ _ ⟨rfl, rfl⟩
    obtain ⟨entry, hselect, hentry⟩ := hslot j hj _ rfl
    rw [BoundFold.visit, hselect]
    simp only [pure_bind, TableEntry.widen_int64]
    rw [leavesOut_sumFold]
    rcases hentry with ⟨hskip, hnext⟩ | ⟨hskip, x, hextract, hnext⟩
    · rw [if_pos (decide_eq_true hskip)]
      exact Kernel.ensures_pure ⟨hnext.symm, rfl⟩
    · rw [if_neg (by simpa using hskip)]
      show Kernel.Ensures handles (do return upTo j + (← extract _ (target.element entry.toInt64))) s _
      rw [hextract]
      exact Kernel.ensures_pure ⟨hnext.symm, rfl⟩
  refine hsweep.mono ?_
  rintro _ _ ⟨rfl, rfl⟩
  exact hQ

variable {mesh : Mesh} {input : NablaInputs ρ} {storage : Storage} {table : View} {i : UInt64} {l : Nat}
  {targets : List Neighbors}

theorem read_elements {data : Array ρ} {m : Nat}
    (hm : fields.members[m]? = some (.ofElements .readOnly data.size storage)) (hsize : data.size < 2 ^ 31)
    (hi : i.toNat < data.size) {q : Bundle Handle} (hq : q = fields.map fun v => v.columnHandle .vertical i l) :
    (q.handle m).read data = .ok (entryAt data i.toNat) := by
  have hsigned : data.size ≤ signedMax := hsize.le.trans (by decide)
  have hindex : (q.handle m).index? = some i.toNat := by
    rw [hq, Bundle.handle_map hm]
    exact View.index?_columnHandle_ofElements hsigned (by decide) hi l
  exact Handle.read_eq_ok hindex (getElem?_entryAt hi)

/-! ## Edges -/

/-- the sum of the scalar over the first ends of an edge on a level -/
def endsUpTo (input : NablaInputs ρ) (a : Int32 × Int32) (l : Nat) : Nat → ρ
  | 0 => Scalar.zero
  | 1 => endAt input a.1 l
  | _ => endAt input a.1 l + endAt input a.2 l

/-- the sum over both ends of an edge on a level -/
theorem average_ensures (h : Admissible mesh input) (hadd : ∀ a : ρ, Scalar.zero + a = a)
    (hm : fields.members[0]? = some table)
    (htable : table.Columns .readOnly storage .edgeToVertex (clamp mesh.edgeCount) (clamp mesh.edgeVertices.maxDegree))
    (hi : i < clamp mesh.edgeCount) (hl : l < input.pp.k.toNat) {target : Neighbors}
    (htarget : ReachesLevel target (clamp mesh.vertexCount) input.pp.k l) {p : Bundle Handle}
    (hp : p = fields.map fun v => v.columnHandle .vertical i l) :
    Kernel.Ensures handles ((boundSum fields .edgeToVertex (clamp mesh.edgeVertices.maxDegree) fun _ n =>
      Kernel.lift (n.read input.pp.data)).eval p (tableEntry mesh.edgeVertices) target) s
      fun r t => Scalar.half * r = meanAt mesh input i.toNat l ∧ s = t := by
  have hlt : i.toNat < mesh.edges.length := toNat_lt_of_lt_clamp hi
  obtain ⟨a, ha⟩ : ∃ a, mesh.edges[i.toNat]? = some a := ⟨_, List.getElem?_eq_getElem hlt⟩
  obtain ⟨hdegree, hfirst, hsecond⟩ := h.consistent.edgeEntries _ _ ha
  obtain ⟨hstart, hend⟩ := h.consistent.ends a (List.mem_of_getElem? ha)
  have htwo : (clamp mesh.edgeVertices.maxDegree).toNat = 2 := by rw [hdegree]; rfl
  have hread (v : Int32) (hv : Mesh.isVertex mesh.vertexCount v = true) : v ≠ Connectivity.skipValue ∧
      (Kernel.lift ((target.element v.toInt64).read input.pp.data) : Kernel ρ ρ) = pure (endAt input v l) := by
    obtain ⟨hnonneg, hbelow⟩ := Mesh.isVertex_iff.1 hv
    have hbelow : v.toInt.toNat < mesh.vertexCount := by omega
    have hentry : input.pp.data[v.toInt.toNat * input.pp.k.toNat + l]? = some (endAt input v l) :=
      getElem?_entryAt (by rw [h.pp.size]; exact Field.column_lt hbelow hl)
    refine ⟨fun e => absurd (e ▸ hnonneg) (by decide), ?_⟩
    rw [htarget.read_eq hnonneg (by rwa [h.toNat_vertices]) hentry]
    rfl
  refine ensures_sum (endsUpTo input a l) rfl ?_ hp ⟨?_, rfl⟩
  · rintro j hj q rfl
    rw [htwo] at hj
    have hindex : ((fields.map fun v => (v.columnHandle .vertical i l).shiftBy (v.strides.stepOf .edgeToVertex)
        (Int64.ofNat j)).handle 0).index? = some (i.toNat * 2 + j) := by
      rw [Bundle.handle_map hm, ← htwo]
      exact htable.index?_slot (by decide) (by decide) hi l (htwo ▸ hj)
    -- the first slot holds the start of the edge, the second its end
    rcases (show j = 0 ∨ j = 1 by omega) with rfl | rfl
    · obtain ⟨hne, hlift⟩ := hread a.1 hstart
      exact ⟨a.1, tableEntry_eq hindex hfirst, Or.inr ⟨hne, endAt input a.1 l, hlift, (hadd _).symm⟩⟩
    · obtain ⟨hne, hlift⟩ := hread a.2 hend
      exact ⟨a.2, tableEntry_eq hindex hsecond, Or.inr ⟨hne, endAt input a.2 l, hlift, rfl⟩⟩
  · rw [htwo, meanAt, ha]
    rfl

/-- the fields of the first pass: the table of edge ends, both normals, and both means -/
def edgeFields (input : NablaInputs ρ) (storage : Storage) (table mxx myy : View) : Bundle View :=
  .ofMembers [table, .ofElements .readOnly input.sMxx.size storage, .ofElements .readOnly input.sMyy.size storage,
    mxx, myy]

/-- the unit of an edge fills its columns with the scaled means -/
theorem edgeBody_ensures (h : Admissible mesh input) (hadd : ∀ a : ρ, Scalar.zero + a = a)
    (htable : table.Columns .readOnly storage .edgeToVertex (clamp mesh.edgeCount) (clamp mesh.edgeVertices.maxDegree))
    {mxx myy : View} (hx : mxx.Columns .writable storage .vertical (clamp mesh.edgeCount) input.pp.k)
    (hy : myy.Columns .writable storage .vertical (clamp mesh.edgeCount) input.pp.k)
    (htargets : ReachLevels targets (clamp mesh.vertexCount) input.pp.k) {cells : Cells ρ}
    (hc : ∀ p < mesh.edgeCount * input.pp.k.toNat, (cells.value? 3 p).isSome)
    (hc' : ∀ p < mesh.edgeCount * input.pp.k.toNat, (cells.value? 4 p).isSome)
    (hi : i < clamp mesh.edgeCount) :
    let fields := edgeFields input storage table mxx myy
    Kernel.Ensures (fields.elementOrigin .horizontal i).members
      (edgeBody mesh input ⟨fields.map fun v => v.strides.stepOf .vertical, .given input.pp.k⟩
        (boundSum fields .edgeToVertex (clamp mesh.edgeVertices.maxDegree) fun _ n =>
          Kernel.lift (n.read input.pp.data))
        targets (fields.elementOrigin .horizontal i)) ⟨cells, []⟩ fun _ t =>
      ColumnPair cells t.cells 3 4 (i.toNat * input.pp.k.toNat) input.pp.k.toNat
        (scaledAt input.sMxx mesh input i.toNat) (scaledAt input.sMyy mesh input i.toNat) input.pp.k.toNat := by
  intro fields
  have hmember (m : Nat) {v : View} (hv : [table, .ofElements .readOnly input.sMxx.size storage,
      .ofElements .readOnly input.sMyy.size storage, mxx, myy][m]? = some v) : fields.members[m]? = some v :=
    Bundle.getElem?_ofMembers hv
  have hlt : i.toNat < mesh.edgeCount := toNat_lt_of_lt_clamp hi
  refine Kernel.ensures_counted ?_
  intro l hl s hpair q hq
  obtain ⟨target, htarget, hreaches⟩ := htargets l hl
  have hnormal (m : Nat) {data : Array ρ} (hsize : data.size = mesh.edgeCount)
      (hm : fields.members[m]? = some (.ofElements .readOnly data.size storage)) :
      (Kernel.lift ((q.handle m).read data) : Kernel ρ ρ) = pure (entryAt data i.toNat) := by
    rw [read_elements hm (hsize.trans_lt h.edges) (hsize.symm ▸ hlt) hq]
    rfl
  have hcolumn := Field.column_lt hlt hl
  rw [targetAt_eq htarget, pure_bind]
  refine Kernel.Ensures.bind ((average_ensures h hadd (hmember 0 rfl) htable hi hl hreaches hq).mono ?_)
  rintro r _ ⟨hr, rfl⟩
  rw [hnormal 1 h.sMxx (hmember 1 rfl), hnormal 2 h.sMyy (hmember 2 rfl), pure_bind, pure_bind, hr]
  refine Kernel.Ensures.bind (Kernel.ensures_set_column (hmember 3 rfl) hx hi hl hq ?_)
  refine Kernel.Ensures.bind (Kernel.ensures_set_column (hmember 4 rfl) hy hi hl hq ?_)
  exact Kernel.ensures_pure ⟨rfl, hpair.put (by decide) hl (hc _ hcolumn) (hc' _ hcolumn)⟩

/-! ## Vertices -/

/-- the signed sum over the edges of a vertex on a level -/
theorem flux_ensures (h : Admissible mesh input) {signs : View} (hm : fields.members[0]? = some table)
    (hm' : fields.members[1]? = some signs) (htable : table.Columns .readOnly storage .vertexToEdge
      (clamp mesh.vertexCount) (clamp mesh.vertexEdges.maxDegree))
    (hsigns : signs.Columns .readOnly storage .vertexToEdge (clamp mesh.vertexCount) (clamp mesh.vertexEdges.maxDegree))
    (hi : i < clamp mesh.vertexCount) (hl : l < input.pp.k.toNat) {target : Neighbors}
    (htarget : ReachesLevel target (clamp mesh.edgeCount) input.pp.k l) {p : Bundle Handle}
    (hp : p = fields.map fun v => v.columnHandle .vertical i l) (x : Nat → Nat → ρ) :
    Kernel.Ensures handles ((boundSum fields .vertexToEdge (clamp mesh.vertexEdges.maxDegree)
      (signedValue (mesh.signs.map Scalar.ofInt) (Field.table mesh.edgeCount input.pp.k.toNat x))).eval p
      (tableEntry mesh.vertexEdges) target) s
      fun r t => r = fluxAt mesh x i.toNat l ∧ s = t := by
  have hlt : i.toNat < mesh.vertexCount := toNat_lt_of_lt_clamp hi
  refine ensures_sum (fluxUpTo mesh x i.toNat l) rfl ?_ hp ⟨by rw [h.toNat_degree]; rfl, rfl⟩
  rintro j hj q rfl
  have hindex (m : Nat) {v : View} (hv : fields.members[m]? = some v) (hcols : v.Columns .readOnly storage .vertexToEdge
      (clamp mesh.vertexCount) (clamp mesh.vertexEdges.maxDegree)) :
      ((fields.map fun v => (v.columnHandle .vertical i l).shiftBy (v.strides.stepOf .vertexToEdge)
        (Int64.ofNat j)).handle m).index? = some (i.toNat * mesh.vertexEdges.maxDegree + j) := by
    have hslot := hcols.index?_slot (show Dim.vertical ≠ .horizontal by decide) (by decide) hi l hj
    rw [h.toNat_degree] at hslot
    rw [Bundle.handle_map hv, hslot]
  rw [h.toNat_degree] at hj
  obtain ⟨entry, hentry, hkind⟩ := h.consistent.getElem?_vertexEdges hlt hj
  refine ⟨entry, tableEntry_eq (hindex 0 hm htable) hentry, ?_⟩
  by_cases hskip : entry = Connectivity.skipValue
  · exact Or.inl ⟨hskip, by simp only [fluxUpTo, hentry, hskip, if_true]⟩
  · obtain ⟨e, he, rfl⟩ := hkind.resolve_left hskip
    have hint : (Int32.ofNat e).toInt = e := Int32.toInt_ofNat_of_lt (he.trans h.edges)
    have hnumber : (Int32.ofNat e).toInt.toNat = e := by rw [hint, Int.toNat_natCast]
    let sign : ρ := Scalar.ofInt (mesh.signs[i.toNat * mesh.vertexEdges.maxDegree + j]?.getD 0)
    have hsign : (mesh.signs.map Scalar.ofInt)[i.toNat * mesh.vertexEdges.maxDegree + j]? = some sign := by
      have hsize := Field.column_lt hlt hj
      rw [Array.getElem?_map]
      simp only [sign, Array.getElem?_eq_getElem (h.consistent.signs.symm ▸ hsize), Option.map_some, Option.getD_some]
    have hvalue : (Field.table mesh.edgeCount input.pp.k.toNat x)[(Int32.ofNat e).toInt.toNat * input.pp.k.toNat + l]? =
        some (x (Int32.ofNat e).toInt.toNat l) := Field.getElem?_table x (by rwa [hnumber]) hl
    refine Or.inr ⟨hskip, x (Int32.ofNat e).toInt.toNat l * sign, ?_, ?_⟩
    · rw [signedValue, htarget.read_eq (by omega) (by rwa [hnumber, h.toNat_edges]) hvalue,
        Handle.read_eq_ok (hindex 1 hm' hsigns) hsign]
      rfl
    · simp only [fluxUpTo, hentry, hskip, if_false, sign]

/-- the fields of the second pass: the table of edges, the signs, and both outputs -/
def vertexFields (table signs outMxx outMyy : View) : Bundle View := .ofMembers [table, signs, outMxx, outMyy]

/-- the unit of a vertex fills its columns with the signed sums -/
theorem vertexBody_ensures (h : Admissible mesh input) {signs outMxx outMyy : View}
    (htable : table.Columns .readOnly storage .vertexToEdge (clamp mesh.vertexCount) (clamp mesh.vertexEdges.maxDegree))
    (hsigns : signs.Columns .readOnly storage .vertexToEdge (clamp mesh.vertexCount) (clamp mesh.vertexEdges.maxDegree))
    (hx : outMxx.Columns .writable storage .vertical (clamp mesh.vertexCount) input.pp.k)
    (hy : outMyy.Columns .writable storage .vertical (clamp mesh.vertexCount) input.pp.k) {targets' : List Neighbors}
    (htargets : ReachLevels targets (clamp mesh.edgeCount) input.pp.k)
    (htargets' : ReachLevels targets' (clamp mesh.edgeCount) input.pp.k) (x y : Nat → Nat → ρ) {cells : Cells ρ}
    (hc : ∀ p < mesh.vertexCount * input.pp.k.toNat, (cells.value? 2 p).isSome)
    (hc' : ∀ p < mesh.vertexCount * input.pp.k.toNat, (cells.value? 3 p).isSome)
    (hi : i < clamp mesh.vertexCount) :
    let fields := vertexFields table signs outMxx outMyy
    let sum (x : Nat → Nat → ρ) := boundSum fields .vertexToEdge (clamp mesh.vertexEdges.maxDegree)
      (signedValue (mesh.signs.map Scalar.ofInt) (Field.table mesh.edgeCount input.pp.k.toNat x))
    Kernel.Ensures (fields.elementOrigin .horizontal i).members
      (vertexBody mesh ⟨fields.map fun v => v.strides.stepOf .vertical, .given input.pp.k⟩ (sum x) (sum y) targets
        targets' (fields.elementOrigin .horizontal i)) ⟨cells, []⟩ fun _ t =>
      ColumnPair cells t.cells 2 3 (i.toNat * input.pp.k.toNat) input.pp.k.toNat (fluxAt mesh x i.toNat)
        (fluxAt mesh y i.toNat) input.pp.k.toNat := by
  intro fields sum
  have hmember (m : Nat) {v : View} (hv : [table, signs, outMxx, outMyy][m]? = some v) :
      fields.members[m]? = some v := Bundle.getElem?_ofMembers hv
  have hlt : i.toNat < mesh.vertexCount := toNat_lt_of_lt_clamp hi
  refine Kernel.ensures_counted ?_
  intro l hl s hpair q hq
  obtain ⟨target, htarget, hreaches⟩ := htargets l hl
  obtain ⟨target', htarget', hreaches'⟩ := htargets' l hl
  have hcolumn := Field.column_lt hlt hl
  rw [targetAt_eq htarget, pure_bind]
  refine Kernel.Ensures.bind
    ((flux_ensures h (hmember 0 rfl) (hmember 1 rfl) htable hsigns hi hl hreaches hq x).mono ?_)
  rintro _ _ ⟨rfl, rfl⟩
  refine Kernel.Ensures.bind (Kernel.ensures_set_column (hmember 2 rfl) hx hi hl hq ?_)
  rw [targetAt_eq htarget', pure_bind]
  refine Kernel.Ensures.bind
    ((flux_ensures h (hmember 0 rfl) (hmember 1 rfl) htable hsigns hi hl hreaches' hq y).mono ?_)
  rintro _ _ ⟨rfl, rfl⟩
  refine Kernel.Ensures.bind (Kernel.ensures_set_column (hmember 3 rfl) hy hi hl hq ?_)
  exact Kernel.ensures_pure ⟨rfl, hpair.put (by decide) hl (hc _ hcolumn) (hc' _ hcolumn)⟩

/-! ## Volumes -/

/-- the fields of the third pass: the volumes and both outputs -/
def volumeFields (input : NablaInputs ρ) (storage : Storage) (outMxx outMyy : View) : Bundle View :=
  .ofMembers [.ofElements .readOnly input.vol.size storage, outMxx, outMyy]

/-- the unit of a vertex divides its columns by the volume -/
theorem volumeBody_ensures (h : Admissible mesh input) {outMxx outMyy : View}
    (hx : outMxx.Columns .writable storage .vertical (clamp mesh.vertexCount) input.pp.k)
    (hy : outMyy.Columns .writable storage .vertical (clamp mesh.vertexCount) input.pp.k) {x y : Nat → Nat → ρ}
    {cells : Cells ρ} (hc : cells[1]? = some (Field.table mesh.vertexCount input.pp.k.toNat x))
    (hc' : cells[2]? = some (Field.table mesh.vertexCount input.pp.k.toNat y)) (hi : i < clamp mesh.vertexCount) :
    let fields := volumeFields input storage outMxx outMyy
    Kernel.Ensures (fields.elementOrigin .horizontal i).members
      (volumeBody input.vol ⟨fields.map fun v => v.strides.stepOf .vertical, .given input.pp.k⟩
        (fields.elementOrigin .horizontal i)) ⟨cells, []⟩ fun _ t =>
      ColumnPair cells t.cells 1 2 (i.toNat * input.pp.k.toNat) input.pp.k.toNat
        (fun l => x i.toNat l / entryAt input.vol i.toNat) (fun l => y i.toNat l / entryAt input.vol i.toNat)
        input.pp.k.toNat := by
  intro fields
  have hmember (m : Nat) {v : View} (hv : [.ofElements .readOnly input.vol.size storage, outMxx, outMyy][m]? = some v) :
      fields.members[m]? = some v := Bundle.getElem?_ofMembers hv
  have hlt : i.toNat < mesh.vertexCount := toNat_lt_of_lt_clamp hi
  let k := input.pp.k.toNat
  let vol := entryAt input.vol i.toNat
  refine Kernel.ensures_column (fun l _ s => ColumnPair cells s.cells 1 2 (i.toNat * k) k
    (fun l => x i.toNat l / vol) (fun l => y i.toNat l / vol) l) (.start ..) ?_
  intro l hl _ s hpair q hq
  -- no unit has touched this entry yet: it still holds the sum that the second pass left
  have hbefore {m : Nat} {g : Nat → Nat → ρ} (hm : cells[m]? = some (Field.table mesh.vertexCount k g)) :
      cells.value? m (i.toNat * k + l) = some (g i.toNat l) := by
    rw [Cells.value?, hm, Option.bind_some, Field.getElem?_table g hlt hl]
  have hx' : s.cells.value? 1 (i.toNat * k + l) = some (x i.toNat l) :=
    (hpair.first.kept l le_rfl hl).trans (hbefore hc)
  have hy' : (s.cells.put 1 (i.toNat * k + l) (x i.toNat l / vol)).value? 2 (i.toNat * k + l) = some (y i.toNat l) := by
    rw [Cells.value?_put, if_neg (by omega), hpair.second.kept l le_rfl hl, hbefore hc']
  have hread : (q.handle 0).read input.vol = .ok vol :=
    read_elements (hmember 0 rfl) (h.vol.trans_lt h.vertices) (h.vol.symm ▸ hlt) hq
  refine Kernel.Ensures.bind (Kernel.ensures_lift hread ?_)
  refine Kernel.Ensures.bind (Kernel.ensures_update_column (hmember 1 rfl) hx hi hl hq hx' ?_)
  refine Kernel.ensures_update_column (hmember 2 rfl) hy hi hl hq hy' ?_
  exact hpair.put (by decide) hl (by rw [hbefore hc]; rfl) (by rw [hbefore hc']; rfl)

end Nabla

end Stencil
