/-
Sums around vertices. One pass adds up, for each vertex, the values of the edges in its row. What is added follows the
slots of a padded table; what comes out is a sum over the edges, each counted with its ends at the vertex, so that over
all vertices every value is counted twice.

- `sum_ends`: an edge between vertices has two ends in all;
- `around_eq_sum`: the sum over the slots of a vertex is one over the edges;
- `body_ensures`: what the unit of a vertex leaves;
- `vertexSum_sums`: what a run leaves in the output, or why it is refused.
-/
import Mathlib.Tactic
import Stencil.Mesh.VertexSum
import Stencil.Proofs.Mesh.Bodies
import Stencil.Proofs.Mesh.Incidence

namespace Stencil

namespace Mesh

/-! ## Ends of edges -/

/-- how many ends of an edge are at a vertex: two of a loop there -/
def endsOf (a : Int32 × Int32) (v : Nat) : Rat := (if a.1.toInt = v then 1 else 0) + if a.2.toInt = v then 1 else 0

/-- an edge between vertices has two ends in all -/
theorem sum_ends {n : Nat} {a : Int32 × Int32} (ha : isVertex n a.1 = true ∧ isVertex n a.2 = true) :
    ∑ v ∈ Finset.range n, endsOf a v = 2 := by
  have hone {w : Int32} (hw : isVertex n w = true) :
      (∑ v ∈ Finset.range n, if w.toInt = v then (1 : Rat) else 0) = 1 := by
    obtain ⟨hnonneg, hlt⟩ := isVertex_iff.1 hw
    have hsame (v : Nat) : w.toInt = v ↔ w.toInt.toNat = v := by omega
    simp only [hsame]
    rw [Finset.sum_ite_eq, if_pos (Finset.mem_range.2 (by omega))]
  calc ∑ v ∈ Finset.range n, endsOf a v
      = (∑ v ∈ Finset.range n, if a.1.toInt = v then (1 : Rat) else 0) +
          ∑ v ∈ Finset.range n, if a.2.toInt = v then (1 : Rat) else 0 := Finset.sum_add_distrib
    _ = 2 := by rw [hone ha.1, hone ha.2, one_add_one_eq_two]

end Mesh

namespace VertexSum

open Nabla (boundSum entryAt)

variable {n : Nat} {edges : List (Int32 × Int32)} {mesh : Mesh} {values out : Array Rat}

/-! ## The sum over the slots of a vertex -/

/-- the sum of the values of the first incidences of a vertex -/
def around (edges : List (Int32 × Int32)) (values : Array Rat) (v slot : Nat) : Rat :=
  (((Mesh.incident edges v).take slot).map fun i => entryAt values i.edge.toInt.toNat).sum

theorem around_succ (v slot : Nat) : around edges values v (slot + 1) = around edges values v slot +
    ((Mesh.incident edges v)[slot]?.map fun i => entryAt values i.edge.toInt.toNat).getD 0 := by
  rw [around, around, List.take_add_one, List.map_append, List.sum_append]
  cases (Mesh.incident edges v)[slot]? <;> simp

theorem sum_endsOf {e : Nat} (he : e < 2 ^ 31) (a : Int32 × Int32) (v : Nat) :
    ((Mesh.incidencesOf v (a, e)).map fun i => entryAt values i.edge.toInt.toNat).sum =
      Mesh.endsOf a v * entryAt values e := by
  rw [Mesh.sum_incidencesOf, Mesh.toNat_edgeNumber he, Mesh.endsOf, add_mul, ite_mul, ite_mul, one_mul, zero_mul]

/-- **The sum over the slots of a vertex** counts every edge with its ends there. -/
theorem around_eq_sum (hmesh : Mesh.ofEdges n edges = .ok mesh) (he : edges.length ≤ 2 ^ 31) {v : Nat} (hv : v < n) :
    around edges values v mesh.vertexEdges.maxDegree =
      ∑ e : Fin edges.length, Mesh.endsOf (edges.get e) v * entryAt values e := by
  rw [around, List.take_of_length_le (Mesh.length_incident_le hmesh hv), Mesh.sum_incident]
  exact Finset.sum_congr rfl fun e _ => sum_endsOf (by omega) _ v

/-! ## Units -/

variable {storage : Storage} {table : View} {i : UInt64} {cells : Cells Rat}

/-- the fields of the pass: the table of edges and the output -/
def fields (storage : Storage) (table : View) (out : Array Rat) : Bundle View :=
  .ofMembers [table, .ofElements .writable out.size storage]

/-- the target of the reduction: the values of the edges -/
def target (storage : Storage) (values : Array Rat) : Neighbors :=
  ⟨(View.ofElements .readOnly values.size storage).origin, 1, clamp values.size⟩

/-- the body of the pass, with its reduction bound to the fields -/
def boundBody (mesh : Mesh) (storage : Storage) (table : View) (values out : Array Rat) (p : Bundle Handle)
    (_ : Bundle (DimMap Int64)) : Kernel Rat Unit :=
  body mesh (boundSum (fields storage table out) .neighbor (clamp mesh.vertexEdges.maxDegree) fun _ n =>
    Kernel.lift (n.read values)) p (target storage values)

theorem read_target {v : Int32} (hv : 0 ≤ v.toInt) (hlt : v.toInt.toNat < values.size) :
    ((target storage values).element v.toInt64).read values = .ok (entryAt values v.toInt.toNat) := by
  have hword : v.toInt.toNat ≤ signedMax := by
    have hmax := v.toInt_lt
    rw [signedMax]
    omega
  have helement : (target storage values).element v.toInt64 =
      (View.ofElements .readOnly values.size storage).origin.moveTo (Int64.ofNat v.toInt.toNat) := by
    rw [toInt64_of_nonneg hv, Neighbors.element, Handle.shiftBy]
    show Handle.moveTo _ (0 + 1 * _) = _
    rw [Int64.zero_add, Int64.one_mul]
    rfl
  rw [helement]
  exact Handle.read_eq_ok (Handle.index?_unguarded rfl hlt hword) (Nabla.getElem?_entryAt hlt)

section units

variable (hmesh : Mesh.ofEdges n edges = .ok mesh) (hn : n ≤ 2 ^ 31 - 1) (he : edges.length ≤ 2 ^ 31 - 1)
  (hvalues : values.size = edges.length)

include hmesh he hvalues

theorem sum_ensures {handles : List Handle} {s : RunState Rat} {fields : Bundle View}
    (hm : fields.members[0]? = some table)
    (htable : table.Columns .readOnly storage .neighbor (clamp n) (clamp mesh.vertexEdges.maxDegree))
    (hi : i < clamp n) :
    Kernel.Ensures handles ((boundSum fields .neighbor (clamp mesh.vertexEdges.maxDegree) fun _ n =>
      Kernel.lift (n.read values)).eval (fields.elementOrigin .horizontal i) (Nabla.tableEntry mesh.vertexEdges)
        (target storage values)) s fun r t =>
      r = (∑ e : Fin edges.length, Mesh.endsOf (edges.get e) i.toNat * entryAt values e) ∧ s = t := by
  have hlt : i.toNat < n := toNat_lt_of_lt_clamp hi
  have hdegree : (clamp mesh.vertexEdges.maxDegree).toNat = mesh.vertexEdges.maxDegree := by
    obtain ⟨-, rfl, hconsistent⟩ := Mesh.ofEdges_consistent hmesh
    have hbound : mesh.vertexEdges.maxDegree ≤ 2 * mesh.edges.length := hconsistent.vertexDegree
    refine toNat_clamp_of_le ?_
    rw [wordMax]
    omega
  refine Nabla.ensures_sum (around edges values i.toNat) rfl ?_ rfl
    ⟨by rw [hdegree, around_eq_sum hmesh (by omega) hlt], rfl⟩
  rintro j hj q rfl
  have hindex : ((fields.map fun v => (v.elementOrigin .horizontal i).shiftBy (v.strides.stepOf .neighbor)
      (Int64.ofNat j)).handle 0).index? = some (i.toNat * mesh.vertexEdges.maxDegree + j) := by
    rw [Bundle.handle_map hm, htable.index?_column hi hj, hdegree]
  rw [hdegree] at hj
  refine ⟨_, Nabla.tableEntry_eq hindex (Mesh.ofEdges_slot hmesh hlt hj).1, ?_⟩
  rw [around_succ]
  cases hx : (Mesh.incident edges i.toNat)[j]? with
  | none => exact Or.inl ⟨rfl, add_zero _⟩
  | some x =>
    obtain ⟨e, hedge, hint, hne⟩ := Mesh.edge_of_mem_incident (by omega) (List.mem_of_getElem? hx)
    have hread : ((target storage values).element x.edge.toInt64).read values =
        .ok (entryAt values x.edge.toInt.toNat) := read_target (by omega) (by omega)
    refine Or.inr ⟨hne, entryAt values x.edge.toInt.toNat, ?_, rfl⟩
    rw [Option.map_some, Option.getD_some, hread]
    rfl

include hn

/-- **The unit of a vertex** leaves the sum of the values of its edges. -/
theorem body_ensures (hout : n ≤ out.size)
    (htable : table.Columns .readOnly storage .neighbor (clamp n) (clamp mesh.vertexEdges.maxDegree))
    (hi : i < clamp n) :
    let fields := fields storage table out
    Kernel.Ensures (fields.elementOrigin .horizontal i).members
      (boundBody mesh storage table values out (fields.elementOrigin .horizontal i) fields.strides)
      ⟨#[#[], out], []⟩ fun _ t =>
      t.cells.value? 1 i.toNat = some (∑ e : Fin edges.length, Mesh.endsOf (edges.get e) i.toNat * entryAt values e) := by
  intro fields
  have hmember (m : Nat) {v : View} (hv : [table, .ofElements .writable out.size storage][m]? = some v) :
      fields.members[m]? = some v := Bundle.getElem?_ofMembers hv
  have hlt : i.toNat < n := toNat_lt_of_lt_clamp hi
  refine Kernel.Ensures.bind ((sum_ensures hmesh he hvalues (hmember 0 rfl) htable hi).mono ?_)
  rintro _ _ ⟨rfl, rfl⟩
  have hhandle : (fields.elementOrigin .horizontal i).handle 1 =
      (View.ofElements .writable out.size storage).elementOrigin .horizontal i := Bundle.handle_map (hmember 1 rfl) _
  have hwrite : ((fields.elementOrigin .horizontal i).handle 1).writeIndex? = some i.toNat := by
    rw [hhandle]
    exact View.writeIndex?_ofElements storage (by omega) (by rw [signedMax]; omega)
  refine Kernel.ensures_set (getElem?_unitHandles (hmember 1 rfl)) ?_ hwrite ?_
  · rw [hhandle]
    rfl
  · have hthere : (Cells.value? #[#[], out] 1 i.toNat).isSome := Cells.isSome_value?_of_lt rfl (hlt.trans_le hout)
    obtain ⟨old, hold⟩ := Option.isSome_iff_exists.1 hthere
    rw [Cells.value?_put, if_pos ⟨rfl, rfl⟩, hold, Option.map_some]

end units

/-! ## Runs -/

/-- what the sums around the vertices of a mesh are: each that of the values of the edges, counted with their ends at
the vertex, and all together twice the values; what stands behind them in the output has not changed -/
structure SumsAround (n : Nat) (edges : List (Int32 × Int32)) (values out result : Array Rat) : Prop where
  size : result.size = out.size
  sums : ∀ v < n, result[v]? = some (∑ e : Fin edges.length, Mesh.endsOf (edges.get e) v * entryAt values e)
  kept : ∀ p, n ≤ p → result[p]? = out[p]?
  total : ∑ v ∈ Finset.range n, entryAt result v = 2 * ∑ e : Fin edges.length, entryAt values e

theorem SumsAround.of_sums {result : Array Rat}
    (hends : ∀ a ∈ edges, Mesh.isVertex n a.1 = true ∧ Mesh.isVertex n a.2 = true) (hsize : result.size = out.size)
    (hsums : ∀ v < n, result[v]? = some (∑ e : Fin edges.length, Mesh.endsOf (edges.get e) v * entryAt values e))
    (hkept : ∀ p, n ≤ p → result[p]? = out[p]?) : SumsAround n edges values out result := by
  refine ⟨hsize, hsums, hkept, ?_⟩
  calc ∑ v ∈ Finset.range n, entryAt result v
      = ∑ v ∈ Finset.range n, ∑ e : Fin edges.length, Mesh.endsOf (edges.get e) v * entryAt values e := by
        refine Finset.sum_congr rfl fun v hv => ?_
        rw [entryAt, hsums v (Finset.mem_range.1 hv), Option.getD_some]
    _ = ∑ e : Fin edges.length, (∑ v ∈ Finset.range n, Mesh.endsOf (edges.get e) v) * entryAt values e := by
        rw [Finset.sum_comm]
        simp only [Finset.sum_mul]
    _ = ∑ e : Fin edges.length, 2 * entryAt values e := by
        refine Finset.sum_congr rfl fun e _ => ?_
        have htwo : ∑ v ∈ Finset.range n, Mesh.endsOf (edges.get e) v = 2 :=
          Mesh.sum_ends (hends _ (List.getElem_mem e.isLt))
        rw [htwo]
    _ = 2 * ∑ e : Fin edges.length, entryAt values e := (Finset.mul_sum _ _ _).symm

theorem vertexSum_eq_launch {backend : Backend}
    (hview : mesh.vertexEdges.view .horizontal .neighbor backend.storage = .ok table)
    (htable : table.Columns .readOnly backend.storage .neighbor (clamp n) (clamp mesh.vertexEdges.maxDegree)) :
    vertexSum backend mesh values out =
      let r := backend.launch "vertex_sum" (clamp mesh.vertexCount) (fields backend.storage table out)
        (boundBody mesh backend.storage table values out) ⟨#[#[], out], []⟩
      (r.1, r.2.cells[1]?.getD out) := by
  have hsum := Nabla.bind_sumFold (fields backend.storage table out)
    ⟨table, by simp [fields, Bundle.members_ofMembers], htable.contains.2⟩ (clamp mesh.vertexEdges.maxDegree)
    fun _ n => Kernel.lift (n.read values)
  have htarget : (View.ofElements .readOnly values.size backend.storage).neighbors =
      .ok (target backend.storage values) := rfl
  rw [fields] at hsum
  simp only [vertexSum, hview, htable.upperBound, htarget, hsum, bind, Except.bind, pure, Except.pure]
  rfl

theorem members_fields (storage : Storage) (table : View) (out : Array Rat) :
    (fields storage table out).members = [table, .ofElements .writable out.size storage] := Bundle.members_ofMembers _

theorem toNat_count (hn : n ≤ 2 ^ 31 - 1) : (clamp n).toNat = n := toNat_clamp_of_le (hn.trans (by decide))

section checks

variable (htable : table.Columns .readOnly storage .neighbor (clamp n) (clamp mesh.vertexEdges.maxDegree))
  (hn : n ≤ 2 ^ 31 - 1)

include htable hn

theorem fields_checkOuter (hout : n ≤ out.size) :
    (fields storage table out).checkOuter .horizontal (clamp n) storage = .ok () := by
  refine Bundle.checkOuter_eq_ok ⟨table, by simp [members_fields], htable.contains.1⟩ ?_
  simp only [members_fields, List.forall_mem_cons]
  exact ⟨htable.checkMember nofun (UInt64.le_refl _), View.checkMember_ofElements (by rwa [toNat_count hn]) _, nofun⟩

/-- a shorter output is refused: the table passes, since its rows are the vertices, so that the output is the first
member that does not -/
theorem fields_checkOuter_of_lt (hout : out.size < n) : (fields storage table out).checkOuter .horizontal (clamp n)
    storage = .error (.extentMismatch "h" n out.size) := by
  have hrefused : (View.ofElements .writable out.size storage).checkMember .horizontal (clamp n) storage =
      .error (.extentMismatch "h" n out.size) := by
    rw [View.checkMember_ofElements_of_lt (by rwa [toNat_count hn]), toNat_count hn]
  refine Bundle.checkOuter_eq_error_iff.2 (Or.inr ⟨⟨table, by simp [members_fields], htable.contains.1⟩, ?_⟩)
  refine ⟨[table], _, [], members_fields _ _ _, ?_, View.checkMember_eq_error_iff.1 hrefused⟩
  rw [List.forall_mem_singleton]
  exact View.checkMember_eq_ok_iff.1 (htable.checkMember nofun (UInt64.le_refl _))

end checks

section launch

variable (hmesh : Mesh.ofEdges n edges = .ok mesh) (hn : n ≤ 2 ^ 31 - 1) (he : edges.length ≤ 2 ^ 31 - 1)

include hmesh hn he

theorem exists_table (storage : Storage) :
    ∃ table, mesh.vertexEdges.view .horizontal .neighbor storage = .ok table ∧
      table.Columns .readOnly storage .neighbor (clamp n) (clamp mesh.vertexEdges.maxDegree) := by
  obtain ⟨rfl, rfl, hconsistent⟩ := Mesh.ofEdges_consistent hmesh
  have hdegree : mesh.vertexEdges.maxDegree ≤ 2 * (2 ^ 31 - 1) :=
    hconsistent.vertexDegree.trans (Nat.mul_le_mul_left 2 he)
  have hslots : mesh.vertexCount * mesh.vertexEdges.maxDegree ≤ signedMax :=
    (Nat.mul_le_mul hn hdegree).trans (by decide)
  exact Connectivity.view_columns hconsistent.vertexRows (hn.trans (by decide)) (hdegree.trans (by decide)) hslots
    storage

/-- what all units leave in the output -/
theorem sums_of_settled (hvalues : values.size = edges.length) (hout : n ≤ out.size)
    (htable : table.Columns .readOnly storage .neighbor (clamp n) (clamp mesh.vertexEdges.maxDegree))
    (hs : (Backend.unitPass (fields storage table out) (boundBody mesh storage table values out)).Settled
      #[#[], out] (fun i => i < clamp n) cells) :
    ∃ result, cells[1]? = some result ∧ SumsAround n edges values out result := by
  obtain ⟨result, hresult, hsize, hvalue⟩ := hs.exists_data (m := 1) rfl
  have hhandle (i : UInt64) : ((fields storage table out).elementOrigin .horizontal i).members[1]? =
      some ((View.ofElements .writable out.size storage).elementOrigin .horizontal i) :=
    getElem?_unitHandles (by rw [members_fields]; rfl)
  refine ⟨result, hresult, .of_sums (Mesh.ofEdges_ends hmesh) hsize (fun v hv => ?_) fun p hp => ?_⟩
  · have hword : (UInt64.ofNat v).toNat = v := UInt64.toNat_ofNat_of_lt' (by simp only [UInt64.size]; omega)
    have hi : UInt64.ofNat v < clamp n := by rwa [UInt64.lt_iff_toNat_lt, hword, toNat_count hn]
    have hwrite : ((View.ofElements .writable out.size storage).elementOrigin .horizontal (.ofNat v)).writeIndex? =
        some (UInt64.ofNat v).toNat :=
      View.writeIndex?_ofElements storage (by omega) (by rw [hword, signedMax]; omega)
    have hsum := (Backend.unitPass_solo _ _ (Q := fun c => c.value? 1 (UInt64.ofNat v).toNat = _)
      (body_ensures hmesh hn he hvalues hout htable hi)).2
    rw [hword] at hwrite hsum
    rw [← hvalue, hs.written (.ofNat v) hi 1 v ⟨_, _, hhandle (.ofNat v), hwrite⟩]
    exact hsum
  · -- a unit writes the entry of its own vertex only
    have hforeign (i : UInt64) (hi : i < clamp n) :
        ¬ Writes ((fields storage table out).elementOrigin .horizontal i).members 1 p := by
      rintro ⟨_, offset, hh, hwrite⟩
      obtain rfl := Option.some.inj ((hhandle i).symm.trans hh)
      have hown := View.eq_of_index?_ofElements (Handle.index?_of_writeIndex? hwrite)
      have hlt := toNat_lt_of_lt_clamp hi
      omega
    rw [← hvalue, hs.kept 1 p hforeign]
    rfl

/-- an output with room for all vertices gets the sums -/
theorem vertexSum_of_room (hvalues : values.size = edges.length) (hout : n ≤ out.size) (backend : Backend) :
    ∃ result, vertexSum backend mesh values out = (.ok (), result) ∧ SumsAround n edges values out result := by
  obtain ⟨table, hview, htable⟩ := exists_table hmesh hn he backend.storage
  obtain ⟨hok, hs⟩ := backend.launch_completes "vertex_sum" (clamp n) (by rw [toNat_count hn]; omega) _
    (fields_checkOuter htable hn hout) (boundBody mesh backend.storage table values out) ⟨#[#[], out], []⟩
    fun i hi => (Backend.unitPass_solo _ _ (Q := fun c => c.value? 1 i.toNat = _)
      (body_ensures hmesh hn he hvalues hout htable hi)).1
  obtain ⟨result, hresult, hsums⟩ := sums_of_settled hmesh hn he hvalues hout htable hs
  refine ⟨result, ?_, hsums⟩
  rw [vertexSum_eq_launch hview htable, (Mesh.ofEdges_consistent hmesh).1]
  exact Prod.ext hok (congrArg (Option.getD · out) hresult)

/-- an output without room for all vertices is refused -/
theorem vertexSum_of_no_room (hout : out.size < n) (backend : Backend) :
    vertexSum backend mesh values out = (.error (.error (.contract (.extentMismatch "h" n out.size))), out) := by
  obtain ⟨table, hview, htable⟩ := exists_table hmesh hn he backend.storage
  rw [vertexSum_eq_launch hview htable, (Mesh.ofEdges_consistent hmesh).1]
  simp only [Backend.launch, fields_checkOuter_of_lt htable hn hout]
  rfl

end launch

end VertexSum

/-- **Sums around vertices.** Over a mesh made from edges, with a value for each edge: an output with room for all
vertices gets at each vertex the sum of the values of the edges, counted with their ends there, and keeps what stands
behind; the sums add up to twice the values, since every edge has two ends. A shorter output is refused and keeps
everything. Both hold on either backend and in any order of the blocks. -/
theorem vertexSum_sums {n : Nat} {edges : List (Int32 × Int32)} {mesh : Mesh}
    (hmesh : Mesh.ofEdges n edges = .ok mesh) (hn : n ≤ 2 ^ 31 - 1) (he : edges.length ≤ 2 ^ 31 - 1)
    {values : Array Rat} (hvalues : values.size = edges.length) (out : Array Rat) (backend : Backend) :
    (n ≤ out.size → ∃ result, vertexSum backend mesh values out = (.ok (), result) ∧
      VertexSum.SumsAround n edges values out result) ∧
    (out.size < n →
      vertexSum backend mesh values out = (.error (.error (.contract (.extentMismatch "h" n out.size))), out)) :=
  ⟨fun hout => VertexSum.vertexSum_of_room hmesh hn he hvalues hout backend,
    fun hout => VertexSum.vertexSum_of_no_room hmesh hn he hout backend⟩

/-- a value for each of `Mesh.tangledEdges` -/
def VertexSum.tangledValues : Array Rat := #[5, 7, 11, 2]

/-- on a mesh with a loop and a vertex without edges, once with an entry to spare and once with one too few -/
theorem vertexSum_sums_tangled :
    ∃ mesh, Mesh.ofEdges 3 Mesh.tangledEdges = .ok mesh ∧
      (∃ result, vertexSum ⟨.parallel, .standard, Backend.alternating⟩ mesh VertexSum.tangledValues #[1, 1, 1, 9] =
        (.ok (), result) ∧ result[0]? = some 32 ∧ result[1]? = some 0 ∧ result[3]? = some 9) ∧
      vertexSum (.standard .sequential) mesh VertexSum.tangledValues #[1, 1] =
        (.error (.error (.contract (.extentMismatch "h" 3 2))), #[1, 1]) := by
  obtain ⟨mesh, hmesh⟩ : ∃ mesh, Mesh.ofEdges 3 Mesh.tangledEdges = .ok mesh := ⟨_, rfl⟩
  have hvalues : VertexSum.tangledValues.size = Mesh.tangledEdges.length := rfl
  have hfirst : ∑ e : Fin Mesh.tangledEdges.length,
      Mesh.endsOf (Mesh.tangledEdges.get e) 0 * Nabla.entryAt VertexSum.tangledValues e = 32 := by decide +kernel
  have hsecond : ∑ e : Fin Mesh.tangledEdges.length,
      Mesh.endsOf (Mesh.tangledEdges.get e) 1 * Nabla.entryAt VertexSum.tangledValues e = 0 := by decide +kernel
  obtain ⟨result, hrun, hsums⟩ := (vertexSum_sums hmesh (by decide) (by decide) hvalues #[1, 1, 1, 9]
    ⟨.parallel, .standard, Backend.alternating⟩).1 (by decide)
  have hrefused := (vertexSum_sums hmesh (by decide) (by decide) hvalues #[1, 1] (.standard .sequential)).2 (by decide)
  refine ⟨mesh, hmesh, ⟨result, hrun, ?_, ?_, hsums.kept 3 le_rfl⟩, hrefused⟩
  · rw [hsums.sums 0 (by decide), hfirst]
  · rw [hsums.sums 1 (by decide), hsecond]

end Stencil
