/-
The passes of the gradient on the engine. Each binds its loop and reductions, is accepted, and leaves tables in the two
members it writes, on either backend and in any order of the blocks.

- `ensures_tables`: a pass whose units fill the columns of two members leaves two tables;
- `edgeFields_checkOuter`, `vertexFields_checkOuter`, `volumeFields_checkOuter`: the fields of the passes are accepted;
- `edgePass_ensures`, `vertexPass_ensures`, `volumePass_ensures`: the tables that each pass leaves.
-/
import Mathlib.Tactic
import Stencil.Proofs.Engine.Programs
import Stencil.Proofs.Mesh.Bodies

namespace Stencil

/-! ## Passes that fill two members -/

namespace InvocationM

variable {σ α : Type} {st : Invocation × σ} {backend : Backend} {domain : Domain} {fields : Bundle View}
  {body : Bundle Handle → Bundle (DimMap Int64) → Kernel α Unit} {cells : Cells α} {keep : Cells α → σ → σ}
  {n k : UInt64} {b : Dim} {m m' : Nat} {v v' : View} {data data' : Array α} {f g : Nat → Nat → α}

/-- **A pass whose units fill the columns of two members** leaves two tables. -/
theorem ensures_tables (h : st.1.RunsOn backend domain) {op : String} (hext : n.toNat ≤ 32 * (2 ^ 31 - 1))
    (hcheck : fields.checkOuter .horizontal n backend.storage = .ok ()) (hm : fields.members[m]? = some v)
    (hm' : fields.members[m']? = some v') (hv : v.Columns .writable backend.storage b n k)
    (hv' : v'.Columns .writable backend.storage b n k) (hdata : cells[m]? = some data)
    (hdata' : cells[m']? = some data') (hsize : data.size = n.toNat * k.toNat) (hsize' : data'.size = n.toNat * k.toNat)
    (hunits : ∀ i, i < n → Kernel.Ensures (fields.elementOrigin .horizontal i).members
      (body (fields.elementOrigin .horizontal i) fields.strides) ⟨cells, []⟩ fun _ t =>
        Cells.ColumnPair cells t.cells m m' (i.toNat * k.toNat) k.toNat (f i.toNat) (g i.toNat) k.toNat)
    {Q : Cells α → Invocation × σ → Prop}
    (hQ : ∀ cells' inv, inv.RunsOn backend domain → cells'[m]? = some (Field.table n.toNat k.toNat f) →
      cells'[m']? = some (Field.table n.toNat k.toNat g) → Q cells' (inv, keep cells' st.2)) :
    Ensures (pass op n fields body cells keep) st Q := by
  have hsolo (i : UInt64) (hi : i < n) := Backend.unitPass_solo fields body
    (Q := fun c => cells.ColumnPair c m m' (i.toNat * k.toNat) k.toNat (f i.toNat) (g i.toNat) k.toNat) (hunits i hi)
  refine ensures_pass h hext hcheck (fun i hi => (hsolo i hi).1) fun cells' inv hinv hs => hQ cells' inv hinv ?_ ?_
  · exact hs.table hm hv hdata hsize fun i hi => (hsolo i hi).2.first
  · exact hs.table hm' hv' hdata' hsize' fun i hi => (hsolo i hi).2.second

end InvocationM

theorem Temporary.LaidOut.view_columns {α : Type} {t : Temporary α} {storage : Storage} {n k : UInt64}
    (h : t.LaidOut storage n k) (hsize : n.toNat * k.toNat ≤ signedMax) (hdata : n.toNat * k.toNat ≤ t.data.size)
    (access : Access) : (t.view access).Columns access storage .vertical n k := by
  obtain ⟨r, hr, hstrides, hbounds, hstorage⟩ := h
  rw [view, hstrides, hbounds, hstorage]
  exact View.columns_of_resolve hr hsize hdata access storage

theorem Temporary.LaidOut.withData {α : Type} {t : Temporary α} {storage : Storage} {n k : UInt64}
    (h : t.LaidOut storage n k) (data : Array α) : ({ t with data } : Temporary α).LaidOut storage n k := h

namespace Nabla

open InvocationM

theorem tableView_columns {t : Connectivity} {n : Nat} (hrows : t.rows = n) (hn : n ≤ wordMax)
    (hdegree : t.maxDegree ≤ signedMax) (hsize : n * t.maxDegree ≤ signedMax) {slot : Dim} (hslot : Dim.neighbor ≠ slot)
    (hh : slot ≠ .horizontal) (storage : Storage) : ∃ v, tableView t slot storage = .ok v ∧
      v.Columns .readOnly storage slot (clamp n) (clamp t.maxDegree) := by
  obtain ⟨v, hview, hcols⟩ := Connectivity.view_columns hrows hn hdegree hsize storage
  obtain ⟨v', hv, hcols'⟩ := hcols.rename hslot hh
  exact ⟨v', by rw [tableView, hview]; exact hv, hcols'⟩

/-- the targets of all levels are collected where there is room for their list -/
theorem ensures_collectTargets {σ : Type} {st : Invocation × σ} {field : View} {k : UInt64} {targets : List Neighbors}
    {Q : List Neighbors → Invocation × σ → Prop} (htargets : levelTargets field k = .ok targets)
    (hroom : k.toNat * targetBytes ≤ signedMax) (h : Q targets st) : Ensures (collectTargets field k) st Q := by
  have hreserve : Buffer.reserve k.toNat targetBytes = .ok () := if_pos hroom
  refine Ensures.bind (ensures_contract htargets ?_)
  refine Ensures.bind (ensures_noFault hreserve ?_)
  exact ensures_pure h

variable {ρ : Type} {mesh : Mesh} {input : NablaInputs ρ} {storage : Storage} {backend : Backend}

/-! ## Views of the fields -/

namespace Admissible

theorem edgeTable_columns (h : Admissible mesh input) (storage : Storage) :
    ∃ v, tableView mesh.edgeVertices .edgeToVertex storage = .ok v ∧
      v.Columns .readOnly storage .edgeToVertex (clamp mesh.edgeCount) (clamp mesh.edgeVertices.maxDegree) :=
  tableView_columns h.consistent.edgeRows h.words.2 h.edgeDegree h.edgeSlots (by decide) (by decide) storage

theorem vertexTable_columns (h : Admissible mesh input) (storage : Storage) :
    ∃ v, tableView mesh.vertexEdges .vertexToEdge storage = .ok v ∧
      v.Columns .readOnly storage .vertexToEdge (clamp mesh.vertexCount) (clamp mesh.vertexEdges.maxDegree) :=
  tableView_columns h.consistent.vertexRows h.words.1 h.vertexDegree h.slots (by decide) (by decide) storage

/-- the signs, which have the slots of the table of edges at vertices -/
theorem signs_columns (h : Admissible mesh input) (signs : Array ρ) (hsigns : signs.size = mesh.signs.size)
    (storage : Storage) :
    ∃ v, (View.ofLayout .readOnly signs.size (.rowMajor [(.horizontal, clamp mesh.vertexCount),
        (.neighbor, clamp mesh.vertexEdges.maxDegree)]) storage >>= fun v => v.rename .neighbor .vertexToEdge) = .ok v ∧
      v.Columns .readOnly storage .vertexToEdge (clamp mesh.vertexCount) (clamp mesh.vertexEdges.maxDegree) := by
  have hdegree := h.toNat_degree
  refine View.slots_columns ?_ ?_ ?_ (by decide) (by decide) storage
  · rw [hdegree]
    exact h.vertexDegree
  · rw [h.toNat_vertices, hdegree]
    exact h.slots
  · rw [h.toNat_vertices, hdegree, hsigns, h.consistent.signs]

theorem means_columns (h : Admissible mesh input) {t : Temporary ρ}
    (ht : t.LaidOut storage (clamp mesh.edgeCount) input.pp.k) (hsize : t.data.size = mesh.edgeCount * input.pp.k.toNat)
    (access : Access) : (t.view access).Columns access storage .vertical (clamp mesh.edgeCount) input.pp.k := by
  have hedges := h.toNat_edges
  refine ht.view_columns ?_ ?_ access
  · rw [hedges]
    exact h.edgeEntries
  · rw [hedges, hsize]

theorem output_columns (h : Admissible mesh input) {f : Field ρ} (hf : f.HasShape mesh.vertexCount input.pp.k)
    (access : Access) (storage : Storage) : ∃ v, f.view access storage = .ok v ∧
      v.Columns access storage .vertical (clamp mesh.vertexCount) input.pp.k :=
  hf.view_columns h.words.1 h.levels.2 h.vertexEntries access storage

end Admissible

/-! ## Accepted fields -/

theorem edgeFields_checkOuter (h : Admissible mesh input) {table mxx myy : View}
    (htable : table.Columns .readOnly storage .edgeToVertex (clamp mesh.edgeCount) (clamp mesh.edgeVertices.maxDegree))
    (hx : mxx.Columns .writable storage .vertical (clamp mesh.edgeCount) input.pp.k)
    (hy : myy.Columns .writable storage .vertical (clamp mesh.edgeCount) input.pp.k) :
    (edgeFields input storage table mxx myy).checkOuter .horizontal (clamp mesh.edgeCount) storage = .ok () := by
  refine Bundle.checkOuter_eq_ok ⟨table, ?_, htable.contains.1⟩ ?_
  · simp [edgeFields, Bundle.members_ofMembers]
  · simp only [edgeFields, Bundle.members_ofMembers, List.forall_mem_cons]
    refine ⟨?_, ?_, ?_, ?_, ?_, nofun⟩
    · exact htable.checkMember nofun (UInt64.le_refl _)
    · exact View.checkMember_ofElements (by rw [h.toNat_edges, h.sMxx]) _
    · exact View.checkMember_ofElements (by rw [h.toNat_edges, h.sMyy]) _
    · exact hx.checkMember (fun _ => h.levels.1) (UInt64.le_refl _)
    · exact hy.checkMember (fun _ => h.levels.1) (UInt64.le_refl _)

theorem vertexFields_checkOuter (h : Admissible mesh input) {table signs outMxx outMyy : View}
    (htable : table.Columns .readOnly storage .vertexToEdge (clamp mesh.vertexCount) (clamp mesh.vertexEdges.maxDegree))
    (hsigns : signs.Columns .readOnly storage .vertexToEdge (clamp mesh.vertexCount) (clamp mesh.vertexEdges.maxDegree))
    (hx : outMxx.Columns .writable storage .vertical (clamp mesh.vertexCount) input.pp.k)
    (hy : outMyy.Columns .writable storage .vertical (clamp mesh.vertexCount) input.pp.k) :
    (vertexFields table signs outMxx outMyy).checkOuter .horizontal (clamp mesh.vertexCount) storage = .ok () := by
  refine Bundle.checkOuter_eq_ok ⟨table, ?_, htable.contains.1⟩ ?_
  · simp [vertexFields, Bundle.members_ofMembers]
  · simp only [vertexFields, Bundle.members_ofMembers, List.forall_mem_cons]
    refine ⟨?_, ?_, ?_, ?_, nofun⟩
    · exact htable.checkMember nofun (UInt64.le_refl _)
    · exact hsigns.checkMember nofun (UInt64.le_refl _)
    · exact hx.checkMember (fun _ => h.levels.1) (UInt64.le_refl _)
    · exact hy.checkMember (fun _ => h.levels.1) (UInt64.le_refl _)

theorem volumeFields_checkOuter (h : Admissible mesh input) {outMxx outMyy : View}
    (hx : outMxx.Columns .writable storage .vertical (clamp mesh.vertexCount) input.pp.k)
    (hy : outMyy.Columns .writable storage .vertical (clamp mesh.vertexCount) input.pp.k) :
    (volumeFields input storage outMxx outMyy).checkOuter .horizontal (clamp mesh.vertexCount) storage = .ok () := by
  refine Bundle.checkOuter_eq_ok ⟨outMxx, ?_, hx.contains.1⟩ ?_
  · simp [volumeFields, Bundle.members_ofMembers]
  · simp only [volumeFields, Bundle.members_ofMembers, List.forall_mem_cons]
    refine ⟨?_, ?_, ?_, nofun⟩
    · exact View.checkMember_ofElements (by rw [h.toNat_vertices, h.vol]) _
    · exact hx.checkMember (fun _ => h.levels.1) (UInt64.le_refl _)
    · exact hy.checkMember (fun _ => h.levels.1) (UInt64.le_refl _)

variable [Scalar ρ]

/-! ## Edges -/

/-- **The first pass** leaves the scaled means of all edges. -/
theorem edgePass_ensures (h : Admissible mesh input) (hadd : ∀ a : ρ, Scalar.zero + a = a)
    (hroom : input.pp.k.toNat * targetBytes ≤ signedMax)
    {st : Invocation × NablaOutputs ρ} (hrun : st.1.RunsOn backend (mesh.domain input.pp.k)) {mxx myy : Temporary ρ}
    (hx : mxx.LaidOut backend.storage (clamp mesh.edgeCount) input.pp.k)
    (hy : myy.LaidOut backend.storage (clamp mesh.edgeCount) input.pp.k)
    (hxs : mxx.data.size = mesh.edgeCount * input.pp.k.toNat) (hys : myy.data.size = mesh.edgeCount * input.pp.k.toNat)
    {Q : Temporary ρ × Temporary ρ → Invocation × NablaOutputs ρ → Prop}
    (hQ : ∀ inv, inv.RunsOn backend (mesh.domain input.pp.k) →
      Q ({ mxx with data := Field.table mesh.edgeCount input.pp.k.toNat (scaledAt input.sMxx mesh input) },
        { myy with data := Field.table mesh.edgeCount input.pp.k.toNat (scaledAt input.sMyy mesh input) })
        (inv, st.2)) :
    Ensures (edgePass mesh input backend.storage mxx myy) st Q := by
  have hedges := h.toNat_edges
  obtain ⟨table, htable, htableCols⟩ := h.edgeTable_columns backend.storage
  obtain ⟨pp, hpp, hppCols⟩ := h.output_columns h.pp .readOnly backend.storage
  obtain ⟨targets, htargets, hreach⟩ := levelTargets_eq hppCols
  have hxCols := h.means_columns hx hxs .writable
  have hyCols := h.means_columns hy hys .writable
  let fields := edgeFields input backend.storage table (mxx.view .writable) (myy.view .writable)
  have hmember : fields.members[0]? = some table := Bundle.getElem?_ofMembers rfl
  have hmxx : fields.members[3]? = some (mxx.view .writable) := Bundle.getElem?_ofMembers rfl
  have hmyy : fields.members[4]? = some (myy.view .writable) := Bundle.getElem?_ofMembers rfl
  have hloop := bind_loop fields ⟨_, List.mem_of_getElem? hmxx, hxCols.contains.2⟩ input.pp.k
  have hsum := bind_sumFold fields ⟨_, List.mem_of_getElem? hmember, htableCols.contains.2⟩
    (clamp mesh.edgeVertices.maxDegree) fun _ n => Kernel.lift (n.read input.pp.data)
  let cells : Cells ρ := #[#[], #[], #[], mxx.data, myy.data]
  have hdata : cells[3]? = some mxx.data := rfl
  have hdata' : cells[4]? = some myy.data := rfl
  unfold edgePass
  refine Ensures.bind (ensures_contract htable ?_)
  refine Ensures.bind (ensures_contract htableCols.upperBound ?_)
  refine Ensures.bind (ensures_noFault hpp ?_)
  refine Ensures.bind (ensures_collectTargets htargets hroom ?_)
  refine Ensures.bind (ensures_contract hloop ?_)
  refine Ensures.bind (ensures_contract hsum ?_)
  refine Ensures.bind (ensures_invocation ?_)
  rw [hrun.domain]
  refine Ensures.bind (ensures_tables (f := scaledAt input.sMxx mesh input) (g := scaledAt input.sMyy mesh input) hrun
    h.edgeGrid (edgeFields_checkOuter h htableCols hxCols hyCols) hmxx hmyy hxCols hyCols hdata hdata'
    (by rw [hedges, hxs]) (by rw [hedges, hys]) ?_ ?_)
  · intro i hi
    exact edgeBody_ensures h hadd htableCols hxCols hyCols hreach
      (fun p hp => Cells.isSome_value?_of_lt hdata (hxs ▸ hp))
      (fun p hp => Cells.isSome_value?_of_lt hdata' (hys ▸ hp)) hi
  · intro cells' inv hinv hmxx' hmyy'
    rw [hedges] at hmxx' hmyy'
    apply ensures_pure
    rw [hmxx', hmyy']
    exact hQ inv hinv

/-! ## Vertices -/

/-- **The second pass** leaves the signed sums of the data of both temporaries. -/
theorem vertexPass_ensures (h : Admissible mesh input) (hroom : input.pp.k.toNat * targetBytes ≤ signedMax)
    {inv : Invocation} {out : NablaOutputs ρ} (hrun : inv.RunsOn backend (mesh.domain input.pp.k)) {mxx myy : Temporary ρ}
    (hx : mxx.LaidOut backend.storage (clamp mesh.edgeCount) input.pp.k)
    (hy : myy.LaidOut backend.storage (clamp mesh.edgeCount) input.pp.k) {x y : Nat → Nat → ρ}
    (hxd : mxx.data = Field.table mesh.edgeCount input.pp.k.toNat x)
    (hyd : myy.data = Field.table mesh.edgeCount input.pp.k.toNat y)
    (hox : out.mxx.HasShape mesh.vertexCount input.pp.k) (hoy : out.myy.HasShape mesh.vertexCount input.pp.k)
    {Q : Unit → Invocation × NablaOutputs ρ → Prop}
    (hQ : ∀ inv, inv.RunsOn backend (mesh.domain input.pp.k) →
      Q () (inv, ⟨Field.tabulate mesh.vertexCount input.pp.k (fluxAt mesh x),
        Field.tabulate mesh.vertexCount input.pp.k (fluxAt mesh y)⟩)) :
    Ensures (vertexPass mesh input.pp.k backend.storage mxx myy) (inv, out) Q := by
  have hvertices := h.toNat_vertices
  obtain ⟨table, htable, htableCols⟩ := h.vertexTable_columns backend.storage
  obtain ⟨signs, hsigns, hsignCols⟩ :=
    h.signs_columns (mesh.signs.map Scalar.ofInt) Array.size_map backend.storage
  obtain ⟨targets, htargets, hreach⟩ := levelTargets_eq (h.means_columns hx (by rw [hxd, Field.size_table]) .readOnly)
  obtain ⟨targets', htargets', hreach'⟩ := levelTargets_eq (h.means_columns hy (by rw [hyd, Field.size_table]) .readOnly)
  obtain ⟨outMxx, houtMxx, hxCols⟩ := h.output_columns hox .writable backend.storage
  obtain ⟨outMyy, houtMyy, hyCols⟩ := h.output_columns hoy .writable backend.storage
  let fields := vertexFields table signs outMxx outMyy
  have hmember : fields.members[0]? = some table := Bundle.getElem?_ofMembers rfl
  have hmxx : fields.members[2]? = some outMxx := Bundle.getElem?_ofMembers rfl
  have hmyy : fields.members[3]? = some outMyy := Bundle.getElem?_ofMembers rfl
  have hloop := bind_loop fields ⟨_, List.mem_of_getElem? hmxx, hxCols.contains.2⟩ input.pp.k
  have hsum (data : Array ρ) := bind_sumFold fields ⟨_, List.mem_of_getElem? hmember, htableCols.contains.2⟩
    (clamp mesh.vertexEdges.maxDegree) (signedValue (mesh.signs.map Scalar.ofInt) data)
  let cells : Cells ρ := #[#[], #[], out.mxx.data, out.myy.data]
  have hdata : cells[2]? = some out.mxx.data := rfl
  have hdata' : cells[3]? = some out.myy.data := rfl
  unfold vertexPass
  refine Ensures.bind (ensures_contract htable ?_)
  refine Ensures.bind (ensures_contract htableCols.upperBound ?_)
  refine Ensures.bind (ensures_contract hsigns ?_)
  refine Ensures.bind (ensures_collectTargets htargets hroom ?_)
  refine Ensures.bind (ensures_collectTargets htargets' hroom ?_)
  refine Ensures.bind (ensures_get ?_)
  refine Ensures.bind (ensures_noFault houtMxx ?_)
  refine Ensures.bind (ensures_noFault houtMyy ?_)
  refine Ensures.bind (ensures_contract hloop ?_)
  refine Ensures.bind (ensures_contract (hsum mxx.data) ?_)
  refine Ensures.bind (ensures_contract (hsum myy.data) ?_)
  refine Ensures.bind (ensures_invocation ?_)
  rw [hrun.domain, hxd, hyd]
  refine Ensures.bind (ensures_tables (f := fluxAt mesh x) (g := fluxAt mesh y) hrun h.vertexGrid
    (vertexFields_checkOuter h htableCols hsignCols hxCols hyCols) hmxx hmyy hxCols hyCols hdata hdata'
    (by rw [hvertices, hox.size]) (by rw [hvertices, hoy.size]) ?_ ?_)
  · intro i hi
    exact vertexBody_ensures h htableCols hsignCols hxCols hyCols hreach hreach' x y
      (fun p hp => Cells.isSome_value?_of_lt hdata (hox.size ▸ hp))
      (fun p hp => Cells.isSome_value?_of_lt hdata' (hoy.size ▸ hp)) hi
  · intro cells' inv' hinv hmxx' hmyy'
    rw [hvertices] at hmxx' hmyy'
    apply ensures_pure
    rw [keepOutputs, hmxx', hmyy', Option.getD_some, Option.getD_some, hox.with_table, hoy.with_table]
    exact hQ inv' hinv

/-! ## Volumes -/

/-- **The third pass** divides both outputs by the volumes. -/
theorem volumePass_ensures (h : Admissible mesh input) {inv : Invocation} {out : NablaOutputs ρ}
    (hrun : inv.RunsOn backend (mesh.domain input.pp.k)) {x y : Nat → Nat → ρ}
    (hox : out.mxx = Field.tabulate mesh.vertexCount input.pp.k x)
    (hoy : out.myy = Field.tabulate mesh.vertexCount input.pp.k y) {Q : Unit → Invocation × NablaOutputs ρ → Prop}
    (hQ : ∀ inv, Q () (inv,
      ⟨Field.tabulate mesh.vertexCount input.pp.k fun v l => x v l / entryAt input.vol v,
        Field.tabulate mesh.vertexCount input.pp.k fun v l => y v l / entryAt input.vol v⟩)) :
    Ensures (volumePass input backend.storage) (inv, out) Q := by
  have hvertices := h.toNat_vertices
  have hshape : out.mxx.HasShape mesh.vertexCount input.pp.k := hox ▸ Field.hasShape_tabulate _ _ _
  have hshape' : out.myy.HasShape mesh.vertexCount input.pp.k := hoy ▸ Field.hasShape_tabulate _ _ _
  obtain ⟨outMxx, houtMxx, hxCols⟩ := h.output_columns hshape .writable backend.storage
  obtain ⟨outMyy, houtMyy, hyCols⟩ := h.output_columns hshape' .writable backend.storage
  let fields := volumeFields input backend.storage outMxx outMyy
  have hmxx : fields.members[1]? = some outMxx := Bundle.getElem?_ofMembers rfl
  have hmyy : fields.members[2]? = some outMyy := Bundle.getElem?_ofMembers rfl
  have hloop := bind_loop fields ⟨_, List.mem_of_getElem? hmxx, hxCols.contains.2⟩ input.pp.k
  let cells : Cells ρ := #[#[], out.mxx.data, out.myy.data]
  have hdata : cells[1]? = some out.mxx.data := rfl
  have hdata' : cells[2]? = some out.myy.data := rfl
  unfold volumePass
  refine Ensures.bind (ensures_get ?_)
  refine Ensures.bind (ensures_noFault houtMxx ?_)
  refine Ensures.bind (ensures_noFault houtMyy ?_)
  refine Ensures.bind (ensures_contract hloop ?_)
  refine Ensures.bind (ensures_invocation ?_)
  rw [hrun.domain]
  refine Ensures.bind (ensures_tables (f := fun v l => x v l / entryAt input.vol v)
    (g := fun v l => y v l / entryAt input.vol v) hrun h.vertexGrid (volumeFields_checkOuter h hxCols hyCols) hmxx
    hmyy hxCols hyCols hdata hdata' (by rw [hvertices, hshape.size]) (by rw [hvertices, hshape'.size]) ?_ ?_)
  · intro i hi
    exact volumeBody_ensures h hxCols hyCols (by rw [hdata, hox]; rfl) (by rw [hdata', hoy]; rfl) hi
  · intro cells' inv' hinv hmxx' hmyy'
    rw [hvertices] at hmxx' hmyy'
    apply ensures_pure
    rw [keepOutputs, hmxx', hmyy', Option.getD_some, Option.getD_some, hshape.with_table, hshape'.with_table]
    exact hQ inv'

end Nabla

end Stencil
