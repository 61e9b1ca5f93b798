/-
Fields of elements with columns. A field of levels, a neighbour table and a table of signs stand in their buffers alike:
row-major with the elements outermost, a column of levels or slots for each. The handle of an element reaches its whole
column, and the targets of a reduction reach every element on their level.

- `Field.eq_table`: such data is determined by the values of all elements and columns;
- `index?_column`: the handle of an element, moved along the column, stands at the entry;
- `levelTargets_eq`: the targets of all levels, and what they reach.
-/
import Mathlib.Tactic
import Stencil.Mesh.Nabla
import Stencil.Proofs.Access.Contracts
import Stencil.Proofs.Access.Ownership

namespace Stencil

open Layout

/-! ## Data of elements and columns -/

namespace Field

variable {α : Type}

/-- the flat data of `h` elements with `k` entries each -/
def table (h k : Nat) (f : Nat → Nat → α) : Array α := Array.ofFn fun p : Fin (h * k) => f (p / k) (p % k)

@[simp] theorem size_table (h k : Nat) (f : Nat → Nat → α) : (table h k f).size = h * k := Array.size_ofFn

theorem column_lt {h k i l : Nat} (hi : i < h) (hl : l < k) : i * k + l < h * k :=
  calc i * k + l < i * k + k := Nat.add_lt_add_left hl _
    _ = (i + 1) * k := (Nat.succ_mul i k).symm
    _ ≤ h * k := Nat.mul_le_mul_right k hi

theorem getElem?_table {h k i l : Nat} (f : Nat → Nat → α) (hi : i < h) (hl : l < k) :
    (table h k f)[i * k + l]? = some (f i l) := by
  have hdiv : (i * k + l) / k = i := by
    rw [Nat.mul_comm, Nat.mul_add_div (Nat.zero_lt_of_lt hl), Nat.div_eq_of_lt hl, Nat.add_zero]
  have hmod : (i * k + l) % k = l := by rw [Nat.mul_comm, Nat.mul_add_mod, Nat.mod_eq_of_lt hl]
  have hlt : i * k + l < (table h k f).size := by rw [size_table]; exact column_lt hi hl
  rw [Array.getElem?_eq_getElem hlt]
  simp only [table, Array.getElem_ofFn, hdiv, hmod]

/-- data is determined by the entries of all elements -/
theorem eq_table {h k : Nat} {f : Nat → Nat → α} {data : Array α} (hs : data.size = h * k)
    (hv : ∀ i < h, ∀ l < k, data[i * k + l]? = some (f i l)) : data = table h k f := by
  apply Array.ext_getElem?
  intro p
  by_cases hp : p < h * k
  · have hk : 0 < k := Nat.pos_of_ne_zero fun e => by rw [e, Nat.mul_zero] at hp; omega
    have hi : p / k < h := (Nat.div_lt_iff_lt_mul hk).2 hp
    have hl : p % k < k := Nat.mod_lt p hk
    have hsplit : p / k * k + p % k = p := Nat.div_add_mod' p k
    have h1 := hv (p / k) hi (p % k) hl
    have h2 := getElem?_table f hi hl
    rw [hsplit] at h1 h2
    rw [h1, h2]
  · rw [Array.getElem?_eq_none (by omega), Array.getElem?_eq_none (by rw [size_table]; omega)]

end Field

/-! ## Views -/

namespace View

variable {v : View} {a b d : Dim} {n m : UInt64}

theorem exists_coordinates (hab : a ≠ b) {i j : Nat} (hi : i < n.toNat) (hj : j < m.toNat) :
    ∃ x : Dim → UInt64, InRange [(a, n), (b, m)] x ∧ (x a).toNat = i ∧ (x b).toNat = j ∧
      rowPosition [(a, n), (b, m)] x = i * m.toNat + j := by
  have hn := n.toNat_lt
  have hm := m.toNat_lt
  have hiw : (UInt64.ofNat i).toNat = i := UInt64.toNat_ofNat_of_lt' (by simp only [UInt64.size]; omega)
  have hjw : (UInt64.ofNat j).toNat = j := UInt64.toNat_ofNat_of_lt' (by simp only [UInt64.size]; omega)
  let x : Dim → UInt64 := fun k => if k = a then UInt64.ofNat i else UInt64.ofNat j
  have hxa : x a = UInt64.ofNat i := if_pos rfl
  have hxb : x b = UInt64.ofNat j := if_neg fun e => hab e.symm
  refine ⟨x, ?_, by rw [hxa, hiw], by rw [hxb, hjw], ?_⟩
  · simp only [InRange, List.mem_cons, List.not_mem_nil, or_false]
    rintro e (rfl | rfl)
    · rw [hxa, UInt64.lt_iff_toNat_lt, hiw]; exact hi
    · rw [hxb, UInt64.lt_iff_toNat_lt, hjw]; exact hj
  · simp only [rowPosition, rowSteps, offsetOf, List.map_cons, List.map_nil, List.sum_cons, List.sum_nil, volume_cons,
      volume_nil, hxa, hxb, hiw, hjw]
    ring

/-- the view is one of elements with a column along `b` each -/
structure Columns (v : View) (access : Access) (storage : Storage) (b : Dim) (n m : UInt64) : Prop where
  rowMajor : v.RowMajor [(.horizontal, n), (b, m)]
  access : v.access = access
  storage : v.storage = storage
  size : n.toNat * m.toNat ≤ signedMax

variable {access : Access} {storage : Storage}

theorem Columns.ne (h : v.Columns access storage b n m) : Dim.horizontal ≠ b := by
  have := h.rowMajor.nodup
  simp only [List.map_cons, List.map_nil, List.nodup_cons, List.mem_singleton] at this
  exact this.1

theorem Columns.get?_bounds (h : v.Columns access storage b n m) :
    v.bounds.get? .horizontal = some n ∧ v.bounds.get? b = some m := by
  refine ⟨DimMap.get?_eq_some_of_mem ?_, DimMap.get?_eq_some_of_mem ?_⟩
  · rw [h.rowMajor.bounds]; simp
  · rw [h.rowMajor.bounds]; simp

theorem Columns.contains (h : v.Columns access storage b n m) :
    v.strides.contains .horizontal = true ∧ v.strides.contains b = true := by
  have hkeys : v.strides.keys = [Dim.horizontal, b] := by simp [DimMap.keys, h.rowMajor.strides, rowSteps]
  exact ⟨DimMap.contains_iff.2 (by simp [hkeys]), DimMap.contains_iff.2 (by simp [hkeys])⟩

/-- **The handle of an element**, moved along the column, stands at the entry. -/
theorem Columns.index?_column (h : v.Columns access storage b n m) {i : UInt64} (hi : i < n) {j : Nat}
    (hj : j < m.toNat) : ((v.elementOrigin .horizontal i).shiftBy (v.strides.stepOf b) (Int64.ofNat j)).index? =
      some (i.toNat * m.toNat + j) := by
  have hi' := UInt64.lt_iff_toNat_lt.1 hi
  obtain ⟨x, hx, hxa, hxb, hposition⟩ := exists_coordinates h.ne hi' hj
  have hlt := Field.column_lt hi' hj
  have hcell := index?_cell_first h.rowMajor hx (by have := h.size; omega) (List.Perm.refl _)
  rw [hposition, UInt64.toNat_inj.1 hxa] at hcell
  rw [← hcell]
  simp only [cellMoves, List.map_cons, List.map_nil, toInt64_eq_ofNat, hxb]
  rfl

theorem RowMajor.stepOf_eq_zero {dims : List (Dim × UInt64)} (h : v.RowMajor dims) (hd : d ∉ dims.map Prod.fst) :
    v.strides.stepOf d = 0 := by
  have hnone : v.strides.get? d = none := by
    refine DimMap.find_eq_none.2 ?_
    rw [h.strides, List.map_map]
    exact fun hmem => hd (by rwa [← map_fst_rowSteps])
  rw [DimMap.stepOf, hnone, Option.getD_none]

theorem Columns.checkMember (h : v.Columns access storage b n m) (hm : access = .writable → 0 < m.toNat)
    {extent : UInt64} (hextent : extent ≤ n) : v.checkMember .horizontal extent storage = .ok () := by
  have hmem : (Dim.horizontal, m.toNat) ∈ rowSteps [(Dim.horizontal, n), (b, m)] := by simp [rowSteps]
  have hstep := h.rowMajor.get?_strides hmem
  have hbound := h.get?_bounds.1
  have hnot : ¬ n < extent := UInt64.not_lt.2 hextent
  have ha := h.access
  cases access with
  | readOnly =>
    simp only [View.checkMember, h.storage, ha, DimMap.contains, hstep, hbound, hnot, Option.isSome_some, if_true,
      if_false]
    rfl
  | writable =>
    have hpos : 0 < Int64.ofNat m.toNat := by
      rw [Int64.lt_iff_toInt_lt, h.rowMajor.toInt_step hmem]
      exact Int.natCast_pos.2 (hm rfl)
    simp only [View.checkMember, View.upperBound, h.storage, ha, hstep, hbound, hnot, hpos, Option.any_some,
      decide_true, if_true, if_false, bind, Except.bind]
    rfl

/-! ## Making such views -/

theorem columns_of_resolve {r : ResolvedLayout} (hr : (rowMajor [(.horizontal, n), (b, m)]).resolve = .ok r)
    (hsize : n.toNat * m.toNat ≤ signedMax) {length : Nat} (hlen : n.toNat * m.toNat ≤ length) (access : Access)
    (storage : Storage) : (ofParts access length r.strides r.bounds storage).Columns access storage b n m := by
  have hspan : r.span = n.toNat * m.toNat := by simpa using (resolve_rowMajor.1 hr).2.2.2.2.1
  exact ⟨(ofLayout_rowMajor hr (hspan ▸ hlen) access storage).2, rfl, rfl, hsize⟩

theorem Columns.upperBound (h : v.Columns access storage b n m) : v.upperBound b = .ok m := by
  simp only [View.upperBound, h.get?_bounds.2]

theorem Columns.rename (h : v.Columns access storage b n m) {c : Dim} (hbc : b ≠ c) (hc : c ≠ .horizontal) :
    ∃ v', v.rename b c = .ok v' ∧ v'.Columns access storage c n m := by
  have hnew : c ∉ [(Dim.horizontal, n), (b, m)].map Prod.fst := by
    simp only [List.map_cons, List.map_nil, List.mem_cons, List.not_mem_nil, or_false]
    rintro (e | e)
    · exact hc e
    · exact hbc e.symm
  obtain ⟨v', hv, hrow, ha, -, hs⟩ := h.rowMajor.rename hbc (by simp) hnew
  have hdims : DimMap.relabel b c [(Dim.horizontal, n), (b, m)] = [(Dim.horizontal, n), (c, m)] := by
    simp [DimMap.relabel, h.ne]
  rw [hdims] at hrow
  exact ⟨v', hv, hrow, ha.trans h.access, hs.trans h.storage, h.size⟩

theorem ofLayout_columns {length : Nat} (hm : m.toNat ≤ signedMax) (hsize : n.toNat * m.toNat ≤ signedMax)
    (hlen : n.toNat * m.toNat ≤ length) (hb : Dim.horizontal ≠ b) (storage : Storage) :
    ∃ v, ofLayout .readOnly length (rowMajor [(.horizontal, n), (b, m)]) storage = .ok v ∧
      v.Columns .readOnly storage b n m := by
  obtain ⟨r, hr, hspan⟩ := resolve_columns hb hm (hsize.trans (by decide))
  have hview := (ofLayout_rowMajor hr (hspan ▸ hlen) .readOnly storage).1
  exact ⟨_, hview, columns_of_resolve hr hsize hlen .readOnly storage⟩

theorem slots_columns {length : Nat} (hm : m.toNat ≤ signedMax) (hsize : n.toNat * m.toNat ≤ signedMax)
    (hlen : n.toNat * m.toNat ≤ length) {slot : Dim} (hn : Dim.neighbor ≠ slot) (hh : slot ≠ .horizontal)
    (storage : Storage) :
    ∃ v, (ofLayout .readOnly length (rowMajor [(.horizontal, n), (.neighbor, m)]) storage >>=
      fun v => v.rename .neighbor slot) = .ok v ∧ v.Columns .readOnly storage slot n m := by
  obtain ⟨v, hview, hcols⟩ := ofLayout_columns hm hsize hlen (show Dim.horizontal ≠ .neighbor by decide) storage
  obtain ⟨v', hv, hcols'⟩ := hcols.rename hn hh
  exact ⟨v', by rw [hview]; exact hv, hcols'⟩

/-! ## One entry for each element -/

theorem ofElements_rowMajor (access : Access) (length : Nat) (storage : Storage) :
    (ofElements access length storage).RowMajor [(.horizontal, clamp length)] := by
  have hvol : volume [(Dim.horizontal, clamp length)] = min length wordMax := by simp [toNat_clamp]
  refine ⟨by simp, hvol.le.trans (Nat.min_le_right _ _), ?_, hvol.le.trans (Nat.min_le_left _ _), rfl, rfl, rfl⟩
  simp only [rowSteps, volume_nil, List.mem_cons, List.not_mem_nil, or_false]
  rintro s rfl
  show 1 ≤ signedMax
  decide

theorem index?_ofElements {length : Nat} (access : Access) (storage : Storage) {i : UInt64} (hi : i.toNat < length)
    (hsigned : i.toNat ≤ signedMax) : ((ofElements access length storage).elementOrigin .horizontal i).index? =
      some i.toNat := by
  have h := ofElements_rowMajor access length storage
  have hx : InRange [(Dim.horizontal, clamp length)] fun _ => i := by
    simp only [InRange, List.mem_cons, List.not_mem_nil, or_false]
    rintro e rfl
    have hlt : signedMax < wordMax := by decide
    rw [UInt64.lt_iff_toNat_lt, toNat_clamp]
    omega
  have hposition : rowPosition [(Dim.horizontal, clamp length)] (fun _ => i) = i.toNat := by
    simp [rowPosition, rowSteps, offsetOf]
  have hcell := index?_cell_first h hx (by rwa [hposition]) (List.Perm.refl _)
  rw [hposition] at hcell
  exact hcell

theorem writeIndex?_ofElements {length : Nat} (storage : Storage) {i : UInt64} (hi : i.toNat < length)
    (hsigned : i.toNat ≤ signedMax) :
    ((ofElements .writable length storage).elementOrigin .horizontal i).writeIndex? = some i.toNat := by
  have hwritable := access_elementOrigin (ofElements .writable length storage) .horizontal i
  rw [Handle.writeIndex?, hwritable]
  exact index?_ofElements .writable storage hi hsigned

/-- the handle of an element of a buffer that is written reaches no other entry, wherever it is moved -/
theorem eq_of_index?_ofElements {length : Nat} {storage : Storage} {i : UInt64} {offset : Int64} {q : Nat}
    (h : (((ofElements .writable length storage).elementOrigin .horizontal i).moveTo offset).index? = some q) :
    q = i.toNat := by
  obtain ⟨g, hg, hadmits, hq⟩ := admits_of_index? rfl h
  obtain ⟨step, hstep, -, rfl⟩ := Guard.forElement_eq_some.1 hg
  obtain rfl : step = 1 := (Option.some.inj hstep).symm
  -- with a step of one, an offset belongs to the element of its number
  have hothers : Guard.otherStrides (ofElements .writable length storage).strides .horizontal = [] := by
    simp [Guard.otherStrides, ofElements, ofParts, DimMap.single]
  have hbase : (ofElements .writable length storage).offset = 0 := rfl
  simp only [Guard.admits, Guard.elementOf, Guard.elementAlong, hothers, hbase, List.filter_nil, List.foldl_nil,
    beq_iff_eq, hq] at hadmits
  have hone : Int64.toInt 1 = 1 := rfl
  have hfirst : UInt64.ofInt (Int64.toInt 0 / 1) + i = i := UInt64.zero_add i
  rw [hone, Int.ediv_one, hfirst] at hadmits
  have hlt : (q : Int) < 2 ^ 63 := hq ▸ offset.toInt_lt
  rw [← hadmits, uint64_ofInt_natCast, UInt64.toNat_ofNat_of_lt' (by simp only [UInt64.size]; omega)]

theorem checkMember_ofElements {access : Access} {length : Nat} {extent : UInt64} (hextent : extent.toNat ≤ length)
    (storage : Storage) : (ofElements access length storage).checkMember .horizontal extent storage = .ok () := by
  have hlong : (ofElements access length storage).LongEnough .horizontal extent := by
    intro bound hbound
    obtain rfl : clamp length = bound := Option.some.inj hbound
    have hword := toNat_le_wordMax extent
    rw [UInt64.le_iff_toNat_le, toNat_clamp]
    omega
  exact checkMember_eq_ok_iff.2 ⟨rfl, fun _ => ⟨⟨1, rfl, by decide⟩, rfl, hlong⟩, fun _ _ => hlong⟩

theorem checkMember_ofElements_of_lt {access : Access} {length : Nat} {extent : UInt64}
    (hextent : length < extent.toNat) (storage : Storage) :
    (ofElements access length storage).checkMember .horizontal extent storage =
      .error (.extentMismatch "h" extent.toNat length) := by
  have hword := toNat_le_wordMax extent
  have hlength : (clamp length).toNat = length := toNat_clamp_of_le (by omega)
  have hlt : clamp length < extent := by rwa [UInt64.lt_iff_toNat_lt, hlength]
  have hviolates : (ofElements access length storage).Violates .horizontal extent storage
      (.extentMismatch "h" extent.toNat (clamp length).toNat) :=
    .extent rfl (fun _ => ⟨1, rfl, by decide⟩) (fun _ => rfl) rfl hlt
  rw [hlength] at hviolates
  exact hviolates.checkMember

end View

theorem Connectivity.view_columns {t : Connectivity} {n : Nat} (hrows : t.rows = n) (hn : n ≤ wordMax)
    (hdegree : t.maxDegree ≤ signedMax) (hsize : n * t.maxDegree ≤ signedMax) (storage : Storage) :
    ∃ v, t.view .horizontal .neighbor storage = .ok v ∧
      v.Columns .readOnly storage .neighbor (clamp n) (clamp t.maxDegree) := by
  subst hrows
  have hrows : (clamp t.rows).toNat = t.rows := toNat_clamp_of_le hn
  have hslots : (clamp t.maxDegree).toNat = t.maxDegree := toNat_clamp_of_le (hdegree.trans (by decide))
  exact View.ofLayout_columns (by rw [hslots]; exact hdegree) (by rw [hrows, hslots]; exact hsize)
    (by rw [hrows, hslots, t.size_eq]) (by decide) storage

/-! ## Fields and targets -/

/-- the field holds `n` elements with `k` levels each -/
structure Field.HasShape {α : Type} (f : Field α) (n : Nat) (k : UInt64) : Prop where
  elements : f.h = clamp n
  levels : f.k = k
  size : f.data.size = n * k.toNat

/-- the field of a function of element and level -/
def Field.tabulate {α : Type} (n : Nat) (k : UInt64) (f : Nat → Nat → α) : Field α := ⟨clamp n, k, table n k.toNat f⟩

theorem Field.hasShape_tabulate {α : Type} (n : Nat) (k : UInt64) (f : Nat → Nat → α) : (tabulate n k f).HasShape n k :=
  ⟨rfl, rfl, size_table _ _ _⟩

theorem Field.HasShape.with_table {α : Type} {f : Field α} {n : Nat} {k : UInt64} (h : f.HasShape n k)
    (g : Nat → Nat → α) : { f with data := table n k.toNat g } = tabulate n k g := by
  rw [tabulate, h.elements, h.levels]

theorem Field.HasShape.view_columns {α : Type} {f : Field α} {n : Nat} {k : UInt64} (h : f.HasShape n k)
    (hn : n ≤ wordMax) (hk : k.toNat ≤ signedMax) (hsize : n * k.toNat ≤ signedMax) (access : Access)
    (storage : Storage) :
    ∃ v, f.view access storage = .ok v ∧ v.Columns access storage .vertical (clamp n) k := by
  obtain ⟨fh, fk, data⟩ := f
  obtain ⟨rfl, rfl, hdata⟩ := h
  have hclamp : (clamp n).toNat = n := toNat_clamp_of_le hn
  have hword : (clamp n).toNat * fk.toNat ≤ signedMax := by rwa [hclamp]
  obtain ⟨r, hr, -⟩ := resolve_columns (show Dim.horizontal ≠ .vertical by decide) hk (hword.trans (by decide))
  have hlen : (clamp n).toNat * fk.toNat ≤ data.size := by rw [hclamp]; exact hdata.ge
  refine ⟨_, ?_, View.columns_of_resolve hr hword hlen access storage⟩
  simp only [Field.view, Field.layout, hr]

namespace Nabla

theorem mapM_eq_ok {ε α β : Type} {f : α → Except ε β} {g : α → β} {l : List α} (h : ∀ a ∈ l, f a = .ok (g a)) :
    l.mapM f = .ok (l.map g) := by
  induction l with
  | nil => rfl
  | cons a l ih =>
    rw [List.mapM_cons, h a List.mem_cons_self, ih fun b hb => h b (List.mem_cons_of_mem a hb)]
    rfl

/-- the target reaches each of `n` elements on a level -/
def ReachesLevel (t : Neighbors) (n k : UInt64) (level : Nat) : Prop :=
  ∀ i < n.toNat, (t.element (Int64.ofNat i)).index? = some (i * k.toNat + level)

/-- there is a target for each level, which reaches all elements there -/
def ReachLevels (targets : List Neighbors) (n k : UInt64) : Prop :=
  ∀ level < k.toNat, ∃ t : Neighbors, targets[level]? = some t ∧ ReachesLevel t n k level

/-- **The targets of all levels** reach every element on every level. -/
theorem levelTargets_eq {v : View} {storage : Storage} {n k : UInt64} (h : v.Columns .readOnly storage .vertical n k) :
    ∃ targets, levelTargets v k = .ok targets ∧ ReachLevels targets n k := by
  have hstep : v.strides.step .horizontal = .ok (v.strides.stepOf .horizontal) := by
    rw [DimMap.step, if_pos h.contains.1]
  have hstep' : v.strides.step .vertical = .ok (v.strides.stepOf .vertical) := by
    rw [DimMap.step, if_pos h.contains.2]
  let target (level : Nat) : Neighbors :=
    ⟨v.origin.shiftBy (v.strides.stepOf .vertical) (Int64.ofNat level), v.strides.stepOf .horizontal, n⟩
  have htarget (level : Nat) : (do (← v.shifted .vertical (Int64.ofNat level)).neighbors) = .ok (target level) := by
    have hin : Dim.vertical ∈ v.bounds.keys ∨ v.bounds.size < maxDims := by
      refine Or.inl (DimMap.contains_iff.1 ?_)
      rw [DimMap.contains, h.get?_bounds.2]
      rfl
    obtain ⟨bounds, hb⟩ : ∃ bounds, v.bounds.insert .vertical (shiftBound k (Int64.ofNat level)) = .ok bounds := by
      rw [DimMap.insert, dif_pos hin]
      exact ⟨_, rfl⟩
    have hbound : bounds.get? .horizontal = some n := by
      rw [DimMap.get?_insert hb, if_neg (by decide)]
      exact h.get?_bounds.1
    simp only [View.shifted, View.neighbors, View.upperBound, hstep, hstep', h.get?_bounds.2, hb, hbound, bind,
      Except.bind, pure, Except.pure]
    rfl
  refine ⟨(List.range k.toNat).map target, mapM_eq_ok fun level _ => htarget level, ?_⟩
  intro level hlevel
  refine ⟨target level, by simp [hlevel], ?_⟩
  intro i hi
  obtain ⟨x, hx, hxh, hxk, hposition⟩ := View.exists_coordinates h.ne hi hlevel
  have hpath : [(v.strides.stepOf .vertical, Int64.ofNat level), (v.strides.stepOf .horizontal, Int64.ofNat i)].Perm
      (v.cellMoves [(.horizontal, n), (.vertical, k)] x) := by
    simp only [View.cellMoves, List.map_cons, List.map_nil, toInt64_eq_ofNat, hxh, hxk]
    exact List.Perm.swap _ _ _
  have hmoved : (target level).element (Int64.ofNat i) = v.origin.moveTo (Int64.ofNat (i * k.toNat + level)) := by
    rw [← hposition, ← h.rowMajor.shiftAll_cell (show v.origin.offset = 0 from h.rowMajor.start) hpath]
    rfl
  have hlt := Field.column_lt hi hlevel
  have hsize := h.size
  have hroom := h.rowMajor.room
  simp only [volume_cons, volume_nil, Nat.mul_one] at hroom
  rw [hmoved]
  exact Handle.index?_unguarded rfl (hlt.trans_le hroom) (by omega)

end Nabla

end Stencil
