/-
Validated tables. Validation reads the entries of a table one after the other; a reduction reads them row by row through
handles.

- `firstOffender_eq_some_iff`: the entry that validation reports is the first that is not admitted;
- `named_eq_some`: an admitted entry names a value, which is read there;
- `eval_valueFold`: the unchecked reduction over a row whose entries are admitted;
- `eval_validated`: over a row of a validated table it has no fault, and is the left fold of the values that are named.
-/
import Mathlib.Tactic
import Stencil.Proofs.Mesh.Rows
import Stencil.Proofs.Mesh.Values

namespace Stencil

namespace Connectivity

variable {t : Connectivity} {count : UInt64} {v : Int32}

/-! ## What validation says -/

theorem admits_iff : admits count v = true ↔ v = skipValue ∨ (0 ≤ v.toInt ∧ v.toInt < count.toNat) := by
  simp [admits]

theorem firstOffender_eq_some_iff {l : List Int32} {i p : Nat} :
    firstOffender count l i = some (p, v) ↔ ∃ j, p = i + j ∧ l[j]? = some v ∧ admits count v = false ∧
      ∀ k < j, ∀ w, l[k]? = some w → admits count w = true := by
  induction l generalizing i with
  | nil => simp [firstOffender]
  | cons a l ih =>
    rw [firstOffender]
    by_cases ha : admits count a = true
    · rw [if_pos ha, ih]
      constructor
      · rintro ⟨j, rfl, hj, hv, hbefore⟩
        refine ⟨j + 1, by omega, hj, hv, ?_⟩
        intro k hk w hw
        cases k with
        | zero => exact (Option.some.inj hw) ▸ ha
        | succ k => exact hbefore k (by omega) w hw
      · rintro ⟨j, rfl, hj, hv, hbefore⟩
        cases j with
        | zero =>
          rw [Option.some.inj hj, hv] at ha
          cases ha
        | succ j => exact ⟨j, by omega, hj, hv, fun k hk w hw => hbefore (k + 1) (by omega) w hw⟩
    · rw [if_neg ha]
      constructor
      · intro h
        cases h
        exact ⟨0, rfl, rfl, by simpa using ha, fun k hk => absurd hk (Nat.not_lt_zero k)⟩
      · rintro ⟨j, rfl, hj, -, hbefore⟩
        cases j with
        | zero => rw [Option.some.inj hj, Nat.add_zero]
        | succ j => exact absurd (hbefore 0 (Nat.succ_pos j) a rfl) ha

/-! ## Unchecked reductions -/

variable {ρ : Type} {values : Array ρ}

/-- the value that an entry names -/
def named (values : Array ρ) (entry : Int32) : Option ρ := entry.toInt.toNat?.bind fun i => values[i]?

/-- the reduction of the values that a row names, along the axis of its neighbours -/
def valueFold (degree : Extent) (values : Array ρ) (init : ρ) (g : ρ → ρ → ρ) : NeighborFold (Except Fault) ρ where
  slot := .neighbor
  degree
  skips := true
  start := .ok init
  combine := fun acc x => .ok (g acc x)
  extract := fun _ n => n.read values

/-- the elements of a buffer as targets -/
def targets (length : Nat) (storage : Storage) : Neighbors :=
  ⟨(View.ofElements .readOnly length storage).origin, 1, clamp length⟩

theorem neighbors_ofElements (length : Nat) (storage : Storage) :
    (View.ofElements .readOnly length storage).neighbors = .ok (targets length storage) := rfl

theorem index?_targets {length n : Nat} {storage : Storage} (hn : n < length) (hsmall : n ≤ signedMax) :
    ((targets length storage).element (Int64.ofNat n)).index? = some n := by
  have hmoved : (targets length storage).element (Int64.ofNat n) =
      (View.ofElements .readOnly length storage).origin.moveTo (Int64.ofNat n) := by
    simp only [targets, Neighbors.element, Handle.shiftBy, Int64.one_mul]
    exact congrArg _ (Int64.zero_add _)
  rw [hmoved]
  exact Handle.index?_unguarded rfl hn hsmall

/-- an entry that is admitted and marks no missing neighbour names a value, and the target there has it -/
theorem named_eq_some (hadmits : admits (clamp values.size) v = true) (hv : v ≠ skipValue) (storage : Storage) :
    ∃ x, named values v = some x ∧ ((targets values.size storage).element v.toInt64).read values = .ok x := by
  obtain ⟨hpos, hlt⟩ := (admits_iff.mp hadmits).resolve_left hv
  have hsmall := v.toInt_lt
  obtain ⟨n, hn⟩ := Int.eq_ofNat_of_zero_le hpos
  have hsize : n < values.size := by
    rw [toNat_clamp] at hlt
    omega
  have hindex : ((targets values.size storage).element (Int64.ofNat n)).index? = some n :=
    index?_targets hsize (by simp only [signedMax]; omega)
  have hvalue := Array.getElem?_eq_getElem hsize
  refine ⟨values[n], by rw [named, hn]; exact hvalue, ?_⟩
  rw [toInt64_of_nonneg hpos, hn, Int.toNat_natCast]
  exact Handle.read_eq_ok hindex hvalue

/-- what an entry adds to a reduction: the value that it names, or nothing when it marks a missing neighbour -/
def contribution (values : Array ρ) (entry : Int32) : Option ρ :=
  if entry = skipValue then none else named values entry

/-- the values that a row names are the contributions of its entries -/
theorem mapM_named {row : List Int32} (h : ∀ v ∈ row, admits (clamp values.size) v = true) :
    (row.filter fun v => v ≠ skipValue).mapM (named values) = some (row.filterMap (contribution values)) := by
  induction row with
  | nil => rfl
  | cons v row ih =>
    have hrest := ih fun w hw => h w (List.mem_cons_of_mem v hw)
    by_cases hv : v = skipValue
    · rw [List.filter_cons_of_neg (by simpa using hv), hrest, List.filterMap_cons, contribution, if_pos hv]
    · obtain ⟨x, hx, -⟩ := named_eq_some (h v List.mem_cons_self) hv .host
      rw [List.filter_cons_of_pos (by simpa using hv), List.mapM_cons, hx, hrest, List.filterMap_cons, contribution,
        if_neg hv, hx]
      rfl

theorem skips_iff {f : NeighborFold (Except Fault) ρ} (hf : f.skips = true) : f.Skips v ↔ v = skipValue := by
  have hmark : TableEntry.toInt v = missingNeighbor ↔ v = skipValue := toInt_eq_missing_iff
  rw [NeighborFold.Skips, hf, hmark]
  simp

theorem slotStep_valueFold {t : Connectivity} {c : Bundle (Handle × Int64)} {j : Nat}
    (hentry : t.entryUnder (c.after j) = .ok v) (hadmits : admits (clamp values.size) v = true) (degree : Extent)
    (init acc : ρ) (g : ρ → ρ → ρ) (storage : Storage) :
    (valueFold degree values init g).slotStep c t.entryUnder (targets values.size storage) acc j =
      pure ((contribution values v).elim acc (g acc)) := by
  unfold contribution
  by_cases hskip : v = skipValue
  · rw [NeighborFold.slotStep_of_skips hentry ((skips_iff rfl).mpr hskip), if_pos hskip, Option.elim_none]
  · obtain ⟨x, hx, hread⟩ := named_eq_some hadmits hskip storage
    rw [NeighborFold.slotStep_of_not_skips hentry (mt (skips_iff rfl).mp hskip), if_neg hskip, hx, Option.elim_some]
    simp only [valueFold, TableEntry.widen_int32, hread]
    rfl

/-- the unchecked reduction over a row whose entries are admitted is the left fold of their contributions -/
theorem eval_valueFold {t : Connectivity} {v : View}
    (h : v.RowMajor [(.horizontal, clamp t.rows), (.neighbor, clamp t.maxDegree)]) (hsize : t.data.size ≤ signedMax)
    {r : Nat} (hr : r < t.rows) (hadmits : ∀ j < t.maxDegree, admits (clamp values.size) (t.entry r j) = true)
    {degree : Extent} (hdegree : degree.get.toNat = t.maxDegree) (init : ρ) (g : ρ → ρ → ρ) (storage : Storage) :
    (valueFold degree values init g).eval (.member (v.moved .horizontal (Int64.ofNat r)).origin)
      (.member (v.moved .horizontal (Int64.ofNat r)).strides) t.entryUnder (targets values.size storage) =
        .ok (.ok ((((List.range t.maxDegree).map (t.entry r)).filterMap (contribution values)).foldl g init)) := by
  have hslot : ∀ acc, ∀ j < (valueFold degree values init g).degree.get.toNat,
      (valueFold degree values init g).slotStep ((v.moved .horizontal (Int64.ofNat r)).center.along .neighbor)
        t.entryUnder (targets values.size storage) acc j = pure ((contribution values (t.entry r j)).elim acc (g acc)) := by
    intro acc j hj
    have hj : j < t.maxDegree := hdegree ▸ hj
    exact slotStep_valueFold (entryUnder_after h hsize hr hj) (hadmits j hj) degree init acc g storage
  have heval := BoundFold.eval_eq_foldl rfl hslot
  have hbind : (valueFold degree values init g).eval (.member (v.moved .horizontal (Int64.ofNat r)).origin)
      (.member (v.moved .horizontal (Int64.ofNat r)).strides) t.entryUnder (targets values.size storage) = _ :=
    NeighborFold.eval_of_carries (c := (v.moved .horizontal (Int64.ofNat r)).center) (carries_slot h r)
  rw [hbind, List.filterMap_map, ← hdegree]
  exact congrArg Except.ok heval

/-- **Validation makes the unchecked reduction safe.** Over any row of a table that passed validation against the number
of values, it has no fault, and is the left fold of the values that the entries of the row name in stored order, those
that mark missing neighbours left out. -/
theorem eval_validated {t : Connectivity} {values : Array ρ} (hsize : t.data.size ≤ signedMax) (hrows : t.rows ≤ wordMax)
    (hvalid : t.validate (clamp values.size) = .ok ()) {r : Nat} (hr : r < t.rows) {degree : Extent}
    (hdegree : degree.get = clamp t.maxDegree) (init : ρ) (g : ρ → ρ → ρ) (storage storage' : Storage) :
    ∃ v w target row xs, t.view .horizontal .neighbor storage = .ok v ∧
      v.shifted .horizontal (Int64.ofNat r) = .ok w ∧
      (View.ofElements .readOnly values.size storage').neighbors = .ok target ∧
      t.row r = .ok row ∧ (row.filter fun e => e ≠ skipValue).mapM (named values) = some xs ∧
      (valueFold degree values init g).eval (.member w.origin) (.member w.strides) t.entryUnder target =
        .ok (.ok (xs.foldl g init)) := by
  have hrow : 0 < t.rows := Nat.zero_lt_of_lt hr
  obtain ⟨v, hview, h⟩ := view_eq_ok hrow hsize (show Dim.horizontal ≠ .neighbor by decide) storage
  have hcount : degree.get.toNat = t.maxDegree := hdegree ▸ toNat_degree hrow hsize
  have hadmits : ∀ j < t.maxDegree, admits (clamp values.size) (t.entry r j) = true := by
    intro j hj
    exact validate_eq_ok_iff.mp hvalid _ (Array.mem_toList_iff.mpr (Array.mem_of_getElem? (getElem?_entry hr hj)))
  have hentries : ∀ e ∈ (List.range t.maxDegree).map (t.entry r), admits (clamp values.size) e = true := by
    intro e he
    obtain ⟨j, hj, rfl⟩ := List.mem_map.mp he
    exact hadmits j (List.mem_range.mp hj)
  exact ⟨v, _, _, _, _, hview, shifted_row h r, neighbors_ofElements _ _,
    row_eq_ok (hsize.trans (by decide)) hrows hr, mapM_named hentries,
    eval_valueFold h hsize hr hadmits hcount init g storage'⟩

/-- the second row of a table of two rows, with three values as digits -/
theorem eval_validated_digits :
    let t : Connectivity := ⟨2, 3, #[2, -1, -1, 0, -1, 2], rfl⟩
    ∃ v w target row xs, t.view .horizontal .neighbor .host = .ok v ∧
      v.shifted .horizontal (Int64.ofNat 1) = .ok w ∧
      (View.ofElements .readOnly 3 .host).neighbors = .ok target ∧
      t.row 1 = .ok row ∧ (row.filter fun e => e ≠ skipValue).mapM (named #[7, 8, 9]) = some xs ∧
      (valueFold (.fixed 3) #[7, 8, 9] 0 fun acc x => 10 * acc + x).eval (.member w.origin) (.member w.strides)
        t.entryUnder target = .ok (.ok (xs.foldl (fun acc x => 10 * acc + x) (0 : Nat))) := by
  intro t
  have hvalid : t.validate (clamp (#[7, 8, 9] : Array Nat).size) = .ok () := by decide
  have hrow : 1 < t.rows := by decide
  exact eval_validated (by decide) (by decide) hvalid hrow rfl 0 _ .host .host

end Connectivity

end Stencil
