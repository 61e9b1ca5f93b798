/-
Positions of coordinates. Coordinates along the axes of a field stand at an offset, the sum of the strides times the
coordinates. Moves along axes lead where the distances travelled along each axis lead together, in whatever order and
in however many steps they are made.

- `shiftAll_path`: where a handle stands after moves along axes;
- `spans_of_ofLayout`: a view over a layout stands at the start of a buffer that holds all coordinates in range.
-/
import Mathlib.Tactic
import Stencil.Proofs.Access.RowMajor

namespace Stencil

namespace DimMap

/-! ## Positions -/

/-- the offset of coordinates along axes with strides, over the integers -/
def position (strides : DimMap Int64) (x : Dim → Int) : Int := (strides.entries.map fun e => e.2.toInt * x e.1).sum

variable {strides : DimMap Int64} {x y : Dim → Int}

theorem position_congr (h : ∀ d ∈ strides.keys, x d = y d) : strides.position x = strides.position y := by
  refine congrArg List.sum (List.map_congr_left ?_)
  intro e he
  rw [h e.1 (mem_keys_of_mem he)]

@[simp] theorem position_zero : strides.position (fun _ => 0) = 0 := by simp [position]

theorem position_add (x y : Dim → Int) :
    strides.position (fun d => x d + y d) = strides.position x + strides.position y := by
  simp only [position, Int.mul_add]
  exact List.sum_map_add

theorem position_single (d : Dim) (c : Int) :
    strides.position (fun k => if k = d then c else 0) = (strides.stepOf d).toInt * c := by
  obtain ⟨entries, nodup, hroom⟩ := strides
  simp only [position, stepOf, get?]
  clear hroom
  induction entries with
  | nil => simp [find]
  | cons e entries ih =>
    obtain ⟨k, s⟩ := e
    simp only [List.map_cons, List.nodup_cons, List.sum_cons, find] at nodup ih ⊢
    rw [ih nodup.2]
    by_cases hk : k = d
    · rw [if_pos hk, if_pos hk, find_eq_none.2 (hk ▸ nodup.1)]
      simp
    · rw [if_neg hk, if_neg hk]
      simp

theorem position_mono (hnonneg : ∀ e ∈ strides.entries, 0 ≤ e.2.toInt) (h : ∀ d ∈ strides.keys, x d ≤ y d) :
    strides.position x ≤ strides.position y :=
  List.sum_le_sum fun e he => mul_le_mul_of_nonneg_left (h e.1 (mem_keys_of_mem he)) (hnonneg e he)

theorem position_nonneg (hnonneg : ∀ e ∈ strides.entries, 0 ≤ e.2.toInt) (h : ∀ d ∈ strides.keys, 0 ≤ x d) :
    0 ≤ strides.position x := by
  simpa using position_mono (x := fun _ => 0) hnonneg h

/-- the extent along an axis, zero where there is no bound -/
def extent (bounds : DimMap UInt64) (d : Dim) : Int := ((bounds.get? d).getD 0).toNat

theorem extent_of_mem {bounds : DimMap UInt64} {e : Dim × UInt64} (he : e ∈ bounds.entries) :
    bounds.extent e.1 = e.2.toNat := by
  rw [extent, get?_eq_some_of_mem he, Option.getD_some]

end DimMap

/-! ## Moves along axes -/

/-- how far moves lead along an axis -/
def travelled (moves : List (Dim × Int64)) (d : Dim) : Int := (moves.map fun m => if d = m.1 then m.2.toInt else 0).sum

@[simp] theorem travelled_nil (d : Dim) : travelled [] d = 0 := rfl

@[simp] theorem travelled_cons (m : Dim × Int64) (moves : List (Dim × Int64)) (d : Dim) :
    travelled (m :: moves) d = (if d = m.1 then m.2.toInt else 0) + travelled moves d := rfl

@[simp] theorem travelled_append (moves moves' : List (Dim × Int64)) (d : Dim) :
    travelled (moves ++ moves') d = travelled moves d + travelled moves' d := by
  simp [travelled]

namespace DimMap

theorem position_travelled_append (strides : DimMap Int64) (moves : List (Dim × Int64)) (m : Dim × Int64) :
    strides.position (travelled (moves ++ [m])) =
      strides.position (travelled moves) + (strides.stepOf m.1).toInt * m.2.toInt := by
  rw [← position_single, ← position_add]
  refine position_congr fun d _ => ?_
  simp

/-- the steps that moves along axes are made of -/
def path (strides : DimMap Int64) (moves : List (Dim × Int64)) : List (Int64 × Int64) :=
  moves.map fun m => (strides.stepOf m.1, m.2)

end DimMap

theorem ofInt_stepOf_mul (strides : DimMap Int64) (d : Dim) (count : Int64) :
    Int64.ofInt ((strides.stepOf d).toInt * count.toInt) = strides.stepOf d * count := by
  rw [Int64.ofInt_mul, Int64.ofInt_toInt, Int64.ofInt_toInt]

/-- **Where moves along axes lead**: to the position of the distances travelled, in the arithmetic of words. -/
theorem Handle.shiftAll_path (h : Handle) (strides : DimMap Int64) (moves : List (Dim × Int64)) :
    h.shiftAll (strides.path moves) = h.moveTo (h.offset + .ofInt (strides.position (travelled moves))) := by
  induction moves using List.reverseRecOn with
  | nil =>
    have hzero : h.offset + .ofInt (strides.position (travelled [])) = h.offset := by
      rw [show strides.position (travelled []) = 0 from DimMap.position_zero]
      exact Int64.add_zero h.offset
    rw [hzero]
    rfl
  | append_singleton moves m ih =>
    have hlast : h.shiftAll (strides.path (moves ++ [m])) =
        (h.shiftAll (strides.path moves)).shiftBy (strides.stepOf m.1) m.2 := by
      simp [shiftAll, DimMap.path]
    rw [hlast, ih, strides.position_travelled_append, Int64.ofInt_add, ofInt_stepOf_mul, ← Int64.add_assoc]
    rfl

/-- the position of a handle at an offset inside of its buffer: beyond the largest signed word there is none -/
theorem Handle.position?_moveTo (h : Handle) {p : Int} (h0 : 0 ≤ p) (hlt : p < h.length) (hword : p ≤ wordMax) :
    (h.moveTo (.ofInt p)).position? = if p ≤ signedMax then some p.toNat else none := by
  have hsigned : (signedMax : Int) = 2 ^ 63 - 1 := rfl
  have hmax : (wordMax : Int) = 2 ^ 64 - 1 := rfl
  show (if 0 ≤ (Int64.ofInt p).toInt ∧ (Int64.ofInt p).toInt < h.length then some (Int64.ofInt p).toInt.toNat
    else none) = _
  by_cases hp : p ≤ signedMax
  · have hint : (Int64.ofInt p).toInt = p := Int64.toInt_ofInt_of_le (by omega) (by omega)
    rw [if_pos hp, hint, if_pos ⟨h0, hlt⟩]
  · have hint : (Int64.ofInt p).toInt = p - 2 ^ 64 := by
      rw [Int64.toInt_ofInt, Int.bmod_def]
      simp only [Int64.size]
      omega
    rw [if_neg hp, hint, if_neg (by omega)]

theorem Handle.index?_moveTo (h : Handle) {p : Int} (h0 : 0 ≤ p) (hlt : p < h.length) (hword : p ≤ wordMax) :
    (h.moveTo (.ofInt p)).index? =
      if (h.moveTo (.ofInt p)).admitted = true ∧ p ≤ signedMax then some p.toNat else none := by
  rw [index?, h.position?_moveTo h0 hlt hword, ite_and]

/-! ## Coordinates in range -/

namespace Layout

/-- coordinates between zero and the extents of a layout -/
def Contains (l : Layout) (x : Dim → Int) : Prop := ∀ a ∈ l.axes, 0 ≤ x a.dim ∧ x a.dim < a.extent.toNat

instance (l : Layout) (x : Dim → Int) : Decidable (l.Contains x) :=
  inferInstanceAs (Decidable (∀ a ∈ l.axes, 0 ≤ x a.dim ∧ x a.dim < a.extent.toNat))

/-- the offset of coordinates along the axes of a layout, over the integers -/
def offset (l : Layout) (x : Dim → Int) : Int :=
  ((l.axes.zip (axisStrides l.axes)).map fun e => e.2 * x e.1.dim).sum

theorem exists_last {axes : List LayoutAxis} (hnodup : (axes.map LayoutAxis.dim).Nodup) :
    ∃ x : Dim → Int, ∀ a ∈ axes, x a.dim = (a.extent.toNat - 1 : Nat) := by
  refine ⟨fun d => (((DimMap.find d (boundEntries axes)).getD 0).toNat - 1 : Nat), fun a ha => ?_⟩
  have hkeys : ((boundEntries axes).map Prod.fst).Nodup := by
    rw [boundEntries_eq, List.map_map]
    exact hnodup
  have hmem : (a.dim, a.extent) ∈ boundEntries axes := by
    rw [boundEntries_eq]
    exact List.mem_map.2 ⟨a, ha, rfl⟩
  simp only [DimMap.find_eq_some_of_mem hkeys hmem, Option.getD_some]

theorem sum_zip_eq_reach {axes : List LayoutAxis} {strides : List Nat} {x : Dim → Int}
    (hx : ∀ a ∈ axes, x a.dim = (a.extent.toNat - 1 : Nat)) :
    ((axes.zip strides).map fun e => e.2 * x e.1.dim).sum = reach axes strides := by
  induction axes generalizing strides with
  | nil => rfl
  | cons a axes ih =>
    cases strides with
    | nil => rfl
    | cons s strides =>
      rw [List.zip_cons_cons, List.map_cons, List.sum_cons, ih fun b hb => hx b (List.mem_cons_of_mem a hb),
        hx a List.mem_cons_self, reach, Nat.cast_add, Nat.cast_mul, Int.mul_comm]

/-- **The largest offset** of coordinates in range is what the axes reach. -/
theorem isGreatest_offset {l : Layout} (hnodup : (l.axes.map LayoutAxis.dim).Nodup)
    (hpos : ∀ a ∈ l.axes, a.extent ≠ 0) :
    IsGreatest (l.offset '' {x | l.Contains x}) (reach l.axes (axisStrides l.axes)) := by
  obtain ⟨last, hlast⟩ := exists_last hnodup
  have hone : ∀ a ∈ l.axes, 1 ≤ a.extent.toNat :=
    fun a ha => Nat.one_le_iff_ne_zero.2 fun e => hpos a ha (UInt64.toNat_inj.1 e)
  constructor
  · refine ⟨last, fun a ha => ?_, sum_zip_eq_reach hlast⟩
    have := hone a ha
    rw [hlast a ha]
    omega
  · rintro _ ⟨x, hx, rfl⟩
    rw [← sum_zip_eq_reach hlast]
    refine List.sum_le_sum ?_
    rintro ⟨a, s⟩ he
    have ha := (List.of_mem_zip he).1
    have hle : x a.dim ≤ last a.dim := by
      have := hx a ha
      have := hone a ha
      rw [hlast a ha]
      omega
    exact mul_le_mul_of_nonneg_left hle (Int.natCast_nonneg s)

variable {l : Layout} {r : ResolvedLayout}

/-- offsets are the positions that the resolved strides lead to -/
theorem position_eq_offset (hr : l.resolve = .ok r) (x : Dim → Int) : r.strides.position x = l.offset x := by
  obtain ⟨-, -, hfit, -, hs, -⟩ := resolve_eq_ok.1 hr
  rw [DimMap.position, hs, strideEntries, List.zip_map, List.map_map]
  refine congrArg List.sum (List.map_congr_left ?_)
  rintro ⟨a, s⟩ he
  have hsmall := hfit.strides s (List.of_mem_zip he).2
  simp only [Function.comp_apply, Prod.map, toInt_ofNat_of_le hsmall]

/-- **The span** is one more than the largest position of coordinates in range, where there are any. -/
theorem isGreatest_position (hr : l.resolve = .ok r) (hpos : ∀ a ∈ l.axes, a.extent ≠ 0) :
    IsGreatest (r.strides.position '' {x | l.Contains x}) ((r.span : Int) - 1) := by
  obtain ⟨-, hnodup, -, hspan, -, -⟩ := resolve_eq_ok.1 hr
  rw [spanOf_of_pos hpos] at hspan
  obtain ⟨-, hspan⟩ := fits_eq_some.1 hspan
  have hgreatest := isGreatest_offset hnodup hpos
  rw [show r.strides.position = l.offset from funext (position_eq_offset hr)]
  rwa [show (r.span : Int) - 1 = reach l.axes (axisStrides l.axes) by omega]

theorem Contains.extent_ne_zero {x : Dim → Int} (hx : l.Contains x) : ∀ a ∈ l.axes, a.extent ≠ 0 := by
  intro a ha hzero
  have := hx a ha
  rw [hzero] at this
  exact absurd this.2 (by simpa using this.1)

end Layout

/-- the view stands at the start of a buffer that holds all elements of the layout -/
structure View.Spans (v : View) (l : Layout) : Prop where
  start : v.offset = 0
  nodup : (l.axes.map LayoutAxis.dim).Nodup
  keys : v.strides.keys = l.axes.map LayoutAxis.dim
  bounds : v.bounds.entries = l.axes.map fun a => (a.dim, a.extent)
  nonneg : ∀ e ∈ v.strides.entries, 0 ≤ e.2.toInt
  inside : ∀ x, l.Contains x → v.strides.position x < v.length ∧ v.strides.position x ≤ wordMax

namespace View

variable {v : View} {l : Layout} {access : Access} {length : Nat} {storage : Storage}

theorem ofLayout_eq_ok : ofLayout access length l storage = .ok v ↔
    ∃ r, l.resolve = .ok r ∧ r.span ≤ length ∧ v = ofParts access length r.strides r.bounds storage := by
  unfold ofLayout
  cases l.resolve with
  | error e => simp [bind, Except.bind]
  | ok r =>
    by_cases hlen : length < r.span
    · have : ¬ r.span ≤ length := by omega
      simp [bind, Except.bind, hlen, this, throw, throwThe, MonadExceptOf.throw]
    · have : r.span ≤ length := by omega
      simp [bind, Except.bind, pure, Except.pure, hlen, this, eq_comm]

/-- **A view over a layout** stands at the start of a buffer that holds the layout. -/
theorem spans_of_ofLayout (hv : ofLayout access length l storage = .ok v) :
    v.Spans l ∧ v.access = access ∧ v.length = length ∧ v.storage = storage := by
  obtain ⟨r, hr, hlen, rfl⟩ := ofLayout_eq_ok.1 hv
  obtain ⟨-, hnodup, hfit, hspan, hs, hb⟩ := Layout.resolve_eq_ok.1 hr
  have hkeys : r.strides.keys = l.axes.map LayoutAxis.dim := by
    rw [DimMap.keys, hs, Layout.keys_strideEntries (Layout.length_axisStrides l.axes)]
  have hnonneg : ∀ e ∈ r.strides.entries, 0 ≤ e.2.toInt := by
    intro e he
    rw [hs] at he
    obtain ⟨s, hmem, hse⟩ := List.mem_map.1 (List.of_mem_zip he).2
    rw [← hse, toInt_ofNat_of_le (hfit.strides s hmem)]
    exact Int.natCast_nonneg s
  refine ⟨⟨rfl, hnodup, hkeys, hb.trans (Layout.boundEntries_eq l.axes), hnonneg, fun x hx => ?_⟩, rfl, rfl, rfl⟩
  have hle : r.strides.position x ≤ (r.span : Int) - 1 :=
    (Layout.isGreatest_position hr hx.extent_ne_zero).2 ⟨x, hx, rfl⟩
  have hword := Layout.spanOf_le hspan
  show r.strides.position x < (length : Int) ∧ r.strides.position x ≤ wordMax
  omega

theorem Spans.mem_bounds (h : v.Spans l) {a : LayoutAxis} (ha : a ∈ l.axes) : (a.dim, a.extent) ∈ v.bounds.entries := by
  rw [h.bounds]
  exact List.mem_map.2 ⟨a, ha, rfl⟩

theorem Spans.get?_bounds (h : v.Spans l) {a : LayoutAxis} (ha : a ∈ l.axes) : v.bounds.get? a.dim = some a.extent :=
  DimMap.get?_eq_some_of_mem (h.mem_bounds ha)

theorem Spans.mem_keys (h : v.Spans l) {a : LayoutAxis} (ha : a ∈ l.axes) : a.dim ∈ v.strides.keys := by
  rw [h.keys]
  exact List.mem_map.2 ⟨a, ha, rfl⟩

theorem Spans.position_nonneg (h : v.Spans l) {x : Dim → Int} (hx : ∀ a ∈ l.axes, 0 ≤ x a.dim) :
    0 ≤ v.strides.position x := by
  refine DimMap.position_nonneg h.nonneg fun d hd => ?_
  rw [h.keys] at hd
  obtain ⟨a, ha, rfl⟩ := List.mem_map.1 hd
  exact hx a ha

end View

end Stencil
