/-
Views of row-major fields. The view of a row-major field at the start of its buffer has the volumes of the later axes as
strides; a handle moved along the axes to some coordinates, in any order, stands at the position of the coordinates.

- `rowPosition_lt`: coordinates in range stand before the volume;
- `ofLayout_rowMajor`: a view over a row-major layout is one of a row-major field;
- `RowMajor.shiftAll_cell`: moving to coordinates leads to their position, whatever the order of the moves;
- `RowMajor.index?_cell_readOnly`: a handle that only reads reaches it;
- `RowMajor.rename`: the axes of a row-major field may be called otherwise.
-/
import Mathlib.Tactic
import Stencil.Proofs.Access.Isolation
import Stencil.Proofs.Axis.Resolution

namespace Stencil

/-! ## Positions of coordinates -/

namespace Layout

variable {dims : List (Dim × UInt64)} {x : Dim → UInt64}

/-- coordinates below the extents -/
def InRange (dims : List (Dim × UInt64)) (x : Dim → UInt64) : Prop := ∀ a ∈ dims, x a.1 < a.2

instance : Decidable (InRange dims x) := inferInstanceAs (Decidable (∀ a ∈ dims, x a.1 < a.2))

/-- the offset of coordinates along axes with strides -/
def offsetOf (steps : List (Dim × Nat)) (x : Dim → UInt64) : Nat := (steps.map fun s => s.2 * (x s.1).toNat).sum

@[simp] theorem offsetOf_cons (s : Dim × Nat) (steps : List (Dim × Nat)) (x : Dim → UInt64) :
    offsetOf (s :: steps) x = s.2 * (x s.1).toNat + offsetOf steps x := rfl

/-- the position of coordinates in a row-major field -/
def rowPosition (dims : List (Dim × UInt64)) (x : Dim → UInt64) : Nat := offsetOf (rowSteps dims) x

theorem rowPosition_cons (a : Dim × UInt64) (dims : List (Dim × UInt64)) (x : Dim → UInt64) :
    rowPosition (a :: dims) x = volume dims * (x a.1).toNat + rowPosition dims x := rfl

theorem InRange.tail {a : Dim × UInt64} (h : InRange (a :: dims) x) : InRange dims x :=
  fun b hb => h b (List.mem_cons_of_mem a hb)

/-- coordinates in range stand before the volume -/
theorem rowPosition_lt (h : InRange dims x) : rowPosition dims x < volume dims := by
  induction dims with
  | nil => exact Nat.zero_lt_one
  | cons a dims ih =>
    have hlt := ih h.tail
    have ha : (x a.1).toNat + 1 ≤ a.2.toNat := UInt64.lt_iff_toNat_lt.1 (h a List.mem_cons_self)
    calc rowPosition (a :: dims) x = volume dims * (x a.1).toNat + rowPosition dims x := rowPosition_cons a dims x
      _ < volume dims * (x a.1).toNat + volume dims := by omega
      _ = volume dims * ((x a.1).toNat + 1) := by ring
      _ ≤ volume dims * a.2.toNat := Nat.mul_le_mul_left _ ha
      _ = volume (a :: dims) := by rw [volume_cons, Nat.mul_comm]

theorem volume_pos (h : InRange dims x) : 0 < volume dims := Nat.zero_lt_of_lt (rowPosition_lt h)

theorem rowSteps_le (h : InRange dims x) {s : Dim × Nat} (hs : s ∈ rowSteps dims) : 0 < s.2 ∧ s.2 ≤ volume dims := by
  induction dims with
  | nil => cases hs
  | cons a dims ih =>
    have hpos : 0 < a.2.toNat := Nat.zero_lt_of_lt (UInt64.lt_iff_toNat_lt.1 (h a List.mem_cons_self))
    have hle : volume dims ≤ volume (a :: dims) := Nat.le_mul_of_pos_left _ hpos
    rcases List.mem_cons.1 hs with rfl | hs
    · exact ⟨volume_pos h.tail, hle⟩
    · exact ⟨(ih h.tail hs).1, (ih h.tail hs).2.trans hle⟩

theorem pairwise_rowSteps (h : InRange dims x) : (rowSteps dims).Pairwise fun s t => t.2 ≤ s.2 := by
  induction dims with
  | nil => exact List.Pairwise.nil
  | cons a dims ih => exact List.Pairwise.cons (fun s hs => (rowSteps_le h.tail hs).2) (ih h.tail)

theorem coord_eq_zero (h : InRange dims x) {s : Dim × Nat} (hs : s ∈ rowSteps dims) (hv : volume dims ≤ s.2) :
    x s.1 = 0 := by
  have hle : s.2 * (x s.1).toNat ≤ rowPosition dims x := List.le_sum_of_mem (List.mem_map.2 ⟨s, hs, rfl⟩)
  have hlt := rowPosition_lt h
  by_contra hne
  have hpos : 1 ≤ (x s.1).toNat := Nat.one_le_iff_ne_zero.2 fun e => hne (UInt64.toNat_inj.1 e)
  have := Nat.le_mul_of_pos_right s.2 hpos
  omega

theorem mem_map_fst_of_mem_rowSteps {s : Dim × Nat} (hs : s ∈ rowSteps dims) : s.1 ∈ dims.map Prod.fst := by
  rw [← map_fst_rowSteps]
  exact List.mem_map.2 ⟨s, hs, rfl⟩

end Layout

open Layout

/-! ## Moving a handle -/

theorem toInt_ofNat_of_le {n : Nat} (h : n ≤ signedMax) : (Int64.ofNat n).toInt = n :=
  Int64.toInt_ofNat_of_lt (by simp only [signedMax] at h; omega)

namespace Handle

theorem shiftBy_comm (h : Handle) (s c t e : Int64) : (h.shiftBy s c).shiftBy t e = (h.shiftBy t e).shiftBy s c := by
  simp only [shiftBy, moveTo, Int64.add_assoc, Int64.add_comm (s * c)]

theorem shiftAll_perm {moves moves' : List (Int64 × Int64)} (hp : moves.Perm moves') (h : Handle) :
    h.shiftAll moves = h.shiftAll moves' :=
  hp.foldl_eq' (fun m _ m' _ h => h.shiftBy_comm m.1 m.2 m'.1 m'.2) h

theorem shiftAll_steps (h : Handle) (n : Nat) (steps : List (Dim × Nat)) (x : Dim → UInt64) :
    (h.moveTo (Int64.ofNat n)).shiftAll (steps.map fun s => (Int64.ofNat s.2, (x s.1).toInt64)) =
      h.moveTo (Int64.ofNat (n + offsetOf steps x)) := by
  induction steps generalizing n with
  | nil => rfl
  | cons s steps ih =>
    have hmove : (h.moveTo (Int64.ofNat n)).shiftBy (Int64.ofNat s.2) (x s.1).toInt64 =
        h.moveTo (Int64.ofNat (n + s.2 * (x s.1).toNat)) := by
      rw [toInt64_eq_ofNat, shiftBy, moveTo_moveTo, Int64.ofNat_add, Int64.ofNat_mul]
      rfl
    rw [List.map_cons, shiftAll_cons, hmove, ih, offsetOf_cons, Nat.add_assoc]

@[simp] theorem shiftBy_zero (h : Handle) (count : Int64) : h.shiftBy 0 count = h := by
  simp only [shiftBy, moveTo, Int64.zero_mul, Int64.add_zero]

theorem index?_unguarded {h : Handle} (hg : h.guard = none) {p : Nat} (hlt : p < h.length) (hp : p ≤ signedMax) :
    (h.moveTo (Int64.ofNat p)).index? = some p := by
  have hint := toInt_ofNat_of_le hp
  simp only [index?, admitted, position?, moveTo, hg, if_true, hint]
  rw [if_pos (by omega), Int.toNat_natCast]

end Handle

/-! ## Views -/

namespace View

/-- the view is that of a row-major field at the start of its buffer -/
structure RowMajor (v : View) (dims : List (Dim × UInt64)) : Prop where
  nodup : (dims.map Prod.fst).Nodup
  word : volume dims ≤ wordMax
  small : ∀ s ∈ rowSteps dims, s.2 ≤ signedMax
  room : volume dims ≤ v.length
  start : v.offset = 0
  strides : v.strides.entries = (rowSteps dims).map fun s => (s.1, Int64.ofNat s.2)
  bounds : v.bounds.entries = dims

/-- a view over a row-major layout that resolves, of a buffer that is large enough -/
theorem ofLayout_rowMajor {dims : List (Dim × UInt64)} {r : ResolvedLayout} (hr : (rowMajor dims).resolve = .ok r)
    {length : Nat} (hlen : r.span ≤ length) (access : Access) (storage : Storage) :
    ofLayout access length (rowMajor dims) storage = .ok (ofParts access length r.strides r.bounds storage) ∧
      (ofParts access length r.strides r.bounds storage).RowMajor dims := by
  obtain ⟨-, hnodup, hword, hsmall, hspan, hstrides, hbounds⟩ := resolve_rowMajor.1 hr
  refine ⟨?_, hnodup, hword, hsmall, hspan ▸ hlen, rfl, hstrides, hbounds⟩
  have : ¬ length < r.span := by omega
  simp only [ofLayout, hr, this, if_false, bind, Except.bind, pure, Except.pure]

variable {v : View} {dims : List (Dim × UInt64)} {x : Dim → UInt64} {d : Dim} {step : Nat}

theorem RowMajor.get?_strides (h : v.RowMajor dims) (hd : (d, step) ∈ rowSteps dims) :
    v.strides.get? d = some (Int64.ofNat step) := by
  refine DimMap.get?_eq_some_of_mem ?_
  rw [h.strides]
  exact List.mem_map.2 ⟨(d, step), hd, rfl⟩

theorem RowMajor.stepOf_eq (h : v.RowMajor dims) (hd : (d, step) ∈ rowSteps dims) :
    v.strides.stepOf d = Int64.ofNat step := by
  rw [DimMap.stepOf, h.get?_strides hd, Option.getD_some]

theorem RowMajor.toInt_step (h : v.RowMajor dims) (hd : (d, step) ∈ rowSteps dims) : (Int64.ofNat step).toInt = step :=
  toInt_ofNat_of_le (h.small _ hd)

theorem RowMajor.hasElement (h : v.RowMajor dims) (hx : InRange dims x) (hd : (d, step) ∈ rowSteps dims) :
    v.HasElement d (x d) := by
  obtain ⟨⟨k, e⟩, ha, rfl⟩ := List.mem_map.1 (mem_map_fst_of_mem_rowSteps hd)
  refine ⟨⟨e, DimMap.get?_eq_some_of_mem (h.bounds ▸ ha), hx _ ha⟩, Int64.ofNat step, h.get?_strides hd, ?_⟩
  have := (rowSteps_le hx hd).1
  rw [h.toInt_step hd]
  omega

/-- the moves along axes to coordinates -/
def cellMoves (v : View) (dims : List (Dim × UInt64)) (x : Dim → UInt64) : List (Int64 × Int64) :=
  dims.map fun a => (v.strides.stepOf a.1, (x a.1).toInt64)

theorem RowMajor.cellMoves_eq (h : v.RowMajor dims) (x : Dim → UInt64) :
    v.cellMoves dims x = (rowSteps dims).map fun s => (Int64.ofNat s.2, (x s.1).toInt64) := by
  have hmap : (rowSteps dims).map (fun s => (Int64.ofNat s.2, (x s.1).toInt64)) =
      ((rowSteps dims).map Prod.fst).map fun k => (v.strides.stepOf k, (x k).toInt64) := by
    rw [List.map_map]
    apply List.map_congr_left
    intro s hs
    simp only [Function.comp_apply, h.stepOf_eq hs]
  rw [hmap, map_fst_rowSteps, List.map_map]
  rfl

/-- **Moving along the axes to coordinates**, in any order, leads to the position of the coordinates. -/
theorem RowMajor.shiftAll_cell (h : v.RowMajor dims) {start : Handle} (hstart : start.offset = 0)
    {path : List (Int64 × Int64)} (hpath : path.Perm (v.cellMoves dims x)) :
    start.shiftAll path = start.moveTo (Int64.ofNat (rowPosition dims x)) := by
  have hzero : start.moveTo (Int64.ofNat 0) = start := by
    obtain ⟨access, length, offset, guard⟩ := start
    exact congrArg (fun o => Handle.mk access length o guard) hstart.symm
  rw [start.shiftAll_perm hpath, h.cellMoves_eq]
  calc start.shiftAll _ = (start.moveTo (Int64.ofNat 0)).shiftAll _ := by rw [hzero]
    _ = start.moveTo (Int64.ofNat (0 + offsetOf (rowSteps dims) x)) := Handle.shiftAll_steps start 0 _ x
    _ = start.moveTo (Int64.ofNat (rowPosition dims x)) := by rw [Nat.zero_add, rowPosition]

theorem offset_elementOrigin (v : View) (d : Dim) (i : UInt64) :
    (v.elementOrigin d i).offset = v.elementOffset d i := by
  unfold elementOrigin
  cases v.access with
  | readOnly => rfl
  | writable =>
    dsimp only
    split
    · rfl
    · split <;> rfl

theorem RowMajor.elementOrigin_eq (h : v.RowMajor dims) (d : Dim) (i : UInt64) :
    v.elementOrigin d i = ((v.elementOrigin d i).moveTo 0).shiftBy (v.strides.stepOf d) i.toInt64 := by
  have ho := offset_elementOrigin v d i
  rw [elementOffset, h.start] at ho
  exact congrArg (v.elementOrigin d i).moveTo ho

/-- the handle of an element, moved along the other axes, stands at the position of the coordinates -/
theorem RowMajor.elementOrigin_cell (h : v.RowMajor dims) {path : List (Int64 × Int64)}
    (hpath : ((v.strides.stepOf d, (x d).toInt64) :: path).Perm (v.cellMoves dims x)) :
    (v.elementOrigin d (x d)).shiftAll path =
      (v.elementOrigin d (x d)).moveTo (Int64.ofNat (rowPosition dims x)) := by
  let start := (v.elementOrigin d (x d)).moveTo 0
  calc (v.elementOrigin d (x d)).shiftAll path
      = start.shiftAll ((v.strides.stepOf d, (x d).toInt64) :: path) := by
        rw [Handle.shiftAll_cons, ← h.elementOrigin_eq d (x d)]
    _ = start.moveTo (Int64.ofNat (rowPosition dims x)) := h.shiftAll_cell rfl hpath

/-- the handle of an element of a read-only view reaches the cells of the element -/
theorem RowMajor.index?_cell_readOnly (h : v.RowMajor dims) (hr : v.access = .readOnly) (hx : InRange dims x)
    (hs : rowPosition dims x ≤ signedMax) {path : List (Int64 × Int64)}
    (hpath : ((v.strides.stepOf d, (x d).toInt64) :: path).Perm (v.cellMoves dims x)) :
    ((v.elementOrigin d (x d)).shiftAll path).index? = some (rowPosition dims x) := by
  have hhandle : v.elementOrigin d (x d) = v.origin.moveTo (v.elementOffset d (x d)) := by
    simp only [elementOrigin, hr]
  rw [h.elementOrigin_cell hpath, hhandle]
  exact Handle.index?_unguarded rfl ((rowPosition_lt hx).trans_le h.room) hs

/-! ## Other names for axes -/

theorem map_relabel {α β : Type} (f : α → β) (a b : Dim) (l : List (Dim × α)) :
    (DimMap.relabel a b l).map (fun e => (e.1, f e.2)) = DimMap.relabel a b (l.map fun e => (e.1, f e.2)) := by
  simp only [DimMap.relabel, List.map_map]
  apply List.map_congr_left
  intro e _
  simp only [Function.comp_apply]
  split <;> rfl

theorem volume_relabel (a b : Dim) (dims : List (Dim × UInt64)) : volume (DimMap.relabel a b dims) = volume dims := by
  rw [volume, volume, DimMap.relabel, List.map_map]
  refine congrArg List.prod (List.map_congr_left ?_)
  intro e _
  simp only [Function.comp_apply]
  split <;> rfl

theorem rowSteps_relabel (a b : Dim) (dims : List (Dim × UInt64)) :
    rowSteps (DimMap.relabel a b dims) = DimMap.relabel a b (rowSteps dims) := by
  induction dims with
  | nil => rfl
  | cons e dims ih =>
    have hvol := volume_relabel a b dims
    simp only [DimMap.relabel, List.map_cons, rowSteps] at ih hvol ⊢
    by_cases he : e.1 = a
    · simp only [he, if_true, ih, hvol]
    · simp only [he, if_false, ih, hvol]

/-- a renamed axis keeps its place, its stride and its bound -/
theorem RowMajor.rename (h : v.RowMajor dims) {a b : Dim} (hab : a ≠ b) (ha : a ∈ dims.map Prod.fst)
    (hb : b ∉ dims.map Prod.fst) : ∃ v', v.rename a b = .ok v' ∧ v'.RowMajor (DimMap.relabel a b dims) ∧
      v'.access = v.access ∧ v'.length = v.length ∧ v'.storage = v.storage := by
  have hkeys : v.strides.keys = dims.map Prod.fst := by
    rw [DimMap.keys, h.strides, List.map_map, ← map_fst_rowSteps]
    rfl
  have hkeys' : v.bounds.keys = dims.map Prod.fst := by rw [DimMap.keys, h.bounds]
  obtain ⟨strides, hs, hse⟩ := DimMap.rename_eq_ok hab (hkeys ▸ ha) (hkeys ▸ hb)
  obtain ⟨bounds, hbs, hbe⟩ := DimMap.rename_eq_ok hab (hkeys' ▸ ha) (hkeys' ▸ hb)
  refine ⟨{ v with strides, bounds }, ?_, ⟨?_, ?_, ?_, ?_, h.start, ?_, ?_⟩, rfl, rfl, rfl⟩
  · simp only [View.rename, hs, hbs, bind, Except.bind, pure, Except.pure]
  · exact DimMap.nodup_relabel h.nodup hb
  · rw [volume_relabel]; exact h.word
  · rw [rowSteps_relabel]
    intro s hs
    obtain ⟨t, ht, rfl⟩ := List.mem_map.1 hs
    have := h.small t ht
    split <;> exact this
  · rw [volume_relabel]; exact h.room
  · rw [hse, h.strides, rowSteps_relabel, map_relabel]
  · rw [hbe, h.bounds]

end View

end Stencil
