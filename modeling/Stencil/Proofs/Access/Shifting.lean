/-
Shifted views. A shift moves a view along an axis and its bound the other way; the offset wraps, while the bound stops
at zero and at the largest signed word. Offsets of shifts add up. Bounds do not: a view that is moved past the end of a
field and back has a bound that reaches past the end.

- `shiftBound_shiftBound_iff`: when two changes of a bound are one;
- `bound_movedAll`: the bound after any shifts is the furthest position that was ever reached, less the position;
- `shifts_compose_iff`: when two shifts are one shift, and what any shifts make of a bound.
-/
import Mathlib.Tactic
import Stencil.Proofs.Access.Positions

namespace Stencil

/-! ## Replacing a value in place -/

namespace DimMap

variable {α : Type}

/-- the entries with the value at `d` replaced by its image -/
def mapAt (d : Dim) (f : α → α) (l : List (Dim × α)) : List (Dim × α) :=
  l.map fun e => if e.1 = d then (e.1, f e.2) else e

theorem keys_mapAt (d : Dim) (f : α → α) (l : List (Dim × α)) : (mapAt d f l).map Prod.fst = l.map Prod.fst := by
  rw [mapAt, List.map_map]
  refine List.map_congr_left fun e _ => ?_
  simp only [Function.comp_apply]
  split <;> rfl

theorem find_mapAt (d e : Dim) (f : α → α) (l : List (Dim × α)) :
    find e (mapAt d f l) = if e = d then (find e l).map f else find e l := by
  induction l with
  | nil => simp [mapAt, find]
  | cons x l ih =>
    obtain ⟨k, w⟩ := x
    rw [mapAt, List.map_cons, ← mapAt]
    by_cases hk : k = e
    · by_cases hd : e = d
      · simp [find, hk, hd]
      · simp [find, hk, hd]
    · by_cases hkd : k = d
      · simp [find, hkd, hkd ▸ hk, ih]
      · simp [find, hk, hkd, ih]

theorem put_eq_mapAt {d : Dim} {f : α → α} {v : α} {l : List (Dim × α)} (hnodup : (l.map Prod.fst).Nodup)
    (h : find d l = some v) : put d (f v) l = mapAt d f l := by
  induction l with
  | nil => cases h
  | cons x l ih =>
    obtain ⟨k, w⟩ := x
    rw [List.map_cons, List.nodup_cons] at hnodup
    rw [mapAt, List.map_cons, ← mapAt]
    by_cases hk : k = d
    · subst hk
      rw [find, if_pos rfl, Option.some.injEq] at h
      have hrest : mapAt k f l = l := by
        refine (List.map_congr_left fun e he => ?_).trans (List.map_id l)
        have : e.1 ≠ k := fun hek => hnodup.1 (hek ▸ List.mem_map.2 ⟨e, he, rfl⟩)
        rw [if_neg this, id_eq]
      rw [put, if_pos rfl, if_pos rfl, hrest, h]
    · rw [find, if_neg hk] at h
      rw [put, if_neg hk, if_neg hk, ih hnodup.2 h]

/-- the map with the value at an axis, if there is one, replaced by its image -/
def adjust (m : DimMap α) (d : Dim) (f : α → α) : DimMap α where
  entries := mapAt d f m.entries
  nodup := by rw [keys_mapAt]; exact m.nodup
  length_le := by rw [mapAt, List.length_map]; exact m.length_le

variable {m : DimMap α} {d : Dim} {f g : α → α} {v : α}

theorem get?_adjust (m : DimMap α) (d e : Dim) (f : α → α) :
    (m.adjust d f).get? e = if e = d then (m.get? e).map f else m.get? e := find_mapAt d e f m.entries

theorem insert_eq_adjust (h : m.get? d = some v) : m.insert d (f v) = .ok (m.adjust d f) := by
  have hd : d ∈ m.keys := contains_iff.1 (by simp [contains, h])
  rw [insert, dif_pos (Or.inl hd)]
  exact congrArg Except.ok (ext_entries (put_eq_mapAt m.nodup h))

theorem adjust_adjust (m : DimMap α) (d : Dim) (f g : α → α) :
    (m.adjust d f).adjust d g = m.adjust d fun v => g (f v) := by
  refine ext_entries ?_
  simp only [adjust, mapAt, List.map_map]
  refine List.map_congr_left fun e _ => ?_
  by_cases he : e.1 = d <;> simp [he]

theorem adjust_eq_adjust_iff : m.adjust d f = m.adjust d g ↔ ∀ v, m.get? d = some v → f v = g v := by
  constructor
  · intro h v hv
    have hget := congrArg (fun m => m.get? d) h
    simpa only [get?_adjust, if_true, hv, Option.map_some, Option.some.injEq] using hget
  · intro h
    refine ext_entries (List.map_congr_left fun e he => ?_)
    by_cases hd : e.1 = d
    · rw [if_pos hd, if_pos hd, h e.2 (hd ▸ get?_eq_some_of_mem he)]
    · rw [if_neg hd, if_neg hd]

theorem adjust_id (m : DimMap α) (d : Dim) : m.adjust d id = m := by
  refine ext_entries ((List.map_congr_left fun e _ => ?_).trans (List.map_id m.entries))
  simp

end DimMap

/-! ## Bounds -/

theorem toInt_toInt64_of_le {w : UInt64} (h : w.toNat ≤ signedMax) : w.toInt64.toInt = w.toNat := by
  rw [toInt64_eq_ofNat, toInt_ofNat_of_le h]

theorem toNat_shiftBound (bound : UInt64) (count : Int64) :
    ((shiftBound bound count).toNat : Int) = min (max (bound.toInt64.toInt - count.toInt) 0) signedMax := by
  have hlt : min (bound.toInt64.toInt - count.toInt).toNat signedMax < 2 ^ 64 := by simp only [signedMax]; omega
  rw [shiftBound, UInt64.toNat_ofNat_of_lt' hlt]
  omega

theorem toInt_shiftBound (bound : UInt64) (count : Int64) :
    (shiftBound bound count).toInt64.toInt = min (max (bound.toInt64.toInt - count.toInt) 0) signedMax := by
  have h := toNat_shiftBound bound count
  rw [toInt_toInt64_of_le (by omega), h]

/-- what is left of a bound after a move by `m`, over the integers -/
def remaining (bound : UInt64) (m : Int64) : Int := bound.toInt64.toInt - m.toInt

/-- whether a move of a bound by `m` and then by `n` is the move by both: the first stops nowhere, or the second goes
on in the direction in which the first was stopped. One step past zero, the longest move back is stopped at the same
word from both. -/
def Composes (bound : UInt64) (m n : Int64) : Prop :=
  (0 ≤ remaining bound m ∧ remaining bound m ≤ signedMax) ∨ (remaining bound m < 0 ∧ 0 ≤ n.toInt) ∨
    (signedMax < remaining bound m ∧ n.toInt ≤ 0) ∨ (remaining bound m = -1 ∧ n = Int64.minValue)

theorem shiftBound_shiftBound_iff {bound : UInt64} {m n : Int64} (hsum : (m + n).toInt = m.toInt + n.toInt) :
    shiftBound (shiftBound bound m) n = shiftBound bound (m + n) ↔ Composes bound m n := by
  have h1 := toNat_shiftBound (shiftBound bound m) n
  have h2 := toNat_shiftBound bound (m + n)
  rw [toInt_shiftBound] at h1
  rw [hsum] at h2
  have hmin : n = Int64.minValue ↔ n.toInt = -2 ^ 63 := by
    rw [← Int64.toInt_inj]; rfl
  rw [← UInt64.toNat_inj, Composes, remaining, hmin]
  have := n.toInt_lt
  have := n.le_toInt
  simp only [signedMax] at *
  omega

/-! ## Moving a view -/

/-- the furthest of an extent and the positions along an axis on the way of some moves -/
def furthest (extent : Int) (d : Dim) (moves : List (Dim × Int64)) : Int :=
  (moves.inits.map fun front => travelled front d).foldl max extent

theorem furthest_nil {extent : Int} (h : 0 ≤ extent) (d : Dim) : furthest extent d [] = extent := max_eq_left h

theorem furthest_append (extent : Int) (d : Dim) (moves : List (Dim × Int64)) (m : Dim × Int64) :
    furthest extent d (moves ++ [m]) = max (furthest extent d moves) (travelled (moves ++ [m]) d) := by
  rw [furthest, List.inits_append, List.map_append, List.foldl_append]
  rfl

theorem foldl_max_le_iff {l : List Int} {a b : Int} : l.foldl max a ≤ b ↔ a ≤ b ∧ ∀ x ∈ l, x ≤ b := by
  induction l generalizing a with
  | nil => simp
  | cons x l ih => rw [List.foldl_cons, ih, max_le_iff, List.forall_mem_cons, and_assoc]

/-- no position on the way is beyond the furthest, and it is the first that is not below them all -/
theorem furthest_le_iff {extent b : Int} {d : Dim} {moves : List (Dim × Int64)} :
    furthest extent d moves ≤ b ↔ extent ≤ b ∧ ∀ front, front <+: moves → travelled front d ≤ b := by
  rw [furthest, foldl_max_le_iff, List.forall_mem_map]
  simp only [List.mem_inits]

namespace View

variable {v : View} {d : Dim} {moves : List (Dim × Int64)}

/-- the view moved along an axis that it has -/
def moved (v : View) (d : Dim) (count : Int64) : View :=
  { v with
    offset := v.offset + v.strides.stepOf d * count
    bounds := v.bounds.adjust d fun bound => shiftBound bound count }

theorem shifted_eq_moved (hd : d ∈ v.strides.keys) (count : Int64) : v.shifted d count = .ok (v.moved d count) := by
  have hstep : v.strides.step d = .ok (v.strides.stepOf d) := if_pos (DimMap.contains_iff.2 hd)
  unfold shifted moved
  cases hb : v.bounds.get? d with
  | none =>
    have hsame : (v.bounds.adjust d fun bound => shiftBound bound count) = v.bounds := by
      refine Eq.trans (DimMap.adjust_eq_adjust_iff.2 fun b h => ?_) (v.bounds.adjust_id d)
      rw [hb] at h
      cases h
    simp only [hstep, hsame, bind, Except.bind, pure, Except.pure]
  | some bound =>
    have hinsert := DimMap.insert_eq_adjust (f := fun b => shiftBound b count) hb
    simp only [hstep, hinsert, bind, Except.bind, pure, Except.pure]

/-- the view after moves along axes that it has -/
def movedAll (v : View) (moves : List (Dim × Int64)) : View := moves.foldl (fun v m => v.moved m.1 m.2) v

/-- moves along axes, as changes of a view -/
def shifts (moves : List (Dim × Int64)) : List Transform := moves.map fun m => .shift m.1 m.2

theorem movedAll_append (v : View) (moves : List (Dim × Int64)) (m : Dim × Int64) :
    v.movedAll (moves ++ [m]) = (v.movedAll moves).moved m.1 m.2 := by
  simp [movedAll]

theorem movedAll_eq (v : View) (moves : List (Dim × Int64)) :
    v.movedAll moves = { v with offset := (v.movedAll moves).offset, bounds := (v.movedAll moves).bounds } := by
  induction moves using List.reverseRecOn with
  | nil => rfl
  | append_singleton moves m ih => rw [movedAll_append, ih]; rfl

@[simp] theorem strides_movedAll (v : View) (moves : List (Dim × Int64)) : (v.movedAll moves).strides = v.strides := by
  rw [movedAll_eq]

@[simp] theorem length_movedAll (v : View) (moves : List (Dim × Int64)) : (v.movedAll moves).length = v.length := by
  rw [movedAll_eq]

@[simp] theorem access_movedAll (v : View) (moves : List (Dim × Int64)) : (v.movedAll moves).access = v.access := by
  rw [movedAll_eq]

theorem applyAll_shifts (h : ∀ m ∈ moves, m.1 ∈ v.strides.keys) :
    v.applyAll (shifts moves) = .ok (v.movedAll moves) := by
  induction moves generalizing v with
  | nil => rfl
  | cons m moves ih =>
    have hfirst := shifted_eq_moved (h m List.mem_cons_self) m.2
    have ih := ih (v := v.moved m.1 m.2) fun m' hm' => h m' (List.mem_cons_of_mem m hm')
    rw [applyAll, shifts, List.map_cons, List.foldlM_cons, apply, hfirst]
    exact ih

/-- **Offsets add up**: after any moves the view stands where the distances travelled lead. -/
theorem offset_movedAll (v : View) (moves : List (Dim × Int64)) :
    (v.movedAll moves).offset = v.offset + .ofInt (v.strides.position (travelled moves)) := by
  induction moves using List.reverseRecOn with
  | nil =>
    rw [show v.strides.position (travelled []) = 0 from DimMap.position_zero]
    exact (Int64.add_zero v.offset).symm
  | append_singleton moves m ih =>
    rw [movedAll_append, moved, ih, strides_movedAll, v.strides.position_travelled_append, Int64.ofInt_add,
      ofInt_stepOf_mul, ← Int64.add_assoc]

/-- **The bound after any moves** along axes is the furthest of the extent and all positions reached, less the position,
as long as this is a signed word. -/
theorem bound_movedAll {extent : UInt64} (hget : v.bounds.get? d = some extent)
    (hfits : ∀ front, front <+: moves → furthest extent.toNat d front - travelled front d ≤ signedMax) :
    ∃ bound, (v.movedAll moves).bounds.get? d = some bound ∧
      (bound.toNat : Int) = furthest extent.toNat d moves - travelled moves d := by
  induction moves using List.reverseRecOn with
  | nil => exact ⟨extent, hget, by rw [furthest_nil (Int.natCast_nonneg _), travelled_nil, Int.sub_zero]⟩
  | append_singleton moves m ih =>
    obtain ⟨bound, hb, hval⟩ := ih fun front hf => hfits front (hf.trans (List.prefix_append moves [m]))
    have hbefore := hfits moves (List.prefix_append moves [m])
    have hafter := hfits (moves ++ [m]) List.prefix_rfl
    have hsigned : bound.toInt64.toInt = bound.toNat := toInt_toInt64_of_le (by omega)
    have hcount := toNat_shiftBound bound m.2
    rw [furthest_append] at hafter ⊢
    rw [movedAll_append, moved, DimMap.get?_adjust, hb]
    by_cases hd : d = m.1
    · -- a move along the axis: what was stopped at zero is a position beyond all others
      refine ⟨_, if_pos hd, ?_⟩
      simp only [travelled_append, travelled_cons, travelled_nil, if_pos hd] at hafter ⊢
      omega
    · refine ⟨_, if_neg hd, ?_⟩
      have hle := (furthest_le_iff.1 (le_refl (furthest extent.toNat d moves))).2 moves List.prefix_rfl
      simp only [travelled_append, travelled_cons, travelled_nil, if_neg hd] at hafter ⊢
      omega

theorem offset_moved_moved (v : View) (d : Dim) (m n : Int64) :
    ((v.moved d m).moved d n).offset = (v.moved d (m + n)).offset := by
  simp only [moved, Int64.mul_add, Int64.add_assoc]

theorem bounds_moved_moved_iff {bound : UInt64} (hb : v.bounds.get? d = some bound) {m n : Int64}
    (hsum : (m + n).toInt = m.toInt + n.toInt) :
    ((v.moved d m).moved d n).bounds = (v.moved d (m + n)).bounds ↔ Composes bound m n := by
  rw [moved, moved, moved, DimMap.adjust_adjust, DimMap.adjust_eq_adjust_iff, hb, ← shiftBound_shiftBound_iff hsum]
  simp

/-- a move by zero changes nothing, unless the bound is no signed word -/
theorem moved_zero_iff {bound : UInt64} (hb : v.bounds.get? d = some bound) :
    v.moved d 0 = v ↔ bound.toNat ≤ signedMax := by
  have hoffset : v.offset + v.strides.stepOf d * 0 = v.offset := by rw [Int64.mul_zero, Int64.add_zero]
  have hbounds : v.moved d 0 = v ↔ (v.bounds.adjust d fun b => shiftBound b 0) = v.bounds.adjust d id := by
    rw [DimMap.adjust_id]
    constructor
    · exact fun h => congrArg View.bounds h
    · intro h
      rw [moved, hoffset, h]
  have hcount := toNat_shiftBound bound 0
  have hzero : (0 : Int64).toInt = 0 := rfl
  have hsame : v.moved d 0 = v ↔ shiftBound bound 0 = bound := by
    rw [hbounds, DimMap.adjust_eq_adjust_iff, hb]
    simp
  rw [hsame, ← UInt64.toNat_inj]
  constructor
  · intro h
    omega
  · intro h
    have hsigned := toInt_toInt64_of_le h
    omega

/-- a view that moves away and back is what it was, unless it passes the end or what is left is no signed word -/
theorem moved_back_iff {bound : UInt64} (hb : v.bounds.get? d = some bound) (hsmall : bound.toNat ≤ signedMax)
    {m : Int64} (hm : m ≠ Int64.minValue) :
    (v.moved d m).moved d (-m) = v ↔ m.toInt ≤ bound.toNat ∧ bound.toNat - m.toInt ≤ signedMax := by
  have hlow := m.le_toInt
  have hhigh := m.toInt_lt
  have hmin : m.toInt ≠ -2 ^ 63 := fun h => hm (Int64.toInt_inj.1 h)
  have hneg : (-m).toInt = -m.toInt := by
    rw [Int64.toInt_neg, Int.bmod_def]
    omega
  have hzero : m + -m = 0 := Int64.add_right_neg m
  have hsum : (m + -m).toInt = m.toInt + (-m).toInt := by rw [hzero, hneg]; exact (Int.add_right_neg m.toInt).symm
  have hsame := (moved_zero_iff hb).2 hsmall
  have hoffset := offset_moved_moved v d m (-m)
  have hbounds := bounds_moved_moved_iff hb hsum
  rw [hzero, hsame] at hoffset hbounds
  have hview : (v.moved d m).moved d (-m) = v ↔ ((v.moved d m).moved d (-m)).bounds = v.bounds := by
    constructor
    · exact fun h => congrArg View.bounds h
    · intro h
      calc (v.moved d m).moved d (-m)
          = { v with
              offset := ((v.moved d m).moved d (-m)).offset
              bounds := ((v.moved d m).moved d (-m)).bounds } := rfl
        _ = v := by rw [hoffset, h]
  have hsigned := toInt_toInt64_of_le hsmall
  have hother : -m ≠ Int64.minValue := by
    intro h
    have hint := congrArg Int64.toInt h
    rw [hneg, show Int64.minValue.toInt = -2 ^ 63 from rfl] at hint
    omega
  simp only [hview, hbounds, Composes, remaining, hsigned, hneg, hother, and_false, or_false]
  omega

/-! ## Views over a layout -/

variable {l : Layout} {access : Access} {length : Nat} {storage : Storage}

/-- **When shifts compose.** Of a view over a layout, along any of its axes: a shift by `m` and one by `n` lead to the
offset and keep the strides of one shift by both, and give its bounds exactly when the bound is not stopped on the way.
A shift by zero changes nothing exactly when the extent is a signed word, and a shift away and back exactly when it
does not pass the end of the field. After any shifts, position and bound together make the furthest position that the
view has stood at, so they reach past the end exactly when the view has been past it. -/
theorem shifts_compose_iff (hv : ofLayout access length l storage = .ok v) {a : LayoutAxis} (ha : a ∈ l.axes) :
    (∀ m n : Int64, (m + n).toInt = m.toInt + n.toInt → ∃ u w,
      v.applyAll (shifts [(a.dim, m), (a.dim, n)]) = .ok u ∧ v.shifted a.dim (m + n) = .ok w ∧
        u.offset = w.offset ∧ u.strides = w.strides ∧ (u.bounds = w.bounds ↔ Composes a.extent m n)) ∧
    (v.shifted a.dim 0 = .ok v ↔ a.extent.toNat ≤ signedMax) ∧
    (∀ m : Int64, m ≠ Int64.minValue → a.extent.toNat ≤ signedMax →
      (v.applyAll (shifts [(a.dim, m), (a.dim, -m)]) = .ok v ↔
        m.toInt ≤ a.extent.toNat ∧ a.extent.toNat - m.toInt ≤ signedMax)) ∧
    ∀ moves, (∀ m ∈ moves, m.1 ∈ l.axes.map LayoutAxis.dim) →
      (∀ front, front <+: moves → furthest a.extent.toNat a.dim front - travelled front a.dim ≤ signedMax) →
        ∃ w bound, v.applyAll (shifts moves) = .ok w ∧ w.upperBound a.dim = .ok bound ∧
          (bound.toNat : Int) = furthest a.extent.toNat a.dim moves - travelled moves a.dim ∧
          (travelled moves a.dim + bound.toNat ≤ a.extent.toNat ↔
            ∀ front, front <+: moves → travelled front a.dim ≤ a.extent.toNat) := by
  obtain ⟨hspans, -⟩ := spans_of_ofLayout hv
  have hd := hspans.mem_keys ha
  have hb := hspans.get?_bounds ha
  have htwice (m n : Int64) :
      v.applyAll (shifts [(a.dim, m), (a.dim, n)]) = .ok ((v.moved a.dim m).moved a.dim n) :=
    applyAll_shifts (by simpa using hd)
  refine ⟨fun m n hsum => ?_, ?_, fun m hm hsmall => ?_, fun moves halong hfits => ?_⟩
  · exact ⟨_, _, htwice m n, shifted_eq_moved hd (m + n), offset_moved_moved v a.dim m n, rfl,
      bounds_moved_moved_iff hb hsum⟩
  · rw [shifted_eq_moved hd, Except.ok.injEq, moved_zero_iff hb]
  · rw [htwice, Except.ok.injEq, moved_back_iff hb hsmall hm]
  · obtain ⟨bound, hget, hval⟩ := bound_movedAll hb hfits
    refine ⟨_, bound, applyAll_shifts fun m hm => ?_, ?_, hval, ?_⟩
    · rw [hspans.keys]
      exact halong m hm
    · rw [upperBound, hget]
    · have hle : furthest a.extent.toNat a.dim moves ≤ a.extent.toNat ↔ _ := furthest_le_iff
      rw [and_iff_right (le_refl _)] at hle
      rw [hval, ← hle]
      omega

/-- three elements in a row -/
def line : Layout := .rowMajor [(.horizontal, 3)]

/-- of three elements, two steps away and back restore the view -/
theorem shifts_compose_iff_line : ∃ v, ofLayout .readOnly 3 line .host = .ok v ∧
    (⟨.horizontal, 3, none⟩ : LayoutAxis) ∈ line.axes ∧
      v.applyAll (shifts [(.horizontal, 2), (.horizontal, -2)]) = .ok v := by
  obtain ⟨v, hv⟩ : ∃ v, ofLayout .readOnly 3 line .host = .ok v := ⟨_, rfl⟩
  have ha : (⟨.horizontal, 3, none⟩ : LayoutAxis) ∈ line.axes := by decide
  have hback := (shifts_compose_iff hv ha).2.2.1 2 (by decide) (by decide)
  exact ⟨v, hv, ha, hback.2 (by decide)⟩

/-- of three elements, five steps away and back leave a bound of five, while no step at all leaves the view -/
theorem bound_past_end : ∃ v w, ofLayout .readOnly 3 line .host = .ok v ∧
    v.applyAll (shifts [(.horizontal, 5), (.horizontal, -5)]) = .ok w ∧ v.shifted .horizontal (5 + -5) = .ok v ∧
      w.offset = v.offset ∧ v.upperBound .horizontal = .ok 3 ∧ w.upperBound .horizontal = .ok 5 :=
  ⟨_, _, rfl, rfl, rfl, rfl, rfl, rfl⟩

end View

end Stencil
