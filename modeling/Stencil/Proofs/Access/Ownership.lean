/-
The cells of an element. In a row-major field the cells of one element are those with the element's index along its axis
and any coordinates along the others. The handle of the element, moved to one of its cells, reaches the cell unless the
guard counts another axis as the guarded one; this file shows when it does.

- `foldl_rowPosition`: what the guard makes of a position. Every larger stride takes its own coordinate away, so what
  is left along the guarded axis is its coordinate and those of the other axes with the same stride.
- `index?_cell`: a cell is reached exactly when the other axes with the stride of the guarded one are at zero.
- `index?_cell_first`: with the axis of the element outermost, every cell is reached.
- `own_cells_accessible_iff`: all cells of all elements are reached exactly when the guarded axis has not extent 1, or
  every axis in front of it has.
-/
import Mathlib.Tactic
import Stencil.Proofs.Access.RowMajor

namespace Stencil

/-! ## The guard of a row-major field -/

namespace Layout

variable {dims : List (Dim × UInt64)} {x : Dim → UInt64}

/-- **What the guard makes of a position**: the coordinate along the guarded axis and those along the other axes of the
same stride. The induction is on the axes: a larger stride in front takes its coordinate away, an equal one in front
leaves no larger stride behind it. -/
theorem foldl_rowPosition (hx : InRange dims x) (hnodup : (dims.map Prod.fst).Nodup) {d : Dim} {step : Nat}
    (hd : (d, step) ∈ rowSteps dims) :
    (((rowSteps dims).filter fun s => s.1 ≠ d ∧ step < s.2).map Prod.snd).foldl (· % ·) (rowPosition dims x) / step =
      (x d).toNat + (((rowSteps dims).filter fun s => s.1 ≠ d ∧ s.2 = step).map fun s => (x s.1).toNat).sum := by
  induction dims with
  | nil => cases hd
  | cons a dims ih =>
    have hlt := rowPosition_lt hx.tail
    have hstep : 0 < step := (rowSteps_le hx hd).1
    have hdrop (hle : volume dims ≤ step) : (rowSteps dims).filter (fun s => s.1 ≠ d ∧ step < s.2) = [] := by
      apply List.filter_eq_nil_iff.2
      intro s hs
      have := (rowSteps_le hx.tail hs).2
      simp only [decide_eq_true_eq, not_and]
      omega
    rw [List.map_cons, List.nodup_cons] at hnodup
    by_cases ha : a.1 = d
    · -- the guarded axis: no other stride is larger, and axes of its stride have extent 1
      subst ha
      obtain rfl : step = volume dims := by
        rcases List.mem_cons.1 hd with e | hd
        · exact congrArg Prod.snd e
        · exact absurd (mem_map_fst_of_mem_rowSteps hd) hnodup.1
      have hzero :
          (((rowSteps dims).filter fun s => s.1 ≠ a.1 ∧ s.2 = volume dims).map fun s => (x s.1).toNat).sum = 0 := by
        refine List.sum_eq_zero_iff.2 (List.forall_mem_map.2 ?_)
        intro s hs
        obtain ⟨hs, hp⟩ := List.mem_filter.1 hs
        simp only [decide_eq_true_eq] at hp
        rw [coord_eq_zero hx.tail hs hp.2.ge]
        rfl
      simp only [rowSteps, List.filter_cons, ne_eq, not_true_eq_false, false_and, decide_false, Bool.false_eq_true,
        if_false] at hdrop hzero ⊢
      rw [hdrop le_rfl, hzero, rowPosition_cons, List.map_nil, List.foldl_nil, Nat.mul_add_div hstep,
        Nat.div_eq_of_lt hlt]
    · have hd : (d, step) ∈ rowSteps dims := (List.mem_cons.1 hd).resolve_left fun e => ha (congrArg Prod.fst e).symm
      have ih := ih hx.tail hnodup.2 hd
      rcases (rowSteps_le hx.tail hd).2.lt_or_eq with hlarger | heq
      · -- a larger stride takes its own coordinate away
        have hne : ¬ volume dims = step := by omega
        have hmod : rowPosition (a :: dims) x % volume dims = rowPosition dims x := by
          rw [rowPosition_cons, Nat.mul_add_mod, Nat.mod_eq_of_lt hlt]
        simp only [rowSteps, List.filter_cons, ne_eq, ha, not_false_eq_true, hlarger, hne, and_self, and_false,
          decide_true, decide_false, if_true, Bool.false_eq_true, if_false, List.map_cons, List.foldl_cons,
          hmod] at ih ⊢
        exact ih
      · -- an equal stride adds its coordinate
        obtain rfl : step = volume dims := heq
        rw [hdrop le_rfl, List.map_nil, List.foldl_nil] at ih
        simp only [ne_eq] at hdrop ih
        simp only [rowSteps, List.filter_cons, ne_eq, ha, not_false_eq_true, lt_irrefl, and_self, and_false,
          decide_true, decide_false, if_true, Bool.false_eq_true, if_false, hdrop le_rfl, List.map_nil, List.foldl_nil,
          List.map_cons, List.sum_cons]
        rw [rowPosition_cons, Nat.mul_add_div hstep, ih]
        omega

end Layout

open Layout

theorem uint64_ofInt_natCast (n : Nat) : UInt64.ofInt n = UInt64.ofNat n := by
  apply UInt64.toNat_inj.1
  show (n % (2 ^ 64 : Int)).toNat % 2 ^ 64 = n % 2 ^ 64
  omega

namespace Guard

theorem foldl_natCast_mod (l : List Nat) (n : Nat) :
    (l.map fun s : Nat => (s : Int)).foldl (fun rest stride => rest % stride) (n : Int) =
      (l.foldl (· % ·) n : Nat) := by
  induction l generalizing n with
  | nil => rfl
  | cons s l ih => rw [List.map_cons, List.foldl_cons, ← Int.natCast_mod, ih, List.foldl_cons]

theorem foldl_mod_le (l : List Nat) (n : Nat) : l.foldl (· % ·) n ≤ n := by
  induction l generalizing n with
  | nil => exact le_rfl
  | cons s l ih => exact (ih (n % s)).trans (Nat.mod_le n s)

theorem elementAlong_zero (larger : List Int) (step : Int) : elementAlong larger step 0 = 0 := by
  have hfold : larger.foldl (fun rest stride => rest % stride) 0 = 0 := by
    induction larger with
    | nil => rfl
    | cons s larger ih => rw [List.foldl_cons, Int.zero_emod, ih]
  rw [elementAlong, show (0 : Int64).toInt = 0 from rfl, hfold, Int.zero_ediv]
  rfl

variable {dims : List (Dim × UInt64)} {x : Dim → UInt64} {strides : DimMap Int64} {d : Dim} {step : Nat}

theorem otherStrides_rowMajor (hx : InRange dims x) (hsmall : ∀ s ∈ rowSteps dims, s.2 ≤ signedMax)
    (hs : strides.entries = (rowSteps dims).map fun s => (s.1, Int64.ofNat s.2)) :
    otherStrides strides d = ((rowSteps dims).filter fun s => s.1 ≠ d).map fun s => (s.2 : Int) := by
  have hint (s : Dim × Nat) (h : s ∈ rowSteps dims) : (Int64.ofNat s.2).toInt = s.2 := toInt_ofNat_of_le (hsmall s h)
  have hfilter : (rowSteps dims).filter ((fun e => e.1 ≠ d && 0 < e.2.toInt) ∘ fun s => (s.1, Int64.ofNat s.2)) =
      (rowSteps dims).filter fun s => s.1 ≠ d := by
    apply List.filter_congr
    intro s h
    have := (rowSteps_le hx h).1
    simp [hint s h, this]
  have hmap : ((rowSteps dims).filter fun s => s.1 ≠ d).map ((fun e => e.2.toInt) ∘ fun s => (s.1, Int64.ofNat s.2)) =
      ((rowSteps dims).filter fun s => s.1 ≠ d).map fun s => (s.2 : Int) :=
    List.map_congr_left fun s h => hint s (List.mem_of_mem_filter h)
  rw [otherStrides, hs, List.filter_map, List.map_map, hfilter, hmap]
  refine List.mergeSort_of_pairwise (List.pairwise_map.2 ?_)
  refine ((pairwise_rowSteps hx).filter _).imp ?_
  intro a b h
  simpa using h

/-- the element a position belongs to: the coordinate along the guarded axis and those along the axes of its stride -/
theorem elementAlong_rowPosition (hx : InRange dims x) (hnodup : (dims.map Prod.fst).Nodup)
    (hsmall : ∀ s ∈ rowSteps dims, s.2 ≤ signedMax)
    (hs : strides.entries = (rowSteps dims).map fun s => (s.1, Int64.ofNat s.2)) (hd : (d, step) ∈ rowSteps dims)
    (hpos : rowPosition dims x ≤ signedMax) :
    elementAlong ((otherStrides strides d).filter fun s => (step : Int) < s) step (Int64.ofNat (rowPosition dims x)) =
      UInt64.ofNat ((x d).toNat +
        (((rowSteps dims).filter fun s => s.1 ≠ d ∧ s.2 = step).map fun s => (x s.1).toNat).sum) := by
  have hint := toInt_ofNat_of_le hpos
  have hlarger : ((otherStrides strides d).filter fun s => (step : Int) < s) =
      (((rowSteps dims).filter fun s => s.1 ≠ d ∧ step < s.2).map Prod.snd).map fun s : Nat => (s : Int) := by
    rw [otherStrides_rowMajor hx hsmall hs, List.filter_map, List.filter_filter, List.map_map]
    refine congrArg _ (List.filter_congr ?_)
    intro s _
    simp [Bool.and_comm]
  rw [elementAlong, hint, hlarger, foldl_natCast_mod, ← Int.natCast_ediv, foldl_rowPosition hx hnodup hd,
    uint64_ofInt_natCast]

end Guard

/-! ## Cells of an element -/

namespace View

variable {v : View} {dims : List (Dim × UInt64)} {x : Dim → UInt64} {d : Dim} {step : Nat}

/-- what the guard of an element of a row-major field admits -/
theorem RowMajor.admits_iff (h : v.RowMajor dims) (hx : InRange dims x) (hd : (d, step) ∈ rowSteps dims) {g : Guard}
    (hg : Guard.forElement v.strides d v.offset (x d) = some g) (hpos : rowPosition dims x ≤ signedMax) :
    g.admits (Int64.ofNat (rowPosition dims x)) = true ↔ ∀ s ∈ rowSteps dims, s.1 ≠ d → s.2 = step → x s.1 = 0 := by
  obtain ⟨_, hs, -, rfl⟩ := Guard.forElement_eq_some.1 hg
  obtain rfl := Option.some.inj ((h.get?_strides hd).symm.trans hs)
  have hword : (x d).toNat + (((rowSteps dims).filter fun s => s.1 ≠ d ∧ s.2 = step).map fun s => (x s.1).toNat).sum <
      2 ^ 64 := by
    rw [← foldl_rowPosition hx h.nodup hd]
    calc _ ≤ _ := Nat.div_le_self _ _
      _ ≤ rowPosition dims x := Guard.foldl_mod_le _ _
      _ < 2 ^ 64 := by simp only [signedMax] at hpos; omega
  rw [Guard.admits, Guard.elementOf, h.toInt_step hd, h.start, Guard.elementAlong_zero,
    Guard.elementAlong_rowPosition hx h.nodup h.small h.strides hd hpos, beq_iff_eq, UInt64.zero_add,
    UInt64.ofNat_eq_iff_mod_eq_toNat, Nat.mod_eq_of_lt hword, Nat.add_eq_left, List.sum_eq_zero_iff,
    List.forall_mem_map]
  constructor
  · intro hz s hs hne hstep
    exact UInt64.toNat_inj.1 (hz s (List.mem_filter.2 ⟨hs, decide_eq_true ⟨hne, hstep⟩⟩))
  · intro hz s hs
    obtain ⟨hs, hp⟩ := List.mem_filter.1 hs
    obtain ⟨hne, hstep⟩ := of_decide_eq_true hp
    rw [hz s hs hne hstep]
    rfl

/-- **When an element reaches its cell**, whatever the order of the moves: the buffer's positions are words, and the
other axes with the stride of the guarded one are at zero. -/
theorem index?_cell (h : v.RowMajor dims) (hw : v.access = .writable) (hx : InRange dims x)
    (hd : (d, step) ∈ rowSteps dims) {path : List (Int64 × Int64)}
    (hpath : ((v.strides.stepOf d, (x d).toInt64) :: path).Perm (v.cellMoves dims x)) :
    ((v.elementOrigin d (x d)).shiftAll path).index? =
      if rowPosition dims x ≤ signedMax ∧ ∀ s ∈ rowSteps dims, s.1 ≠ d → s.2 = step → x s.1 = 0 then
        some (rowPosition dims x) else none := by
  obtain ⟨g, hg, ho⟩ := elementOrigin_of_hasElement hw (h.hasElement hx hd)
  have hlt := (rowPosition_lt hx).trans_le h.room
  have hword := (rowPosition_lt hx).trans_le h.word
  rw [h.elementOrigin_cell hpath, ho, Handle.index?]
  by_cases hpos : rowPosition dims x ≤ signedMax
  · have hint := toInt_ofNat_of_le hpos
    have hadmits := h.admits_iff hx hd hg hpos
    have hposition : (Handle.mk .writable v.length (.ofNat (rowPosition dims x)) (some g)).position? =
        some (rowPosition dims x) := by
      simp only [Handle.position?, hint]
      rw [if_pos (by omega), Int.toNat_natCast]
    rw [Handle.moveTo, hposition]
    simp only [Handle.admitted, hadmits, hpos, true_and]
  · -- past the largest signed word an offset is negative
    have hneg : (Int64.ofNat (rowPosition dims x)).toInt < 0 := by
      simp only [signedMax, wordMax] at hpos hword
      rw [Int64.toInt_ofNat', Int.bmod_def]
      simp only [Int64.size]
      omega
    have hposition : (Handle.mk .writable v.length (.ofNat (rowPosition dims x)) (some g)).position? = none :=
      if_neg fun hc => absurd hc.1 (not_le.2 hneg)
    rw [Handle.moveTo, hposition, ite_self, if_neg fun hc => hpos hc.1]

end View

/-! ## All cells of all elements -/

namespace Layout

theorem rowSteps_append (front rest : List (Dim × UInt64)) :
    rowSteps (front ++ rest) = ((rowSteps front).map fun s => (s.1, s.2 * volume rest)) ++ rowSteps rest := by
  induction front with
  | nil => rfl
  | cons a front ih => rw [List.cons_append, rowSteps, rowSteps, ih, volume_append, List.map_cons, List.cons_append]

/-- the last of some axes whose extent is not 1 has stride 1 -/
theorem exists_unit_step {front : List (Dim × UInt64)} (h : ¬ ∀ a ∈ front, a.2 = 1) :
    ∃ a ∈ front, a.2 ≠ 1 ∧ (a.1, 1) ∈ rowSteps front := by
  induction front with
  | nil => exact absurd (fun a ha => absurd ha List.not_mem_nil) h
  | cons a front ih =>
    by_cases hrest : ∀ b ∈ front, b.2 = 1
    · have hvol : volume front = 1 := by
        refine List.prod_eq_one (List.forall_mem_map.2 ?_)
        intro b hb
        rw [hrest b hb]
        rfl
      have ha : a.2 ≠ 1 := fun e => h (List.forall_mem_cons.2 ⟨e, hrest⟩)
      exact ⟨a, List.mem_cons_self, ha, by rw [rowSteps, hvol]; exact List.mem_cons_self⟩
    · obtain ⟨b, hb, hne, hs⟩ := ih hrest
      exact ⟨b, List.mem_cons_of_mem a hb, hne, List.mem_cons_of_mem _ hs⟩

end Layout

namespace View

/-- the elements along the axis between `front` and `back` reach all their cells, whatever the order of the moves -/
def OwnCellsAccessible (v : View) (front : List (Dim × UInt64)) (d : Dim) (e : UInt64) (back : List (Dim × UInt64)) :
    Prop :=
  ∀ x, InRange (front ++ (d, e) :: back) x → ∀ path, path.Perm (v.cellMoves (front ++ back) x) →
    ((v.elementOrigin d (x d)).shiftAll path).accessible = true

variable {v : View} {front back : List (Dim × UInt64)} {d : Dim} {e : UInt64} {x : Dim → UInt64}

theorem mem_rowSteps_middle : (d, volume back) ∈ rowSteps (front ++ (d, e) :: back) := by
  rw [rowSteps_append]
  exact List.mem_append_right _ List.mem_cons_self

theorem perm_cellMoves {path : List (Int64 × Int64)} (hpath : path.Perm (v.cellMoves (front ++ back) x)) :
    ((v.strides.stepOf d, (x d).toInt64) :: path).Perm (v.cellMoves (front ++ (d, e) :: back) x) := by
  have hmiddle : (v.cellMoves (front ++ (d, e) :: back) x).Perm
      ((v.strides.stepOf d, (x d).toInt64) :: v.cellMoves (front ++ back) x) := List.perm_middle.map _
  exact (hpath.cons _).trans hmiddle.symm

theorem RowMajor.ne_of_mem (h : v.RowMajor (front ++ (d, e) :: back)) {a : Dim × UInt64} (ha : a ∈ front ++ back) :
    a.1 ≠ d := by
  have hnodup := h.nodup
  rw [(List.perm_middle.map Prod.fst).nodup_iff, List.map_cons, List.nodup_cons] at hnodup
  exact fun he => hnodup.1 (he ▸ List.mem_map.2 ⟨a, ha, rfl⟩)

theorem RowMajor.sameStep_iff (h : v.RowMajor (front ++ (d, e) :: back)) :
    (∀ s ∈ rowSteps (front ++ (d, e) :: back), s.1 ≠ d → s.2 = volume back → x s.1 = 0) ↔
      ∀ a ∈ front ++ back, v.strides.stepOf a.1 = v.strides.stepOf d → x a.1 = 0 := by
  have hd : (d, volume back) ∈ rowSteps (front ++ (d, e) :: back) := mem_rowSteps_middle
  have hmem {k : Dim} : k ∈ (front ++ back).map Prod.fst ↔ k ∈ (front ++ (d, e) :: back).map Prod.fst ∧ k ≠ d := by
    rw [(List.perm_middle.map Prod.fst).mem_iff, List.map_cons, List.mem_cons]
    constructor
    · intro hk
      obtain ⟨a, ha, rfl⟩ := List.mem_map.1 hk
      exact ⟨Or.inr hk, h.ne_of_mem ha⟩
    · rintro ⟨hk, hne⟩
      exact hk.resolve_left hne
  constructor
  · intro hz a ha hstep
    obtain ⟨hk, hne⟩ := hmem.1 (List.mem_map.2 ⟨a, ha, rfl⟩)
    rw [← map_fst_rowSteps] at hk
    obtain ⟨s, hs, he⟩ := List.mem_map.1 hk
    rw [← he] at hstep hne ⊢
    rw [h.stepOf_eq hs, h.stepOf_eq hd] at hstep
    refine hz s hs hne ?_
    have hint := congrArg Int64.toInt hstep
    rw [h.toInt_step hs, h.toInt_step hd] at hint
    omega
  · intro hz s hs hne hstep
    obtain ⟨a, ha, he⟩ := List.mem_map.1 (hmem.2 ⟨mem_map_fst_of_mem_rowSteps hs, hne⟩)
    rw [← he]
    refine hz a ha ?_
    rw [he, h.stepOf_eq hs, h.stepOf_eq hd, hstep]

/-- an axis of the stride of the guarded one is at zero, unless it lies in front of an extent of 1 -/
theorem sameStep_eq_zero (hx : InRange (front ++ (d, e) :: back) x) (he : e ≠ 1 ∨ ∀ a ∈ front, a.2 = 1)
    {s : Dim × Nat} (hs : s ∈ rowSteps (front ++ (d, e) :: back)) (hne : s.1 ≠ d) (hstep : s.2 = volume back) :
    x s.1 = 0 := by
  have hback : InRange back x := fun a ha => hx a (by simp [ha])
  rw [rowSteps_append, List.mem_append] at hs
  rcases hs with hs | hs
  · obtain ⟨t, ht, rfl⟩ := List.mem_map.1 hs
    have hvol := volume_pos hback
    have hone : t.2 * e.toNat = 1 := by
      refine Nat.eq_of_mul_eq_mul_right hvol ?_
      rw [Nat.one_mul, Nat.mul_assoc, ← volume_cons (d, e)]
      exact hstep
    have he' : e = 1 := UInt64.toNat_inj.1 (Nat.eq_one_of_mul_eq_one_left hone)
    obtain ⟨a, ha, hk⟩ := List.mem_map.1 (mem_map_fst_of_mem_rowSteps ht)
    have hlt := hx a (by simp [ha])
    rw [he.resolve_left (not_not.2 he') a ha, hk] at hlt
    exact UInt64.toNat_inj.1 (Nat.lt_one_iff.1 (UInt64.lt_iff_toNat_lt.1 hlt))
  · rcases List.mem_cons.1 hs with rfl | hs
    · exact absurd rfl hne
    · exact coord_eq_zero hback hs hstep.ge

/-- with the axis of the elements outermost, an element of a view of either access reaches all its cells -/
theorem index?_cell_first (h : v.RowMajor ((d, e) :: back)) (hx : InRange ((d, e) :: back) x)
    (hpos : rowPosition ((d, e) :: back) x ≤ signedMax) {path : List (Int64 × Int64)}
    (hpath : path.Perm (v.cellMoves back x)) :
    ((v.elementOrigin d (x d)).shiftAll path).index? = some (rowPosition ((d, e) :: back) x) := by
  have hmoves : ((v.strides.stepOf d, (x d).toInt64) :: path).Perm (v.cellMoves ((d, e) :: back) x) := hpath.cons _
  cases hw : v.access with
  | readOnly => exact h.index?_cell_readOnly hw hx hpos hmoves
  | writable =>
    have hzero : ∀ s ∈ rowSteps ((d, e) :: back), s.1 ≠ d → s.2 = volume back → x s.1 = 0 := fun s hs =>
      sameStep_eq_zero hx (Or.inr fun a ha => absurd ha List.not_mem_nil) hs
    rw [index?_cell h hw hx List.mem_cons_self hmoves, if_pos ⟨hpos, hzero⟩]

/-- **Own cells of a row-major field.** The handle of an element, moved to the coordinates of one of its cells in any
order, reaches that cell exactly when its position is a word and all other axes with the stride of the element's axis
are at zero. So the elements reach all their cells exactly when there are none, or the extent of their axis is not 1, or
every axis in front of it has extent 1. -/
theorem own_cells_accessible_iff {r : ResolvedLayout} (hr : (rowMajor (front ++ (d, e) :: back)).resolve = .ok r)
    {length : Nat} (hlen : r.span ≤ length) (storage : Storage) :
    ∃ v, ofLayout .writable length (rowMajor (front ++ (d, e) :: back)) storage = .ok v ∧
      (∀ x, InRange (front ++ (d, e) :: back) x → ∀ path, path.Perm (v.cellMoves (front ++ back) x) →
        ((v.elementOrigin d (x d)).shiftAll path).index? =
          if rowPosition (front ++ (d, e) :: back) x ≤ signedMax ∧
              ∀ a ∈ front ++ back, v.strides.stepOf a.1 = v.strides.stepOf d → x a.1 = 0 then
            some (rowPosition (front ++ (d, e) :: back) x) else none) ∧
      (length ≤ signedMax → (v.OwnCellsAccessible front d e back ↔
        (∃ a ∈ front ++ (d, e) :: back, a.2 = 0) ∨ e ≠ 1 ∨ ∀ a ∈ front, a.2 = 1)) := by
  obtain ⟨hv, h⟩ := ofLayout_rowMajor hr hlen .writable storage
  have hd : (d, volume back) ∈ rowSteps (front ++ (d, e) :: back) := mem_rowSteps_middle
  refine ⟨_, hv, ?_, fun hsigned => ⟨?_, ?_⟩⟩
  · intro x hx path hpath
    simp only [index?_cell h rfl hx hd (perm_cellMoves hpath), h.sameStep_iff]
  · -- one step along the last axis in front that has room for it is counted as one along the guarded axis
    intro hall
    by_contra hnot
    push Not at hnot
    obtain ⟨hpos, rfl, hfront⟩ := hnot
    obtain ⟨a, ha, hne, hs⟩ := exists_unit_step fun hone => (hfront.elim fun a ha => ha.2 (hone a ha.1))
    have hs : (a.1, volume back) ∈ rowSteps (front ++ (d, 1) :: back) := by
      rw [rowSteps_append]
      refine List.mem_append_left _ (List.mem_map.2 ⟨(a.1, 1), hs, ?_⟩)
      simp
    let x : Dim → UInt64 := fun k => if k = a.1 then 1 else 0
    have hx : InRange (front ++ (d, 1) :: back) x := by
      intro b hb
      have hzero : b.2.toNat ≠ 0 := fun hz => hpos b hb (UInt64.toNat_inj.1 hz)
      rw [UInt64.lt_iff_toNat_lt]
      by_cases hk : b.1 = a.1
      · obtain rfl : b = a := List.inj_on_of_nodup_map h.nodup hb (List.mem_append_left _ ha) hk
        have hone : b.2.toNat ≠ 1 := fun ho => hne (UInt64.toNat_inj.1 ho)
        simp only [x, if_true, UInt64.reduceToNat]
        omega
      · simp only [x, hk, if_false, UInt64.reduceToNat]
        omega
    have hacc := hall x hx _ (List.Perm.refl _)
    rw [Handle.accessible, index?_cell h rfl hx hd (perm_cellMoves (List.Perm.refl _)), if_neg] at hacc
    · cases hacc
    · intro hc
      have hz := hc.2 _ hs (h.ne_of_mem (List.mem_append_left back ha)) rfl
      simp only [x, if_true] at hz
      cases hz
  · intro hcond x hx path hpath
    have hlt := (rowPosition_lt hx).trans_le h.room
    have hcond : e ≠ 1 ∨ ∀ a ∈ front, a.2 = 1 := hcond.resolve_left fun ⟨a, ha, hz⟩ => by
      have := hx a ha
      rw [hz] at this
      exact absurd this (UInt64.not_lt.2 UInt64.zero_le)
    have hpos : rowPosition (front ++ (d, e) :: back) x ≤ signedMax := hlt.le.trans hsigned
    rw [Handle.accessible, index?_cell h rfl hx hd (perm_cellMoves hpath),
      if_pos ⟨hpos, fun s hs => sameStep_eq_zero hx hcond hs⟩]
    rfl

/-- levels outside of elements, two of each -/
def levelsOutside : ResolvedLayout where
  strides := ⟨[(.vertical, 2), (.horizontal, 1)], by decide, by decide⟩
  bounds := ⟨[(.vertical, 2), (.horizontal, 2)], by decide, by decide⟩
  span := 4

/-- with two elements inside of two levels, both reach their cells -/
theorem own_cells_accessible_iff_levels :
    (rowMajor ([(.vertical, 2)] ++ (.horizontal, 2) :: [])).resolve = .ok levelsOutside ∧ levelsOutside.span ≤ 4 ∧
      ∃ v, ofLayout .writable 4 (rowMajor ([(.vertical, 2)] ++ (.horizontal, 2) :: [])) .host = .ok v ∧
        v.OwnCellsAccessible [(.vertical, 2)] .horizontal 2 [] := by
  have hr : (rowMajor ([(.vertical, 2)] ++ (.horizontal, 2) :: [])).resolve = .ok levelsOutside :=
    resolve_rowMajor.2 ⟨by decide, by decide, by decide, by decide, rfl, rfl, rfl⟩
  have hlen : levelsOutside.span ≤ 4 := by decide
  obtain ⟨v, hv, -, hall⟩ := own_cells_accessible_iff hr hlen .host
  exact ⟨hr, hlen, v, hv, (hall (by decide)).2 (Or.inr (Or.inl (by decide)))⟩

/-- the second level of element zero -/
def upperCell (k : Dim) : UInt64 := if k = .vertical then 1 else 0

/-- with a single element inside of two levels, its cell at the second level is refused -/
theorem own_cell_refused :
    ∃ v, ofLayout .writable 2 (rowMajor ([(.vertical, 2)] ++ (.horizontal, 1) :: [])) .host = .ok v ∧
      ((v.elementOrigin .horizontal 0).shiftBy (v.strides.stepOf .vertical) 1).accessible = false ∧
      ¬ v.OwnCellsAccessible [(.vertical, 2)] .horizontal 1 [] := by
  have hv : ∃ v, ofLayout .writable 2 (rowMajor ([(.vertical, 2)] ++ (.horizontal, 1) :: [])) .host = .ok v ∧
      ((v.elementOrigin .horizontal 0).shiftBy (v.strides.stepOf .vertical) 1).accessible = false :=
    ⟨_, rfl, by decide +kernel⟩
  obtain ⟨v, hv, hrefused⟩ := hv
  refine ⟨v, hv, hrefused, ?_⟩
  intro hall
  have hmoves : v.cellMoves ([(.vertical, 2)] ++ []) upperCell = [(v.strides.stepOf .vertical, 1)] := rfl
  have hreached := hall upperCell (by decide) _ (List.Perm.refl _)
  rw [hmoves, show upperCell .horizontal = 0 from rfl] at hreached
  exact Bool.false_ne_true (hrefused.symm.trans hreached)

end View

end Stencil
