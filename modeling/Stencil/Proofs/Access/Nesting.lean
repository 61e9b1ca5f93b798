/-
Nested strides. Where every stride is larger than all that the axes of smaller strides reach together, padding or not,
an offset has one set of coordinates in range, and taking the strides from the largest to the smallest finds them. So
the guard of an element admits, of all the cells of a field, those of the element and no other.

- `foldl_mod_placeOf`: the larger strides take their own coordinates away;
- `Nested.elementAlong_position`: a position belongs to the element of its coordinate;
- `Nested.admitted_iff`: so the guard of an element admits the cells with the element's coordinate;
- `nested_ownership`: a handle of a shifted view reaches a cell exactly when the cell is one of its element.
-/
import Mathlib.Tactic
import Stencil.Proofs.Access.InRange
import Stencil.Proofs.Access.Ownership

namespace Stencil

/-! ## Axes by falling stride -/

/-- the offset of coordinates along a list of axes with strides -/
def placeOf (axes : List (Dim × Int64)) (x : Dim → Int) : Int := (axes.map fun e => e.2.toInt * x e.1).sum

@[simp] theorem placeOf_cons (e : Dim × Int64) (axes : List (Dim × Int64)) (x : Dim → Int) :
    placeOf (e :: axes) x = e.2.toInt * x e.1 + placeOf axes x := rfl

@[simp] theorem placeOf_append (axes axes' : List (Dim × Int64)) (x : Dim → Int) :
    placeOf (axes ++ axes') x = placeOf axes x + placeOf axes' x := by
  simp [placeOf]

theorem placeOf_perm {axes axes' : List (Dim × Int64)} (h : axes.Perm axes') (x : Dim → Int) :
    placeOf axes x = placeOf axes' x := (h.map _).sum_eq

/-- **The larger strides take their own coordinates away**: the remainders by strides that are larger than all that
follows leave what follows the last of them. -/
theorem foldl_mod_placeOf {axes : List (Dim × Int64)} {x : Dim → Int} {rest : Int}
    (h : ∀ front e back, axes = front ++ e :: back →
      0 ≤ placeOf back x + rest ∧ placeOf back x + rest < e.2.toInt) :
    (axes.map fun e => e.2.toInt).foldl (fun rest stride => rest % stride) (placeOf axes x + rest) = rest := by
  induction axes with
  | nil => simp [placeOf]
  | cons e axes ih =>
    obtain ⟨h0, hlt⟩ := h [] e axes rfl
    have hmod : (placeOf (e :: axes) x + rest) % e.2.toInt = placeOf axes x + rest := by
      rw [placeOf_cons, Int.add_assoc, Int.mul_add_emod_self_left, Int.emod_eq_of_lt h0 hlt]
    rw [List.map_cons, List.foldl_cons, hmod]
    refine ih fun front f back hsplit => h (e :: front) f back ?_
    rw [hsplit, List.cons_append]

theorem pairwise_mergeSort_ge {α : Type} (f : α → Int) (l : List α) :
    (l.mergeSort fun a b => f b ≤ f a).Pairwise fun a b => f b ≤ f a := by
  refine (List.pairwise_mergeSort ?_ ?_ l).imp fun h => of_decide_eq_true h
  · intro a b c hab hbc
    exact decide_eq_true ((of_decide_eq_true hbc).trans (of_decide_eq_true hab))
  · intro a b
    simpa using le_total (f b) (f a)

namespace DimMap

/-- the axes with their strides, the largest stride first -/
def descending (strides : DimMap Int64) : List (Dim × Int64) :=
  strides.entries.mergeSort fun a b => b.2.toInt ≤ a.2.toInt

variable {strides : DimMap Int64} {d : Dim} {step : Int64} {front back : List (Dim × Int64)}

theorem perm_descending (strides : DimMap Int64) : strides.descending.Perm strides.entries := List.mergeSort_perm _ _

theorem pairwise_descending (hdistinct : (strides.entries.map Prod.snd).Nodup) :
    strides.descending.Pairwise fun a b => b.2.toInt < a.2.toInt := by
  have hle := pairwise_mergeSort_ge (fun e : Dim × Int64 => e.2.toInt) strides.entries
  have hne : strides.descending.Pairwise fun a b => a.2 ≠ b.2 :=
    List.pairwise_map.1 (((perm_descending strides).map Prod.snd).nodup_iff.2 hdistinct)
  refine (hle.and hne).imp ?_
  rintro a b ⟨hab, hn⟩
  exact lt_of_le_of_ne hab fun he => hn (Int64.toInt_inj.1 he.symm)

/-- in front of an axis stand the larger strides, behind it the smaller ones -/
theorem lt_of_descending_eq (hdistinct : (strides.entries.map Prod.snd).Nodup)
    (hsplit : strides.descending = front ++ (d, step) :: back) :
    (∀ e ∈ front, step.toInt < e.2.toInt ∧ e.1 ≠ d) ∧ ∀ e ∈ back, e.2.toInt < step.toInt := by
  have hfalls := pairwise_descending hdistinct
  have hkeys : (strides.descending.map Prod.fst).Nodup :=
    ((perm_descending strides).map Prod.fst).nodup_iff.2 strides.nodup
  rw [hsplit, List.pairwise_append, List.pairwise_cons] at hfalls
  rw [hsplit, List.map_append, List.nodup_append] at hkeys
  refine ⟨fun e he => ⟨hfalls.2.2 e he _ List.mem_cons_self, ?_⟩, hfalls.2.1.1⟩
  exact hkeys.2.2 e.1 (List.mem_map.2 ⟨e, he, rfl⟩) d (by simp)

/-- the strides that the guard takes first are those in front of the guarded one -/
theorem larger_eq (hdistinct : (strides.entries.map Prod.snd).Nodup)
    (hpositive : ∀ e ∈ strides.entries, 0 < e.2.toInt) (hsplit : strides.descending = front ++ (d, step) :: back) :
    ((Guard.otherStrides strides d).filter fun s => step.toInt < s) = front.map fun e => e.2.toInt := by
  obtain ⟨hfront, hback⟩ := lt_of_descending_eq hdistinct hsplit
  have hothers : (Guard.otherStrides strides d).Perm
      ((strides.descending.filter fun e => e.1 ≠ d && 0 < e.2.toInt).map fun e => e.2.toInt) :=
    (List.mergeSort_perm _ _).trans (((perm_descending strides).symm.filter _).map _)
  have hkept : ((strides.descending.filter fun e => e.1 ≠ d && 0 < e.2.toInt).map fun e => e.2.toInt).filter
      (fun s => step.toInt < s) = front.map fun e => e.2.toInt := by
    have hall : front.filter (fun e => step.toInt < e.2.toInt && (e.1 ≠ d && 0 < e.2.toInt)) = front := by
      refine List.filter_eq_self.2 fun e he => ?_
      have hmem : e ∈ strides.entries := (perm_descending strides).mem_iff.1 (hsplit ▸ List.mem_append_left _ he)
      simp [hfront e he, hpositive e hmem]
    have hnone : back.filter (fun e => step.toInt < e.2.toInt && (e.1 ≠ d && 0 < e.2.toInt)) = [] := by
      refine List.filter_eq_nil_iff.2 fun e he => ?_
      have := hback e he
      simp only [Bool.and_eq_true, decide_eq_true_eq, not_and]
      omega
    rw [List.filter_map, List.filter_filter, hsplit, List.filter_append, List.filter_cons]
    simp only [Function.comp_def, hall, hnone, lt_irrefl, decide_false, Bool.false_and, Bool.false_eq_true, if_false,
      List.append_nil]
  -- both lists fall, and they hold the same strides
  have hsorted : ((Guard.otherStrides strides d).filter fun s => step.toInt < s).Pairwise fun a b => b ≤ a :=
    (pairwise_mergeSort_ge (fun s => s) _).filter _
  have hfalls : (front.map fun e => e.2.toInt).Pairwise fun a b => b ≤ a := by
    have hfalls := pairwise_descending hdistinct
    rw [hsplit, List.pairwise_append] at hfalls
    exact List.pairwise_map.2 (hfalls.1.imp fun h => h.le)
  exact List.Perm.eq_of_pairwise (fun a b _ _ hab hba => le_antisymm hba hab) hsorted hfalls
    (hkept ▸ hothers.filter _)

end DimMap

/-! ## Nested views -/

namespace View

/-- every stride of the view is positive, no two are equal, and each is larger than what all axes of smaller strides
reach together -/
structure Nested (v : View) : Prop where
  positive : ∀ e ∈ v.strides.entries, 0 < e.2.toInt
  distinct : (v.strides.entries.map Prod.snd).Nodup
  outreach : ∀ e ∈ v.strides.entries,
    placeOf (v.strides.entries.filter fun s => s.2.toInt < e.2.toInt) (fun d => v.bounds.extent d - 1) < e.2.toInt

variable {v : View} {l : Layout} {x : Dim → Int} {d : Dim} {step : Int64} {front back : List (Dim × Int64)}

theorem Nested.placeOf_back (h : v.Nested) (hspans : v.Spans l) (hx : l.Contains x) {e : Dim × Int64}
    (hsplit : v.strides.descending = front ++ e :: back) :
    0 ≤ placeOf back x ∧ placeOf back x < e.2.toInt := by
  have hmem {f : Dim × Int64} (hf : f ∈ front ++ e :: back) : f ∈ v.strides.entries :=
    (DimMap.perm_descending v.strides).mem_iff.1 (hsplit ▸ hf)
  obtain ⟨hfront, hback⟩ := DimMap.lt_of_descending_eq h.distinct (show _ = front ++ (e.1, e.2) :: back from hsplit)
  -- the axes of smaller strides are those behind
  have hsmaller : (v.strides.entries.filter fun s => s.2.toInt < e.2.toInt).Perm back := by
    refine ((DimMap.perm_descending v.strides).symm.filter _).trans ?_
    have hnone : front.filter (fun s => s.2.toInt < e.2.toInt) = [] := by
      refine List.filter_eq_nil_iff.2 fun f hf => ?_
      have := (hfront f hf).1
      simp only [decide_eq_true_eq]
      omega
    have hall : back.filter (fun s => s.2.toInt < e.2.toInt) = back :=
      List.filter_eq_self.2 fun f hf => decide_eq_true (hback f hf)
    rw [hsplit, List.filter_append, List.filter_cons, hnone, hall]
    simp
  have hreach := h.outreach e (hmem (by simp))
  rw [placeOf_perm hsmaller] at hreach
  have hcoordinate (f : Dim × Int64) (hf : f ∈ back) : 0 < f.2.toInt ∧ 0 ≤ x f.1 ∧ x f.1 ≤ v.bounds.extent f.1 - 1 := by
    have hf := hmem (List.mem_append_right front (List.mem_cons_of_mem e hf))
    have hkey : f.1 ∈ l.axes.map LayoutAxis.dim := hspans.keys ▸ DimMap.mem_keys_of_mem hf
    obtain ⟨a, ha, hdim⟩ := List.mem_map.1 hkey
    have hin := hx a ha
    have hext := DimMap.extent_of_mem (hspans.mem_bounds ha)
    simp only at hext
    rw [← hdim, hext]
    exact ⟨h.positive f hf, by omega⟩
  constructor
  · refine List.sum_nonneg (List.forall_mem_map.2 fun f hf => ?_)
    obtain ⟨hs, h0, -⟩ := hcoordinate f hf
    exact Int.mul_nonneg hs.le h0
  · refine lt_of_le_of_lt (List.sum_le_sum fun f hf => ?_) hreach
    obtain ⟨hs, -, hle⟩ := hcoordinate f hf
    exact Int.mul_le_mul_of_nonneg_left hle hs.le

/-- **A position belongs to the element of its coordinate.** -/
theorem Nested.elementAlong_position (h : v.Nested) (hspans : v.Spans l) (hx : l.Contains x)
    (hd : (d, step) ∈ v.strides.entries) (hsigned : v.strides.position x ≤ signedMax) :
    Guard.elementAlong ((Guard.otherStrides v.strides d).filter fun s => step.toInt < s) step.toInt
      (.ofInt (v.strides.position x)) = UInt64.ofInt (x d) := by
  obtain ⟨front, back, hsplit⟩ := List.append_of_mem ((DimMap.perm_descending v.strides).mem_iff.2 hd)
  obtain ⟨h0, hlt⟩ := h.placeOf_back hspans hx hsplit
  have hpos : 0 < step.toInt := h.positive _ hd
  have hplace : v.strides.position x = placeOf front x + (step.toInt * x d + placeOf back x) := by
    rw [DimMap.position, ← placeOf, ← placeOf_perm (DimMap.perm_descending v.strides), hsplit, placeOf_append,
      placeOf_cons]
  have hnonneg : 0 ≤ v.strides.position x := hspans.position_nonneg fun a ha => (hx a ha).1
  have hint : (Int64.ofInt (v.strides.position x)).toInt = v.strides.position x := by
    have : (signedMax : Int) = 2 ^ 63 - 1 := rfl
    exact Int64.toInt_ofInt_of_le (by omega) (by omega)
  have hfold : (front.map fun e => e.2.toInt).foldl (fun rest stride => rest % stride) (v.strides.position x) =
      step.toInt * x d + placeOf back x := by
    rw [hplace]
    refine foldl_mod_placeOf fun front' e back' hfront => ?_
    have hcut : v.strides.descending = front' ++ e :: (back' ++ (d, step) :: back) := by
      rw [hsplit, hfront, List.append_assoc, List.cons_append]
    simpa using h.placeOf_back hspans hx hcut
  rw [Guard.elementAlong, DimMap.larger_eq h.distinct h.positive hsplit, hint, hfold,
    Int.add_comm, Int.add_mul_ediv_left _ _ (by omega), Int.ediv_eq_zero_of_lt h0 hlt, Int.zero_add]

/-- the extents of a nested view are signed words when its buffer has no more elements than these -/
theorem Nested.extent_le (h : v.Nested) (hspans : v.Spans l) (hsigned : v.length ≤ signedMax) (hx : l.Contains x)
    {a : LayoutAxis} (ha : a ∈ l.axes) : a.extent.toNat ≤ signedMax := by
  -- the last element along the axis stands inside of the buffer, at least as many places on as there are before it
  have hlast : l.Contains fun k => if k = a.dim then a.extent.toNat - 1 else 0 := by
    intro b hb
    have hpos := hx b hb
    simp only
    by_cases hdim : b.dim = a.dim
    · have hext := hspans.get?_bounds hb
      rw [hdim, hspans.get?_bounds ha, Option.some.injEq] at hext
      rw [if_pos hdim, hext]
      omega
    · rw [if_neg hdim]
      omega
  obtain ⟨hlt, -⟩ := hspans.inside _ hlast
  obtain ⟨e, he, hdim⟩ := List.mem_map.1 (hspans.mem_keys ha)
  have hstep : v.strides.stepOf a.dim = e.2 := by
    rw [DimMap.stepOf, ← hdim, DimMap.get?_eq_some_of_mem he, Option.getD_some]
  rw [DimMap.position_single, hstep] at hlt
  have hpos := h.positive e he
  have hin := hx a ha
  have hle : 1 * ((a.extent.toNat : Int) - 1) ≤ e.2.toInt * (a.extent.toNat - 1) :=
    Int.mul_le_mul_of_nonneg_right hpos (by omega)
  omega

theorem ofInt_eq_add_iff {a b : Int} {i : UInt64} (ha : 0 ≤ a ∧ a ≤ wordMax) (hb : 0 ≤ b)
    (hi : b + i.toNat ≤ wordMax) : UInt64.ofInt a = UInt64.ofInt b + i ↔ a = b + i.toNat := by
  obtain ⟨m, rfl⟩ := Int.eq_ofNat_of_zero_le ha.1
  obtain ⟨n, rfl⟩ := Int.eq_ofNat_of_zero_le hb
  have hmax : wordMax = 2 ^ 64 - 1 := rfl
  have hsum : UInt64.ofInt n + i = UInt64.ofNat (n + i.toNat) := by
    rw [uint64_ofInt_natCast, UInt64.ofNat_add, UInt64.ofNat_toNat]
  rw [hsum, uint64_ofInt_natCast, ← UInt64.toNat_inj, UInt64.toNat_ofNat_of_lt' (by simp [UInt64.size]; omega),
    UInt64.toNat_ofNat_of_lt' (by simp [UInt64.size]; omega)]
  omega

/-- **What the guard of an element admits** in a nested view that stands at a cell: the cells whose coordinate along the
axis is that of the element. -/
theorem Nested.admitted_iff {w : View} (h : v.Nested) (hspans : v.Spans l) (hsigned : v.length ≤ signedMax)
    (haccess : w.access = .writable) (hstrides : w.strides = v.strides) {b : Dim → Int} (hb : l.Contains b)
    (hoffset : w.offset = .ofInt (v.strides.position b)) (hx : l.Contains x) {i : UInt64} (hi : w.HasElement d i) :
    ((w.elementOrigin d i).moveTo (.ofInt (v.strides.position x))).admitted = true ↔
      UInt64.ofInt (x d) = UInt64.ofInt (b d) + i := by
  have hinside {y : Dim → Int} (hy : l.Contains y) : v.strides.position y ≤ signedMax := by
    have := (hspans.inside y hy).1
    omega
  obtain ⟨g, hg, horigin⟩ := elementOrigin_of_hasElement haccess hi
  obtain ⟨step, hs, -, rfl⟩ := Guard.forElement_eq_some.1 hg
  rw [hstrides] at hs
  have hstep := DimMap.mem_of_get?_eq_some hs
  -- both the current position and the cell belong to the elements of their coordinates
  have hcell := h.elementAlong_position hspans hx hstep (hinside hx)
  have hbase := h.elementAlong_position hspans hb hstep (hinside hb)
  simp only [horigin, Handle.admitted, Handle.moveTo, Guard.admits, Guard.elementOf, beq_iff_eq, hstrides, hoffset,
    hcell, hbase]

/-- **Exact ownership.** Of a nested view over a buffer of no more elements than signed words, shifted within range to
a cell of the field: the bound along an axis is what is left of its extent, and the handle of an element below it, the
same for the unit that shares the view, reaches among all cells in range those whose coordinate along the axis is that
of the element. -/
theorem nested_ownership {length : Nat} {storage : Storage} {moves : List (Dim × Int64)}
    (hv : ofLayout .writable length l storage = .ok v) (hsigned : length ≤ signedMax) (hnested : v.Nested)
    (hmoves : l.StaysWithin moves) (hstand : l.Contains (travelled moves)) :
    ∃ w, v.applyAll (shifts moves) = .ok w ∧ ∀ a ∈ l.axes, ∃ bound, w.upperBound a.dim = .ok bound ∧
      (bound.toNat : Int) = a.extent.toNat - travelled moves a.dim ∧ ∀ i, i < bound →
        w.share.unitOrigin ⟨a.dim, i⟩ = w.elementOrigin a.dim i ∧
        ∀ x, l.Contains x → ∀ path : List (Int64 × Int64),
          ((w.elementOrigin a.dim i).shiftAll path).offset = .ofInt (v.strides.position x) →
            ((w.elementOrigin a.dim i).shiftAll path).index? =
              if x a.dim = travelled moves a.dim + i.toNat then some (v.strides.position x).toNat else none := by
  obtain ⟨hspans, haccess, hlength, -⟩ := spans_of_ofLayout hv
  rw [← hlength] at hsigned
  obtain ⟨happly, hoffset, hbounds⟩ :=
    hspans.movedAll_inRange (fun a ha => hnested.extent_le hspans hsigned hstand ha) hmoves
  refine ⟨v.movedAll moves, happly, fun a ha => ?_⟩
  obtain ⟨bound, hb, hleft⟩ := hbounds a ha
  refine ⟨bound, by rw [upperBound, hb], hleft, fun i hi => ⟨unitOrigin_share _ _, fun x hx path hpath => ?_⟩⟩
  have hwritable : (v.movedAll moves).access = .writable := (access_movedAll v moves).trans haccess
  have helement : (v.movedAll moves).HasElement a.dim i := by
    obtain ⟨entry, hentry, hdim⟩ := List.mem_map.1 (hspans.mem_keys ha)
    refine ⟨⟨bound, hb, hi⟩, entry.2, ?_, hnested.positive entry hentry⟩
    rw [strides_movedAll, ← hdim, DimMap.get?_eq_some_of_mem hentry]
  have hadmitted := hnested.admitted_iff hspans hsigned hwritable (strides_movedAll v moves) hstand hoffset hx helement
  -- the coordinates are words, so the words tell them apart
  have hown : UInt64.ofInt (x a.dim) = UInt64.ofInt (travelled moves a.dim) + i ↔
      x a.dim = travelled moves a.dim + i.toNat := by
    have hword := a.extent.toNat_lt
    have hmax : (wordMax : Int) = 2 ^ 64 - 1 := rfl
    have := hx a ha
    have := hstand a ha
    have := UInt64.lt_iff_toNat_lt.1 hi
    exact ofInt_eq_add_iff (by omega) (by omega) (by omega)
  obtain ⟨hlt, hmax⟩ := hspans.inside x hx
  have h0 := hspans.position_nonneg fun c hc => (hx c hc).1
  have hroom : ((v.movedAll moves).elementOrigin a.dim i).length = v.length := by
    obtain ⟨g, -, horigin⟩ := elementOrigin_of_hasElement hwritable helement
    rw [horigin, length_movedAll]
  -- moves change nothing but the offset
  obtain ⟨offset, hoff⟩ := ((v.movedAll moves).elementOrigin a.dim i).shiftAll_eq_moveTo path
  rw [hoff] at hpath ⊢
  obtain rfl : offset = .ofInt (v.strides.position x) := hpath
  have hsmall : v.strides.position x ≤ signedMax := by omega
  rw [Handle.index?_moveTo _ h0 (hroom.symm ▸ hlt) hmax]
  simp only [hadmitted, hown, hsmall, and_true]

/-- from the upper of two padded levels, the third element reaches its cell on the lower level, and not the one beside
it -/
theorem nested_ownership_padded : ofLayout .writable 8 padded .host = .ok (paddedView .writable) ∧ 8 ≤ signedMax ∧
    (paddedView .writable).Nested ∧ padded.StaysWithin [(.vertical, 1)] ∧
      padded.Contains (travelled [(.vertical, 1)]) ∧
        ∃ w, (paddedView .writable).applyAll (shifts [(.vertical, 1)]) = .ok w ∧
          ((w.elementOrigin .horizontal 2).shiftAll [(4, -1)]).index? = some 2 ∧
          ((w.elementOrigin .horizontal 2).shiftAll [(4, -1), (1, -1)]).index? = none := by
  have hnested : (paddedView .writable).Nested := ⟨by decide, by decide, by decide +kernel⟩
  have hmoves : padded.StaysWithin [(.vertical, 1)] := by decide
  have hstand : padded.Contains (travelled [(.vertical, 1)]) := by decide
  obtain ⟨w, hw, howned⟩ := nested_ownership (ofLayout_padded .writable) (by decide) hnested hmoves hstand
  obtain rfl : (paddedView .writable).movedAll [(.vertical, 1)] = w :=
    Except.ok.inj ((applyAll_shifts (by decide)).symm.trans hw)
  obtain ⟨bound, hbound, -, helements⟩ := howned ⟨.horizontal, 3, none⟩ (by decide)
  obtain rfl : 3 = bound := Except.ok.inj hbound
  obtain ⟨-, hcells⟩ := helements 2 (by decide)
  let cell (c : Int) (k : Dim) : Int := if k = .horizontal then c else 0
  have hown := hcells (cell 2) (by decide) [(4, -1)] (by decide +kernel)
  have hother := hcells (cell 1) (by decide) [(4, -1), (1, -1)] (by decide +kernel)
  exact ⟨ofLayout_padded .writable, by decide, hnested, hmoves, hstand, _, hw, hown, hother⟩

end View

end Stencil
