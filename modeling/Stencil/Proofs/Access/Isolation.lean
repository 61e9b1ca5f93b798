/-
Isolation of units. Each unit of a launch is given a handle of a writable view that is confined to one element; this
file shows that the confinement holds for every view, whatever its strides, position, bounds and buffer.

- `index?_disjoint`: the handles of two elements never reach the same position, however they are moved. Both guards
  split an offset in the same way, and the owners differ because adding an index to a word is injective.
- `index?_eq_none`: without a bound above the index, or without a positive stride, the handle reaches nothing.
- `checkedElement_eq`: splitting an offset never divides by zero, never leaves the word range and never reads a
  slot that is not there.
- `unitOrigin_share`: the handle made from the shared form of a view is the one made from the view.
-/
import Mathlib.Tactic
import Stencil.Access.Bundle

namespace Stencil

/-! ## Guards -/

namespace Guard

variable {strides : DimMap Int64} {d : Dim} {base : Int64} {index : UInt64} {g : Guard}

theorem forElement_eq_some :
    forElement strides d base index = some g ↔ ∃ step, strides.get? d = some step ∧ 0 < step.toInt ∧
      g = ⟨(otherStrides strides d).filter fun s => step.toInt < s, step.toInt,
        (otherStrides strides d).filter fun s => s ≤ step.toInt,
        elementAlong ((otherStrides strides d).filter fun s => step.toInt < s) step.toInt base + index⟩ := by
  unfold forElement
  cases strides.get? d with
  | none => simp
  | some step =>
    by_cases h : 0 < step.toInt
    · simp [h, eq_comm]
    · simp [h]

/-- two guards along one axis of a view split every offset in the same way -/
theorem elementOf_eq {base' : Int64} {index' : UInt64} {g' : Guard} (h : forElement strides d base index = some g)
    (h' : forElement strides d base' index' = some g') : g.elementOf = g'.elementOf := by
  obtain ⟨step, hs, -, rfl⟩ := forElement_eq_some.1 h
  obtain ⟨step', hs', -, rfl⟩ := forElement_eq_some.1 h'
  obtain rfl : step = step' := by rw [hs] at hs'; exact Option.some.inj hs'
  rfl

theorem admits_disjoint {i j : UInt64} {gi gj : Guard} (hi : forElement strides d base i = some gi)
    (hj : forElement strides d base j = some gj) (hij : i ≠ j) (offset : Int64) (h : gi.admits offset = true) :
    gj.admits offset = false := by
  have he := elementOf_eq hi hj
  obtain ⟨step, hs, -, rfl⟩ := forElement_eq_some.1 hi
  obtain ⟨step', hs', -, rfl⟩ := forElement_eq_some.1 hj
  obtain rfl : step = step' := by rw [hs] at hs'; exact Option.some.inj hs'
  simp only [admits, beq_iff_eq, beq_eq_false_iff_ne] at h ⊢
  rw [← he, h]
  exact fun e => hij ((UInt64.add_right_inj _).1 e)

/-! ## Splitting an offset with every step checked -/

/-- the Euclidean remainder of words; there is none by zero, nor where the quotient is no word -/
def remainder? (a b : Int64) : Option Int64 :=
  if b = 0 ∨ (a = Int64.minValue ∧ b = -1) then none else some (.ofInt (a.toInt % b.toInt))

/-- the Euclidean quotient of words; there is none by zero, nor where it is no word -/
def quotient? (a b : Int64) : Option Int64 :=
  if b = 0 ∨ (a = Int64.minValue ∧ b = -1) then none else some (.ofInt (a.toInt / b.toInt))

/-- the strides of a guard as words, in the order in which they are taken -/
def taken (g : Guard) : List Int64 := (g.larger ++ g.step :: g.smaller).map Int64.ofInt

/-- the slots of a guard, as many as a map has room for: its strides, then zeros -/
def slots? (g : Guard) : Option (List Int64) :=
  if g.taken.length ≤ maxDims then some (g.taken ++ List.replicate (maxDims - g.taken.length) 0) else none

/-- the element an offset belongs to, computed in words from the slots; nothing if a step of it is undefined -/
def checkedElement (g : Guard) (offset : Int64) : Option UInt64 := do
  let slots ← g.slots?
  let rest ← (slots.take g.larger.length).foldlM remainder? offset
  let step ← slots[g.larger.length]?
  let element ← quotient? rest step
  return element.toUInt64

/-- a positive word, as a number -/
def IsStride (s : Int) : Prop := 0 < s ∧ s < 2 ^ 63

theorem IsStride.toInt_ofInt {s : Int} (h : IsStride s) : (Int64.ofInt s).toInt = s :=
  Int64.toInt_ofInt_of_le (by have := h.1; omega) h.2

theorem IsStride.divides {s : Int} (h : IsStride s) (a : Int64) :
    ¬ (Int64.ofInt s = 0 ∨ (a = Int64.minValue ∧ Int64.ofInt s = -1)) := by
  have hs := h.toInt_ofInt
  have hp := h.1
  rintro (e | ⟨-, e⟩)
  · rw [e] at hs
    simp at hs
    omega
  · rw [e] at hs
    have : (-1 : Int64).toInt = -1 := by decide
    omega

theorem remainder?_eq {s : Int} (h : IsStride s) (a : Int64) :
    remainder? a (.ofInt s) = some (.ofInt (a.toInt % s)) := by
  rw [remainder?, if_neg (h.divides a), h.toInt_ofInt]

theorem quotient?_eq {s : Int} (h : IsStride s) (a : Int64) :
    quotient? a (.ofInt s) = some (.ofInt (a.toInt / s)) := by
  rw [quotient?, if_neg (h.divides a), h.toInt_ofInt]

theorem IsStride.toInt_emod {s : Int} (h : IsStride s) (a : Int64) :
    (Int64.ofInt (a.toInt % s)).toInt = a.toInt % s := by
  have h1 := Int.emod_nonneg a.toInt (show s ≠ 0 by have := h.1; omega)
  have h2 := Int.emod_lt_of_pos a.toInt h.1
  exact Int64.toInt_ofInt_of_le (by omega) (by have := h.2; omega)

theorem foldlM_remainder? {l : List Int} (hl : ∀ s ∈ l, IsStride s) (a : Int64) :
    ∃ rest, (l.map Int64.ofInt).foldlM remainder? a = some rest ∧
      rest.toInt = l.foldl (fun rest s => rest % s) a.toInt := by
  induction l generalizing a with
  | nil => exact ⟨a, rfl, rfl⟩
  | cons s l ih =>
    have hs := hl s List.mem_cons_self
    obtain ⟨rest, h1, h2⟩ := ih (fun t ht => hl t (List.mem_cons_of_mem s ht)) (.ofInt (a.toInt % s))
    refine ⟨rest, ?_, ?_⟩
    · rw [List.map_cons, List.foldlM_cons, remainder?_eq hs]
      exact h1
    · rw [h2, hs.toInt_emod, List.foldl_cons]

theorem toUInt64_ofInt (n : Int) : (Int64.ofInt n).toUInt64 = UInt64.ofInt n := by
  apply UInt64.toBitVec_inj.1
  apply BitVec.eq_of_toNat_eq
  show (n % (2 ^ 64 : Nat)).toNat = (n % 2 ^ 64).toNat % 2 ^ 64
  omega

theorem mem_otherStrides {s : Int} (h : s ∈ otherStrides strides d) : IsStride s := by
  rw [otherStrides, List.mem_mergeSort, List.mem_map] at h
  obtain ⟨e, he, rfl⟩ := h
  have := (List.mem_filter.1 he).2
  simp only [Bool.and_eq_true, decide_eq_true_eq] at this
  exact ⟨this.2, e.2.toInt_lt⟩

theorem length_otherStrides (h : d ∈ strides.keys) : (otherStrides strides d).length + 1 ≤ maxDims := by
  obtain ⟨e, he, hd⟩ := List.mem_map.1 h
  have hlt : ((strides.entries.filter fun e => e.1 ≠ d && 0 < e.2.toInt)).length < strides.entries.length :=
    List.length_filter_lt_length_iff_exists.2 ⟨e, he, by simp [hd]⟩
  have := strides.length_le
  simp only [otherStrides, List.length_mergeSort, List.length_map]
  omega

/-- **Splitting an offset is always defined**, and gives the element it belongs to. -/
theorem checkedElement_eq (h : forElement strides d base index = some g) (offset : Int64) :
    g.checkedElement offset = some (g.elementOf offset) := by
  obtain ⟨step, hs, hpos, hg⟩ := forElement_eq_some.1 h
  have hd : d ∈ strides.keys := DimMap.contains_iff.1 (by simp [DimMap.contains, hs])
  have hstep : IsStride g.step := by rw [hg]; exact ⟨hpos, step.toInt_lt⟩
  have hlarger : ∀ s ∈ g.larger, IsStride s := by
    rw [hg]; exact fun s hs => mem_otherStrides (List.mem_filter.1 hs).1
  have hroom : g.taken.length ≤ maxDims := by
    have := length_otherStrides hd
    have := List.length_eq_length_filter_add (l := otherStrides strides d) fun s => decide (step.toInt < s)
    simp only [hg, taken, List.length_map, List.length_append, List.length_cons, ← Int.not_lt, decide_not]
    omega
  obtain ⟨rest, hrest, hfold⟩ := foldlM_remainder? hlarger offset
  have htake : (g.taken ++ List.replicate (maxDims - g.taken.length) 0).take g.larger.length =
      g.larger.map Int64.ofInt := by
    rw [taken, List.map_append, List.append_assoc]
    exact List.take_left' (by simp)
  have hget : (g.taken ++ List.replicate (maxDims - g.taken.length) 0)[g.larger.length]? =
      some (.ofInt g.step) := by
    rw [taken, List.map_append, List.append_assoc, List.getElem?_append_right (by simp)]
    simp
  simp only [checkedElement, slots?, if_pos hroom, Option.bind_eq_bind, Option.bind_some, htake, hrest, hget,
    quotient?_eq hstep, hfold, Option.pure_def, toUInt64_ofInt, elementOf, elementAlong]

end Guard

/-! ## Handles -/

namespace Handle

/-- the handle after moves by steps of strides, one after the other -/
def shiftAll (h : Handle) (moves : List (Int64 × Int64)) : Handle :=
  moves.foldl (fun h m => h.shiftBy m.1 m.2) h

@[simp] theorem moveTo_moveTo (h : Handle) (a b : Int64) : (h.moveTo a).moveTo b = h.moveTo b := rfl

theorem shiftAll_cons (h : Handle) (m : Int64 × Int64) (moves : List (Int64 × Int64)) :
    h.shiftAll (m :: moves) = (h.shiftBy m.1 m.2).shiftAll moves := rfl

theorem shiftAll_eq_moveTo (h : Handle) (moves : List (Int64 × Int64)) :
    ∃ offset, h.shiftAll moves = h.moveTo offset := by
  induction moves generalizing h with
  | nil => exact ⟨h.offset, rfl⟩
  | cons m moves ih =>
    obtain ⟨offset, ho⟩ := ih (h.shiftBy m.1 m.2)
    exact ⟨offset, by rw [shiftAll_cons, ho]; rfl⟩

theorem position_of_index? {h : Handle} {p : Nat} (hp : h.index? = some p) :
    h.admitted = true ∧ h.offset.toInt = p ∧ p < h.length := by
  simp only [index?, position?] at hp
  split at hp
  · next ha =>
    split at hp
    · next hb =>
      cases hp
      exact ⟨ha, by omega, by omega⟩
    · cases hp
  · cases hp

theorem index?_of_length_zero {h : Handle} (hl : h.length = 0) : h.index? = none := by
  cases hp : h.index? with
  | none => rfl
  | some p =>
    have := (position_of_index? hp).2.2
    omega

theorem read_eq_ok {α : Type} {h : Handle} {p : Nat} {data : Array α} {v : α} (hi : h.index? = some p)
    (hv : data[p]? = some v) : h.read data = .ok v := by
  rw [read, read?, hi, Option.bind_some, hv]

theorem read_eq_error {α : Type} {h : Handle} (hi : h.index? = none) (data : Array α) :
    h.read data = .error h.refusal := by
  rw [read, read?, hi, Option.bind_none]

end Handle

/-! ## Views -/

namespace View

/-- whether a view can hand out an element along an axis: the index is below a bound and the stride is positive -/
def HasElement (v : View) (d : Dim) (index : UInt64) : Prop :=
  (∃ bound, v.bounds.get? d = some bound ∧ index < bound) ∧ ∃ step, v.strides.get? d = some step ∧ 0 < step.toInt

theorem elementOrigin_of_hasElement {v : View} (hw : v.access = .writable) {d : Dim} {index : UInt64}
    (h : v.HasElement d index) : ∃ g, Guard.forElement v.strides d v.offset index = some g ∧
      v.elementOrigin d index = ⟨.writable, v.length, v.elementOffset d index, some g⟩ := by
  obtain ⟨⟨bound, hb, hi⟩, step, hs, hp⟩ := h
  obtain ⟨g, hg⟩ : ∃ g, Guard.forElement v.strides d v.offset index = some g :=
    ⟨_, Guard.forElement_eq_some.2 ⟨step, hs, hp, rfl⟩⟩
  refine ⟨g, hg, ?_⟩
  simp only [elementOrigin, hw, hb, Option.filter_some, hi, decide_true, if_true, hg, origin]

theorem elementOrigin_of_not_hasElement {v : View} (hw : v.access = .writable) {d : Dim} {index : UInt64}
    (h : ¬ v.HasElement d index) : v.elementOrigin d index = v.denied (v.elementOffset d index) := by
  simp only [elementOrigin, hw]
  cases hb : (v.bounds.get? d).filter fun bound => index < bound with
  | none => rfl
  | some bound =>
    cases hg : Guard.forElement v.strides d v.offset index with
    | none => rfl
    | some g =>
      obtain ⟨step, hs, hp, -⟩ := Guard.forElement_eq_some.1 hg
      obtain ⟨hb, hi⟩ := Option.filter_eq_some_iff.1 hb
      exact absurd ⟨⟨bound, hb, by simpa using hi⟩, step, hs, hp⟩ h

theorem access_elementOrigin (v : View) (d : Dim) (i : UInt64) : (v.elementOrigin d i).access = v.access := by
  cases hw : v.access with
  | readOnly =>
    simp only [elementOrigin, hw]
    exact hw
  | writable =>
    by_cases h : v.HasElement d i
    · obtain ⟨g, -, ho⟩ := elementOrigin_of_hasElement hw h
      rw [ho]
    · rw [elementOrigin_of_not_hasElement hw h]
      exact hw

/-- the handle of an element that the view does not have reaches nothing -/
theorem index?_eq_none {v : View} (hw : v.access = .writable) {d : Dim} {index : UInt64}
    (h : ¬ v.HasElement d index) (offset : Int64) : ((v.elementOrigin d index).moveTo offset).index? = none := by
  rw [elementOrigin_of_not_hasElement hw h]
  exact Handle.index?_of_length_zero rfl

/-- a handle that reaches a position is that of an element the view has, and its guard admits the offset -/
theorem admits_of_index? {v : View} (hw : v.access = .writable) {d : Dim} {index : UInt64} {offset : Int64} {p : Nat}
    (h : ((v.elementOrigin d index).moveTo offset).index? = some p) :
    ∃ g, Guard.forElement v.strides d v.offset index = some g ∧ g.admits offset = true ∧ offset.toInt = p := by
  have he : v.HasElement d index := by
    by_contra hn
    rw [index?_eq_none hw hn] at h
    cases h
  obtain ⟨g, hg, ho⟩ := elementOrigin_of_hasElement hw he
  rw [ho] at h
  obtain ⟨ha, hp, -⟩ := Handle.position_of_index? h
  exact ⟨g, hg, ha, hp⟩

/-- **No position is reached from two elements**, however their handles are moved. -/
theorem index?_disjoint {v : View} (hw : v.access = .writable) {d : Dim} {i j : UInt64} (hij : i ≠ j)
    {a b : Int64} {p : Nat} (hi : ((v.elementOrigin d i).moveTo a).index? = some p) :
    ((v.elementOrigin d j).moveTo b).index? ≠ some p := by
  intro hj
  obtain ⟨gi, hgi, hai, hpa⟩ := admits_of_index? hw hi
  obtain ⟨gj, hgj, haj, hpb⟩ := admits_of_index? hw hj
  obtain rfl : a = b := Int64.toInt_inj.1 (hpa.trans hpb.symm)
  rw [Guard.admits_disjoint hgi hgj hij a hai] at haj
  cases haj

/-- **The handle of a unit** made from the shared form of a view is the one made from the view. -/
theorem unitOrigin_share (v : View) (u : LaunchUnit) : v.share.unitOrigin u = v.elementOrigin u.dim u.index := by
  cases hw : v.access with
  | readOnly =>
    simp only [Snapshot.unitOrigin, share, elementOrigin, hw, origin]
    rfl
  | writable =>
    by_cases he : v.HasElement u.dim u.index
    · obtain ⟨g, hg, ho⟩ := elementOrigin_of_hasElement hw he
      obtain ⟨⟨bound, hb, hi⟩, -⟩ := he
      rw [ho]
      simp only [Snapshot.unitOrigin, share, hw, hb, Option.getD_some, if_pos hi, hg]
      rfl
    · rw [elementOrigin_of_not_hasElement hw he]
      have hnone : (if u.index < (v.bounds.get? u.dim).getD 0 then
          Guard.forElement v.strides u.dim v.offset u.index else none) = none := by
        cases hb : v.bounds.get? u.dim with
        | none => simp
        | some bound =>
          split
          · next hi =>
            cases hg : Guard.forElement v.strides u.dim v.offset u.index with
            | none => rfl
            | some g =>
              obtain ⟨step, hs, hp, -⟩ := Guard.forElement_eq_some.1 hg
              exact absurd ⟨⟨bound, hb, hi⟩, step, hs, hp⟩ he
          · rfl
      simp only [Snapshot.unitOrigin, share, hw, hnone, denied]
      rfl

/-- **Isolation of units.** Of any writable view and along any axis: the handles of two elements never reach the same
position, however they are moved; the handle of an element that the view does not have reaches nothing; splitting an
offset, while a guard is made or used, is defined at every step; and all of this holds of the units that share the
view. -/
theorem unit_isolation (v : View) (hw : v.access = .writable) (d : Dim) :
    (∀ i j : UInt64, i ≠ j → ∀ (moves moves' : List (Int64 × Int64)) (p : Nat),
      ((v.elementOrigin d i).shiftAll moves).index? = some p →
        ((v.elementOrigin d j).shiftAll moves').index? ≠ some p) ∧
    (∀ i : UInt64, ¬ v.HasElement d i → ∀ moves : List (Int64 × Int64),
      ((v.elementOrigin d i).shiftAll moves).index? = none) ∧
    (∀ (base : Int64) (i : UInt64) (g : Guard), Guard.forElement v.strides d base i = some g →
      ∀ offset, g.checkedElement offset = some (g.elementOf offset)) ∧
    ∀ i : UInt64, v.share.unitOrigin ⟨d, i⟩ = v.elementOrigin d i := by
  refine ⟨?_, ?_, ?_, ?_⟩
  · intro i j hij moves moves' p hp
    obtain ⟨a, ha⟩ := (v.elementOrigin d i).shiftAll_eq_moveTo moves
    obtain ⟨b, hb⟩ := (v.elementOrigin d j).shiftAll_eq_moveTo moves'
    rw [ha] at hp
    rw [hb]
    exact index?_disjoint hw hij hp
  · intro i hi moves
    obtain ⟨a, ha⟩ := (v.elementOrigin d i).shiftAll_eq_moveTo moves
    rw [ha]
    exact index?_eq_none hw hi a
  · intro base i g hg offset
    exact Guard.checkedElement_eq hg offset
  · intro i
    exact unitOrigin_share v ⟨d, i⟩

/-- a view that stands in front of its buffer, with two equal strides and a negative one -/
def crossed : View where
  access := .writable
  length := 8
  offset := -3
  strides := ⟨[(.vertical, 2), (.horizontal, 2), (.neighbor, -1)], by decide, by decide⟩
  bounds := ⟨[(.horizontal, 4)], by decide, by decide⟩
  storage := .host

/-- elements 2 and 3 of the crossed view: the first reaches position 1, so the second does not -/
theorem unit_isolation_crossed : crossed.access = .writable ∧
    ((crossed.elementOrigin .horizontal 2).shiftAll [(2, -1), (-1, -2)]).index? = some 1 ∧
    ((crossed.elementOrigin .horizontal 3).shiftAll [(-1, 2)]).index? ≠ some 1 :=
  have reached : ((crossed.elementOrigin .horizontal 2).shiftAll [(2, -1), (-1, -2)]).index? = some 1 := by
    decide +kernel
  ⟨rfl, reached, (unit_isolation crossed rfl .horizontal).1 2 3 (by decide) _ _ 1 reached⟩

end View

end Stencil
