/-
The launch check of a bundle. It asks that some member have a stride along the axis, and asks each member, from left to
right however they are grouped, for its storage, its stride, its bound and its extent, in that order; the first that is
missing is the answer. What it asks of the stride and the bound depends on whether the member is written: a member that
is written must go forward along the axis and reach as far as the launch, one that is read must reach as far only if it
has both a stride and a bound there.

- `View.passes_or_violates`: a member has what the check asks for, or it violates it in one of four ways;
- `View.checkMember_eq_ok_iff`, `View.checkMember_eq_error_iff`: which of these the check of a member finds;
- `Bundle.checkAll_eq_ok_iff`, `Bundle.checkAll_eq_error_iff`: the check of members in a row, by induction on the row;
- `Bundle.checkOuter_eq_ok_iff`, `Bundle.checkOuter_eq_error_iff`: the check of a bundle.
-/
import Mathlib.Tactic
import Stencil.Access.Bundle

namespace Stencil

/-! ## One member -/

namespace View

variable {v : View} {d : Dim} {extent : UInt64} {storage : Storage} {e : ContractViolation}

/-- the steps along an axis go forward -/
def Advances (v : View) (d : Dim) : Prop := ∃ step, v.strides.get? d = some step ∧ 0 < step

/-- the bound along an axis, where there is one, is no less than the extent -/
def LongEnough (v : View) (d : Dim) (extent : UInt64) : Prop := ∀ bound, v.bounds.get? d = some bound → extent ≤ bound

/-- what the launch check asks of a member -/
structure Passes (v : View) (d : Dim) (extent : UInt64) (storage : Storage) : Prop where
  stored : v.storage = storage
  written : v.access = .writable → v.Advances d ∧ v.bounds.contains d = true ∧ v.LongEnough d extent
  read : v.access = .readOnly → v.strides.contains d = true → v.LongEnough d extent

/-- how a member fails the launch check; each way presumes that the check got so far -/
inductive Violates (v : View) (d : Dim) (extent : UInt64) (storage : Storage) : ContractViolation → Prop where
  /-- the buffer lives elsewhere -/
  | storage (h : v.storage ≠ storage) : Violates v d extent storage (.storageMismatch storage v.storage)
  /-- a written member does not go forward along the axis -/
  | stride (hs : v.storage = storage) (hw : v.access = .writable) (h : ¬ v.Advances d) :
    Violates v d extent storage (.notAddressable d.label)
  /-- a written member goes forward, without a bound -/
  | bound (hs : v.storage = storage) (hw : v.access = .writable) (hstep : v.Advances d) (h : v.bounds.get? d = none) :
    Violates v d extent storage (.missingBound d.label)
  /-- a written member that goes forward, or a read one that has a stride, ends before the launch does -/
  | extent (hs : v.storage = storage) (hw : v.access = .writable → v.Advances d)
    (hr : v.access = .readOnly → v.strides.contains d = true) {bound : UInt64} (hb : v.bounds.get? d = some bound)
    (h : bound < extent) : Violates v d extent storage (.extentMismatch d.label extent.toNat bound.toNat)

theorem passes_iff : v.Passes d extent storage ↔ v.storage = storage ∧
    (v.access = .writable →
      (∃ step, v.strides.get? d = some step ∧ 0 < step) ∧ ∃ bound, v.bounds.get? d = some bound ∧ extent ≤ bound) ∧
    (v.access = .readOnly → ∀ step, v.strides.get? d = some step →
      ∀ bound, v.bounds.get? d = some bound → extent ≤ bound) := by
  constructor
  · intro h
    refine ⟨h.stored, ?_, ?_⟩
    · intro hw
      obtain ⟨hstep, hbound, hlong⟩ := h.written hw
      obtain ⟨bound, hb⟩ := Option.isSome_iff_exists.1 hbound
      exact ⟨hstep, bound, hb, hlong bound hb⟩
    · intro hr step hstep
      exact h.read hr (Option.isSome_iff_exists.2 ⟨step, hstep⟩)
  · rintro ⟨hstored, hwritten, hread⟩
    refine ⟨hstored, ?_, ?_⟩
    · intro hw
      obtain ⟨hstep, bound, hb, hle⟩ := hwritten hw
      refine ⟨hstep, Option.isSome_iff_exists.2 ⟨bound, hb⟩, ?_⟩
      intro bound' hb'
      rw [hb, Option.some.injEq] at hb'
      exact hb' ▸ hle
    · intro hr hstride
      obtain ⟨step, hstep⟩ := Option.isSome_iff_exists.1 hstride
      exact hread hr step hstep

theorem Advances.any (h : v.Advances d) : ((v.strides.get? d).any fun s => 0 < s) = true := by
  obtain ⟨step, hs, hpos⟩ := h
  rw [hs]
  exact decide_eq_true hpos

theorem not_advances (h : ¬ v.Advances d) : ((v.strides.get? d).any fun s => 0 < s) = false := by
  cases hs : v.strides.get? d with
  | none => rfl
  | some step => exact decide_eq_false fun hpos => h ⟨step, hs, hpos⟩

/-- a member passes, or violates the check in one of the four ways -/
theorem passes_or_violates (v : View) (d : Dim) (extent : UInt64) (storage : Storage) :
    v.Passes d extent storage ∨ ∃ e, v.Violates d extent storage e := by
  by_cases hs : v.storage = storage
  · cases ha : v.access with
    | readOnly =>
      have hw : v.access ≠ .writable := by rw [ha]; exact nofun
      by_cases hlong : v.strides.contains d = true → v.LongEnough d extent
      · exact Or.inl ⟨hs, fun h => absurd h hw, fun _ => hlong⟩
      · simp only [LongEnough, Classical.not_imp, not_forall, UInt64.not_le] at hlong
        obtain ⟨hstride, bound, hb, hlt⟩ := hlong
        exact Or.inr ⟨_, .extent hs (fun h => absurd h hw) (fun _ => hstride) hb hlt⟩
    | writable =>
      have hr : v.access ≠ .readOnly := by rw [ha]; exact nofun
      by_cases hstep : v.Advances d
      · cases hb : v.bounds.get? d with
        | none => exact Or.inr ⟨_, .bound hs ha hstep hb⟩
        | some bound =>
          have hcontains : v.bounds.contains d = true := by rw [DimMap.contains, hb]; rfl
          by_cases hlt : bound < extent
          · exact Or.inr ⟨_, .extent hs (fun _ => hstep) (fun h => absurd h hr) hb hlt⟩
          · have hlong : v.LongEnough d extent := by
              intro bound' hb'
              rw [hb, Option.some.injEq] at hb'
              exact hb' ▸ UInt64.not_lt.1 hlt
            exact Or.inl ⟨hs, fun _ => ⟨hstep, hcontains, hlong⟩, fun h => absurd h hr⟩
      · exact Or.inr ⟨_, .stride hs ha hstep⟩
  · exact Or.inr ⟨_, .storage hs⟩

theorem Passes.checkMember (h : v.Passes d extent storage) : v.checkMember d extent storage = .ok () := by
  obtain ⟨hs, hwritten, hread⟩ := h
  cases ha : v.access with
  | readOnly =>
    have hlong := hread ha
    simp only [View.checkMember, hs, ha, if_true]
    by_cases hstride : v.strides.contains d = true
    · rw [if_pos hstride]
      cases hb : v.bounds.get? d with
      | none => rfl
      | some bound => exact if_neg (UInt64.not_lt.2 (hlong hstride bound hb))
    · rw [if_neg hstride]
      rfl
  | writable =>
    obtain ⟨hstep, hcontains, hlong⟩ := hwritten ha
    obtain ⟨bound, hb⟩ := Option.isSome_iff_exists.1 hcontains
    simp only [View.checkMember, View.upperBound, hs, ha, hstep.any, hb, if_true]
    exact if_neg (UInt64.not_lt.2 (hlong bound hb))

theorem Violates.checkMember (h : v.Violates d extent storage e) : v.checkMember d extent storage = .error e := by
  cases h with
  | storage h =>
    simp only [View.checkMember, h.symm, if_false]
    rfl
  | stride hs hw h =>
    simp only [View.checkMember, hs, hw, not_advances h, if_true, Bool.false_eq_true, if_false]
    rfl
  | bound hs hw hstep h =>
    simp only [View.checkMember, View.upperBound, hs, hw, hstep.any, h, if_true]
    rfl
  | extent hs hw hr hb h =>
    cases ha : v.access with
    | readOnly =>
      simp only [View.checkMember, hs, ha, hr ha, hb, h, if_true]
      rfl
    | writable =>
      simp only [View.checkMember, View.upperBound, hs, ha, (hw ha).any, hb, if_true]
      exact if_pos h

/-- **The check of a member** accepts it exactly when it has all that is asked for. -/
theorem checkMember_eq_ok_iff : v.checkMember d extent storage = .ok () ↔ v.Passes d extent storage := by
  refine ⟨fun hok => ?_, Passes.checkMember⟩
  rcases passes_or_violates v d extent storage with h | ⟨e, h⟩
  · exact h
  · rw [h.checkMember] at hok
    cases hok

/-- **The check of a member** finds a violation exactly when it is the one the member commits. -/
theorem checkMember_eq_error_iff : v.checkMember d extent storage = .error e ↔ v.Violates d extent storage e := by
  refine ⟨fun herror => ?_, Violates.checkMember⟩
  rcases passes_or_violates v d extent storage with h | ⟨e', h⟩
  · rw [h.checkMember] at herror
    cases herror
  · rw [h.checkMember, Except.error.injEq] at herror
    exact herror ▸ h

end View

/-! ## All members -/

namespace Bundle

variable {d : Dim} {extent : UInt64} {storage : Storage} {e : ContractViolation}

theorem checkAll_eq_ok_iff {views : List View} :
    checkAll d extent storage views = .ok () ↔ ∀ v ∈ views, v.Passes d extent storage := by
  induction views with
  | nil => simp [checkAll]
  | cons v views ih =>
    rw [List.forall_mem_cons, ← View.checkMember_eq_ok_iff, ← ih, checkAll]
    cases v.checkMember d extent storage with
    | error e => exact iff_of_false nofun fun h => nomatch h.1
    | ok u => exact (and_iff_right rfl).symm

/-- of members in a row, the first that violates the check -/
def FirstViolation (d : Dim) (extent : UInt64) (storage : Storage) (views : List View) (e : ContractViolation) : Prop :=
  ∃ before v after, views = before ++ v :: after ∧ (∀ w ∈ before, w.Passes d extent storage) ∧
    v.Violates d extent storage e

/-- a violation is the first of some members when it is that of the first of them, or of the others after a first that
passes -/
theorem firstViolation_cons {v : View} {views : List View} : FirstViolation d extent storage (v :: views) e ↔
    v.Violates d extent storage e ∨ v.Passes d extent storage ∧ FirstViolation d extent storage views e := by
  constructor
  · rintro ⟨before, w, after, hsplit, hbefore, hw⟩
    cases before with
    | nil =>
      obtain ⟨rfl, -⟩ := List.cons.inj hsplit
      exact Or.inl hw
    | cons u before =>
      obtain ⟨rfl, htail⟩ := List.cons.inj hsplit
      obtain ⟨hv, hbefore⟩ := List.forall_mem_cons.1 hbefore
      exact Or.inr ⟨hv, before, w, after, htail, hbefore, hw⟩
  · rintro (hv | ⟨hv, before, w, after, rfl, hbefore, hw⟩)
    · exact ⟨[], v, views, rfl, nofun, hv⟩
    · exact ⟨v :: before, w, after, rfl, List.forall_mem_cons.2 ⟨hv, hbefore⟩, hw⟩

theorem checkAll_eq_error_iff {views : List View} :
    checkAll d extent storage views = .error e ↔ FirstViolation d extent storage views e := by
  induction views with
  | nil =>
    refine iff_of_false nofun ?_
    rintro ⟨before, v, after, hsplit, -⟩
    exact List.append_ne_nil_of_right_ne_nil before (List.cons_ne_nil v after) hsplit.symm
  | cons v views ih =>
    rw [firstViolation_cons, ← View.checkMember_eq_error_iff, ← View.checkMember_eq_ok_iff, ← ih, checkAll]
    cases v.checkMember d extent storage with
    | error e' => exact (or_iff_left fun h => nomatch h.1).symm
    | ok u => exact ((or_iff_right nofun).trans (and_iff_right rfl)).symm

theorem carries_strides_iff {fields : Bundle View} :
    fields.strides.carries d = true ↔ ∃ v ∈ fields.members, v.strides.contains d = true := by
  rw [carries_eq_any, strides, members_map, List.any_map, List.any_eq_true]
  rfl

theorem checkOuter_eq_checkAll (fields : Bundle View) (d : Dim) (extent : UInt64) (storage : Storage) :
    fields.checkOuter d extent storage =
      if fields.strides.carries d then checkAll d extent storage fields.members
      else .error (.missingStride d.label) := by
  rw [checkOuter, checkMember_eq_members]
  cases fields.strides.carries d <;> rfl

/-- **The check of a bundle** accepts it exactly when some member has the axis and all members pass. -/
theorem checkOuter_eq_ok_iff {fields : Bundle View} : fields.checkOuter d extent storage = .ok () ↔
    (∃ v ∈ fields.members, v.strides.contains d = true) ∧ ∀ v ∈ fields.members, v.Passes d extent storage := by
  rw [← carries_strides_iff, ← checkAll_eq_ok_iff, checkOuter_eq_checkAll]
  split
  · next hcarries => exact (and_iff_right hcarries).symm
  · next hcarries => exact iff_of_false nofun fun h => hcarries h.1

/-- **The check of a bundle** finds that no member has the axis, or else the first violation of a member. -/
theorem checkOuter_eq_error_iff {fields : Bundle View} : fields.checkOuter d extent storage = .error e ↔
    ((∀ v ∈ fields.members, v.strides.contains d = false) ∧ e = .missingStride d.label) ∨
      ((∃ v ∈ fields.members, v.strides.contains d = true) ∧ FirstViolation d extent storage fields.members e) := by
  have hnone : (∀ v ∈ fields.members, v.strides.contains d = false) ↔ ¬ fields.strides.carries d = true := by
    simp only [carries_strides_iff, not_exists, not_and, Bool.not_eq_true]
  rw [hnone, ← carries_strides_iff, ← checkAll_eq_error_iff, checkOuter_eq_checkAll]
  split
  · next hcarries => exact ((or_iff_right fun h => h.1 hcarries).trans (and_iff_right hcarries)).symm
  · next hcarries =>
    refine (Iff.trans ?_ (or_iff_left fun h => hcarries h.1).symm)
    rw [and_iff_right hcarries, Except.error.injEq, eq_comm]

end Bundle

end Stencil
