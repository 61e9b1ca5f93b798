/-
What a layout asks of a buffer. A layout is refused for the number of its axes, for an axis that repeats, or because
words cannot address it, in this order. One that resolves has all its coordinates in range at positions before its span,
and reaches the last of them, so that views over it are made of just the buffers that hold all these positions.

- `addressable_iff`: what words must hold for a layout to resolve, in terms of offsets;
- `resolve_eq_error`: why a layout is refused;
- `resolution_of_resolve`: what a layout resolves to;
- `resolve_spec`: all of it, and the buffers that a layout admits.
-/
import Mathlib.Tactic
import Stencil.Proofs.Access.Positions
import Stencil.Proofs.Axis.Words

namespace Stencil

namespace Layout

variable {l : Layout}

/-! ## Refusals -/

/-- words address all of a layout: the products of row-major extents, the strides, and one more than the offsets -/
structure Addressable (l : Layout) : Prop where
  products : ∀ back, back <:+ l.axes → rowVolume back ≤ wordMax
  strides : ∀ s ∈ axisStrides l.axes, s ≤ signedMax
  offsets : ∀ x, l.Contains x → l.offset x < wordMax

theorem not_contains (hzero : ∃ a ∈ l.axes, a.extent = 0) (x : Dim → Int) : ¬ l.Contains x := by
  obtain ⟨a, ha, hempty⟩ := hzero
  exact fun hx => hx.extent_ne_zero a ha hempty

theorem span_isSome_iff (hnodup : (l.axes.map LayoutAxis.dim).Nodup) :
    (spanOf l.axes (axisStrides l.axes)).isSome ↔ ∀ x, l.Contains x → l.offset x < wordMax := by
  by_cases hzero : ∃ a ∈ l.axes, a.extent = 0
  · rw [spanOf_of_zero hzero]
    exact ⟨fun _ x hx => absurd hx (not_contains hzero x), fun _ => rfl⟩
  · push Not at hzero
    obtain ⟨⟨last, hlast, hoffset⟩, hgreatest⟩ := isGreatest_offset hnodup hzero
    rw [spanOf_of_pos hzero, Option.isSome_iff_exists]
    simp only [fits_eq_some, exists_and_left, exists_eq', and_true]
    constructor
    · intro hle x hx
      have := hgreatest ⟨x, hx, rfl⟩
      omega
    · intro hlt
      have := hlt last hlast
      omega

theorem addressable_iff (hnodup : (l.axes.map LayoutAxis.dim).Nodup) : l.Addressable ↔ FitWords l.axes :=
  ⟨fun h => ⟨h.products, h.strides, (span_isSome_iff hnodup).2 h.offsets⟩,
    fun h => ⟨h.volumes, h.strides, (span_isSome_iff hnodup).1 h.span⟩⟩

/-- why a layout is refused, each reason only where those before it do not apply -/
inductive Refusal (l : Layout) : ContractViolation → Prop
  | tooMany (hlen : maxDims < l.axes.length) : Refusal l (.tooManyDims maxDims)
  | repeated (hroom : l.axes.length ≤ maxDims) {front back : List LayoutAxis} {a : LayoutAxis}
      (haxes : l.axes = front ++ a :: back) (hfront : (front.map LayoutAxis.dim).Nodup)
      (ha : a.dim ∈ front.map LayoutAxis.dim) : Refusal l (.duplicateDim a.dim.label)
  | unaddressable (hroom : l.axes.length ≤ maxDims) (hnodup : (l.axes.map LayoutAxis.dim).Nodup)
      (haddr : ¬ l.Addressable) : Refusal l (.layoutMismatch wordMax 0)

theorem refusal_of_resolve {e : ContractViolation} (h : l.resolve = .error e) : l.Refusal e := by
  rcases resolve_cases l with ⟨hlen, h'⟩ | ⟨hroom, d, hrep, h'⟩ | ⟨hroom, hnodup, hfit, h'⟩ | ⟨-, -, -, r, h', -⟩
  · cases h'.symm.trans h
    exact .tooMany hlen
  · cases h'.symm.trans h
    obtain ⟨front, a, back, haxes, hfront, -, ha, rfl⟩ := firstRepeated_eq_some.1 hrep
    exact .repeated hroom haxes hfront (ha.resolve_left List.not_mem_nil)
  · cases h'.symm.trans h
    exact .unaddressable hroom hnodup fun haddr => hfit ((addressable_iff hnodup).1 haddr)
  · cases h'.symm.trans h

theorem Refusal.resolve_eq {e : ContractViolation} (h : l.Refusal e) : l.resolve = .error e := by
  have hrepeated {front back : List LayoutAxis} {a : LayoutAxis} (haxes : l.axes = front ++ a :: back)
      (ha : a.dim ∈ front.map LayoutAxis.dim) : ¬ (l.axes.map LayoutAxis.dim).Nodup := by
    rw [haxes, List.map_append, List.nodup_append]
    exact fun hn => hn.2.2 a.dim ha a.dim List.mem_cons_self rfl
  rcases resolve_cases l with ⟨hlen, h'⟩ | ⟨hroom, d, hrep, h'⟩ | ⟨hroom, hnodup, hfit, h'⟩ | ⟨hroom, hnodup, hfit, -⟩
  · cases h with
    | tooMany => exact h'
    | repeated hroom => exact absurd hlen (Nat.not_lt.2 hroom)
    | unaddressable hroom => exact absurd hlen (Nat.not_lt.2 hroom)
  · cases h with
    | tooMany hlen => exact absurd hlen (Nat.not_lt.2 hroom)
    | repeated _ haxes hfront ha =>
      have hfirst := firstRepeated_eq_some.2
        ⟨_, _, _, haxes, hfront, fun _ _ => List.not_mem_nil, Or.inr ha, rfl⟩
      rw [h', Option.some.inj (hrep.symm.trans hfirst)]
    | unaddressable _ hnodup =>
      rw [firstRepeated_eq_none.2 ⟨hnodup, fun _ _ => List.not_mem_nil⟩] at hrep
      cases hrep
  · cases h with
    | tooMany hlen => exact absurd hlen (Nat.not_lt.2 hroom)
    | repeated _ haxes _ ha => exact absurd hnodup (hrepeated haxes ha)
    | unaddressable => exact h'
  · cases h with
    | tooMany hlen => exact absurd hlen (Nat.not_lt.2 hroom)
    | repeated _ haxes _ ha => exact absurd hnodup (hrepeated haxes ha)
    | unaddressable _ _ haddr => exact absurd ((addressable_iff hnodup).2 hfit) haddr

/-- **Why a layout is refused**: for one reason, the first that applies. -/
theorem resolve_eq_error {e : ContractViolation} : l.resolve = .error e ↔ l.Refusal e :=
  ⟨refusal_of_resolve, Refusal.resolve_eq⟩

/-! ## What a layout resolves to -/

/-- the maps of a layout hold its axes in order, with their extents and strides; its span is one more than the largest
position of coordinates in range, or zero if there are none -/
structure Resolution (l : Layout) (r : ResolvedLayout) : Prop where
  keys : r.strides.keys = l.axes.map LayoutAxis.dim
  bounds : r.bounds.entries = l.axes.map fun a => (a.dim, a.extent)
  strides : ∀ front a back, l.axes = front ++ a :: back → ∃ stride, r.strides.get? a.dim = some stride ∧
    stride.toInt = (strideBefore a back : Nat)
  empty : (∃ a ∈ l.axes, a.extent = 0) → r.span = 0
  greatest : (∀ a ∈ l.axes, a.extent ≠ 0) → ∃ last, l.Contains last ∧ r.span = r.strides.position last + 1 ∧
    ∀ x, l.Contains x → r.strides.position x ≤ r.strides.position last

theorem mem_zip_axisStrides {axes front back : List LayoutAxis} {a : LayoutAxis} (haxes : axes = front ++ a :: back) :
    (a, strideBefore a back) ∈ axes.zip (axisStrides axes) := by
  subst haxes
  induction front with
  | nil => exact List.mem_cons_self
  | cons b front ih => exact List.mem_cons_of_mem _ ih

theorem resolution_of_resolve {r : ResolvedLayout} (hr : l.resolve = .ok r) : l.Resolution r := by
  obtain ⟨-, hnodup, hfit, hspan, hs, hb⟩ := resolve_eq_ok.1 hr
  refine ⟨?_, hb.trans (boundEntries_eq l.axes), fun front a back haxes => ?_, fun hzero => ?_, fun hpos => ?_⟩
  · rw [DimMap.keys, hs, keys_strideEntries (length_axisStrides l.axes)]
  · have hmem := mem_zip_axisStrides haxes
    have hsmall : strideBefore a back ≤ signedMax := hfit.strides _ (List.of_mem_zip hmem).2
    refine ⟨Int64.ofNat (strideBefore a back), DimMap.get?_eq_some_of_mem ?_, toInt_ofNat_of_le hsmall⟩
    rw [hs, strideEntries, List.zip_map]
    exact List.mem_map.2 ⟨_, hmem, rfl⟩
  · rw [spanOf_of_zero hzero] at hspan
    exact (Option.some.inj hspan).symm
  · obtain ⟨⟨last, hlast, hposition⟩, hgreatest⟩ := isGreatest_position hr hpos
    refine ⟨last, hlast, by omega, fun x hx => ?_⟩
    rw [hposition]
    exact hgreatest ⟨x, hx, rfl⟩

/-! ## Buffers -/

theorem Contains.offset_nonneg {x : Dim → Int} (hx : l.Contains x) : 0 ≤ l.offset x := by
  refine List.sum_nonneg (List.forall_mem_map.2 ?_)
  rintro ⟨a, s⟩ he
  exact mul_nonneg (Int.natCast_nonneg s) (hx a (List.of_mem_zip he).1).1

/-- a buffer is long enough for a layout exactly when it holds the positions of all coordinates in range -/
theorem span_le_iff {r : ResolvedLayout} (hr : l.resolve = .ok r) {length : Nat} :
    r.span ≤ length ↔ ∀ x, l.Contains x → 0 ≤ r.strides.position x ∧ r.strides.position x < length := by
  have hspec := resolution_of_resolve hr
  by_cases hzero : ∃ a ∈ l.axes, a.extent = 0
  · rw [hspec.empty hzero]
    exact ⟨fun _ x hx => absurd hx (not_contains hzero x), fun _ => Nat.zero_le length⟩
  · push Not at hzero
    obtain ⟨last, hlast, hspan, hgreatest⟩ := hspec.greatest hzero
    constructor
    · intro hle x hx
      have := hgreatest x hx
      refine ⟨?_, by omega⟩
      rw [position_eq_offset hr]
      exact hx.offset_nonneg
    · intro hinside
      have := (hinside last hlast).2
      omega

/-- **Resolving a layout.** In words it ends without a fault, and as it does over the numbers: with the reason for which
the layout is refused, or with its axes, strides, bounds and span. A view of a buffer is made over a layout exactly when
the layout resolves and all its coordinates in range stand inside of the buffer. -/
theorem resolve_spec (l : Layout) :
    l.resolveWords = .ok l.resolve ∧
    (∀ e, l.resolve = .error e ↔ l.Refusal e) ∧
    (∀ r, l.resolve = .ok r → l.Resolution r) ∧
    ∀ access length storage, (∃ v, View.ofLayout access length l storage = .ok v) ↔
      ∃ r, l.resolve = .ok r ∧ ∀ x, l.Contains x → 0 ≤ r.strides.position x ∧ r.strides.position x < length := by
  refine ⟨resolveWords_eq l, fun e => resolve_eq_error, fun r => resolution_of_resolve, fun access length storage => ?_⟩
  simp only [View.ofLayout_eq_ok]
  constructor
  · rintro ⟨v, r, hr, hlen, -⟩
    exact ⟨r, hr, (span_le_iff hr).1 hlen⟩
  · rintro ⟨r, hr, hinside⟩
    exact ⟨_, r, hr, (span_le_iff hr).2 hinside, rfl⟩

end Layout

end Stencil
