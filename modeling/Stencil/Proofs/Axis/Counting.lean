/-
Counting the elements of a row-major layout. Its elements are counted from the first axis on, and its strides from the
last axis back. Both have the volume of the layout for an answer, but the count is refused for a product of leading
extents that is no word, and resolving for a product of trailing extents that is no signed word, even if an axis without
elements makes the volume zero.

- `elements_rowMajor`: when there is a count, and which;
- `rowSteps_le_of_empty`, `rowSteps_le_of_volume`: when its strides are signed words;
- `count_spec`: the count and the span never differ, and when one is there without the other.
-/
import Mathlib.Data.List.TakeWhile
import Mathlib.Tactic
import Stencil.Proofs.Axis.Resolution

namespace Stencil

namespace Layout

variable {dims front back : List (Dim × UInt64)} {n : Nat}

/-! ## Empty axes -/

/-- the axes in front of the first that is empty -/
def beforeEmpty (dims : List (Dim × UInt64)) : List (Dim × UInt64) := dims.takeWhile fun a => a.2 ≠ 0

/-- the axes behind the last that is empty -/
def afterEmpty (dims : List (Dim × UInt64)) : List (Dim × UInt64) := (beforeEmpty dims.reverse).reverse

theorem beforeEmpty_cons_of_empty {a : Dim × UInt64} (h : a.2 = 0) (dims : List (Dim × UInt64)) :
    beforeEmpty (a :: dims) = [] := List.takeWhile_cons_of_neg (by simp [h])

theorem beforeEmpty_cons_of_ne {a : Dim × UInt64} (h : a.2 ≠ 0) (dims : List (Dim × UInt64)) :
    beforeEmpty (a :: dims) = a :: beforeEmpty dims := List.takeWhile_cons_of_pos (by simp [h])

theorem extent_ne_zero_of_mem_beforeEmpty {a : Dim × UInt64} (h : a ∈ beforeEmpty dims) : a.2 ≠ 0 := by
  simpa using List.mem_takeWhile_imp h

theorem volume_reverse (dims : List (Dim × UInt64)) : volume dims.reverse = volume dims := by
  rw [volume, List.map_reverse, List.prod_reverse, volume]

theorem volume_ne_zero (h : ∀ a ∈ dims, a.2 ≠ 0) : volume dims ≠ 0 := by
  refine List.prod_ne_zero fun hmem => ?_
  obtain ⟨a, ha, hzero⟩ := List.mem_map.1 hmem
  exact h a ha (UInt64.toNat_inj.1 hzero)

theorem one_le_volume_beforeEmpty (dims : List (Dim × UInt64)) : 1 ≤ volume (beforeEmpty dims) :=
  Nat.one_le_iff_ne_zero.2 (volume_ne_zero fun _ => extent_ne_zero_of_mem_beforeEmpty)

theorem beforeEmpty_eq_self (h : ∀ a ∈ dims, a.2 ≠ 0) : beforeEmpty dims = dims :=
  List.takeWhile_eq_self_iff.2 fun a ha => decide_eq_true (h a ha)

theorem volume_prefix_le (h : front <+: dims) : volume front ≤ volume (beforeEmpty dims) := by
  induction dims generalizing front with
  | nil =>
    rw [List.prefix_nil.1 h]
    exact one_le_volume_beforeEmpty []
  | cons a dims ih =>
    rcases List.prefix_cons_iff.1 h with rfl | ⟨later, rfl, hlater⟩
    · exact one_le_volume_beforeEmpty (a :: dims)
    · by_cases ha : a.2 = 0
      · rw [volume_eq_zero ⟨a, List.mem_cons_self, ha⟩]
        exact Nat.zero_le _
      · rw [beforeEmpty_cons_of_ne ha, volume_cons, volume_cons]
        exact Nat.mul_le_mul_left _ (ih hlater)

theorem volume_suffix_le (h : back <:+ dims) : volume back ≤ volume (afterEmpty dims) := by
  rw [afterEmpty, volume_reverse, ← volume_reverse back]
  exact volume_prefix_le (List.reverse_prefix.2 h)

/-! ## Counting -/

/-- multiplying up extents ends in a word when all products on the way are words -/
theorem foldlM_fits {start : Nat} (hstart : start ≤ wordMax) :
    dims.foldlM (fun acc a => fits (acc * a.2.toNat)) start = some n ↔
      n = start * volume dims ∧ ∀ front, front <+: dims → start * volume front ≤ wordMax := by
  induction dims generalizing start with
  | nil => simp [List.prefix_nil, hstart, pure, eq_comm]
  | cons a dims ih =>
    have hassoc (later : List (Dim × UInt64)) : start * volume (a :: later) = start * a.2.toNat * volume later := by
      rw [volume_cons, Nat.mul_assoc]
    simp only [List.foldlM_cons, Option.bind_eq_bind, Option.bind_eq_some_iff, fits_eq_some, hassoc,
      List.prefix_cons_iff, forall_eq_or_imp, volume_nil, Nat.mul_one, forall_exists_index, and_imp]
    constructor
    · rintro ⟨_, ⟨hle, rfl⟩, h⟩
      obtain ⟨rfl, hwords⟩ := (ih hle).1 h
      refine ⟨rfl, hstart, ?_⟩
      rintro _ front rfl hfront
      rw [hassoc]
      exact hwords front hfront
    · rintro ⟨rfl, -, hwords⟩
      have hfirst := hwords [a] [] rfl List.nil_prefix
      rw [hassoc, volume_nil, Nat.mul_one] at hfirst
      refine ⟨_, ⟨hfirst, rfl⟩, (ih hfirst).2 ⟨rfl, fun front hfront => ?_⟩⟩
      rw [← hassoc]
      exact hwords (a :: front) front rfl hfront

/-- **The count** of a row-major layout is its volume, if the axes in front of the first empty one have one. -/
theorem elements_rowMajor :
    (rowMajor dims).elements = some n ↔ n = volume dims ∧ volume (beforeEmpty dims) ≤ wordMax := by
  have hfold : (rowMajor dims).elements = dims.foldlM (fun acc a => fits (acc * a.2.toNat)) 1 :=
    List.foldlM_map ..
  rw [hfold, foldlM_fits (by decide)]
  simp only [Nat.one_mul]
  constructor
  · rintro ⟨rfl, hwords⟩
    exact ⟨rfl, hwords _ (List.takeWhile_prefix _)⟩
  · rintro ⟨rfl, hle⟩
    exact ⟨rfl, fun front hfront => (volume_prefix_le hfront).trans hle⟩

/-! ## Strides -/

theorem exists_beforeEmpty_append (h : ∃ a ∈ dims, a.2 = 0) : ∃ a, beforeEmpty dims ++ [a] <+: dims := by
  induction dims with
  | nil => simp at h
  | cons b dims ih =>
    by_cases hb : b.2 = 0
    · refine ⟨b, ?_⟩
      rw [beforeEmpty_cons_of_empty hb]
      exact List.prefix_append [b] dims
    · obtain ⟨a, hprefix⟩ := ih (by simpa [hb] using h)
      refine ⟨a, ?_⟩
      rw [beforeEmpty_cons_of_ne hb]
      exact List.cons_prefix_cons.2 ⟨rfl, hprefix⟩

theorem exists_cons_afterEmpty (h : ∃ a ∈ dims, a.2 = 0) : ∃ a, a :: afterEmpty dims <:+ dims := by
  obtain ⟨a, hprefix⟩ := @exists_beforeEmpty_append dims.reverse (by simpa using h)
  refine ⟨a, List.reverse_prefix.1 ?_⟩
  rwa [List.reverse_cons, afterEmpty, List.reverse_reverse]

theorem forall_rowSteps_le :
    (∀ s ∈ rowSteps dims, s.2 ≤ n) ↔ ∀ a back, a :: back <:+ dims → volume back ≤ n := by
  induction dims with
  | nil => simp [rowSteps]
  | cons c dims ih =>
    simp only [rowSteps, List.forall_mem_cons, ih, List.suffix_cons_iff]
    constructor
    · rintro ⟨hfirst, hrest⟩ a back (heq | hback)
      · obtain ⟨-, rfl⟩ := List.cons.inj heq
        exact hfirst
      · exact hrest a back hback
    · intro h
      exact ⟨h c dims (Or.inl rfl), fun a back hback => h a back (Or.inr hback)⟩

/-- the largest stride in front of an empty axis is zero, and behind the last one the volume of the axes there -/
theorem rowSteps_le_of_empty (h : ∃ a ∈ dims, a.2 = 0) :
    (∀ s ∈ rowSteps dims, s.2 ≤ n) ↔ volume (afterEmpty dims) ≤ n := by
  rw [forall_rowSteps_le]
  constructor
  · intro hall
    obtain ⟨a, hsuffix⟩ := exists_cons_afterEmpty h
    exact hall a _ hsuffix
  · intro hle a back hback
    exact (volume_suffix_le ((List.suffix_cons a back).trans hback)).trans hle

/-- without an empty axis the first stride is the largest, and no signed word only if it is the volume -/
theorem rowSteps_le_of_volume (h : ∀ a ∈ dims, a.2 ≠ 0) (hvol : volume dims ≤ wordMax) :
    (∀ s ∈ rowSteps dims, s.2 ≤ signedMax) ↔ ∀ a back, dims = a :: back → a.2 = 1 → volume dims ≤ signedMax := by
  rw [forall_rowSteps_le]
  constructor
  · rintro hall a back rfl hone
    rw [volume_cons, hone]
    simpa using hall a back List.suffix_rfl
  · intro hone a back hback
    obtain ⟨c, later, rfl⟩ := List.exists_cons_of_ne_nil (List.ne_nil_of_mem (hback.subset List.mem_cons_self))
    obtain ⟨hc, hlater⟩ := List.forall_mem_cons.1 h
    -- all later axes have at least as large a volume as some of them, since none of them is empty
    have hle : volume back ≤ volume later := by
      have hsuffix : back <:+ later := (List.suffix_cons_iff.1 hback).elim
        (fun heq => (List.cons.inj heq).2 ▸ List.suffix_rfl) (List.suffix_cons a back).trans
      have := volume_suffix_le hsuffix
      rwa [afterEmpty, volume_reverse, beforeEmpty_eq_self (by simpa using hlater), volume_reverse] at this
    refine hle.trans ?_
    rw [volume_cons] at hvol hone
    by_cases hc1 : c.2 = 1
    · simpa [hc1] using hone c later rfl hc1
    · have hc2 : 2 ≤ c.2.toNat := by
        have h0 : c.2.toNat ≠ 0 := fun e => hc (UInt64.toNat_inj.1 e)
        have h1 : c.2.toNat ≠ 1 := fun e => hc1 (UInt64.toNat_inj.1 e)
        omega
      have := Nat.mul_le_mul_right (volume later) hc2
      simp only [wordMax, signedMax] at hvol ⊢
      omega

/-! ## Counts and spans -/

theorem resolves_rowMajor (hroom : dims.length ≤ maxDims) (hnodup : (dims.map Prod.fst).Nodup) :
    (∃ r, (rowMajor dims).resolve = .ok r ∧ r.span = n) ↔
      n = volume dims ∧ volume dims ≤ wordMax ∧ ∀ s ∈ rowSteps dims, s.2 ≤ signedMax := by
  constructor
  · rintro ⟨r, hr, rfl⟩
    obtain ⟨-, -, hvol, hs, hspan, -, -⟩ := resolve_rowMajor.1 hr
    exact ⟨hspan, hvol, hs⟩
  · rintro ⟨rfl, hvol, hs⟩
    exact exists_resolve_rowMajor hroom hnodup hvol hs

/-- there is a count exactly when a row-major layout resolves, and then it is the span -/
def CountAgrees (dims : List (Dim × UInt64)) : Prop :=
  ∀ n, (rowMajor dims).elements = some n ↔ ∃ r, (rowMajor dims).resolve = .ok r ∧ r.span = n

theorem countAgrees_iff (hroom : dims.length ≤ maxDims) (hnodup : (dims.map Prod.fst).Nodup) :
    CountAgrees dims ↔ (volume (beforeEmpty dims) ≤ wordMax ↔
      volume dims ≤ wordMax ∧ ∀ s ∈ rowSteps dims, s.2 ≤ signedMax) := by
  simp only [CountAgrees, elements_rowMajor, resolves_rowMajor hroom hnodup]
  exact ⟨fun h => by simpa using h (volume dims), fun h n => and_congr_right fun _ => h⟩

/-- **Counts and spans** of row-major layouts never differ. Without an empty axis both are there or neither, unless the
first extent is one and the volume is a word but no signed word. With an empty axis both are there or neither exactly
when the axes in front of the first empty one have a word for a volume just if those behind the last one have a signed
word. -/
theorem count_spec (hroom : dims.length ≤ maxDims) (hnodup : (dims.map Prod.fst).Nodup) :
    (∀ n r, (rowMajor dims).elements = some n → (rowMajor dims).resolve = .ok r → r.span = n) ∧
    ((∀ a ∈ dims, a.2 ≠ 0) → (CountAgrees dims ↔
      ∀ a back, dims = a :: back → a.2 = 1 → volume dims ≤ wordMax → volume dims ≤ signedMax)) ∧
    ((∃ a ∈ dims, a.2 = 0) → (CountAgrees dims ↔
      (volume (beforeEmpty dims) ≤ wordMax ↔ volume (afterEmpty dims) ≤ signedMax))) := by
  refine ⟨fun n r hn hr => ?_, fun hpos => ?_, fun hzero => ?_⟩
  · obtain ⟨-, -, -, -, hspan, -, -⟩ := resolve_rowMajor.1 hr
    rw [hspan, (elements_rowMajor.1 hn).1]
  · rw [countAgrees_iff hroom hnodup, beforeEmpty_eq_self hpos]
    constructor
    · intro hagree a back hdims hone hvol
      exact (rowSteps_le_of_volume hpos hvol).1 (hagree.1 hvol).2 a back hdims hone
    · intro hone
      refine ⟨fun hvol => ⟨hvol, ?_⟩, And.left⟩
      exact (rowSteps_le_of_volume hpos hvol).2 fun a back hdims h1 => hone a back hdims h1 hvol
  · rw [countAgrees_iff hroom hnodup, rowSteps_le_of_empty hzero, volume_eq_zero hzero]
    simp

/-- a plane of `2^62` elements is counted as it resolves, but one element with `2^63` levels is not, nor are no slots
for `2^64` elements -/
theorem count_spec_planes : CountAgrees [(.horizontal, 0x40000000), (.vertical, 0x100000000)] ∧
    ¬ CountAgrees [(.horizontal, 1), (.vertical, 0x8000000000000000)] ∧
    ¬ CountAgrees [(.horizontal, 0x100000000), (.vertical, 0x100000000), (.neighbor, 0)] := by
  refine ⟨((count_spec (by decide) (by decide)).2.1 (by decide)).2 ?_, fun hagree => ?_, fun hagree => ?_⟩
  · rintro a back heq
    cases heq
    decide
  · have := ((count_spec (by decide) (by decide)).2.1 (by decide)).1 hagree _ _ rfl (by decide)
    exact absurd this (by decide)
  · have := ((count_spec (by decide) (by decide)).2.2 (by decide)).1 hagree
    exact absurd this (by decide)

/-- of no slots for `2^64` elements there is no count, though the layout resolves; of no elements with `2^63` levels, or
of one, there is a count, though the layout does not resolve -/
theorem count_disagrees :
    (rowMajor [(.horizontal, 0x100000000), (.vertical, 0x100000000), (.neighbor, 0)]).elements = none ∧
    (∃ r, (rowMajor [(.horizontal, 0x100000000), (.vertical, 0x100000000), (.neighbor, 0)]).resolve = .ok r ∧
      r.span = 0) ∧
    (rowMajor [(.horizontal, 0), (.vertical, 0x8000000000000000)]).elements = some 0 ∧
    (rowMajor [(.horizontal, 0), (.vertical, 0x8000000000000000)]).resolve = .error unaddressable ∧
    (rowMajor [(.horizontal, 1), (.vertical, 0x8000000000000000)]).elements = some 0x8000000000000000 ∧
    (rowMajor [(.horizontal, 1), (.vertical, 0x8000000000000000)]).resolve = .error unaddressable :=
  ⟨rfl, ⟨_, rfl, rfl⟩, rfl, rfl, rfl, rfl⟩

end Layout

end Stencil
