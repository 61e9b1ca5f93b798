/-
Making temporaries. A temporary has a row-major layout, which is resolved before a buffer of its volume is asked of the
allocator. So what stands in the way of it is found by the layout first, as a contract violation, and then by the
allocator, as an allocation failure; and the layout refuses more than repeated and too many axes, since it also needs a
volume and strides that are words.

- `Layout.resolves_iff`: when a row-major layout resolves;
- `make_of_resolved`: over such a layout, what is asked of the allocator, and what a temporary that was made looks like;
- `make_spec`: when making a temporary ends as documented, and how it ends otherwise.
-/
import Mathlib.Tactic
import Stencil.Memory.Temporary
import Stencil.Proofs.Access.RowMajor
import Stencil.Proofs.Axis.Counting
import Stencil.Proofs.Memory.Ledger

namespace Stencil

open Layout

/-! ## Layouts that words address -/

namespace Layout

variable {dims : List (Dim × UInt64)}

/-- words address a row-major layout: its volume is a word, and its strides are signed words -/
structure RowAddressable (dims : List (Dim × UInt64)) : Prop where
  volume : volume dims ≤ wordMax
  strides : ∀ s ∈ rowSteps dims, s.2 ≤ signedMax

/-- no axis is named twice, and there is room for all -/
structure DistinctAxes (dims : List (Dim × UInt64)) : Prop where
  few : dims.length ≤ maxDims
  nodup : (dims.map Prod.fst).Nodup

/-- a row-major layout resolves when its axes are distinct and words address it -/
theorem resolves_iff : (∃ r, (rowMajor dims).resolve = .ok r) ↔ DistinctAxes dims ∧ RowAddressable dims := by
  constructor
  · intro h
    obtain ⟨r, hr⟩ := h
    obtain ⟨hfew, hnodup, hvolume, hstrides, -⟩ := resolve_rowMajor.1 hr
    exact ⟨⟨hfew, hnodup⟩, hvolume, hstrides⟩
  · intro h
    obtain ⟨haxes, haddr⟩ := h
    obtain ⟨r, hr, -⟩ := exists_resolve_rowMajor haxes.few haxes.nodup haddr.volume haddr.strides
    exact ⟨r, hr⟩

theorem resolve_eq_layoutMismatch (haxes : DistinctAxes dims) (haddr : ¬ RowAddressable dims) :
    (rowMajor dims).resolve = .error (.layoutMismatch wordMax 0) := by
  have hlength : (rowMajor dims).axes.length = dims.length := List.length_map _
  have hdims : (rowMajor dims).axes.map LayoutAxis.dim = dims.map Prod.fst := by simp [rowMajor, Function.comp_def]
  rcases resolve_cases (rowMajor dims) with ⟨hmany, -⟩ | ⟨-, d, hrep, -⟩ | ⟨-, -, -, h⟩ | ⟨-, -, -, r, hr, -⟩
  · exact absurd (hlength ▸ hmany) (Nat.not_lt.2 haxes.few)
  · rw [firstRepeated_eq_none.2 ⟨hdims ▸ haxes.nodup, fun _ _ => List.not_mem_nil⟩] at hrep
    cases hrep
  · exact h
  · exact absurd (resolves_iff.1 ⟨r, hr⟩).2 haddr

/-- without an empty axis, words address a layout whose volume is a word, unless the volume is the stride of a first
axis that has one element, and no signed word -/
theorem rowAddressable_of_nonempty (hpos : ∀ a ∈ dims, a.2 ≠ 0) : RowAddressable dims ↔
    volume dims ≤ wordMax ∧ ∀ a back, dims = a :: back → a.2 = 1 → volume dims ≤ signedMax := by
  constructor
  · intro h
    exact ⟨h.volume, (rowSteps_le_of_volume hpos h.volume).1 h.strides⟩
  · intro h
    exact ⟨h.1, (rowSteps_le_of_volume hpos h.1).2 h.2⟩

/-- with an empty axis, words address a layout when the axes behind the last empty one have a signed word for a
volume -/
theorem rowAddressable_of_empty (hzero : ∃ a ∈ dims, a.2 = 0) :
    RowAddressable dims ↔ volume (afterEmpty dims) ≤ signedMax := by
  rw [← rowSteps_le_of_empty hzero]
  constructor
  · intro h
    exact h.strides
  · intro h
    exact ⟨by rw [volume_eq_zero hzero]; exact Nat.zero_le _, h⟩

end Layout

/-! ## How making a temporary ends -/

namespace Temporary

variable {α : Type}

/-- the request for the buffer of a temporary -/
def request (system : System) (dims : List (Dim × UInt64)) (elementSize : Nat) (zero : α) : Allocator.Request :=
  ⟨system, elementSize, volume dims, zero⟩

/-- a temporary with fresh elements only, as many as the extents have cells, its first axis outermost -/
structure Fresh (dims : List (Dim × UInt64)) (elementSize : Nat) (zero : α) (storage : Storage) (t : Temporary α) :
    Prop where
  data : t.data = Array.replicate (volume dims) zero
  elementSize : t.elementSize = elementSize
  strides : t.strides.entries = (rowSteps dims).map fun s => (s.1, Int64.ofNat s.2)
  bounds : t.bounds.entries = dims
  storage : t.storage = storage

section Making

variable {dims : List (Dim × UInt64)}

theorem Fresh.bytes_eq {elementSize : Nat} {zero : α} {storage : Storage} {t : Temporary α}
    (h : t.Fresh dims elementSize zero storage) (system : System) :
    t.bytes = (request system dims elementSize zero).bytes := by
  rw [bytes, h.data, h.elementSize, Array.size_replicate]
  rfl

variable (system : System) (a : Allocator) (elementSize : Nat) (zero : α)

theorem make_of_refused_layout {v : ContractViolation} (h : (rowMajor dims).resolve = .error v) :
    make system a dims elementSize zero = (.error (.contract v), a) := by
  rw [make, h]

/-- over a layout that resolves, a temporary is made exactly when the allocator grants its buffer -/
theorem make_of_resolved {r : ResolvedLayout} (h : (rowMajor dims).resolve = .ok r) :
    (∃ e, ((request system dims elementSize zero).perform a).1 = .error e ∧
      make system a dims elementSize zero = (.error e.toEngineError, a)) ∨
    ∃ t : Temporary α, ((request system dims elementSize zero).perform a).1 = .ok t.data ∧
      t.Fresh dims elementSize zero a.kind ∧
        make system a dims elementSize zero = (.ok t, { a with ledger := a.ledger.commit t.bytes }) := by
  obtain ⟨-, -, -, -, hspan, hstrides, hbounds⟩ := resolve_rowMajor.1 h
  have hallocate : a.allocate system elementSize r.span zero = (request system dims elementSize zero).perform a := by
    rw [hspan]
    rfl
  rw [make, h]
  dsimp only
  rw [hallocate]
  rcases (request system dims elementSize zero).perform_cases a with ⟨e, hrefused⟩ | hgranted
  · rw [hrefused]
    exact Or.inl ⟨e, rfl, rfl⟩
  · rw [hgranted]
    have hfresh : Fresh dims elementSize zero a.kind
        ⟨Array.replicate (volume dims) zero, elementSize, r.strides, r.bounds, a.kind⟩ :=
      ⟨rfl, rfl, hstrides, hbounds, rfl⟩
    refine Or.inr ⟨_, rfl, hfresh, ?_⟩
    rw [hfresh.bytes_eq system]
    rfl

theorem make_cases (dims : List (Dim × UInt64)) : (∃ e, make system a dims elementSize zero = (.error e, a)) ∨
    ∃ t : Temporary α, t.Fresh dims elementSize zero a.kind ∧
      make system a dims elementSize zero = (.ok t, { a with ledger := a.ledger.commit t.bytes }) := by
  cases h : (rowMajor dims).resolve with
  | error v => exact Or.inl ⟨_, make_of_refused_layout system a elementSize zero h⟩
  | ok r =>
    rcases make_of_resolved system a elementSize zero h with ⟨e, -, hmake⟩ | ⟨t, -, hfresh, hmake⟩
    · exact Or.inl ⟨_, hmake⟩
    · exact Or.inr ⟨t, hfresh, hmake⟩

theorem make_eq_contract_iff (dims : List (Dim × UInt64)) :
    (∃ v, (make system a dims elementSize zero).1 = .error (.contract v)) ↔ ¬ ∃ r, (rowMajor dims).resolve = .ok r := by
  cases h : (rowMajor dims).resolve with
  | error v =>
    refine iff_of_true ⟨v, ?_⟩ nofun
    rw [make_of_refused_layout system a elementSize zero h]
  | ok r =>
    refine iff_of_false ?_ (not_not_intro ⟨r, rfl⟩)
    intro hviolation
    obtain ⟨v, hv⟩ := hviolation
    rcases make_of_resolved system a elementSize zero h with ⟨e, -, hmake⟩ | ⟨t, -, -, hmake⟩
    · rw [hmake] at hv
      cases hv
    · rw [hmake] at hv
      cases hv

end Making

/-! ## What is documented -/

/-- how making a temporary is documented to end: a contract violation is a matter of the axes alone; bytes that are no
word or that are not available are an allocation failure; and what the system grants is a fresh temporary -/
structure Documented (system : System) (a : Allocator) (dims : List (Dim × UInt64)) (elementSize : Nat) (zero : α) :
    Prop where
  violation : (∃ v, (make system a dims elementSize zero).1 = .error (.contract v)) ↔ ¬ DistinctAxes dims
  refused : DistinctAxes dims →
    (wordMax < volume dims * elementSize ∨ ∃ left, a.available = some left ∧ left < volume dims * elementSize) →
      ∃ bytes reason, make system a dims elementSize zero = (.error (.allocationFailure bytes reason), a)
  made : DistinctAxes dims → volume dims * elementSize ≤ wordMax →
    (∀ left, a.available = some left → volume dims * elementSize ≤ left) →
      system.reserves (volume dims * elementSize) = true →
        ∃ t, (make system a dims elementSize zero).1 = .ok t ∧ t.Fresh dims elementSize zero a.kind

variable {system : System} {a : Allocator} {dims : List (Dim × UInt64)} {elementSize : Nat} {zero : α}

/-- over a layout that words address, making a temporary ends as documented -/
theorem documented_of_rowAddressable (haddr : DistinctAxes dims → RowAddressable dims) :
    Documented system a dims elementSize zero := by
  have hresolves (haxes : DistinctAxes dims) : ∃ r, (rowMajor dims).resolve = .ok r :=
    resolves_iff.2 ⟨haxes, haddr haxes⟩
  refine ⟨?_, ?_, ?_⟩
  · rw [make_eq_contract_iff, resolves_iff, and_iff_left_of_imp haddr]
  · intro haxes hlarge
    obtain ⟨r, hr⟩ := hresolves haxes
    rcases make_of_resolved system a elementSize zero hr with ⟨e, -, hmake⟩ | ⟨t, hgranted, -, -⟩
    · exact ⟨_, _, hmake⟩
    · obtain ⟨hword, -, hroom, -⟩ := Allocator.perform_eq_ok_iff.1 hgranted
      rcases hlarge with hoverflow | ⟨left, hleft, hshort⟩
      · exact absurd hword (Nat.not_le.2 hoverflow)
      · exact absurd (hroom left hleft) (Nat.not_le.2 hshort)
  · intro haxes hword hroom hreserves
    obtain ⟨r, hr⟩ := hresolves haxes
    rcases make_of_resolved system a elementSize zero hr with ⟨e, hrefused, -⟩ | ⟨t, -, hfresh, hmake⟩
    · have hgranted := (Allocator.perform_eq_ok_iff (a := a) (r := request system dims elementSize zero)).2
        ⟨hword, rfl, hroom, hreserves⟩
      rw [hrefused] at hgranted
      cases hgranted
    · exact ⟨t, by rw [hmake], hfresh⟩

/-- **Making a temporary** ends as documented exactly where words address the layout of distinct axes. Where they do
not, the answer is a contract violation, whatever the elements, the allocator and the system. Where they do, it is the
allocator's answer: any refusal of it is an allocation failure that changes nothing. Words address a layout without an
empty axis when its volume is a word, unless the volume is the stride of a first axis that has one element, and no
signed word; and one with an empty axis when the axes behind the last empty one have a signed word for a volume. -/
theorem make_spec (system : System) (a : Allocator) (dims : List (Dim × UInt64)) (elementSize : Nat) (zero : α) :
    (Documented system a dims elementSize zero ↔ (DistinctAxes dims → RowAddressable dims)) ∧
    (DistinctAxes dims → ¬ RowAddressable dims →
      make system a dims elementSize zero = (.error (.contract (.layoutMismatch wordMax 0)), a)) ∧
    (DistinctAxes dims → RowAddressable dims →
      ∀ e, ((request system dims elementSize zero).perform a).1 = .error e →
        make system a dims elementSize zero = (.error e.toEngineError, a)) ∧
    ((∀ b ∈ dims, b.2 ≠ 0) → (RowAddressable dims ↔
      volume dims ≤ wordMax ∧ ∀ b back, dims = b :: back → b.2 = 1 → volume dims ≤ signedMax)) ∧
    ((∃ b ∈ dims, b.2 = 0) → (RowAddressable dims ↔ volume (afterEmpty dims) ≤ signedMax)) := by
  refine ⟨⟨?_, documented_of_rowAddressable⟩, ?_, ?_, rowAddressable_of_nonempty, rowAddressable_of_empty⟩
  · intro h haxes
    by_contra haddr
    have hviolation := make_of_refused_layout system a elementSize zero
      (resolve_eq_layoutMismatch haxes haddr)
    exact h.violation.1 ⟨_, congrArg Prod.fst hviolation⟩ haxes
  · intro haxes haddr
    exact make_of_refused_layout system a elementSize zero (resolve_eq_layoutMismatch haxes haddr)
  · intro haxes haddr e hrefused
    obtain ⟨r, hr⟩ := resolves_iff.2 ⟨haxes, haddr⟩
    rcases make_of_resolved system a elementSize zero hr with ⟨e', hrefused', hmake⟩ | ⟨t, hgranted, -, -⟩
    · rw [hrefused, Except.error.injEq] at hrefused'
      rw [hmake, hrefused']
    · rw [hrefused] at hgranted
      cases hgranted

/-- one element with `2^63` levels of a byte each is refused by its layout, though the bytes are a word and more than
the hundred that the allocator may hand out; with the levels outermost, the allocator refuses it -/
theorem make_tall_column :
    let a := Allocator.heap ⟨some 100⟩
    make (.granting 100) a [(.horizontal, 1), (.vertical, 0x8000000000000000)] 1 (0 : Int) =
      (.error (.contract (.layoutMismatch wordMax 0)), a) ∧
    make (.granting 100) a [(.vertical, 0x8000000000000000), (.horizontal, 1)] 1 (0 : Int) =
      (.error (.allocationFailure 0x8000000000000000
        "allocator budget exceeded: requested 9223372036854775808 bytes, 100 bytes available"), a) ∧
    ¬ Documented (.granting 100) a [(.horizontal, 1), (.vertical, 0x8000000000000000)] 1 (0 : Int) := by
  refine ⟨rfl, rfl, ?_⟩
  intro h
  obtain ⟨bytes, reason, hfailure⟩ := h.refused ⟨by decide, by decide⟩ (Or.inr ⟨100, rfl, by decide⟩)
  cases hfailure

end Temporary

end Stencil
