/-
Launches over temporaries. The stride of an axis of a temporary is the volume of the axes behind it. So a launch over the
elements of a temporary, with the extent it was made with and the storage it was made in, is accepted when no axis behind
the element axis is empty, whatever the other extents are. If one of them is empty, all elements lie at one place, and
the launch check refuses the temporary as not addressable, although no element has a cell that a unit could write.

- `View.RowMajor.checkOuter_member`: how the launch check of a row-major field ends;
- `Temporary.Made.rowMajor`: a temporary is a row-major field;
- `Temporary.launch_spec`: which temporaries a launch accepts, and how a launch over one ends that it does not.
-/
import Mathlib.Tactic
import Stencil.Proofs.Engine.LaunchCheck
import Stencil.Proofs.Memory.Temporaries

namespace Stencil

open Layout

/-! ## The check of a row-major field -/

/-- the check of a row-major field on its own storage: the axes behind the outer one have a volume, and the extent of
the launch is within that of the field -/
theorem View.RowMajor.checkOuter_member {v : View} {front back : List (Dim × UInt64)} {d : Dim} {e : UInt64}
    (hv : v.RowMajor (front ++ (d, e) :: back)) (hw : v.access = .writable) (extent : UInt64) :
    (Bundle.member v).checkOuter d extent v.storage =
      if volume back = 0 then .error (.notAddressable d.label)
      else if e < extent then .error (.extentMismatch d.label extent.toNat e.toNat) else .ok () := by
  have hstep := hv.get?_strides mem_rowSteps_middle
  have hbound : v.bounds.get? d = some e := by
    apply DimMap.get?_eq_some_of_mem
    rw [hv.bounds]
    exact List.mem_append_right _ List.mem_cons_self
  rw [Bundle.checkOuter_member hw, hstep, hbound]
  simp only [if_true, hv.toInt_step mem_rowSteps_middle]
  by_cases hzero : volume back = 0
  · simp [hzero]
  · have hpos : (0 : Int) < volume back := Int.natCast_pos.2 (Nat.pos_of_ne_zero hzero)
    rw [if_pos hpos, if_neg hzero]

/-! ## Temporaries -/

namespace Temporary

variable {α : Type} {system : System} {a : Allocator} {elementSize : Nat} {zero : α} {t : Temporary α}
  {dims front back : List (Dim × UInt64)} {own : UInt64}

/-- the ways to make a temporary with some extents -/
inductive Made (system : System) (a : Allocator) (elementSize : Nat) (zero : α) :
    List (Dim × UInt64) → Temporary α → Prop
  | extents {dims : List (Dim × UInt64)} {t : Temporary α} (h : (make system a dims elementSize zero).1 = .ok t) :
      Made system a elementSize zero dims t
  | columns {h k : UInt64} {t : Temporary α} (hmake : (makeSimple system a h k elementSize zero).1 = .ok t) :
      Made system a elementSize zero [(.horizontal, h), (.vertical, k)] t

theorem Made.make_eq_ok (h : Made system a elementSize zero dims t) :
    (make system a dims elementSize zero).1 = .ok t := by
  cases h with
  | extents h => exact h
  | columns h => exact h

theorem Made.fresh (h : Made system a elementSize zero dims t) :
    DistinctAxes dims ∧ RowAddressable dims ∧ t.Fresh dims elementSize zero a.kind := by
  have hmake := h.make_eq_ok
  cases hresolve : (rowMajor dims).resolve with
  | error v =>
    rw [make_of_refused_layout system a elementSize zero hresolve] at hmake
    cases hmake
  | ok r =>
    obtain ⟨haxes, haddr⟩ := resolves_iff.1 ⟨r, hresolve⟩
    refine ⟨haxes, haddr, ?_⟩
    rcases make_of_resolved system a elementSize zero hresolve with ⟨e, -, hrefused⟩ | ⟨t', -, hfresh, hgranted⟩
    · rw [hrefused] at hmake
      cases hmake
    · rw [hgranted, Except.ok.injEq] at hmake
      exact hmake ▸ hfresh

/-- a temporary is a row-major field on the storage of its allocator -/
theorem Made.rowMajor (h : Made system a elementSize zero dims t) (access : Access) :
    (t.view access).RowMajor dims ∧ (t.view access).storage = a.kind := by
  obtain ⟨haxes, haddr, hfresh⟩ := h.fresh
  have hsize : volume dims ≤ t.data.size := by rw [hfresh.data, Array.size_replicate]
  exact ⟨⟨haxes.nodup, haddr.volume, haddr.strides, hsize, rfl, hfresh.strides, hfresh.bounds⟩, hfresh.storage⟩

theorem Made.checkOuter_eq (h : Made system a elementSize zero (front ++ (.horizontal, own) :: back) t)
    (extent : UInt64) : (Bundle.member (t.view .writable)).checkOuter .horizontal extent a.kind =
      if volume back = 0 then .error (.notAddressable Dim.horizontal.label)
      else if own < extent then .error (.extentMismatch Dim.horizontal.label extent.toNat own.toNat) else .ok () := by
  obtain ⟨hrow, hstorage⟩ := h.rowMajor .writable
  rw [← hstorage]
  exact hrow.checkOuter_member rfl extent

/-- **Launching over a temporary.** A launch over all elements of a temporary, on the storage of its allocator, is
accepted exactly when no axis behind the element axis is empty; then no contract violation comes of it, whatever the
body does. If an axis behind it is empty, the stride of the elements is zero, the temporary is not addressable for any
extent, and every launch over it is refused before any unit runs. -/
theorem launch_spec (h : Made system a elementSize zero (front ++ (.horizontal, own) :: back) t) :
    t.extent? .horizontal = some own ∧
    ((Bundle.member (t.view .writable)).checkOuter .horizontal own a.kind = .ok () ↔ ∀ b ∈ back, b.2 ≠ 0) ∧
    ((∃ b ∈ back, b.2 = 0) → t.strides.get? .horizontal = some 0 ∧
      ∀ extent, (Bundle.member (t.view .writable)).checkOuter .horizontal extent a.kind =
        .error (.notAddressable Dim.horizontal.label)) ∧
    ∀ (backend : Backend), backend.storage = a.kind → ∀ (op : String)
      (body : Bundle Handle → Bundle (DimMap Int64) → Kernel α Unit) (s : RunState α),
      ((∀ b ∈ back, b.2 ≠ 0) → ∀ e,
        (backend.launch op own (.member (t.view .writable)) body s).1 ≠ .error (.error (.contract e))) ∧
      ((∃ b ∈ back, b.2 = 0) → ∀ extent, backend.launch op extent (.member (t.view .writable)) body s =
        (.error (.error (.contract (.notAddressable Dim.horizontal.label))), s)) := by
  have hflat : (∃ b ∈ back, b.2 = 0) → ∀ extent, (Bundle.member (t.view .writable)).checkOuter .horizontal extent a.kind =
      .error (.notAddressable Dim.horizontal.label) := by
    intro hzero extent
    rw [h.checkOuter_eq, if_pos (volume_eq_zero hzero)]
  have haccepted : (∀ b ∈ back, b.2 ≠ 0) →
      (Bundle.member (t.view .writable)).checkOuter .horizontal own a.kind = .ok () := by
    intro hpos
    rw [h.checkOuter_eq, if_neg (volume_ne_zero hpos), if_neg (UInt64.lt_irrefl own)]
  refine ⟨?_, ⟨?_, haccepted⟩, fun hzero => ⟨?_, hflat hzero⟩, ?_⟩
  · obtain ⟨-, -, hfresh⟩ := h.fresh
    apply DimMap.get?_eq_some_of_mem
    rw [hfresh.bounds]
    exact List.mem_append_right _ List.mem_cons_self
  · intro hcheck b hb hzero
    rw [hflat ⟨b, hb, hzero⟩] at hcheck
    cases hcheck
  · -- the stride of an axis is the volume of those behind it
    have hstep := (h.rowMajor .writable).1.get?_strides View.mem_rowSteps_middle
    rwa [volume_eq_zero hzero] at hstep
  · intro backend hstorage op body s
    constructor
    · intro hpos e
      rw [Backend.launch_of_accepted (hstorage ▸ haccepted hpos)]
      exact Backend.checkLaunch_ne_contract _ _ _ _
    · intro hzero extent
      rw [Backend.launch_eq_violation_iff, hstorage]
      exact hflat hzero extent

/-- five elements with two slots each, made of no levels with the levels outermost, are launched over -/
theorem launch_spec_slots : ∃ t : Temporary Int,
    Made (.granting 100) (.heap .unlimited) 8 0 [(.vertical, 0), (.horizontal, 5), (.neighbor, 2)] t ∧
    (Bundle.member (t.view .writable)).checkOuter .horizontal 5 .host = .ok () := by
  have hmade : Made (.granting 100) (.heap .unlimited) 8 (0 : Int)
      ([(.vertical, 0)] ++ (.horizontal, 5) :: [(.neighbor, 2)]) _ := .extents rfl
  exact ⟨_, hmade, (launch_spec hmade).2.1.2 (by decide)⟩

/-- five elements with no levels are made, but a launch over them is refused -/
theorem launch_no_levels : ∃ t : Temporary Int,
    (makeSimple (.granting 100) (.heap .unlimited) 5 0 8 0).1 = .ok t ∧
    (Bundle.member (t.view .writable)).checkOuter .horizontal 5 .host =
      .error (.notAddressable Dim.horizontal.label) ∧
    ((Backend.standard .sequential).launch "set" 5 (.member (t.view .writable)) (fun _ _ => .done ())
      ⟨#[t.data], []⟩).1 = .error (.error (.contract (.notAddressable Dim.horizontal.label))) :=
  ⟨_, rfl, rfl, rfl⟩

end Temporary

end Stencil
