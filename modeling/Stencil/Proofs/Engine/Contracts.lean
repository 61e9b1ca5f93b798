/-
What the launch check says about the fields of a pass, in terms of their strides and bounds, and what a launch makes of
it. A violation is found before anything runs and is the caller's to handle: no policy ends the process because of it.

- `contract_spec`: which bundles are accepted, which violation is found in one that is not, and how its launch ends.
-/
import Mathlib.Tactic
import Stencil.Proofs.Access.Contracts
import Stencil.Proofs.Engine.LaunchCheck
import Stencil.Proofs.Engine.Phases

namespace Stencil

/-- **The launch check.** A bundle is accepted exactly when some member has a stride along the axis, all members live in
the storage, each member that is written has a positive stride and a bound of at least the extent, and each that is read
and has both a stride and a bound has a bound of at least the extent. Otherwise the check finds that the stride is
missing, when no member has one, and else the violation of the first member that does not pass. A launch over a bundle
that is not accepted along the element axis returns that violation on either backend and under either policy, and runs
no unit. -/
theorem contract_spec (fields : Bundle View) (d : Dim) (extent : UInt64) (storage : Storage) :
    (fields.checkOuter d extent storage = .ok () ↔
      (∃ v ∈ fields.members, ∃ step, v.strides.get? d = some step) ∧
      (∀ v ∈ fields.members, v.storage = storage) ∧
      (∀ v ∈ fields.members, v.access = .writable →
        (∃ step, v.strides.get? d = some step ∧ 0 < step) ∧ ∃ bound, v.bounds.get? d = some bound ∧ extent ≤ bound) ∧
      ∀ v ∈ fields.members, v.access = .readOnly → ∀ step, v.strides.get? d = some step →
        ∀ bound, v.bounds.get? d = some bound → extent ≤ bound) ∧
    (∀ e, fields.checkOuter d extent storage = .error e ↔
      ((∀ v ∈ fields.members, v.strides.get? d = none) ∧ e = .missingStride d.label) ∨
        ((∃ v ∈ fields.members, ∃ step, v.strides.get? d = some step) ∧
          Bundle.FirstViolation d extent storage fields.members e)) ∧
    ∀ (b : Backend) (e : ContractViolation), fields.checkOuter .horizontal extent b.storage = .error e →
      ∀ (α : Type) (op : String) (body : Bundle Handle → Bundle (DimMap Int64) → Kernel α Unit) (s : RunState α),
        b.launch op extent fields body s = (.error (.error (.contract e)), s) ∧
          ¬ b.RunsUnit op extent fields body s := by
  have hsome (v : View) : v.strides.contains d = true ↔ ∃ step, v.strides.get? d = some step :=
    Option.isSome_iff_exists
  have hnone (v : View) : v.strides.contains d = false ↔ v.strides.get? d = none :=
    Option.isSome_eq_false_iff.trans Option.isNone_iff_eq_none
  refine ⟨?_, ?_, ?_⟩
  · simp only [← hsome]
    rw [Bundle.checkOuter_eq_ok_iff]
    simp only [View.passes_iff]
    refine and_congr_right fun _ => ?_
    constructor
    · intro h
      exact ⟨fun v hv => (h v hv).1, fun v hv => (h v hv).2.1, fun v hv => (h v hv).2.2⟩
    · intro ⟨hstored, hwritten, hread⟩ v hv
      exact ⟨hstored v hv, hwritten v hv, hread v hv⟩
  · intro e
    simp only [← hsome, ← hnone]
    exact Bundle.checkOuter_eq_error_iff
  · intro b e hcheck α op body s
    refine ⟨(Backend.launch_eq_violation_iff b op extent fields body s e).2 hcheck, ?_⟩
    intro hruns
    have haccepted := ((Backend.runsUnit_iff op body s).1 hruns).1
    rw [hcheck] at haccepted
    cases haccepted

/-- in nested groups: a field that is read and stands still, a field that can be written, one that cannot because its
elements all lie at one place, and a field that is too short -/
def nestedFields : Bundle View :=
  .group [.member (.ofParts .readOnly 1 .empty .empty .host),
    .group [.member (.ofElements .writable 4 .host),
      .group [.member (.ofParts .writable 4 (.single .horizontal 0) (.single .horizontal 4) .host)]],
    .member (.ofElements .readOnly 2 .host)]

/-- of two fields that violate the check, the launch names the one further to the left, and does not end the process
although failures of passes would -/
theorem contract_spec_nested :
    nestedFields.checkOuter .horizontal 4 .host = .error (.notAddressable Dim.horizontal.label) ∧
      (Backend.standard .sequential).config.failurePolicy = .abort ∧
        (Backend.standard .sequential).launch "set" 4 nestedFields (Backend.setOwn 7) ⟨#[#[0], #[1, 2, 3, 4]], []⟩ =
          (.error (.error (.contract (.notAddressable Dim.horizontal.label))), ⟨#[#[0], #[1, 2, 3, 4]], []⟩) := by
  have hcheck : nestedFields.checkOuter .horizontal 4 .host = .error (.notAddressable Dim.horizontal.label) := by
    decide +kernel
  obtain ⟨-, -, hlaunch⟩ := contract_spec nestedFields .horizontal 4 .host
  exact ⟨hcheck, rfl, (hlaunch (.standard .sequential) _ hcheck Nat "set" (Backend.setOwn 7) _).1⟩

end Stencil
