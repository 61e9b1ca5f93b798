/-
Sequential passes. The sequential backend runs the units in ascending order, each from where the one before has ended,
and no unit after one that faults.

- `Pass.FirstFault`: the first unit that does not finish, after those below it;
- `Pass.FirstFault.unique`: there is one first fault at most;
- `sequential_launch`: how a launch on the sequential backend ends.
-/
import Mathlib.Tactic
import Stencil.Proofs.Engine.Tiling

namespace Stencil

/-! ## Ascending order -/

namespace Pass

variable {α : Type} {p : Pass α} {s t u : RunState α} {i : UInt64}

/-- the units below a number, in ascending order -/
def ascending (n : Nat) : List UInt64 := (List.range n).map UInt64.ofNat

/-- the units below unit `i` finish one after the other, and then unit `i` runs until it faults -/
def FirstFault (p : Pass α) (s : RunState α) (i : Nat) (fault : Fault) (u : RunState α) : Prop :=
  ∃ t, p.Ran (ascending i) s t ∧ p.FaultsAt (.ofNat i) t fault u

theorem eq_of_ofNat_eq {n i j : Nat} (hn : n ≤ 2 ^ 64) (hi : i < n) (hj : j < n)
    (h : UInt64.ofNat i = UInt64.ofNat j) : i = j := by
  have hnat := congrArg UInt64.toNat h
  rwa [UInt64.toNat_ofNat_of_lt' (hi.trans_le hn), UInt64.toNat_ofNat_of_lt' (hj.trans_le hn)] at hnat

theorem nodup_ascending {n : Nat} (hn : n ≤ 2 ^ 64) : (ascending n).Nodup := by
  refine List.Nodup.map_on ?_ List.nodup_range
  intro i hi j hj h
  exact eq_of_ofNat_eq hn (List.mem_range.1 hi) (List.mem_range.1 hj) h

theorem mem_ascending {n : Nat} (hn : n ≤ 2 ^ 64) : i ∈ ascending n ↔ i.toNat < n := by
  simp only [ascending, List.mem_map, List.mem_range]
  constructor
  · rintro ⟨j, hj, rfl⟩
    rwa [UInt64.toNat_ofNat_of_lt' (show j < 2 ^ 64 by omega)]
  · intro hi
    exact ⟨i.toNat, hi, UInt64.ofNat_toNat⟩

theorem ascending_split {n i : Nat} (hi : i < n) : ∃ rest, ascending n = ascending i ++ UInt64.ofNat i :: rest := by
  obtain ⟨k, rfl⟩ := Nat.exists_eq_add_of_lt hi
  refine ⟨(List.range k).map fun j => UInt64.ofNat (i + (j + 1)), ?_⟩
  rw [ascending, ascending, Nat.add_assoc, List.range_add, List.range_succ_eq_map]
  simp [Function.comp_def]

theorem FirstFault.runEach {n i : Nat} (hi : i < n) {fault : Fault} (h : p.FirstFault s i fault u) :
    p.runEach (ascending n) s = (some ⟨.ofNat i, fault⟩, u) := by
  obtain ⟨t, hran, hfault⟩ := h
  obtain ⟨rest, hsplit⟩ := ascending_split hi
  exact runEach_eq_some_iff.2 ⟨ascending i, rest, t, hsplit, hran, hfault⟩

/-- a run in ascending order that ends at a fault has run until the first one -/
theorem exists_firstFault {n : Nat} {f : UnitFault} (h : p.runEach (ascending n) s = (some f, u)) :
    ∃ i < n, p.FirstFault s i f.fault u := by
  obtain ⟨before, after, t, hsplit, hran, hfault⟩ := runEach_eq_some_iff.1 h
  -- the list of the units is cut at the number of those that ran before the fault
  have hlength := congrArg List.length hsplit
  simp only [ascending, List.length_map, List.length_range, List.length_append, List.length_cons] at hlength
  have hlt : before.length < n := by omega
  obtain ⟨rest, hcut⟩ := ascending_split hlt
  obtain ⟨hbefore, hrest⟩ := List.append_inj (hsplit.symm.trans hcut) (by simp [ascending])
  obtain ⟨hindex, -⟩ := List.cons.inj hrest
  exact ⟨before.length, hlt, t, hbefore ▸ hran, hindex ▸ hfault⟩

/-- **There is one first fault at most**, and one state that it leaves. -/
theorem FirstFault.unique {n i j : Nat} (hn : n ≤ 2 ^ 64) (hi : i < n) (hj : j < n) {fault fault' : Fault}
    {u u' : RunState α} (h : p.FirstFault s i fault u) (h' : p.FirstFault s j fault' u') :
    i = j ∧ fault = fault' ∧ u = u' := by
  have hruns := (h.runEach hi).symm.trans (h'.runEach hj)
  simp only [Prod.mk.injEq, Option.some.injEq, UnitFault.mk.injEq] at hruns
  obtain ⟨⟨hindex, hfault⟩, hstate⟩ := hruns
  exact ⟨eq_of_ofNat_eq hn hi hj hindex, hfault, hstate⟩

end Pass

/-! ## Launches -/

namespace Backend

variable {α : Type}

/-- a sequential pass is a run of its units in ascending order -/
theorem dispatch_sequential {b : Backend} (hkind : b.kind = .sequential) (extent : UInt64) (fields : Bundle View)
    (body : Bundle Handle → Bundle (DimMap Int64) → Kernel α Unit) (s : RunState α) :
    b.dispatch extent fields body s =
      (statusOf ((unitPass fields body).runEach (Pass.ascending extent.toNat) s).1,
        ((unitPass fields body).runEach (Pass.ascending extent.toNat) s).2) := by
  have hunits := (unitPass fields body).runUnits_eq_runEach extent.toNat 0 s
  rw [UInt64.toNat_zero, ← List.range_eq_range'] at hunits
  simp only [dispatch, hkind]
  rw [Pass.ascending, ← hunits]
  rfl

/-- **A sequential launch** under the policy that gives errors to the caller. If a unit faults once those below it have
finished one after the other, then there is only one such unit, and the launch ends there: it leaves what these units
have stored, the last one up to its fault, and fails with code 1 and the text of the fault. If no unit does, then all
have finished one after the other, each once, and the launch succeeds and leaves what they have stored. -/
theorem sequential_launch (b : Backend) (hkind : b.kind = .sequential) (hpolicy : b.config.failurePolicy = .propagate)
    (op : String) (extent : UInt64) (fields : Bundle View)
    (hcheck : fields.checkOuter .horizontal extent b.storage = .ok ())
    (body : Bundle Handle → Bundle (DimMap Int64) → Kernel α Unit) (s : RunState α) :
    let pass := unitPass fields body
    (∀ i < extent.toNat, ∀ fault t, pass.FirstFault s i fault t →
      (∀ j < extent.toNat, ∀ fault' t', pass.FirstFault s j fault' t' → j = i ∧ fault' = fault ∧ t' = t) ∧
      b.launch op extent fields body s =
        (.error (.error (.launchFailure op 1
          ("kernel fault: " ++ fault.message?.getD "non-string panic payload"))), t)) ∧
    ((∀ i < extent.toNat, ∀ fault t, ¬ pass.FirstFault s i fault t) →
      ∃ t, pass.Ran (Pass.ascending extent.toNat) s t ∧ b.launch op extent fields body s = (.ok (), t)) ∧
    (Pass.ascending extent.toNat).Nodup ∧ ∀ i, i ∈ Pass.ascending extent.toNat ↔ i < extent := by
  intro pass
  have hsmall : extent.toNat ≤ 2 ^ 64 := extent.toNat_lt.le
  have hlaunch : b.launch op extent fields body s =
      (checkLaunch op (statusOf (pass.runEach (Pass.ascending extent.toNat) s).1) .propagate,
        (pass.runEach (Pass.ascending extent.toNat) s).2) := by
    rw [launch_of_accepted hcheck, dispatch_sequential hkind, hpolicy]
  refine ⟨fun i hi fault t hfirst => ⟨?_, ?_⟩, fun hnone => ?_, Pass.nodup_ascending hsmall, fun i => ?_⟩
  · intro j hj fault' t' hfirst'
    exact hfirst'.unique hsmall hj hi hfirst
  · rw [hlaunch, hfirst.runEach hi]
    rfl
  · cases hrun : pass.runEach (Pass.ascending extent.toNat) s with
    | mk found t =>
      cases found with
      | none =>
        refine ⟨t, Pass.runEach_eq_none_iff.1 hrun, ?_⟩
        rw [hlaunch, hrun]
        rfl
      | some f =>
        obtain ⟨i, hi, hfirst⟩ := Pass.exists_firstFault hrun
        exact absurd hfirst (hnone i hi _ _)
  · rw [Pass.mem_ascending hsmall, UInt64.lt_iff_toNat_lt]

/-- sets the own element; the unit of element 2 then goes on to the element after its own -/
def trespass (p : Bundle Handle) (_ : Bundle (DimMap Int64)) : Kernel Int Unit := do
  Kernel.set 0 (p.handle 0) 7
  if (p.handle 0).offset = 2 then Kernel.set 0 ((p.handle 0).shiftBy 1 1) 9

/-- the handle of the third unit refuses the fourth element: three elements are set, the fourth is as it was -/
theorem sequential_launch_trespass :
    let b : Backend := ⟨.sequential, .propagating, fun _ => .ascending⟩
    let fields : Bundle View := .member (.ofElements .writable 4 .host)
    fields.checkOuter .horizontal 4 b.storage = .ok () ∧
      b.launch "set" 4 fields trespass ⟨#[#[1, 2, 3, 4]], []⟩ =
        (.error (.error (.launchFailure "set" 1
          "kernel fault: handle offset 3 belongs to element 3 but this unit owns element 2")),
          ⟨#[#[7, 7, 7, 4]], []⟩) := by
  intro b fields
  have accepted : fields.checkOuter .horizontal 4 b.storage = .ok () := by decide +kernel
  have hran : (unitPass fields trespass).Ran (Pass.ascending 2) ⟨#[#[1, 2, 3, 4]], []⟩ ⟨#[#[7, 7, 3, 4]], []⟩ :=
    Pass.runEach_eq_none_iff.1
      (Prod.ext (by decide +kernel) (congrArg₂ RunState.mk (by decide +kernel) (by decide +kernel)))
  have hfault : (unitPass fields trespass).FaultsAt 2 ⟨#[#[7, 7, 3, 4]], []⟩ (.foreignElement 3 3 2)
      ⟨#[#[7, 7, 7, 4]], []⟩ :=
    Pass.runUnit_eq_error_iff.1
      (Prod.ext (by decide +kernel) (congrArg₂ RunState.mk (by decide +kernel) (by decide +kernel)))
  obtain ⟨hfirst, -, -⟩ := sequential_launch b rfl rfl "set" 4 fields accepted trespass ⟨#[#[1, 2, 3, 4]], []⟩
  exact ⟨accepted, (hfirst 2 (by decide) _ _ ⟨_, hran, hfault⟩).2⟩

end Backend

end Stencil
