/-
Runs of units. A body moves on by single accesses: a load, a store that is granted or refused, or a report. A unit
finishes when its body gets to its end, and faults when the body gets to a fault; what it has stored until then stays.
Units run one after the other, each from where the one before has ended, up to the first that faults.

- `Kernel.Step`, `Kernel.run_eq_iff`: one step of a body, and that running a body is taking steps until it ends;
- `Pass.Ran`: units that finish one after the other;
- `Pass.runEach_eq_none_iff`, `Pass.runEach_eq_some_iff`: how a run of units in the order of a list ends, by induction
  on the list.
-/
import Mathlib.Tactic
import Stencil.Engine.Backend

namespace Stencil

/-! ## Steps of a body -/

namespace Kernel

variable {α ρ : Type} {handles : List Handle}

/-- one step of a body with the handles of a unit: what is left of the body, and what it has led to -/
inductive Step (handles : List Handle) : Kernel α ρ × RunState α → Kernel α ρ × RunState α → Prop where
  | load (m : Nat) (o : Int64) (next : Option α → Kernel α ρ) (s : RunState α) :
    Step handles (.load m o next, s) (next ((handles[m]?).bind fun h => s.cells.load m (h.moveTo o)), s)
  /-- a store at a position that the handle of the member may write -/
  | store {m : Nat} {o : Int64} {h : Handle} {i : Nat} (hh : handles[m]? = some h)
    (hi : (h.moveTo o).writeIndex? = some i) (v : α) (next : Bool → Kernel α ρ) (s : RunState α) :
    Step handles (.store m o v next, s) (next true, ⟨s.cells.put m i v, s.reported⟩)
  /-- a store that the handle of the member does not admit -/
  | refused {m : Nat} {o : Int64} (hno : ∀ h, handles[m]? = some h → (h.moveTo o).writeIndex? = none) (v : α)
    (next : Bool → Kernel α ρ) (s : RunState α) : Step handles (.store m o v next, s) (next false, s)
  | emit (row : List Int64) (next : Unit → Kernel α ρ) (s : RunState α) :
    Step handles (.emit row next, s) (next (), ⟨s.cells, row :: s.reported⟩)

/-- some steps of a body, one after the other -/
def Steps (handles : List Handle) : Kernel α ρ × RunState α → Kernel α ρ × RunState α → Prop :=
  Relation.ReflTransGen (Step handles)

/-- a body that has ended -/
def ended : Except Fault ρ → Kernel α ρ
  | .ok r => done r
  | .error f => fault f

theorem run_ended (result : Except Fault ρ) (s : RunState α) : (ended result).run handles s = (result, s) := by
  cases result <;> rfl

theorem Step.run_eq {k k' : Kernel α ρ} {s s' : RunState α} (h : Step handles (k, s) (k', s')) :
    k.run handles s = k'.run handles s' := by
  cases h with
  | load m o next => rfl
  | store hh hi v next =>
    rw [run, hh, Option.bind_some, hi]
  | refused hno v next =>
    rw [run, Option.bind_eq_none_iff.2 hno]
  | emit row next => rfl

/-- a body gets to its end in steps -/
theorem steps_run (k : Kernel α ρ) (s : RunState α) :
    Steps handles (k, s) (ended (k.run handles s).1, (k.run handles s).2) := by
  induction k generalizing s with
  | done r => exact .refl
  | fault f => exact .refl
  | load m o next ih => exact .head (.load m o next s) (ih _ s)
  | store m o v next ih =>
    rw [run]
    split
    · next i hi =>
      obtain ⟨h, hh, hi⟩ := Option.bind_eq_some_iff.1 hi
      exact .head (.store hh hi v next s) (ih true _)
    · next hno => exact .head (.refused (Option.bind_eq_none_iff.1 hno) v next s) (ih false s)
  | emit row next ih => exact .head (.emit row next s) (ih () _)

/-- **Running a body** is taking steps until it ends. -/
theorem run_eq_iff {k : Kernel α ρ} {s t : RunState α} {result : Except Fault ρ} :
    k.run handles s = (result, t) ↔ Steps handles (k, s) (ended result, t) := by
  constructor
  · intro h
    have hsteps : Steps handles (k, s) (ended (k.run handles s).1, (k.run handles s).2) := steps_run k s
    rwa [h] at hsteps
  · intro h
    have hrun (p : Kernel α ρ × RunState α) (hsteps : Steps handles p (ended result, t)) :
        p.1.run handles p.2 = (result, t) := by
      induction hsteps using Relation.ReflTransGen.head_induction_on with
      | refl => exact run_ended result t
      | head hstep _ ih => exact hstep.run_eq.trans ih
    exact hrun (k, s) h

end Kernel

/-! ## Units one after the other -/

namespace Pass

variable {α : Type} {p : Pass α} {s t u : RunState α} {i : UInt64}

/-- the body of a unit, at its start -/
def unitBody (p : Pass α) (i : UInt64) : Kernel α Unit := p.body (p.unitHandles i) p.strides

/-- the unit runs from one state to another, and completely -/
def Finishes (p : Pass α) (i : UInt64) (s t : RunState α) : Prop :=
  Kernel.Steps (p.unitHandles i).members (p.unitBody i, s) (.done (), t)

/-- the unit runs from one state to another, where it faults -/
def FaultsAt (p : Pass α) (i : UInt64) (s : RunState α) (fault : Fault) (t : RunState α) : Prop :=
  Kernel.Steps (p.unitHandles i).members (p.unitBody i, s) (.fault fault, t)

theorem runUnit_eq_ok_iff : p.runUnit i s = (.ok (), t) ↔ p.Finishes i s t := Kernel.run_eq_iff

theorem runUnit_eq_error_iff {fault : Fault} : p.runUnit i s = (.error fault, t) ↔ p.FaultsAt i s fault t :=
  Kernel.run_eq_iff

/-- some units run one after the other, each completely -/
inductive Ran (p : Pass α) : List UInt64 → RunState α → RunState α → Prop where
  | nil (s : RunState α) : Ran p [] s s
  | cons {i : UInt64} {is : List UInt64} {s t u : RunState α} (first : p.Finishes i s t) (rest : Ran p is t u) :
    Ran p (i :: is) s u

/-- runs units in the order of a list, up to the first that faults -/
def runEach (p : Pass α) : List UInt64 → RunState α → Option UnitFault × RunState α
  | [], s => (none, s)
  | i :: is, s =>
    match p.runUnit i s with
    | (.ok _, s) => p.runEach is s
    | (.error fault, s) => (some ⟨i, fault⟩, s)

theorem runEach_append (is js : List UInt64) (s : RunState α) :
    p.runEach (is ++ js) s = match p.runEach is s with
      | (none, s) => p.runEach js s
      | (some f, s) => (some f, s) := by
  induction is generalizing s with
  | nil => rfl
  | cons i is ih =>
    rw [List.cons_append, runEach, runEach]
    split
    · exact ih _
    · rfl

/-- units that run in an order end without a fault exactly when each finishes -/
theorem runEach_eq_none_iff {is : List UInt64} : p.runEach is s = (none, u) ↔ p.Ran is s u := by
  induction is generalizing s with
  | nil =>
    constructor
    · intro h
      obtain rfl : s = u := congrArg Prod.snd h
      exact .nil s
    · intro h
      cases h
      rfl
  | cons i is ih =>
    rw [runEach]
    constructor
    · intro h
      split at h
      · next t hunit => exact .cons (runUnit_eq_ok_iff.1 hunit) (ih.1 h)
      · cases h
    · intro h
      cases h with
      | cons first rest =>
        rw [runUnit_eq_ok_iff.2 first]
        exact ih.2 rest

/-- units that run in an order end at a fault exactly when those before one of them finish and that one faults -/
theorem runEach_eq_some_iff {is : List UInt64} {f : UnitFault} : p.runEach is s = (some f, u) ↔
    ∃ before after t, is = before ++ f.index :: after ∧ p.Ran before s t ∧ p.FaultsAt f.index t f.fault u := by
  constructor
  · intro h
    induction is generalizing s with
    | nil => cases h
    | cons i is ih =>
      rw [runEach] at h
      split at h
      · next t hunit =>
        obtain ⟨before, after, t', rfl, hran, hfault⟩ := ih h
        exact ⟨i :: before, after, t', rfl, .cons (runUnit_eq_ok_iff.1 hunit) hran, hfault⟩
      · next fault t hunit =>
        cases h
        exact ⟨[], is, s, rfl, .nil s, runUnit_eq_error_iff.1 hunit⟩
  · rintro ⟨before, after, t, rfl, hran, hfault⟩
    rw [runEach_append, runEach_eq_none_iff.2 hran]
    simp only [runEach, runUnit_eq_error_iff.2 hfault]

end Pass

end Stencil
