/-
What bodies ensure. A body that is run with some handles ensures a postcondition if it ends without a fault in a state
that has it; loops are opened by an invariant that every step keeps.

- `Ensures.bind`: one body after the other;
- `ensures_set`, `ensures_update`: storing under a moved handle of the unit;
- `ensures_sweep`: a loop along an axis, from one invariant per offset.
-/
import Mathlib.Tactic
import Stencil.Proofs.Kernel.Footprint
import Stencil.Proofs.Sweep.Folding

namespace Stencil

namespace Kernel

variable {α ρ σ : Type} {handles : List Handle}

/-- the body ends without a fault, with a result and a state that satisfy `Q` -/
def Ensures (handles : List Handle) (k : Kernel α ρ) (s : RunState α) (Q : ρ → RunState α → Prop) : Prop :=
  ∃ r s', k.run handles s = (.ok r, s') ∧ Q r s'

variable {k : Kernel α ρ} {s : RunState α} {Q : ρ → RunState α → Prop}

theorem ensures_pure {r : ρ} (h : Q r s) : Ensures handles (pure r) s Q := ⟨r, s, rfl, h⟩

/-- one body after the other: the first ensures that the second ensures the rest -/
theorem Ensures.bind {f : ρ → Kernel α σ} {R : σ → RunState α → Prop}
    (h : Ensures handles k s fun r s' => Ensures handles (f r) s' R) : Ensures handles (k >>= f) s R := by
  obtain ⟨r, s', hr, t, s'', ht, hR⟩ := h
  refine ⟨t, s'', ?_, hR⟩
  show (k.bind f).run handles s = _
  rw [run_bind, hr]
  exact ht

theorem Ensures.mono {R : ρ → RunState α → Prop} (hk : Ensures handles k s Q) (h : ∀ r s', Q r s' → R r s') :
    Ensures handles k s R := by
  obtain ⟨r, s', hr, hq⟩ := hk
  exact ⟨r, s', hr, h r s' hq⟩

theorem ensures_lift {e : Except Fault ρ} {r : ρ} (he : e = .ok r) (h : Q r s) : Ensures handles (lift e) s Q := by
  rw [he]
  exact ensures_pure h

/-! ## Storing -/

variable {m p : Nat} {h g : Handle} {v : α}

theorem ensures_get {Q : α → RunState α → Prop} (hm : handles[m]? = some h) (hg : g = h.moveTo g.offset)
    (hi : g.index? = some p) (hv : s.cells.value? m p = some v) (hQ : Q v s) : Ensures handles (get m g) s Q := by
  refine ⟨v, s, ?_, hQ⟩
  simp only [get, run, hm, Option.bind_some, ← hg, Cells.load_eq, hi, hv]

/-- a store under a moved handle of the unit -/
theorem ensures_set {Q : Unit → RunState α → Prop} (hm : handles[m]? = some h) (hg : g = h.moveTo g.offset)
    (hi : g.writeIndex? = some p) (hQ : Q () ⟨s.cells.put m p v, s.reported⟩) : Ensures handles (set m g v) s Q := by
  refine ⟨(), _, ?_, hQ⟩
  simp only [set, run, hm, Option.bind_some, ← hg, hi]

/-- a replacement under a moved handle of the unit -/
theorem ensures_update {Q : Unit → RunState α → Prop} {f : α → α} (hm : handles[m]? = some h)
    (hg : g = h.moveTo g.offset) (hi : g.writeIndex? = some p) (hv : s.cells.value? m p = some v)
    (hQ : Q () ⟨s.cells.put m p (f v), s.reported⟩) : Ensures handles (update m g fun x => return f x) s Q := by
  refine Ensures.bind (ensures_get hm hg (Handle.index?_of_writeIndex? hi) hv ?_)
  exact ensures_set hm hg hi hQ

/-! ## Loops -/

/-- **A loop along an axis** ensures what its steps keep: the invariant `P` is indexed by the offset, and holds of the
start and of what each step makes of it. -/
theorem ensures_sweep {ι β : Type} {b : Bundle ι} {step : ι → Int64} {f : β → Bundle Handle → Kernel α β} {n : Nat}
    {place : ι → Handle} {init : β} (P : Nat → β → RunState α → Prop) (h0 : P 0 init s)
    (hstep : ∀ j < n, ∀ r s, P j r s →
      Ensures handles (f r (b.map fun i => (place i).shiftBy (step i) (Int64.ofNat j))) s (P (j + 1))) :
    Ensures handles (sweep (b.map step) f n (b.map place) init) s (P n) := by
  induction n generalizing place init s P with
  | zero => exact ensures_pure h0
  | succ n ih =>
    have hfirst := hstep 0 (Nat.succ_pos n) init s h0
    simp only [Handle.shiftBy_ofNat_zero] at hfirst
    refine Ensures.bind (hfirst.mono ?_)
    intro r s' hr
    rw [Bundle.shiftBy_map]
    refine ih (fun j => P (j + 1)) hr ?_
    intro j hj r s hP
    simp only [Handle.shiftBy_shiftBy_ofNat]
    exact hstep (j + 1) (Nat.succ_lt_succ hj) r s hP

end Kernel

end Stencil
