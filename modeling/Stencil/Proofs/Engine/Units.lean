/-
Units that do not interfere. The units of a pass write only their own elements, so each does what it would do alone
on the cells the pass started from, in whatever order the units run.

- `Pass.Settled`: the cells are what some of the units make of the first cells, each run alone;
- `runUnit_settled` (one unit), `runUnits_ends` (a stretch of units): running units that have not run yet keeps the
  cells settled, and a fault is found exactly when one of the units faults alone.
-/
import Mathlib.Tactic
import Stencil.Engine.Backend
import Stencil.Proofs.Access.Isolation
import Stencil.Proofs.Kernel.Footprint

namespace Stencil

/-! ## Settled cells -/

namespace Pass

variable {α : Type}

/-- whether no unit may write what another reaches -/
def Isolated (p : Pass α) : Prop :=
  ∀ i j, i ≠ j → ∀ m q, Writes (p.unitHandles i).members m q → ¬ Reaches (p.unitHandles j).members m q

/-- a unit run alone on some cells -/
def solo (p : Pass α) (c : Cells α) (i : UInt64) : Except Fault Unit × RunState α := p.runUnit i ⟨c, []⟩

/-- whether a unit that runs alone on some cells ends without a fault -/
def Completes (p : Pass α) (c : Cells α) (i : UInt64) : Prop := (p.solo c i).1 = .ok ()

/-- the cells `c'` are what the units that ran have made of `c`: what a unit may write has the value that the unit
gives it alone, all else is unchanged -/
structure Settled (p : Pass α) (c : Cells α) (ran : UInt64 → Prop) (c' : Cells α) : Prop where
  size : c'.size = c.size
  written : ∀ i, ran i → ∀ m q, Writes (p.unitHandles i).members m q →
    c'.value? m q = (p.solo c i).2.cells.value? m q
  kept : ∀ m q, (∀ i, ran i → ¬ Writes (p.unitHandles i).members m q) → c'.value? m q = c.value? m q

variable {p : Pass α} {c : Cells α} {ran : UInt64 → Prop}

theorem Settled.refl (p : Pass α) (c : Cells α) : p.Settled c (fun _ => False) c :=
  ⟨rfl, fun _ h => h.elim, fun _ _ _ => rfl⟩

theorem Settled.unique {c₁ c₂ : Cells α} (h₁ : p.Settled c ran c₁) (h₂ : p.Settled c ran c₂) : c₁ = c₂ := by
  apply Cells.ext_value (h₁.size.trans h₂.size.symm)
  intro m q
  by_cases hw : ∃ i, ran i ∧ Writes (p.unitHandles i).members m q
  · obtain ⟨i, hi, hw⟩ := hw
    rw [h₁.written i hi m q hw, h₂.written i hi m q hw]
  · have hn : ∀ i, ran i → ¬ Writes (p.unitHandles i).members m q := fun i hi h => hw ⟨i, hi, h⟩
    rw [h₁.kept m q hn, h₂.kept m q hn]

theorem Settled.congr {ran' : UInt64 → Prop} {c' : Cells α} (h : p.Settled c ran c') (hr : ∀ i, ran' i ↔ ran i) :
    p.Settled c ran' c' := by
  have : ran' = ran := funext fun i => propext (hr i)
  rwa [this]

theorem Settled.isSome_value? {c' : Cells α} (h : p.Settled c ran c') (m q : Nat) :
    (c'.value? m q).isSome = (c.value? m q).isSome := by
  by_cases hw : ∃ i, ran i ∧ Writes (p.unitHandles i).members m q
  · obtain ⟨i, hi, hw⟩ := hw
    rw [h.written i hi m q hw]
    exact Kernel.isSome_value?_run _ _ m q
  · rw [h.kept m q fun i hi hq => hw ⟨i, hi, hq⟩]

/-- one more unit, from settled cells: it ends as it does alone, and the cells are settled with it -/
theorem runUnit_settled (hp : p.Isolated) {s : RunState α} (hs : p.Settled c ran s.cells) {i : UInt64} (hi : ¬ ran i) :
    (p.runUnit i s).1 = (p.solo c i).1 ∧
      p.Settled c (fun j => ran j ∨ j = i) (p.runUnit i s).2.cells := by
  have agree : Cells.Agree (Reaches (p.unitHandles i).members) s.cells c := fun m q hr =>
    hs.kept m q fun j hj hw => hp j i (fun e => hi (e ▸ hj)) m q hw hr
  obtain ⟨h1, h2⟩ := Kernel.run_agree (p.body (p.unitHandles i) p.strides) (s := s) (t := ⟨c, []⟩) agree
  refine ⟨h1, (Kernel.size_run _ _).trans hs.size, ?_, ?_⟩
  · rintro j (hj | rfl) m q hw
    · have hij : j ≠ i := fun e => hi (e ▸ hj)
      refine (Kernel.run_frame _ _ fun hw' => hp j i hij m q hw hw'.reaches).trans ?_
      exact hs.written j hj m q hw
    · exact h2 m q hw.reaches
  · intro m q hn
    exact (Kernel.run_frame _ _ (hn i (Or.inr rfl))).trans (hs.kept m q fun j hj => hn j (Or.inl hj))

/-! ## A stretch of units -/

/-- how units that had not run yet have ended: the cells are settled, and either all of them completed or the fault
is that of one of them -/
def Ends (p : Pass α) (c : Cells α) (before units : UInt64 → Prop) (r : Option UnitFault × RunState α) : Prop :=
  ∃ ran, (∀ i, before i → ran i) ∧ (∀ i, ran i → before i ∨ units i) ∧ p.Settled c ran r.2.cells ∧
    ((r.1 = none ∧ ∀ i, units i → ran i ∧ p.Completes c i) ∨
      ∃ f, r.1 = some f ∧ units f.index ∧ (p.solo c f.index).1 = .error f.fault)

/-- the units of a stretch, by number -/
def Stretch (start n : Nat) (i : UInt64) : Prop := start ≤ i.toNat ∧ i.toNat < start + n

theorem toNat_succ (i : UInt64) : (i + 1).toNat = (i.toNat + 1) % 2 ^ 64 := by simp [UInt64.toNat_add]

theorem stretch_succ {start : UInt64} {n : Nat} (h : start.toNat + (n + 1) ≤ 2 ^ 64) (i : UInt64) :
    Stretch start.toNat (n + 1) i ↔ i = start ∨ Stretch (start + 1).toNat n i := by
  have hi := i.toNat_lt
  rw [← UInt64.toNat_inj]
  simp only [Stretch, toNat_succ]
  omega

theorem runUnits_ends (hp : p.Isolated) (n : Nat) (start : UInt64) (s : RunState α)
    (hn : start.toNat + n ≤ 2 ^ 64) (hs : p.Settled c ran s.cells) (hfresh : ∀ i, Stretch start.toNat n i → ¬ ran i) :
    p.Ends c ran (Stretch start.toNat n) (p.runUnits n start s) := by
  induction n generalizing start s ran with
  | zero =>
    refine ⟨ran, fun _ h => h, fun _ h => Or.inl h, hs, Or.inl ⟨rfl, ?_⟩⟩
    intro i hi
    have := hi.1
    have := hi.2
    omega
  | succ n ih =>
    have split := stretch_succ hn
    have hstart : ¬ ran start := hfresh start ((split start).2 (Or.inl rfl))
    obtain ⟨h1, h2⟩ := runUnit_settled hp hs hstart
    rw [runUnits]
    cases hr : p.runUnit start s with
    | mk result s' =>
      rw [hr] at h1 h2
      cases result with
      | error e =>
        refine ⟨_, fun _ h => Or.inl h, ?_, h2, Or.inr ⟨⟨start, e⟩, rfl, (split start).2 (Or.inl rfl), h1.symm⟩⟩
        rintro i (hi | rfl)
        · exact Or.inl hi
        · exact Or.inr ((split i).2 (Or.inl rfl))
      | ok u =>
        have hnext : (start + 1).toNat + n ≤ 2 ^ 64 := by
          have := toNat_succ start
          omega
        have hne : ¬ Stretch (start + 1).toNat n start := by
          have := toNat_succ start
          rintro ⟨ha, hb⟩
          omega
        obtain ⟨ran', ha, hb, hc, hd⟩ := ih (start + 1) s' hnext h2 (by
          rintro i hi (hr' | rfl)
          · exact hfresh i ((split i).2 (Or.inr hi)) hr'
          · exact hne hi)
        refine ⟨ran', fun i hi => ha i (Or.inl hi), ?_, hc, ?_⟩
        · intro i hi
          rcases hb i hi with (h | rfl) | h
          · exact Or.inl h
          · exact Or.inr ((split i).2 (Or.inl rfl))
          · exact Or.inr ((split i).2 (Or.inr h))
        · rcases hd with ⟨hnone, hall⟩ | ⟨f, hf, hu, he⟩
          · refine Or.inl ⟨hnone, ?_⟩
            intro i hi
            rcases (split i).1 hi with rfl | h
            · exact ⟨ha i (Or.inr rfl), h1.symm⟩
            · exact hall i h
          · exact Or.inr ⟨f, hf, (split f.index).2 (Or.inr hu), he⟩

end Pass

end Stencil
