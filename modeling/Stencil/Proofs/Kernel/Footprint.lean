/-
What a body can see and change. A body run with some handles depends on the cells only through the positions that its
handles reach, and changes only positions that they may write.

- `run_agree`: from states that agree on the reached positions, a body ends in the same way and in states that agree
  on them again;
- `run_frame`: a position that no handle writes keeps its value;
- `run_bind`: a body followed by another runs the second from where the first ends.
-/
import Mathlib.Tactic
import Stencil.Kernel.Basic

namespace Stencil

/-! ## Cells -/

namespace Cells

variable {α : Type}

/-- the value at a position of a member, if there is one -/
def value? (cells : Cells α) (m p : Nat) : Option α := (cells[m]?).bind fun data => data[p]?

theorem ext_value {c c' : Cells α} (hs : c.size = c'.size) (hv : ∀ m p, c.value? m p = c'.value? m p) : c = c' := by
  apply Array.ext hs
  intro m h1 h2
  apply Array.ext_getElem?
  intro p
  have := hv m p
  simpa [value?, Array.getElem?_eq_getElem h1, Array.getElem?_eq_getElem h2] using this

@[simp] theorem size_put (c : Cells α) (m p : Nat) (v : α) : (c.put m p v).size = c.size := by simp [put]

theorem value?_put (cells : Cells α) (m p : Nat) (v : α) (m' p' : Nat) :
    (cells.put m p v).value? m' p' =
      if m = m' ∧ p = p' then (cells.value? m p).map fun _ => v else cells.value? m' p' := by
  simp only [value?, put, Array.getElem?_modify]
  by_cases hm : m = m'
  · subst hm
    cases hc : cells[m]? with
    | none => simp
    | some data =>
      by_cases hp : p = p'
      · subst hp
        by_cases hlt : p < data.size
        · simp [hlt]
        · simp [hlt]
      · simp [hp, Array.getElem?_setIfInBounds_ne hp]
  · simp [hm]

theorem load_eq (cells : Cells α) (m : Nat) (h : Handle) :
    cells.load m h = h.index?.bind fun p => cells.value? m p := by
  unfold load value?
  cases cells[m]? with
  | none => cases h.index? <;> rfl
  | some data => rfl

/-- whether two states of the cells have the same values at some positions -/
def Agree (on : Nat → Nat → Prop) (c c' : Cells α) : Prop := ∀ m p, on m p → c.value? m p = c'.value? m p

theorem Agree.refl (on : Nat → Nat → Prop) (c : Cells α) : Agree on c c := fun _ _ _ => rfl

theorem Agree.put {on : Nat → Nat → Prop} {c c' : Cells α} (h : Agree on c c') {m p : Nat} (hmp : on m p) (v : α) :
    Agree on (c.put m p v) (c'.put m p v) := by
  intro m' p' ho
  rw [value?_put, value?_put, h m p hmp, h m' p' ho]

end Cells

/-! ## Footprints -/

/-- whether a handle, moved to some offset, gives access to a position of a member -/
def Reaches (handles : List Handle) (m p : Nat) : Prop :=
  ∃ h offset, handles[m]? = some h ∧ (h.moveTo offset).index? = some p

/-- whether a handle, moved to some offset, may write a position of a member -/
def Writes (handles : List Handle) (m p : Nat) : Prop :=
  ∃ h offset, handles[m]? = some h ∧ (h.moveTo offset).writeIndex? = some p

theorem Handle.index?_of_writeIndex? {h : Handle} {p : Nat} (hp : h.writeIndex? = some p) : h.index? = some p := by
  unfold writeIndex? at hp
  split at hp
  · cases hp
  · exact hp

theorem Writes.reaches {handles : List Handle} {m p : Nat} (h : Writes handles m p) : Reaches handles m p := by
  obtain ⟨g, offset, hg, hp⟩ := h
  exact ⟨g, offset, hg, Handle.index?_of_writeIndex? hp⟩

/-! ## Running a body -/

namespace Kernel

variable {α ρ σ : Type} {handles : List Handle}

theorem run_bind (k : Kernel α ρ) (f : ρ → Kernel α σ) (s : RunState α) :
    (k.bind f).run handles s = match k.run handles s with
      | (.ok r, s) => (f r).run handles s
      | (.error e, s) => (.error e, s) := by
  induction k generalizing s with
  | done _ => rfl
  | fault _ => rfl
  | load m o next ih => exact ih _ s
  | store m o v next ih =>
    simp only [bind, run]
    split
    · exact ih _ _
    · exact ih _ _
  | emit row next ih => exact ih () _

theorem load_agree {c c' : Cells α} (h : Cells.Agree (Reaches handles) c c') (m : Nat) (o : Int64) :
    ((handles[m]?).bind fun g => c.load m (g.moveTo o)) = (handles[m]?).bind fun g => c'.load m (g.moveTo o) := by
  cases hg : handles[m]? with
  | none => rfl
  | some g =>
    simp only [Option.bind_some, Cells.load_eq]
    cases hi : (g.moveTo o).index? with
    | none => rfl
    | some p => exact h m p ⟨g, o, hg, hi⟩

/-- **A body sees only what its handles reach.** -/
theorem run_agree (k : Kernel α ρ) {s t : RunState α} (h : Cells.Agree (Reaches handles) s.cells t.cells) :
    (k.run handles s).1 = (k.run handles t).1 ∧
      Cells.Agree (Reaches handles) (k.run handles s).2.cells (k.run handles t).2.cells := by
  induction k generalizing s t with
  | done _ => exact ⟨rfl, h⟩
  | fault _ => exact ⟨rfl, h⟩
  | load m o next ih =>
    simp only [run, load_agree h m o]
    exact ih _ h
  | store m o v next ih =>
    simp only [run]
    split
    · next i hi =>
      obtain ⟨g, hg, hi⟩ := Option.bind_eq_some_iff.1 hi
      exact ih true (h.put (Writes.reaches ⟨g, o, hg, hi⟩) v)
    · exact ih false h
  | emit row next ih => exact ih () h

/-- **A body changes only what its handles may write.** -/
theorem run_frame (k : Kernel α ρ) (s : RunState α) {m p : Nat} (h : ¬ Writes handles m p) :
    (k.run handles s).2.cells.value? m p = s.cells.value? m p := by
  induction k generalizing s with
  | done _ => rfl
  | fault _ => rfl
  | load m o next ih => exact ih _ s
  | store m' o v next ih =>
    simp only [run]
    split
    · next i hi =>
      obtain ⟨g, hg, hi⟩ := Option.bind_eq_some_iff.1 hi
      rw [ih, Cells.value?_put, if_neg]
      rintro ⟨rfl, rfl⟩
      exact h ⟨g, o, hg, hi⟩
    · exact ih _ s
  | emit row next ih => exact ih () _

theorem size_run (k : Kernel α ρ) (s : RunState α) : (k.run handles s).2.cells.size = s.cells.size := by
  induction k generalizing s with
  | done _ => rfl
  | fault _ => rfl
  | load m o next ih => exact ih _ s
  | store m o v next ih =>
    simp only [run]
    split
    · rw [ih]
      exact Cells.size_put _ _ _ _
    · exact ih _ s
  | emit row next ih => exact ih () _

theorem isSome_value?_run (k : Kernel α ρ) (s : RunState α) (m p : Nat) :
    ((k.run handles s).2.cells.value? m p).isSome = (s.cells.value? m p).isSome := by
  induction k generalizing s with
  | done _ => rfl
  | fault _ => rfl
  | load m' o next ih => exact ih _ s
  | store m' o v next ih =>
    simp only [run]
    split
    · rw [ih, Cells.value?_put]
      split
      · next h => rw [← h.1, ← h.2, Option.isSome_map]
      · rfl
    · exact ih _ s
  | emit row next ih => exact ih () _

end Kernel

end Stencil
