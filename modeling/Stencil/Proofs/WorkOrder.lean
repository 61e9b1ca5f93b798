/-
What an order of work comes to. Every piece is taken at some turn, so the pieces in the order in which they are taken are
all pieces, each once, and a buffer that workers have filled holds nothing but what they have put there.

- `exists_turn`, `perm_pieces`: every piece is taken, and none twice;
- `getElem?_filled`: the places that are filled after some turns;
- `fill_eq`: a buffer that has been filled.
-/
import Mathlib.Tactic
import Stencil.WorkOrder

namespace Stencil.WorkOrder

variable (order : WorkOrder)

theorem exists_turn {pieces p : Nat} (hp : p < pieces) : ∃ turn < pieces, order.piece pieces turn = p := by
  let take : Fin pieces → Fin pieces := fun turn => ⟨order.piece pieces turn, order.piece_lt turn.isLt⟩
  have hinj : Function.Injective take := fun i j h => Fin.ext (order.piece_inj i.isLt j.isLt (Fin.mk.inj h))
  obtain ⟨turn, hturn⟩ := Finite.surjective_of_injective hinj ⟨p, hp⟩
  exact ⟨turn, turn.isLt, Fin.mk.inj hturn⟩

theorem perm_pieces (pieces : Nat) : ((List.range pieces).map (order.piece pieces)).Perm (List.range pieces) := by
  have hnodup : ((List.range pieces).map (order.piece pieces)).Nodup :=
    List.nodup_range.map_on fun i hi j hj h => order.piece_inj (List.mem_range.1 hi) (List.mem_range.1 hj) h
  refine (List.perm_ext_iff_of_nodup hnodup List.nodup_range).2 fun p => ?_
  simp only [List.mem_map, List.mem_range]
  constructor
  · rintro ⟨turn, hturn, rfl⟩
    exact order.piece_lt hturn
  · exact order.exists_turn

/-! ## Filling a buffer -/

variable {α : Type} (x : α) {len turns i : Nat}

theorem filled_succ : order.filled len x (turns + 1) =
    (order.filled len x turns).setIfInBounds (order.piece len turns) (some x) := by
  rw [filled, List.range_succ, List.foldl_append]
  rfl

theorem size_filled : (order.filled len x turns).size = len := by
  induction turns with
  | zero => exact Array.size_replicate
  | succ turns ih => rw [filled_succ, Array.size_setIfInBounds, ih]

/-- after some turns, the places that were taken hold the value, and the others nothing yet -/
theorem getElem?_filled (hi : i < len) : (order.filled len x turns)[i]? = some (some x) ∨
    (order.filled len x turns)[i]? = some none ∧ ∀ turn < turns, order.piece len turn ≠ i := by
  induction turns with
  | zero => exact Or.inr ⟨by simp [filled, hi], fun turn hturn => absurd hturn (Nat.not_lt_zero turn)⟩
  | succ turns ih =>
    rw [filled_succ]
    by_cases htaken : order.piece len turns = i
    · have hlt : i < (order.filled len x turns).size := by rwa [size_filled]
      rw [htaken, Array.getElem?_setIfInBounds_self_of_lt hlt]
      exact Or.inl rfl
    · rw [Array.getElem?_setIfInBounds_ne htaken]
      refine ih.imp_right fun hnone => ⟨hnone.1, fun turn hturn => ?_⟩
      rcases Nat.lt_succ_iff_lt_or_eq.1 hturn with hturn | rfl
      · exact hnone.2 turn hturn
      · exact htaken

/-- **A buffer that workers have filled** holds the value everywhere. -/
theorem fill_eq (len : Nat) : order.fill len x = Array.replicate len x := by
  have hall : order.filled len x len = Array.replicate len (some x) := by
    refine Array.ext_getElem? fun i => ?_
    rcases Nat.lt_or_ge i len with hi | hi
    · rw [Array.getElem?_replicate, if_pos hi]
      refine (order.getElem?_filled x hi).resolve_right fun hnone => ?_
      obtain ⟨turn, hturn, hpiece⟩ := order.exists_turn hi
      exact hnone.2 turn hturn hpiece
    · rw [Array.getElem?_eq_none (by rwa [size_filled]), Array.getElem?_eq_none (by rwa [Array.size_replicate])]
  have hput : id (some x) = some x := rfl
  rw [fill, hall, Array.filterMap_replicate_of_some hput]

end Stencil.WorkOrder
