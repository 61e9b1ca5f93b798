/-
Where moves of a handle lead. The true offset of moves is their sum over the integers; a handle moves in the arithmetic
of words instead, which wraps. So an unguarded handle reaches the element at the signed word that its true offset is
congruent to, and none if there is no such element.

- `offset_shiftAll`: moves wrap once, at the end, whatever the offsets on the way;
- `index?_shiftAll_iff`: the element that an unguarded handle reaches after moves;
- `reached_after_moves`: what it reads, and when that is what the true offset names.
-/
import Mathlib.Tactic
import Stencil.Proofs.Access.RowMajor

namespace Stencil

namespace Handle

variable {h : Handle} {moves : List (Int64 × Int64)} {p : Nat}

/-! ## Moves -/

/-- the offset that moves lead to, over the integers -/
def trueOffset (h : Handle) (moves : List (Int64 × Int64)) : Int :=
  h.offset.toInt + (moves.map fun m => m.1.toInt * m.2.toInt).sum

theorem trueOffset_append (h : Handle) (moves : List (Int64 × Int64)) (m : Int64 × Int64) :
    h.trueOffset (moves ++ [m]) = h.trueOffset moves + m.1.toInt * m.2.toInt := by
  simp [trueOffset, Int.add_assoc]

/-- **Moves wrap**: they lead to the word that the true offset is congruent to. -/
theorem offset_shiftAll (h : Handle) (moves : List (Int64 × Int64)) :
    (h.shiftAll moves).offset = .ofInt (h.trueOffset moves) := by
  induction moves using List.reverseRecOn with
  | nil => simp [shiftAll, trueOffset]
  | append_singleton moves m ih =>
    have hlast : h.shiftAll (moves ++ [m]) = (h.shiftAll moves).shiftBy m.1 m.2 := by simp [shiftAll]
    rw [hlast, trueOffset_append, Int64.ofInt_add, Int64.ofInt_mul, Int64.ofInt_toInt, Int64.ofInt_toInt, ← ih]
    rfl

theorem toInt_offset_shiftAll (h : Handle) (moves : List (Int64 × Int64)) :
    (h.shiftAll moves).offset.toInt = (h.trueOffset moves).bmod (2 ^ 64) := by
  rw [offset_shiftAll, Int64.toInt_ofInt]
  rfl

/-! ## Elements reached -/

theorem guard_shiftAll (h : Handle) (moves : List (Int64 × Int64)) : (h.shiftAll moves).guard = h.guard := by
  obtain ⟨offset, ho⟩ := h.shiftAll_eq_moveTo moves
  rw [ho, moveTo]

theorem length_shiftAll (h : Handle) (moves : List (Int64 × Int64)) : (h.shiftAll moves).length = h.length := by
  obtain ⟨offset, ho⟩ := h.shiftAll_eq_moveTo moves
  rw [ho, moveTo]

theorem index?_eq_some_iff (hguard : h.guard = none) :
    h.index? = some p ↔ p < h.length ∧ (p : Int) = h.offset.toInt := by
  have hadmitted : h.admitted = true := by simp only [admitted, hguard]
  rw [index?, if_pos hadmitted, position?]
  split_ifs with hin
  · rw [Option.some.injEq]
    omega
  · simp only [false_iff]
    omega

/-- **The element that an unguarded handle reaches** after moves stands at the signed word that the true offset is
congruent to. -/
theorem index?_shiftAll_iff (hguard : h.guard = none) :
    (h.shiftAll moves).index? = some p ↔ p < h.length ∧ (p : Int) = (h.trueOffset moves).bmod (2 ^ 64) := by
  rw [index?_eq_some_iff ((h.guard_shiftAll moves).trans hguard), length_shiftAll, toInt_offset_shiftAll]

/-- the words that are congruent to a position: the position itself, and what is apart from it by the word range -/
theorem eq_bmod_iff {n : Int} : (p : Int) = n.bmod (2 ^ 64) ↔ p ≤ signedMax ∧ ∃ k : Int, n = p + k * 2 ^ 64 := by
  have hlow := Int.le_bmod (x := n) (m := 2 ^ 64) (by decide)
  have hhigh := Int.bmod_lt (x := n) (m := 2 ^ 64) (by decide)
  have hsigned : (signedMax : Int) = 2 ^ 63 - 1 := rfl
  constructor
  · intro hp
    rw [Int.bmod_def] at hp hlow hhigh
    exact ⟨by omega, (n - p) / 2 ^ 64, by omega⟩
  · rintro ⟨hle, k, rfl⟩
    rw [Int.bmod_def]
    omega

theorem bmod_eq_self_iff {n : Int} : n.bmod (2 ^ 64) = n ↔ -2 ^ 63 ≤ n ∧ n < 2 ^ 63 := by
  have hlow := Int.le_bmod (x := n) (m := 2 ^ 64) (by decide)
  have hhigh := Int.bmod_lt (x := n) (m := 2 ^ 64) (by decide)
  constructor
  · intro h
    omega
  · intro h
    exact Int.bmod_eq_of_le (by omega) (by omega)

/-- whether a handle after moves reaches an element exactly if its true offset lies in the buffer, and then the element
there -/
def ReachesTrueOffset (h : Handle) (moves : List (Int64 × Int64)) : Prop :=
  ∀ p : Nat, (h.shiftAll moves).index? = some p ↔ p < h.length ∧ (p : Int) = h.trueOffset moves

/-- **When moves lead where the true offset says**: if it is a signed word, whatever the offsets on the way, or if
neither it nor the word that it is congruent to lies in the buffer. -/
theorem reachesTrueOffset_iff (hguard : h.guard = none) :
    h.ReachesTrueOffset moves ↔ (-2 ^ 63 ≤ h.trueOffset moves ∧ h.trueOffset moves < 2 ^ 63) ∨
      ∀ p : Nat, p < h.length → (p : Int) ≠ h.trueOffset moves ∧ (p : Int) ≠ (h.trueOffset moves).bmod (2 ^ 64) := by
  rw [← bmod_eq_self_iff]
  simp only [ReachesTrueOffset, index?_shiftAll_iff hguard]
  constructor
  · intro hlaw
    by_cases hsame : (h.trueOffset moves).bmod (2 ^ 64) = h.trueOffset moves
    · exact Or.inl hsame
    · -- the word and the true offset differ, so if one of them is in the buffer the other tells otherwise
      refine Or.inr fun p hp => ⟨?_, ?_⟩
      · intro htrue
        exact hsame (((hlaw p).2 ⟨hp, htrue⟩).2.symm.trans htrue)
      · intro hword
        exact hsame (hword.symm.trans ((hlaw p).1 ⟨hp, hword⟩).2)
  · rintro (hsame | hout) p
    · rw [hsame]
    · constructor
      · rintro ⟨hp, hword⟩
        exact absurd hword (hout p hp).2
      · rintro ⟨hp, htrue⟩
        exact absurd htrue (hout p hp).1

/-- **What is read after moves.** An unguarded handle, one that reads at any offset or the origin of a view, moved by
any strides and counts, reads a value exactly if the signed word that its true offset is congruent to lies in the
buffer, and then the value there. This is what the true offset names exactly if that is a signed word or neither it nor
the word lies in the buffer. So a handle that was moved out of its buffer reaches an element exactly if the position of
the element is a signed word and the true offset is apart from it by a multiple of the word range. -/
theorem reached_after_moves (h : Handle) (hguard : h.guard = none) (moves : List (Int64 × Int64)) :
    (∀ {α : Type} (data : Array α), data.size = h.length → ∀ x, (h.shiftAll moves).read? data = some x ↔
      ∃ p : Nat, (p : Int) = (h.trueOffset moves).bmod (2 ^ 64) ∧ data[p]? = some x) ∧
    (h.ReachesTrueOffset moves ↔ (-2 ^ 63 ≤ h.trueOffset moves ∧ h.trueOffset moves < 2 ^ 63) ∨
      ∀ p : Nat, p < h.length → (p : Int) ≠ h.trueOffset moves ∧ (p : Int) ≠ (h.trueOffset moves).bmod (2 ^ 64)) ∧
    (¬ (0 ≤ h.trueOffset moves ∧ h.trueOffset moves < h.length) → ∀ p : Nat,
      (h.shiftAll moves).index? = some p ↔
        p < h.length ∧ p ≤ signedMax ∧ ∃ k : Int, k ≠ 0 ∧ h.trueOffset moves = p + k * 2 ^ 64) := by
  refine ⟨fun data hdata x => ?_, reachesTrueOffset_iff hguard, fun hout p => ?_⟩
  · simp only [read?, Option.bind_eq_some_iff, index?_shiftAll_iff hguard, ← hdata]
    constructor
    · rintro ⟨p, ⟨-, hword⟩, hx⟩
      exact ⟨p, hword, hx⟩
    · rintro ⟨p, hword, hx⟩
      exact ⟨p, ⟨(Array.getElem?_eq_some_iff.1 hx).1, hword⟩, hx⟩
  · rw [index?_shiftAll_iff hguard, eq_bmod_iff]
    refine and_congr_right fun hp => and_congr_right fun _ => exists_congr fun k => ?_
    refine ⟨fun htrue => ⟨?_, htrue⟩, And.right⟩
    rintro rfl
    exact hout (by omega)

/-- two steps of half the signed range out and two back, which leave the range on the way, then two steps of one: this
is the last of three elements -/
theorem reached_after_moves_detour :
    let h := (View.ofElements .writable 3 .host).origin
    let moves : List (Int64 × Int64) := [(0x4000000000000000, 2), (0x4000000000000000, -2), (1, 2)]
    h.guard = none ∧ h.trueOffset moves = 2 ∧ (h.shiftAll moves).read? #[7, 8, 9] = some 9 ∧
      h.ReachesTrueOffset moves := by
  intro h moves
  have htrue : h.trueOffset moves = 2 := by decide +kernel
  obtain ⟨hread, hlaw, -⟩ := reached_after_moves h rfl moves
  exact ⟨rfl, htrue, (hread #[7, 8, 9] rfl 9).2 ⟨2, by rw [htrue]; rfl, rfl⟩, hlaw.2 (Or.inl (by omega))⟩

/-- four steps of a quarter of the word range lead past a buffer of three elements by the whole range, and are read as
if they led nowhere -/
theorem past_end_reached :
    let h := reading 3 0
    let moves : List (Int64 × Int64) := [(0x4000000000000000, 4)]
    h.guard = none ∧ h.trueOffset moves = 2 ^ 64 ∧ (h.shiftAll moves).read? #[7, 8, 9] = some 7 ∧
      ¬ h.ReachesTrueOffset moves := by
  intro h moves
  have hreached : (h.shiftAll moves).index? = some 0 := by decide +kernel
  have htrue : h.trueOffset moves = 2 ^ 64 := by decide +kernel
  refine ⟨rfl, htrue, by decide +kernel, fun hlaw => ?_⟩
  have hzero := ((hlaw 0).1 hreached).2
  rw [htrue] at hzero
  exact absurd hzero (by decide)

end Handle

end Stencil
