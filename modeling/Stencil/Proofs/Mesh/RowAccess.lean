/-
Access to the rows of a table. A row number is checked only through the bounds of its slots, two products that must be
words and must not reach past the entries. Without slots the bounds are zero, and nothing tells a row past the end from
one of the table.

- `row_eq_ok_iff`: the rows that are given, and what they hold;
- `row_eq_error_iff`: the rows that are refused, and with which fault;
- `rows_checked_iff`: access is checked in every table but those without slots.
-/
import Mathlib.Tactic
import Stencil.Proofs.Mesh.RoundTrip

namespace Stencil

namespace Connectivity

variable {t : Connectivity} {r : Nat}

/-- the fault of a row past the end: an overflow where its number or its bounds are no words, else a position outside -/
def pastEnd (t : Connectivity) (r : Nat) : Fault :=
  if r < wordMax ∧ (r + 1) * t.maxDegree ≤ wordMax then .outside
  else if r = wordMax ∧ r * t.maxDegree ≤ wordMax then .overflow .add
  else .overflow .multiply

theorem rowStart_of_le (h : r * t.maxDegree ≤ wordMax) : t.rowStart r = .ok (r * t.maxDegree) := by
  rw [rowStart, fits_eq_some.2 ⟨h, rfl⟩]

theorem rowStart_of_lt (h : wordMax < r * t.maxDegree) : t.rowStart r = .error (.overflow .multiply) := by
  rw [rowStart, fits_eq_none.2 h]

theorem row_of_pastEnd (hr : r ≤ wordMax) (hpast : t.data.size < (r + 1) * t.maxDegree ∨ r = wordMax) :
    t.row r = .error (t.pastEnd r) := by
  have hnext : (r + 1) * t.maxDegree = r * t.maxDegree + t.maxDegree := Nat.succ_mul r _
  by_cases hstart : r * t.maxDegree ≤ wordMax
  · rcases Nat.lt_or_eq_of_le hr with hlt | rfl
    · have hfits : fits (r + 1) = some (r + 1) := fits_eq_some.2 ⟨hlt, rfl⟩
      have hsize : ¬ (r + 1) * t.maxDegree ≤ t.data.size := by omega
      by_cases hstop : (r + 1) * t.maxDegree ≤ wordMax
      · rw [pastEnd, if_pos ⟨hlt, hstop⟩]
        simp only [row, rowStart_of_le hstart, hfits, rowStart_of_le hstop, hsize, if_false, bind, Except.bind]
        rfl
      · rw [pastEnd, if_neg (by omega), if_neg (by omega)]
        simp only [row, rowStart_of_le hstart, hfits, rowStart_of_lt (Nat.lt_of_not_le hstop), bind, Except.bind]
    · have hfits : fits (wordMax + 1) = none := fits_eq_none.2 (Nat.lt_succ_self _)
      rw [pastEnd, if_neg (by omega), if_pos ⟨rfl, hstart⟩]
      simp only [row, rowStart_of_le hstart, hfits, bind, Except.bind]
      rfl
  · rw [pastEnd, if_neg (by omega), if_neg (by omega)]
    simp only [row, rowStart_of_lt (Nat.lt_of_not_le hstart), bind, Except.bind]

/-- whether a row is given: one of the table, or, without slots, any but the one whose number has no successor -/
def Gives (t : Connectivity) (r : Nat) : Prop := r < t.rows ∨ (t.maxDegree = 0 ∧ r < wordMax)

theorem row_of_no_slots (hdegree : t.maxDegree = 0) (hr : r < wordMax) : t.row r = .ok [] := by
  have hstart (n : Nat) : t.rowStart n = .ok 0 := by
    rw [rowStart_of_le (by rw [hdegree, Nat.mul_zero]; exact Nat.zero_le _), hdegree, Nat.mul_zero]
  have hfits : fits (r + 1) = some (r + 1) := fits_eq_some.2 ⟨hr, rfl⟩
  have hempty : (t.data.extract 0 0).toList = [] := by
    rw [Array.extract_eq_empty_of_le (Nat.min_le_left _ _), Array.toList_empty]
  simp only [row, hstart, hfits, Nat.zero_le, if_true, bind, Except.bind, pure, Except.pure, hempty]

section words

variable (hrows : t.rows ≤ wordMax) (hsize : t.data.size ≤ wordMax)

include hrows hsize

theorem row_of_gives (h : t.Gives r) : t.row r = .ok ((List.range t.maxDegree).map (t.entry r)) := by
  rcases h with hr | ⟨hdegree, hr⟩
  · exact row_eq_ok hsize hrows hr
  · rw [row_of_no_slots hdegree hr, hdegree, List.range_zero, List.map_nil]

omit hrows hsize in
theorem row_of_not_gives (hr : r ≤ wordMax) (h : ¬ t.Gives r) : t.row r = .error (t.pastEnd r) := by
  rw [Gives, not_or, not_and, Nat.not_lt, Nat.not_lt] at h
  obtain ⟨hpast, hlast⟩ := h
  refine row_of_pastEnd hr ?_
  rcases Nat.eq_zero_or_pos t.maxDegree with hzero | hpos
  · exact Or.inr (Nat.le_antisymm hr (hlast hzero))
  · refine Or.inl ?_
    calc t.data.size = t.rows * t.maxDegree := t.size_eq
      _ ≤ r * t.maxDegree := Nat.mul_le_mul_right _ hpast
      _ < (r + 1) * t.maxDegree := Nat.mul_lt_mul_of_pos_right (Nat.lt_succ_self r) hpos

/-- **The rows that are given** hold their entries, one for each slot. -/
theorem row_eq_ok_iff (hr : r ≤ wordMax) {slots : List Int32} :
    t.row r = .ok slots ↔ t.Gives r ∧ slots = (List.range t.maxDegree).map (t.entry r) := by
  by_cases h : t.Gives r
  · rw [row_of_gives hrows hsize h]
    simp [h, eq_comm]
  · rw [row_of_not_gives hr h]
    simp [h]

/-- **The rows that are refused** are all others. -/
theorem row_eq_error_iff (hr : r ≤ wordMax) {fault : Fault} :
    t.row r = .error fault ↔ ¬ t.Gives r ∧ fault = t.pastEnd r := by
  by_cases h : t.Gives r
  · rw [row_of_gives hrows hsize h]
    simp [h]
  · rw [row_of_not_gives hr h]
    simp [h, eq_comm]

end words

/-! ## Checked tables -/

/-- tables as they are made, of sizes that are words -/
inductive Built : Connectivity → Prop
  | ofData {n d : UInt64} {data : Array Int32} {t : Connectivity} (h : ofData n.toNat d.toNat data = .ok t) : Built t
  | ofRows {rows : List (List Int32)} (hrows : rows.length ≤ wordMax) (hsize : rows.length * longest rows ≤ wordMax) :
    Built (ofRows rows)

theorem Built.words (h : t.Built) : t.rows ≤ wordMax ∧ t.data.size ≤ wordMax := by
  cases h with
  | @ofData n d data t h =>
    obtain ⟨hfits, hrows, hdegree, -⟩ := ofData_eq_ok_iff.1 h
    rw [t.size_eq, hrows, hdegree]
    exact ⟨toNat_le_wordMax n, hfits⟩
  | ofRows hrows hsize => exact ⟨hrows, (Connectivity.ofRows _).size_eq.le.trans hsize⟩

/-- access to the rows of a table is checked: a row number is refused exactly when it is past the end, and a row of the
table is given with one entry for each slot -/
structure RowsChecked (t : Connectivity) : Prop where
  refused : ∀ r : UInt64, (∃ fault, t.row r.toNat = .error fault) ↔ t.rows ≤ r.toNat
  given : ∀ r : UInt64, r.toNat < t.rows → ∃ slots, t.row r.toNat = .ok slots ∧ slots.length = t.maxDegree

theorem rowsChecked_iff (hrows : t.rows ≤ wordMax) (hsize : t.data.size ≤ wordMax) :
    t.RowsChecked ↔ ∀ r : UInt64, t.Gives r.toNat → r.toNat < t.rows := by
  constructor
  · intro h r hgives
    by_contra hpast
    obtain ⟨fault, hfault⟩ := (h.refused r).2 (Nat.le_of_not_lt hpast)
    exact ((row_eq_error_iff hrows hsize (toNat_le_wordMax r)).1 hfault).1 hgives
  · intro h
    refine ⟨fun r => ⟨?_, fun hpast => ?_⟩, fun r hr => ?_⟩
    · rintro ⟨fault, hfault⟩
      by_contra hr
      exact ((row_eq_error_iff hrows hsize (toNat_le_wordMax r)).1 hfault).1 (Or.inl (Nat.lt_of_not_le hr))
    · exact ⟨_, row_of_not_gives (toNat_le_wordMax r) fun hgives => Nat.not_le_of_lt (h r hgives) hpast⟩
    · exact ⟨_, row_of_gives hrows hsize (Or.inl hr), by rw [List.length_map, List.length_range]⟩

/-- **Access to rows.** A table that was made gives the rows that it has, each with one entry for each slot, and refuses
all others: with an overflow where the bounds are no words, otherwise as a position outside. Only without slots does it
give rows past its end, all empty: so access is checked exactly when there is a slot, or when no row number but the last
is past the end. All of this is said of a development build, where overflow is a fault; in a release build products
wrap, and row `2 ^ 63` of a table with two slots is row 0. -/
theorem rows_checked_iff (h : t.Built) :
    (t.RowsChecked ↔ 0 < t.maxDegree ∨ t.rows = wordMax) ∧
    (∀ (r : UInt64) (slots : List Int32), t.row r.toNat = .ok slots ↔
      (r.toNat < t.rows ∨ (t.maxDegree = 0 ∧ r.toNat < wordMax)) ∧
        slots = (List.range t.maxDegree).map (t.entry r.toNat)) ∧
    ∀ (r : UInt64) (fault : Fault), t.row r.toNat = .error fault ↔
      (t.rows ≤ r.toNat ∧ (0 < t.maxDegree ∨ r.toNat = wordMax)) ∧ fault = t.pastEnd r.toNat := by
  obtain ⟨hrows, hsize⟩ := h.words
  refine ⟨?_, fun r slots => row_eq_ok_iff hrows hsize (toNat_le_wordMax r), fun r fault => ?_⟩
  · rw [rowsChecked_iff hrows hsize]
    constructor
    · intro hgiven
      by_contra hnot
      rw [not_or, Nat.not_lt, Nat.le_zero] at hnot
      -- the first row past the end is given when there are no slots and its number has a successor
      have hlt : t.rows < wordMax := Nat.lt_of_le_of_ne hrows hnot.2
      have hword : (clamp t.rows).toNat = t.rows := toNat_clamp_of_le hrows
      have hpast := hgiven (clamp t.rows) (Or.inr ⟨hnot.1, hword.trans_lt hlt⟩)
      exact Nat.lt_irrefl _ (hword ▸ hpast)
    · rintro hchecked r (hr | ⟨hzero, hr⟩)
      · exact hr
      · rcases hchecked with hpos | hall
        · omega
        · exact hall.symm ▸ hr
  · rw [row_eq_error_iff hrows hsize (toNat_le_wordMax r), Gives]
    have hle := toNat_le_wordMax r
    have hgives : ¬ (r.toNat < t.rows ∨ (t.maxDegree = 0 ∧ r.toNat < wordMax)) ↔
        t.rows ≤ r.toNat ∧ (0 < t.maxDegree ∨ r.toNat = wordMax) := by omega
    rw [hgives]

/-- a table of one row with two slots: the bounds of row 2^63 are products that no word holds -/
theorem rows_checked_iff_pair :
    (⟨1, 2, #[4, 7], rfl⟩ : Connectivity).Built ∧ (⟨1, 2, #[4, 7], rfl⟩ : Connectivity).RowsChecked ∧
      (⟨1, 2, #[4, 7], rfl⟩ : Connectivity).row 9223372036854775808 = .error (.overflow .multiply) := by
  have hbuilt : (⟨1, 2, #[4, 7], rfl⟩ : Connectivity).Built :=
    have hmade : ofData (1 : UInt64).toNat (2 : UInt64).toNat #[4, 7] = .ok ⟨1, 2, #[4, 7], rfl⟩ := rfl
    .ofData hmade
  obtain ⟨hchecked, -, hrefused⟩ := rows_checked_iff hbuilt
  exact ⟨hbuilt, hchecked.2 (Or.inl (by decide)), (hrefused 9223372036854775808 _).2 ⟨by decide, by decide⟩⟩

/-- a table of one row without slots gives a second row -/
theorem row_past_end_given : ∃ t : Connectivity, ofData 1 0 #[] = .ok t ∧ t.rows ≤ 1 ∧ t.row 1 = .ok [] ∧
    ¬ t.RowsChecked := by
  refine ⟨⟨1, 0, #[], rfl⟩, rfl, by decide, by decide, fun h => ?_⟩
  obtain ⟨fault, hfault⟩ := (h.refused 1).2 (by decide)
  cases hfault

end Connectivity

end Stencil
