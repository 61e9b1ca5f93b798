/-
Tables written and read. Rows of any lengths are written into a table with marks of missing neighbours behind each row.
What a table holds is read in three ways, as the slots of a row, as one of all its entries, and through the table as a
field, and these agree.

- `Encodes`, `encodes_ofRows`: a table made of rows holds each row, and nothing but marks behind it;
- `ofData_eq_ok_iff`: which table is made of given entries, so that each is made of its own;
- `Shows`, `exists_shows`: the table as a field, moved to a row and a slot in either order, reads the entry there;
- `round_trip`: the three together.
-/
import Mathlib.Tactic
import Stencil.Proofs.Mesh.Rows

namespace Stencil

namespace Connectivity

variable {t : Connectivity} {row slot : Dim} {storage : Storage} {v : View} {rows : List (List Int32)}
  {r : List Int32} {i j : Nat}

/-! ## Writing rows -/

theorem longest_eq_max? (rows : List (List Int32)) : longest rows = (rows.map List.length).max?.getD 0 := by
  have hfold : longest rows = (rows.map List.length).foldl max 0 := by rw [longest, List.foldl_map]
  rw [hfold]
  cases rows with
  | nil => rfl
  | cons r rows => rw [List.map_cons, List.foldl_cons, Nat.zero_max, List.max?_cons', Option.getD_some]

/-- a table that holds rows of any lengths, each followed by marks of missing neighbours only -/
structure Encodes (t : Connectivity) (rows : List (List Int32)) : Prop where
  count : t.rows = rows.length
  degree : t.maxDegree = (rows.map List.length).max?.getD 0
  row : ∀ i r, rows[i]? = some r → t.row i = .ok (r ++ List.replicate (t.maxDegree - r.length) skipValue)

theorem entry_ofRows (hr : rows[i]? = some r) (hj : j < (ofRows rows).maxDegree) :
    (padded (ofRows rows).maxDegree r)[j]? = some ((ofRows rows).entry i j) := by
  have hi : i < (ofRows rows).rows := (List.getElem?_eq_some_iff.1 hr).1
  rw [← getElem?_entry hi hj, getElem?_ofRows rows hj, hr, Option.bind_some]

theorem row_ofRows (hrows : rows.length ≤ wordMax) (hsize : (ofRows rows).data.size ≤ wordMax)
    (hr : rows[i]? = some r) : (ofRows rows).row i = .ok (padded (ofRows rows).maxDegree r) := by
  have hi : i < (ofRows rows).rows := (List.getElem?_eq_some_iff.1 hr).1
  have hlen : (padded (ofRows rows).maxDegree r).length = (ofRows rows).maxDegree :=
    length_padded (length_le_longest (List.mem_of_getElem? hr))
  rw [row_eq_ok hsize hrows hi]
  refine congrArg Except.ok (List.ext_getElem? fun j => ?_)
  by_cases hj : j < (ofRows rows).maxDegree
  · rw [entry_ofRows hr hj, List.getElem?_map, List.getElem?_range hj, Option.map_some]
  · rw [List.getElem?_eq_none, List.getElem?_eq_none]
    · omega
    · rw [List.length_map, List.length_range]
      omega

/-- **A table made of rows** holds them. -/
theorem encodes_ofRows (hrows : rows.length ≤ wordMax) (hsize : (ofRows rows).data.size ≤ wordMax) :
    (ofRows rows).Encodes rows where
  count := rfl
  degree := longest_eq_max? rows
  row _ _ hr := row_ofRows hrows hsize hr

/-- **A table made of entries** has these entries, and as many rows and slots as were asked for. -/
theorem ofData_eq_ok_iff {n d : Nat} {data : Array Int32} : ofData n d data = .ok t ↔
    n * d ≤ wordMax ∧ t.rows = n ∧ t.maxDegree = d ∧ t.data = data := by
  rw [ofData]
  cases hfits : fits (n * d) with
  | none =>
    have hlarge := fits_eq_none.1 hfits
    simp only [reduceCtorEq, false_iff]
    rintro ⟨hsmall, -⟩
    omega
  | some expected =>
    obtain ⟨hsmall, -⟩ := fits_eq_some.1 hfits
    obtain ⟨rows, maxDegree, entries, hsize⟩ := t
    simp only [hsmall, true_and]
    constructor
    · intro h
      split at h
      · cases h
        exact ⟨rfl, rfl, rfl⟩
      · cases h
    · rintro ⟨rfl, rfl, rfl⟩
      exact dif_pos hsize

end Connectivity

/-! ## Reading through a field -/

namespace View

/-- that a view reads a value of a buffer after moves -/
def ReadsAfter (v : View) (data : Array Int32) (moves : List (Dim × Int64)) (x : Int32) : Prop :=
  ∃ u, v.applyAll (shifts moves) = .ok u ∧ u.origin.read data = .ok x

theorem origin_moved_moved (v : View) (d e : Dim) (m n : Int64) :
    ((v.moved e n).moved d m).origin = ((v.moved d m).moved e n).origin := by
  have hoffset : ((v.moved e n).moved d m).offset = ((v.moved d m).moved e n).offset := by
    show v.offset + v.strides.stepOf e * n + v.strides.stepOf d * m =
      v.offset + v.strides.stepOf d * m + v.strides.stepOf e * n
    rw [Int64.add_assoc, Int64.add_comm (v.strides.stepOf e * n), ← Int64.add_assoc]
  rw [origin, hoffset]
  rfl

end View

namespace Connectivity

variable {t : Connectivity} {row slot : Dim} {v : View} {i j : Nat}

/-- a field that shows a table: its bounds are the rows and slots of the table, and where it is moved to a row and a
slot, in either order, it reads the entry that the row has at the slot, and the table at the place of the two -/
structure Shows (t : Connectivity) (row slot : Dim) (v : View) : Prop where
  rows : ∃ bound, v.upperBound row = .ok bound ∧ bound.toNat = t.rows
  slots : ∃ bound, v.upperBound slot = .ok bound ∧ bound.toNat = t.maxDegree
  reads : ∀ i < t.rows, ∀ j < t.maxDegree, ∃ r x, t.row i = .ok r ∧ r[j]? = some x ∧
    t.data[i * t.maxDegree + j]? = some x ∧
    v.ReadsAfter t.data [(row, .ofNat i), (slot, .ofNat j)] x ∧
    v.ReadsAfter t.data [(slot, .ofNat j), (row, .ofNat i)] x

section Field

variable (h : v.RowMajor [(row, clamp t.rows), (slot, clamp t.maxDegree)])

include h

theorem applyAll_shifts_table {moves : List (Dim × Int64)} (halong : ∀ m ∈ moves, m.1 = row ∨ m.1 = slot) :
    v.applyAll (View.shifts moves) = .ok (v.movedAll moves) := by
  refine View.applyAll_shifts fun m hm => ?_
  rw [keys_strides h]
  simpa using halong m hm

/-- moved to a row and a slot, in either order, a table reads the entry there -/
theorem readsAfter_entry (hsize : t.data.size ≤ signedMax) (hi : i < t.rows) (hj : j < t.maxDegree) :
    v.ReadsAfter t.data [(row, .ofNat i), (slot, .ofNat j)] (t.entry i j) ∧
      v.ReadsAfter t.data [(slot, .ofNat j), (row, .ofNat i)] (t.entry i j) := by
  have hread : ((v.moved row (.ofNat i)).moved slot (.ofNat j)).origin.read t.data = .ok (t.entry i j) :=
    Handle.read_eq_ok (index?_slot h hsize hi hj) (getElem?_entry hi hj)
  -- the other order sums the same offset, so that its handle is the same
  refine ⟨⟨_, applyAll_shifts_table h (by simp), hread⟩, ⟨_, applyAll_shifts_table h (by simp), ?_⟩⟩
  rw [← hread, ← View.origin_moved_moved]
  rfl

end Field

theorem upperBound_row (h : v.RowMajor [(row, clamp t.rows), (slot, clamp t.maxDegree)]) :
    v.upperBound row = .ok (clamp t.rows) := by
  rw [View.upperBound, DimMap.get?, h.bounds]
  simp [DimMap.find]

theorem upperBound_slot (h : v.RowMajor [(row, clamp t.rows), (slot, clamp t.maxDegree)]) (hne : row ≠ slot) :
    v.upperBound slot = .ok (clamp t.maxDegree) := by
  rw [View.upperBound, DimMap.get?, h.bounds]
  simp [DimMap.find, hne]

/-- **A table as a field.** A table with a row is shown by its field. -/
theorem exists_shows (hrows : t.rows ≤ wordMax) (hsize : t.data.size ≤ signedMax) (hpos : 0 < t.rows) (hne : row ≠ slot)
    (storage : Storage) : ∃ v, t.view row slot storage = .ok v ∧ t.Shows row slot v := by
  obtain ⟨v, hv, h⟩ := view_eq_ok hpos hsize hne storage
  have hword : signedMax ≤ wordMax := by decide
  have hcount : (clamp t.rows).toNat = t.rows := toNat_clamp_of_le hrows
  refine ⟨v, hv, ⟨_, upperBound_row h, hcount⟩, ⟨_, upperBound_slot h hne, toNat_degree hpos hsize⟩, ?_⟩
  intro i hi j hj
  obtain ⟨hthen, hfirst⟩ := readsAfter_entry h hsize hi hj
  refine ⟨_, t.entry i j, row_eq_ok (hsize.trans hword) hrows hi, ?_, getElem?_entry hi hj, hthen, hfirst⟩
  rw [List.getElem?_map, List.getElem?_range hj, Option.map_some]

/-- **Round trip.** Where sizes are words and the entries fit a buffer: a table made of rows holds each row, followed by
marks only, and there is room for it if the system can count its bytes. Every table has an entry for each row and slot,
and is made again of its entries. And as a field, along any two axes, a table with a row has its rows and slots as
bounds, and reads what its rows and its entries hold. -/
theorem round_trip :
    (∀ rows : List (List Int32), rows.length ≤ wordMax → rows.length * longest rows ≤ signedMax →
      (ofRows rows).Encodes rows ∧
        (rows.length * longest rows * entryBytes ≤ signedMax → collect rows = .ok (ofRows rows))) ∧
    (∀ (n d : Nat) (data : Array Int32) (t : Connectivity), ofData n d data = .ok t →
      t.rows = n ∧ t.maxDegree = d ∧ t.data = data) ∧
    ∀ t : Connectivity, t.rows ≤ wordMax → t.rows * t.maxDegree ≤ signedMax →
      t.data.size = t.rows * t.maxDegree ∧ ofData t.rows t.maxDegree t.data = .ok t ∧
      (0 < t.rows → ∀ row slot, row ≠ slot → ∀ storage,
        ∃ v, t.view row slot storage = .ok v ∧ t.Shows row slot v) := by
  have hword : signedMax ≤ wordMax := by decide
  refine ⟨fun rows hrows hfits => ?_, fun n d data t ht => (ofData_eq_ok_iff.1 ht).2, fun t hrows hfits => ?_⟩
  · have hsize : (ofRows rows).data.size = rows.length * longest rows := (ofRows rows).size_eq
    exact ⟨encodes_ofRows hrows (by omega), collect_of_room⟩
  · refine ⟨t.size_eq, ofData_eq_ok_iff.2 ⟨hfits.trans hword, rfl, rfl, rfl⟩, fun hpos row slot hne storage => ?_⟩
    exact exists_shows hrows (t.size_eq ▸ hfits) hpos hne storage

/-- rows of three, one and no neighbours -/
def ragged : List (List Int32) := [[0, 1, 2], [3], []]

/-- three rows of different lengths, as a table and as a field over it -/
theorem round_trip_ragged :
    ragged.length ≤ wordMax ∧ ragged.length * longest ragged ≤ signedMax ∧ (ofRows ragged).Encodes ragged ∧
      collect ragged = .ok (ofRows ragged) ∧
      (ofRows ragged).row 1 = .ok [3, -1, -1] ∧ Dim.horizontal ≠ .neighbor ∧
        ∃ v, (ofRows ragged).view .horizontal .neighbor .host = .ok v ∧
          (ofRows ragged).Shows .horizontal .neighbor v := by
  have hfits : ragged.length * longest ragged ≤ signedMax := by decide
  obtain ⟨hencodes, -, htable⟩ := round_trip
  obtain ⟨-, -, hshows⟩ := htable (ofRows ragged) (by decide) hfits
  obtain ⟨hragged, hmade⟩ := hencodes ragged (by decide) hfits
  exact ⟨by decide, hfits, hragged, hmade (by decide), hragged.row 1 [3] rfl, by decide,
    hshows (by decide) .horizontal .neighbor (by decide) .host⟩

end Connectivity

end Stencil
