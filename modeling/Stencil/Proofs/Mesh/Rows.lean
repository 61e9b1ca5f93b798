/-
Rows of a table through handles. The view of a table, moved along its rows, gives a handle to the start of a row; the
slots of the row follow along the other axis. A reduction over a row reads the entries of the table there.

- `view_eq_ok`: the view of a table with a row, and how it is laid out;
- `index?_slot`: where a slot of a row stands;
- `entryUnder_after`: what a reduction selects at a slot.
-/
import Mathlib.Tactic
import Stencil.Proofs.Mesh.Cells
import Stencil.Proofs.Mesh.Tables
import Stencil.Proofs.Sweep.Checking

namespace Stencil

/-- the handle of a view with the strides of the view, as the only member of a bundle -/
def View.center (v : View) : Bundle (Handle × DimMap Int64) := .member (v.origin, v.strides)

namespace Connectivity

/-- the entry of a table under the first handle -/
def entryUnder (t : Connectivity) (p : Bundle Handle) : Except Fault Int32 := (p.handle 0).read t.data

variable {t : Connectivity} {row slot : Dim} {storage : Storage} {v : View} {r j : Nat}

theorem maxDegree_le (hrows : 0 < t.rows) : t.maxDegree ≤ t.data.size := by
  rw [t.size_eq]
  exact Nat.le_mul_of_pos_left _ hrows

theorem toNat_degree (hrows : 0 < t.rows) (hsize : t.data.size ≤ signedMax) :
    (clamp t.maxDegree).toNat = t.maxDegree := by
  have hle := maxDegree_le hrows
  have hword : signedMax ≤ wordMax := by decide
  exact toNat_clamp_of_le (by omega)

theorem toNat_rows (hslots : 0 < t.maxDegree) (hsize : t.data.size ≤ signedMax) : (clamp t.rows).toNat = t.rows := by
  have hle : t.rows ≤ t.data.size := by
    rw [t.size_eq]
    exact Nat.le_mul_of_pos_right _ hslots
  have hword : signedMax ≤ wordMax := by decide
  exact toNat_clamp_of_le (by omega)

/-- the view of a table with a row -/
theorem view_eq_ok (hrows : 0 < t.rows) (hsize : t.data.size ≤ signedMax) (hne : row ≠ slot) (storage : Storage) :
    ∃ v, t.view row slot storage = .ok v ∧ v.RowMajor [(row, clamp t.rows), (slot, clamp t.maxDegree)] := by
  have hdegree := toNat_degree hrows hsize
  have hle := maxDegree_le hrows
  have hvolume : (clamp t.rows).toNat * (clamp t.maxDegree).toNat ≤ t.data.size := by
    rw [hdegree, t.size_eq, toNat_clamp]
    exact Nat.mul_le_mul_right _ (min_le_left _ _)
  have hword : signedMax ≤ wordMax := by decide
  obtain ⟨resolved, hresolve, hspan⟩ := Layout.resolve_columns hne (n := clamp t.rows) (m := clamp t.maxDegree)
    (by omega) (by omega)
  obtain ⟨hview, hrowMajor⟩ := View.ofLayout_rowMajor hresolve (hspan ▸ hvolume) .readOnly storage
  exact ⟨_, hview, hrowMajor⟩

theorem keys_strides (h : v.RowMajor [(row, clamp t.rows), (slot, clamp t.maxDegree)]) :
    v.strides.keys = [row, slot] := by
  rw [DimMap.keys, h.strides]
  rfl

theorem shifted_row (h : v.RowMajor [(row, clamp t.rows), (slot, clamp t.maxDegree)]) (r : Nat) :
    v.shifted row (Int64.ofNat r) = .ok (v.moved row (Int64.ofNat r)) := by
  refine View.shifted_eq_moved ?_ _
  rw [keys_strides h]
  exact List.mem_cons_self

theorem carries_slot (h : v.RowMajor [(row, clamp t.rows), (slot, clamp t.maxDegree)]) (r : Nat) :
    ((v.moved row (Int64.ofNat r)).center.map Prod.snd).carries slot = true := by
  have hslot : v.strides.contains slot = true := by
    rw [DimMap.contains_iff, keys_strides h]
    exact List.mem_cons_of_mem _ List.mem_cons_self
  rw [Bundle.carries_eq_any, Bundle.members_map]
  exact List.any_eq_true.mpr ⟨_, List.mem_cons_self, hslot⟩

section slots

variable (h : v.RowMajor [(row, clamp t.rows), (slot, clamp t.maxDegree)]) (hsize : t.data.size ≤ signedMax)
  (hr : r < t.rows) (hj : j < t.maxDegree)

include h hsize hr hj

/-- a slot stands where the table has it -/
theorem index?_slot : ((v.moved row (Int64.ofNat r)).origin.shiftBy (v.strides.stepOf slot) (Int64.ofNat j)).index? =
    some (r * t.maxDegree + j) := by
  have hrows := toNat_rows (Nat.zero_lt_of_lt hj) hsize
  have hdegree := toNat_degree (Nat.zero_lt_of_lt hr) hsize
  have hne : row ≠ slot := by
    have hnodup := h.nodup
    simp only [List.map_cons, List.map_nil, List.nodup_cons, List.mem_singleton] at hnodup
    exact hnodup.1
  obtain ⟨x, -, hxr, hxs, hposition⟩ := View.exists_coordinates hne (n := clamp t.rows) (m := clamp t.maxDegree)
    (hrows.symm ▸ hr) (hdegree.symm ▸ hj)
  have hpath : [(v.strides.stepOf row, Int64.ofNat r), (v.strides.stepOf slot, Int64.ofNat j)] =
      v.cellMoves [(row, clamp t.rows), (slot, clamp t.maxDegree)] x := by
    simp only [View.cellMoves, List.map_cons, List.map_nil, toInt64_eq_ofNat, hxr, hxs]
  have hmoved : (v.moved row (Int64.ofNat r)).origin.shiftBy (v.strides.stepOf slot) (Int64.ofNat j) =
      v.origin.moveTo (Int64.ofNat (r * t.maxDegree + j)) := by
    rw [hdegree] at hposition
    rw [← hposition, ← h.shiftAll_cell (show v.origin.offset = 0 from h.start) (List.Perm.of_eq hpath)]
    rfl
  have hlt : r * t.maxDegree + j < t.data.size := t.size_eq ▸ Field.column_lt hr hj
  have hroom := h.room
  simp only [Layout.volume_cons, Layout.volume_nil, Nat.mul_one, hrows, hdegree, ← t.size_eq] at hroom
  rw [hmoved]
  exact Handle.index?_unguarded rfl (hlt.trans_le hroom) (by omega)

/-- what a reduction over a row selects at a slot -/
theorem entryUnder_after :
    t.entryUnder (((v.moved row (Int64.ofNat r)).center.along slot).after j) = .ok (t.entry r j) :=
  Handle.read_eq_ok (index?_slot h hsize hr hj) (getElem?_entry hr hj)

end slots

end Connectivity

end Stencil
