/-
Fields as stores. A field has one place for each element and level. What is set at a place is found there until the place
is set again, and other places keep what they had. The views of a field lead to the same places: a handle that a view
leads to an element and a level reads what the field has there, and writes what setting the place would. A field that
is made of a function has at each place what the function gave there, in the one call for that place.

- `Made.whole`: every field has exactly one entry for each place;
- `Whole.get_set`: a place that is set and all others;
- `RowMajor.index?_of_leadsTo`: where all the ways of a view to an element and a level lead;
- `ofFnM_of_room`: the calls of a function, in the order of the data;
- `store_spec`: the field as a store, through its own operations, through views and from a function.
-/
import Mathlib.Tactic
import Stencil.Proofs.Access.Shifting
import Stencil.Proofs.Mesh.Cells
import Stencil.Proofs.Mesh.Direct
import Stencil.Proofs.Mesh.Tables

namespace Stencil

open Layout

namespace Field

variable {α : Type} {f f' : Field α} {h k i j : UInt64} {size : Nat}

/-! ## Room -/

theorem room_of_fits (hword : h.toNat * k.toNat ≤ wordMax) (hbytes : h.toNat * k.toNat * size ≤ signedMax) :
    room h k size = .ok () := by
  have hfits := fits_eq_some.2 ⟨hword, rfl⟩
  simp only [room, product, hfits, Buffer.reserve, hbytes, if_true, bind, Except.bind]

theorem room_of_overflow (hword : wordMax < h.toNat * k.toNat) : room h k size = .error (.overflow .multiply) := by
  have hfits := fits_eq_none.2 hword
  simp only [room, product, hfits, bind, Except.bind]

theorem room_of_capacity (hword : h.toNat * k.toNat ≤ wordMax) (hbytes : signedMax < h.toNat * k.toNat * size) :
    room h k size = .error .capacity := by
  have hfits := fits_eq_some.2 ⟨hword, rfl⟩
  have hlarge : ¬ h.toNat * k.toNat * size ≤ signedMax := by omega
  simp only [room, product, hfits, Buffer.reserve, hlarge, if_false, bind, Except.bind]

theorem room_eq_ok_iff :
    room h k size = .ok () ↔ h.toNat * k.toNat ≤ wordMax ∧ h.toNat * k.toNat * size ≤ signedMax := by
  refine ⟨fun hroom => ?_, fun hfits => room_of_fits hfits.1 hfits.2⟩
  by_contra hnot
  rcases Nat.lt_or_ge wordMax (h.toNat * k.toNat) with hlarge | hword
  · cases (room_of_overflow hlarge).symm.trans hroom
  · cases (room_of_capacity hword (by omega)).symm.trans hroom

/-! ## Calls -/

/-- the places of a field of `h` elements with `k` levels each, in the order of the data -/
def places (h k : Nat) : List (Nat × Nat) := List.range h ×ˢ List.range k

theorem mem_places {h k i j : Nat} : (i, j) ∈ places h k ↔ i < h ∧ j < k := by
  rw [places, List.mem_product, List.mem_range, List.mem_range]

theorem length_places (h k : Nat) : (places h k).length = h * k := by
  rw [places, List.length_product, List.length_range, List.length_range]

theorem pairwise_places (h k : Nat) : (places h k).Pairwise (Prod.Lex (· < ·) (· < ·)) := by
  refine List.pairwise_flatMap.2 ⟨fun i _ => ?_, ?_⟩
  · exact List.pairwise_map.2 (List.pairwise_lt_range.imp fun hlt => .right i hlt)
  · refine List.pairwise_lt_range.imp fun {i i'} hlt => ?_
    intro a ha b hb
    obtain ⟨j, -, rfl⟩ := List.mem_map.1 ha
    obtain ⟨j', -, rfl⟩ := List.mem_map.1 hb
    exact .left j j' hlt

theorem getElem?_places {h k i j : Nat} (hi : i < h) (hj : j < k) : (places h k)[i * k + j]? = some (i, j) := by
  have hrows : ∀ r ∈ (List.range h).map fun i => (List.range k).map (Prod.mk i), r.length = k := by
    simp only [List.forall_mem_map, List.length_map, List.length_range, implies_true]
  have hflat : places h k = ((List.range h).map fun i => (List.range k).map (Prod.mk i)).flatten := List.flatMap_def
  rw [hflat, getElem?_flatten_of_length hrows hj]
  simp [hi, hj]

section calls

variable {m : Type → Type} [Monad m] [LawfulMonad m]

/-- results that are added to the data in nested loops are those of calls at one place after the other -/
theorem foldlM_push_eq (h k : Nat) (g : Nat → Nat → m α) :
    (List.range h).foldlM (fun data i =>
      (List.range k).foldlM (fun data j => do return data.push (← g i j)) data) #[] =
      List.toArray <$> (places h k).mapM fun c => g c.1 c.2 := by
  have hnest (rows : List Nat) (data : Array α) :
      rows.foldlM (fun data i => (List.range k).foldlM (fun data j => data.push <$> g i j) data) data =
        (rows ×ˢ List.range k).foldlM (fun data c => data.push <$> g c.1 c.2) data := by
    induction rows generalizing data with
    | nil => rfl
    | cons i rows ih =>
      rw [List.product_cons, List.foldlM_append, List.foldlM_map, List.foldlM_cons]
      simp only [ih]
  simp only [bind_pure_comp]
  rw [hnest, ← List.mapM_toArray, Array.mapM_eq_foldlM, List.foldlM_toArray, places]

/-- **The calls of a function** that a field is made of: with room for the data, one at each place in the order of the
data. -/
theorem ofFnM_of_room (hroom : room h k size = .ok ()) (g : Nat → Nat → m α) :
    ofFnM size h k g = do
      let values ← (places h.toNat k.toNat).mapM fun c => g c.1 c.2
      return .ok ⟨h, k, values.toArray⟩ := by
  rw [ofFnM, hroom, foldlM_push_eq]
  simp only [map_eq_pure_bind, bind_assoc, pure_bind]

omit [LawfulMonad m] in
theorem ofFnM_of_no_room {e : Fault} (hroom : room h k size = .error e) (g : Nat → Nat → m α) :
    ofFnM size h k g = pure (.error e) := by
  rw [ofFnM, hroom]

end calls

theorem run_ofFnM_of_room (hroom : room h k size = .ok ()) (g : Nat → Nat → α) :
    Id.run (ofFnM size h k fun i j => pure (g i j)) =
      .ok ⟨h, k, ((places h.toNat k.toNat).map fun c => g c.1 c.2).toArray⟩ := by
  rw [ofFnM_of_room hroom, List.mapM_pure]
  rfl

/-! ## Fields that there are -/

/-- the fields that there are: made of one value, of a function or of data, then changed by setting places and by writing
through handles -/
inductive Made : Field α → Prop where
  | ofValue {h k : UInt64} {size : Nat} {x : α} {f : Field α} (hf : ofValue size h k x = .ok f) : Made f
  | ofFn {h k : UInt64} {size : Nat} {g : Nat → Nat → α} {f : Field α}
      (hf : Id.run (ofFnM size h k fun i j => pure (g i j)) = .ok f) : Made f
  | ofData {h k : UInt64} {data : Array α} {f : Field α} (hf : ofData h k data = .ok f) : Made f
  | set {f f' : Field α} {i j : UInt64} {x : α} (hf : f.Made) (hset : f.set i j x = .ok f') : Made f'
  | write {f : Field α} {p : Handle} {x : α} {data : Array α} (hf : f.Made) (hwrite : p.write f.data x = .ok data) :
      Made { f with data }

/-- the data has exactly one entry for each place, and a word counts them -/
structure Whole (f : Field α) : Prop where
  size : f.data.size = f.h.toNat * f.k.toNat
  word : f.h.toNat * f.k.toNat ≤ wordMax

/-- the field has the element, and the element the level -/
def Has (f : Field α) (i j : UInt64) : Prop := i < f.h ∧ j < f.k

instance (f : Field α) (i j : UInt64) : Decidable (f.Has i j) := inferInstanceAs (Decidable (_ ∧ _))

theorem Has.lt (hij : f.Has i j) : i.toNat < f.h.toNat ∧ j.toNat < f.k.toNat :=
  ⟨UInt64.lt_iff_toNat_lt.1 hij.1, UInt64.lt_iff_toNat_lt.1 hij.2⟩

theorem product_eq_ok {n : Nat} (hn : product h k = .ok n) : h.toNat * k.toNat ≤ wordMax ∧ h.toNat * k.toNat = n := by
  unfold product at hn
  split at hn
  · next hfits =>
    cases hn
    exact fits_eq_some.1 hfits
  · cases hn

theorem whole_of_ofValue {x : α} (hf : ofValue size h k x = .ok f) : f.Whole := by
  obtain ⟨n, hn, hf⟩ := exists_of_bind_eq_ok hf
  obtain ⟨data, hdata, hf⟩ := exists_of_bind_eq_ok hf
  obtain ⟨-, -, hdata⟩ := exists_of_bind_eq_ok hdata
  obtain ⟨hword, rfl⟩ := product_eq_ok hn
  cases hdata
  cases hf
  exact ⟨Array.size_replicate, hword⟩

theorem whole_of_ofData {data : Array α} (hf : ofData h k data = .ok f) : f.Whole := by
  obtain ⟨n, hn, hf⟩ := exists_of_bind_eq_ok hf
  obtain ⟨hword, rfl⟩ := product_eq_ok hn
  split at hf
  · next hsize =>
    cases hf
    exact ⟨hsize, hword⟩
  · cases hf

theorem whole_of_ofFnM {g : Nat → Nat → α} (hf : Id.run (ofFnM size h k fun i j => pure (g i j)) = .ok f) :
    f.Whole := by
  cases hroom : room h k size with
  | error e =>
    rw [ofFnM_of_no_room hroom] at hf
    cases hf
  | ok u =>
    rw [run_ofFnM_of_room hroom] at hf
    cases hf
    refine ⟨?_, (room_eq_ok_iff.1 hroom).1⟩
    rw [List.size_toArray, List.length_map, length_places]

theorem Whole.with_data (hf : f.Whole) {data : Array α} (hsize : data.size = f.data.size) :
    Whole { f with data } := ⟨hsize.trans hf.size, hf.word⟩

theorem exists_of_set_eq_ok {x : α} (hset : f.set i j x = .ok f') :
    ∃ n, f' = { f with data := f.data.setIfInBounds n x } := by
  obtain ⟨n, -, hset⟩ := exists_of_bind_eq_ok hset
  split at hset
  · cases hset
    exact ⟨n, rfl⟩
  · cases hset

theorem size_of_write_eq_ok {p : Handle} {x : α} {data data' : Array α} (hwrite : p.write data x = .ok data') :
    data'.size = data.size := by
  cases hp : p.index? with
  | none =>
    simp only [Handle.write, Handle.write?, hp] at hwrite
    cases hwrite
  | some n =>
    simp only [Handle.write, Handle.write?, hp] at hwrite
    cases hwrite
    exact Array.size_setIfInBounds

/-- **Every field is whole**: made so, and kept so by all changes. -/
theorem Made.whole (hf : f.Made) : f.Whole := by
  induction hf with
  | ofValue hf => exact whole_of_ofValue hf
  | ofFn hf => exact whole_of_ofFnM hf
  | ofData hf => exact whole_of_ofData hf
  | set _ hset ih =>
    obtain ⟨n, rfl⟩ := exists_of_set_eq_ok hset
    exact ih.with_data Array.size_setIfInBounds
  | write _ hwrite ih => exact ih.with_data (size_of_write_eq_ok hwrite)

/-! ## Setting and getting -/

theorem Whole.position_lt (hf : f.Whole) (hij : f.Has i j) : i.toNat * f.k.toNat + j.toNat < f.data.size :=
  hf.size ▸ column_lt hij.lt.1 hij.lt.2

theorem Whole.exists_get (hf : f.Whole) (hij : f.Has i j) :
    ∃ x, f.data[i.toNat * f.k.toNat + j.toNat]? = some x ∧ f.get i j = .ok x := by
  have hx := Array.getElem?_eq_getElem (hf.position_lt hij)
  exact ⟨_, hx, get_eq hf.word hij.lt.1 hij.lt.2 hx⟩

theorem Whole.set_eq (hf : f.Whole) (hij : f.Has i j) (x : α) :
    f.set i j x = .ok { f with data := f.data.setIfInBounds (i.toNat * f.k.toNat + j.toNat) x } := by
  have hlt := hf.position_lt hij
  simp only [Field.set, position_eq hf.word hij.lt.1 hij.lt.2, hlt, if_true, bind, Except.bind, pure, Except.pure]

/-- **A place that is set** gives what was set there, and all others give what they gave before. -/
theorem Whole.get_set (hf : f.Whole) (hij : f.Has i j) {x : α} (hset : f.set i j x = .ok f') {i' j' : UInt64}
    (hij' : f.Has i' j') : f'.get i' j' = if i' = i ∧ j' = j then .ok x else f.get i' j' := by
  rw [hf.set_eq hij] at hset
  cases hset
  obtain ⟨hi, hj⟩ := hij'.lt
  by_cases hsame : i' = i ∧ j' = j
  · obtain ⟨rfl, rfl⟩ := hsame
    rw [if_pos ⟨rfl, rfl⟩]
    exact get_eq hf.word hi hj (Array.getElem?_setIfInBounds_self_of_lt (hf.position_lt hij))
  · -- other places have other positions
    have hne : i.toNat * f.k.toNat + j.toNat ≠ i'.toNat * f.k.toNat + j'.toNat := by
      intro heq
      obtain ⟨hi, hj⟩ := column_inj hij.lt.2 hj heq
      exact hsame ⟨(UInt64.toNat_inj.1 hi).symm, (UInt64.toNat_inj.1 hj).symm⟩
    obtain ⟨y, hy, hget⟩ := hf.exists_get hij'
    rw [if_neg hsame, hget]
    exact get_eq hf.word hi hj ((Array.getElem?_setIfInBounds_ne hne).trans hy)

end Field

/-! ## Ways of a view to a place -/

namespace View

/-- the handles with which a view leads to an element and a level: of the view shifted there, moved there from the
origin, or moved along the levels from where the element, or the unit of the element, starts -/
inductive LeadsTo (v : View) (i j : UInt64) : Handle → Prop where
  | shifted {moves : List (Dim × Int64)} {w : View}
      (hmoves : moves.Perm [(.horizontal, i.toInt64), (.vertical, j.toInt64)])
      (hw : v.applyAll (shifts moves) = .ok w) : LeadsTo v i j w.origin
  | moved {moves : List (Dim × Int64)} (hmoves : moves.Perm [(.horizontal, i.toInt64), (.vertical, j.toInt64)]) :
      LeadsTo v i j (v.origin.shiftAll (v.strides.path moves))
  | element : LeadsTo v i j ((v.elementOrigin .horizontal i).shiftBy (v.strides.stepOf .vertical) j.toInt64)
  | unit : LeadsTo v i j
      ((v.share.unitOrigin ⟨.horizontal, i⟩).shiftBy (v.strides.stepOf .vertical) j.toInt64)

variable {v w : View} {h k i j : UInt64} {p : Handle} {moves : List (Dim × Int64)}

theorem origin_movedAll (v : View) (moves : List (Dim × Int64)) :
    (v.movedAll moves).origin = v.origin.shiftAll (v.strides.path moves) := by
  rw [Handle.shiftAll_path, origin, offset_movedAll, access_movedAll, length_movedAll]
  rfl

theorem RowMajor.applyAll_shifts (hv : v.RowMajor [(.horizontal, h), (.vertical, k)])
    (hmoves : moves.Perm [(.horizontal, i.toInt64), (.vertical, j.toInt64)]) :
    v.applyAll (shifts moves) = .ok (v.movedAll moves) := by
  have hkeys : v.strides.keys = [.horizontal, .vertical] := by simp [DimMap.keys, hv.strides, rowSteps]
  refine View.applyAll_shifts fun m hm => ?_
  have hm := hmoves.mem_iff.1 hm
  simp only [List.mem_cons, List.not_mem_nil, or_false] at hm
  rw [hkeys]
  rcases hm with rfl | rfl <;> simp

theorem Handle.index?_moveTo_ofNat {start : Handle} (hguard : start.guard = none) {n : Nat} (hlt : n < start.length)
    (hword : n ≤ wordMax) :
    (start.moveTo (.ofNat n)).index? = if n ≤ signedMax then some n else none := by
  have hindex := Handle.index?_moveTo start (Int.natCast_nonneg n) (Int.ofNat_lt.2 hlt) (Int.ofNat_le.2 hword)
  have hadmitted : (start.moveTo (.ofNat n)).admitted = true := by simp only [Handle.admitted, Handle.moveTo, hguard]
  simpa only [Int64.ofInt_eq_ofNat, hadmitted, true_and, Int.ofNat_le, Int.toNat_natCast] using hindex

/-- the handle of an element, moved along the axes inside of the outermost one, stands at the position of the
coordinates -/
theorem RowMajor.index?_element {d : Dim} {e : UInt64} {back : List (Dim × UInt64)} {x : Dim → UInt64}
    (hv : v.RowMajor ((d, e) :: back)) (hx : InRange ((d, e) :: back) x) {path : List (Int64 × Int64)}
    (hpath : path.Perm (v.cellMoves back x)) : ((v.elementOrigin d (x d)).shiftAll path).index? =
      if rowPosition ((d, e) :: back) x ≤ signedMax then some (rowPosition ((d, e) :: back) x) else none := by
  have hmoves : ((v.strides.stepOf d, (x d).toInt64) :: path).Perm (v.cellMoves ((d, e) :: back) x) := hpath.cons _
  have hlt := rowPosition_lt hx
  cases hw : v.access with
  | readOnly =>
    have hstart : v.elementOrigin d (x d) = v.origin.moveTo (v.elementOffset d (x d)) := by
      simp only [elementOrigin, hw]
    rw [hv.elementOrigin_cell hmoves, hstart, Handle.moveTo_moveTo]
    exact Handle.index?_moveTo_ofNat rfl (hlt.trans_le hv.room) (hlt.le.trans hv.word)
  | writable =>
    -- the guard admits the cell: only an axis of extent 1 has the stride of the outermost one
    have hzero : ∀ s ∈ rowSteps ((d, e) :: back), s.1 ≠ d → s.2 = volume back → x s.1 = 0 := fun s hs =>
      sameStep_eq_zero hx (Or.inr fun a ha => absurd ha List.not_mem_nil) hs
    rw [index?_cell hv hw hx List.mem_cons_self hmoves]
    simp only [and_iff_left hzero]

/-- **All ways to a place lead to its position**, as far as signed words count. -/
theorem RowMajor.index?_of_leadsTo (hv : v.RowMajor [(.horizontal, h), (.vertical, k)]) (hi : i < h) (hj : j < k)
    (hp : v.LeadsTo i j p) :
    p.index? = if i.toNat * k.toNat + j.toNat ≤ signedMax then some (i.toNat * k.toNat + j.toNat) else none := by
  obtain ⟨x, hx, hxi, hxj, hposition⟩ := exists_coordinates (show Dim.horizontal ≠ .vertical by decide)
    (UInt64.lt_iff_toNat_lt.1 hi) (UInt64.lt_iff_toNat_lt.1 hj)
  obtain rfl := UInt64.toNat_inj.1 hxi
  obtain rfl := UInt64.toNat_inj.1 hxj
  have hlt := rowPosition_lt hx
  have hmoved {moves : List (Dim × Int64)}
      (hmoves : moves.Perm [(.horizontal, (x .horizontal).toInt64), (.vertical, (x .vertical).toInt64)]) :
      (v.origin.shiftAll (v.strides.path moves)).index? =
        if rowPosition [(.horizontal, h), (.vertical, k)] x ≤ signedMax then
          some (rowPosition [(.horizontal, h), (.vertical, k)] x) else none := by
    have hpath : (v.strides.path moves).Perm (v.cellMoves [(.horizontal, h), (.vertical, k)] x) := hmoves.map _
    rw [hv.shiftAll_cell (show v.origin.offset = 0 from hv.start) hpath]
    exact Handle.index?_moveTo_ofNat rfl (hlt.trans_le hv.room) (hlt.le.trans hv.word)
  have helement := hv.index?_element hx (List.Perm.refl (v.cellMoves [(.vertical, k)] x))
  rw [← hposition]
  cases hp with
  | shifted hmoves hw =>
    rw [hv.applyAll_shifts hmoves] at hw
    cases hw
    rw [origin_movedAll]
    exact hmoved hmoves
  | moved hmoves => exact hmoved hmoves
  | element => exact helement
  | unit =>
    rw [unitOrigin_share]
    exact helement

end View

namespace Field

variable {α : Type} {f : Field α} {i j : UInt64} {access : Access} {storage : Storage} {v : View} {p : Handle}

/-! ## Views of a field -/

/-- a field has views when its levels are counted by a signed word -/
theorem Whole.exists_view_iff (hf : f.Whole) : (∃ v, f.view access storage = .ok v) ↔ f.k.toNat ≤ signedMax := by
  constructor
  · rintro ⟨v, hv⟩
    cases hr : f.layout.resolve with
    | error e =>
      simp only [view, hr] at hv
      cases hv
    | ok r =>
      -- the stride of the elements is the number of levels
      have hsteps := (resolve_rowMajor.1 hr).2.2.2.1
      simpa using hsteps (.horizontal, f.k.toNat) (by simp [rowSteps])
  · intro hk
    obtain ⟨r, hr, -⟩ := resolve_columns (show Dim.horizontal ≠ .vertical by decide) hk hf.word
    exact ⟨_, by simp only [view, layout, hr]; rfl⟩

theorem Whole.view_rowMajor (hf : f.Whole) (hv : f.view access storage = .ok v) :
    v.RowMajor [(.horizontal, f.h), (.vertical, f.k)] := by
  cases hr : f.layout.resolve with
  | error e =>
    simp only [view, hr] at hv
    cases hv
  | ok r =>
    simp only [view, hr] at hv
    cases hv
    have hspan : r.span = f.h.toNat * f.k.toNat := by simpa using (resolve_rowMajor.1 hr).2.2.2.2.1
    exact (View.ofLayout_rowMajor hr (hspan.trans hf.size.symm).le access storage).2

/-- the handle of a view stands at a place of the field: it reads what the field has there and writes, if the view does,
what setting the place would -/
structure StandsAt (f : Field α) (access : Access) (p : Handle) (i j : UInt64) : Prop where
  reads : p.read f.data = f.get i j
  writes : access = .writable → ∀ x, ∃ f', f.set i j x = .ok f' ∧ p.write f.data x = .ok f'.data

theorem Whole.standsAt (hf : f.Whole) (hij : f.Has i j) (hp : p.index? = some (i.toNat * f.k.toNat + j.toNat)) :
    f.StandsAt access p i j where
  reads := by
    obtain ⟨x, hx, hget⟩ := hf.exists_get hij
    rw [hget]
    exact Handle.read_eq_ok hp hx
  writes _ x := ⟨_, hf.set_eq hij x, by simp only [Handle.write, Handle.write?, hp]⟩

/-- in a buffer that signed words count, the levels and all positions are counted by signed words -/
theorem Whole.signed (hf : f.Whole) (hij : f.Has i j) (hsize : f.data.size ≤ signedMax) :
    f.k.toNat ≤ signedMax ∧ i.toNat * f.k.toNat + j.toNat ≤ signedMax := by
  have hlt := hf.position_lt hij
  have hle : f.k.toNat ≤ f.h.toNat * f.k.toNat := Nat.le_mul_of_pos_left _ (Nat.zero_lt_of_lt hij.lt.1)
  have := hf.size
  omega

/-! ## Fields as stores -/

/-- how a field is made of a function: with room for its data, the function is called once at each place, in row-major
order, and the field has at each place what the call there gave; without room it is not called -/
structure CallsInOrder (α : Type) (size : Nat) (h k : UInt64) : Prop where
  ordered : (places h.toNat k.toNat).Pairwise (Prod.Lex (· < ·) (· < ·))
  all : ∀ i j, (i, j) ∈ places h.toNat k.toNat ↔ i < h.toNat ∧ j < k.toNat
  called : h.toNat * k.toNat ≤ wordMax → h.toNat * k.toNat * size ≤ signedMax →
    ∀ {m : Type → Type} [Monad m] [LawfulMonad m] (g : Nat → Nat → m α), ofFnM size h k g = do
      let values ← (places h.toNat k.toNat).mapM fun c => g c.1 c.2
      return .ok ⟨h, k, values.toArray⟩
  gives : h.toNat * k.toNat ≤ wordMax → ∀ values : List α, values.length = (places h.toNat k.toNat).length →
    ∀ i j, i < h → j < k → ∃ (n : Nat) (x : α), (places h.toNat k.toNat)[n]? = some (i.toNat, j.toNat) ∧
      values[n]? = some x ∧ (Field.mk h k values.toArray).get i j = .ok x
  refused : ∀ {m : Type → Type} [Monad m] (g : Nat → Nat → m α),
    (wordMax < h.toNat * k.toNat → ofFnM size h k g = pure (.error (.overflow .multiply))) ∧
    (h.toNat * k.toNat ≤ wordMax → signedMax < h.toNat * k.toNat * size →
      ofFnM size h k g = pure (.error .capacity))

theorem callsInOrder (α : Type) (size : Nat) (h k : UInt64) : CallsInOrder α size h k where
  ordered := pairwise_places _ _
  all _ _ := mem_places
  called hword hbytes _ _ _ g := ofFnM_of_room (room_of_fits hword hbytes) g
  gives hword values hlen i j hi hj := by
    rw [length_places] at hlen
    have hwhole : (Field.mk h k values.toArray).Whole := ⟨by rw [List.size_toArray, hlen], hword⟩
    obtain ⟨x, hx, hget⟩ := hwhole.exists_get (i := i) (j := j) ⟨hi, hj⟩
    rw [List.getElem?_toArray] at hx
    exact ⟨_, x, getElem?_places (UInt64.lt_iff_toNat_lt.1 hi) (UInt64.lt_iff_toNat_lt.1 hj), hx, hget⟩
  refused g := ⟨fun hlarge => ofFnM_of_no_room (room_of_overflow hlarge) g,
    fun hword hlarge => ofFnM_of_no_room (room_of_capacity hword hlarge) g⟩

theorem exists_ofFnM {h k : UInt64} {size : Nat} (hword : h.toNat * k.toNat ≤ wordMax)
    (hbytes : h.toNat * k.toNat * size ≤ signedMax) (g : Nat → Nat → α) :
    ∃ f, Id.run (ofFnM size h k fun i j => pure (g i j)) = .ok f ∧ f.h = h ∧ f.k = k ∧
      ∀ i j, f.Has i j → f.get i j = .ok (g i.toNat j.toNat) := by
  refine ⟨_, run_ofFnM_of_room (room_of_fits hword hbytes) g, rfl, rfl, fun i j hij => ?_⟩
  refine get_eq hword hij.lt.1 hij.lt.2 ?_
  rw [List.getElem?_toArray, List.getElem?_map, getElem?_places hij.lt.1 hij.lt.2, Option.map_some]

/-- **A field is a store.** A place that is set gives what was set there, and all others give what they gave before. The
field has views exactly if signed words count its levels; they can be shifted to every place in either order, and a
handle that a view leads to a place stands there if signed words count its position, and reads what the field gives and
writes what setting the place would; if they do not, it reaches nothing. They count levels and positions of every place
of a buffer that they count, as they do all buffers whose elements take memory. A function that a field is made of is
called at each place, in the order of the data, and gives what the field has there. -/
theorem store_spec {f : Field α} (hf : f.Made) :
    (∀ i j, f.Has i j → ∀ x, ∃ f', f.set i j x = .ok f' ∧ f'.h = f.h ∧ f'.k = f.k ∧
      ∀ i' j', f.Has i' j' → ∃ old, f.get i' j' = .ok old ∧
        f'.get i' j' = .ok (if i' = i ∧ j' = j then x else old)) ∧
    (∀ access storage, (∃ v, f.view access storage = .ok v) ↔ f.k.toNat ≤ signedMax) ∧
    (∀ access storage v, f.view access storage = .ok v → ∀ i j, f.Has i j →
      (∀ moves : List (Dim × Int64), moves.Perm [(.horizontal, i.toInt64), (.vertical, j.toInt64)] →
        ∃ w, v.applyAll (View.shifts moves) = .ok w) ∧
      ∀ p, v.LeadsTo i j p →
        (i.toNat * f.k.toNat + j.toNat ≤ signedMax → f.StandsAt access p i j) ∧
        (signedMax < i.toNat * f.k.toNat + j.toNat → p.accessible = false)) ∧
    (f.data.size ≤ signedMax → ∀ i j, f.Has i j →
      f.k.toNat ≤ signedMax ∧ i.toNat * f.k.toNat + j.toNat ≤ signedMax) ∧
    ∀ (size : Nat) (h k : UInt64), CallsInOrder α size h k ∧
      (h.toNat * k.toNat ≤ wordMax → h.toNat * k.toNat * size ≤ signedMax → ∀ g : Nat → Nat → α,
        ∃ f, Id.run (ofFnM size h k fun i j => pure (g i j)) = .ok f ∧ f.h = h ∧ f.k = k ∧
          ∀ i j, f.Has i j → f.get i j = .ok (g i.toNat j.toNat)) := by
  have hwhole := hf.whole
  refine ⟨fun i j hij x => ?_, fun access storage => hwhole.exists_view_iff, ?_,
    fun hsize i j hij => hwhole.signed hij hsize, fun size h k => ?_⟩
  · refine ⟨_, hwhole.set_eq hij x, rfl, rfl, fun i' j' hij' => ?_⟩
    obtain ⟨old, -, hold⟩ := hwhole.exists_get hij'
    refine ⟨old, hold, ?_⟩
    rw [hwhole.get_set hij (hwhole.set_eq hij x) hij', hold]
    split <;> rfl
  · intro access storage v hv i j hij
    have hrows := hwhole.view_rowMajor hv
    refine ⟨fun moves hmoves => ⟨_, hrows.applyAll_shifts hmoves⟩, fun p hp => ?_⟩
    have hindex := hrows.index?_of_leadsTo hij.1 hij.2 hp
    constructor
    · intro hsigned
      rw [if_pos hsigned] at hindex
      exact hwhole.standsAt hij hindex
    · intro hbeyond
      rw [if_neg (by omega)] at hindex
      rw [Handle.accessible, hindex, Option.isSome_none]
  · exact ⟨callsInOrder α size h k, fun hword hbytes g => exists_ofFnM hword hbytes g⟩

/-- three elements of two levels, with the number of the element in front of that of the level -/
def numbered : Field Nat := ⟨3, 2, #[0, 1, 10, 11, 20, 21]⟩

/-- the numbered field is made of a function; shifted to the upper level of the last element its view reads 21, and
writes there and nowhere else -/
theorem store_spec_numbered : ofFn 3 2 (fun i j => i * 10 + j) = .ok numbered ∧ numbered.Made ∧
    numbered.data.size ≤ signedMax ∧ numbered.Has 2 1 ∧ ∃ v w, numbered.view .writable .host = .ok v ∧
      v.applyAll (View.shifts [(.horizontal, 2), (.vertical, 1)]) = .ok w ∧
      w.origin.read numbered.data = .ok 21 ∧ w.origin.write numbered.data 7 = .ok #[0, 1, 10, 11, 20, 7] := by
  have hf : ofFn 3 2 (fun i j => i * 10 + j) = .ok numbered := by decide +kernel
  have hmade : numbered.Made := .ofFn hf
  have hsize : numbered.data.size ≤ signedMax := by decide
  have hlast : numbered.Has 2 1 := by decide
  obtain ⟨-, hexists, hviews, hsigned, -⟩ := store_spec hmade
  obtain ⟨hlevels, hposition⟩ := hsigned hsize 2 1 hlast
  obtain ⟨v, hv⟩ := (hexists .writable .host).2 hlevels
  obtain ⟨hshifts, hstands⟩ := hviews .writable .host v hv 2 1 hlast
  obtain ⟨w, hw⟩ := hshifts _ (List.Perm.refl _)
  have hplace := (hstands w.origin (.shifted (List.Perm.refl _) hw)).1 hposition
  obtain ⟨f', hset, hwrite⟩ := hplace.writes rfl 7
  obtain rfl : ⟨3, 2, #[0, 1, 10, 11, 20, 7]⟩ = f' := Except.ok.inj hset
  exact ⟨hf, hmade, hsize, hlast, v, w, hv, hw, hplace.reads, hwrite⟩

/-- elements of no size can be more than signed words count. Three towers of `2 ^ 62` levels are a field that has its
last level, but the view that is shifted there reads nothing; and an element of `2 ^ 63` levels is a field without any
view -/
theorem store_past_signed :
    (∃ f : Field Unit, ofValue 0 3 0x4000000000000000 () = .ok f ∧ f.Has 2 0x3fffffffffffffff ∧
      f.get 2 0x3fffffffffffffff = .ok () ∧ ∃ v w, f.view .readOnly .host = .ok v ∧
        v.applyAll (View.shifts [(.horizontal, 2), (.vertical, 0x3fffffffffffffff)]) = .ok w ∧
        ∀ x, w.origin.read f.data ≠ .ok x) ∧
      ∃ f : Field Unit, ofValue 0 1 0x8000000000000000 () = .ok f ∧ ∀ access storage v, f.view access storage ≠ .ok v := by
  constructor
  · obtain ⟨f, hf, hh, hk⟩ : ∃ f : Field Unit, ofValue 0 3 0x4000000000000000 () = .ok f ∧ f.h = 3 ∧
        f.k = 0x4000000000000000 :=
      ⟨_, ofValue_eq_ok (by decide +kernel) (by decide +kernel) (), rfl, rfl⟩
    have hwhole := whole_of_ofValue hf
    have hlast : f.Has 2 0x3fffffffffffffff := ⟨by rw [hh]; decide +kernel, by rw [hk]; decide +kernel⟩
    obtain ⟨x, -, hget⟩ := hwhole.exists_get hlast
    obtain ⟨v, hv⟩ : ∃ v, f.view .readOnly .host = .ok v :=
      hwhole.exists_view_iff.2 (by rw [hk]; decide +kernel)
    have hrows := hwhole.view_rowMajor hv
    have hmoves : [(Dim.horizontal, (2 : Int64)), (.vertical, 0x3fffffffffffffff)].Perm
        [(.horizontal, UInt64.toInt64 2), (.vertical, UInt64.toInt64 0x3fffffffffffffff)] := .of_eq (by decide +kernel)
    have hw := hrows.applyAll_shifts hmoves
    have hindex := hrows.index?_of_leadsTo hlast.1 hlast.2 (.shifted hmoves hw)
    rw [hk, if_neg (by decide +kernel)] at hindex
    have hread := Handle.read_eq_error hindex f.data
    refine ⟨f, hf, hlast, hget, v, _, hv, hw, fun x hx => ?_⟩
    cases hread.symm.trans hx
  · obtain ⟨f, hf, hk⟩ : ∃ f : Field Unit, ofValue 0 1 0x8000000000000000 () = .ok f ∧ f.k = 0x8000000000000000 :=
      ⟨_, ofValue_eq_ok (by decide +kernel) (by decide +kernel) (), rfl⟩
    refine ⟨f, hf, fun access storage v hv => ?_⟩
    have hlevels := (whole_of_ofValue hf).exists_view_iff.1 ⟨v, hv⟩
    rw [hk] at hlevels
    exact absurd hlevels (by decide +kernel)

end Field

end Stencil
