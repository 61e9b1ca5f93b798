/-
Passes over elements with columns. The fields of a pass stand side by side in a bundle; each unit fills the columns of
its own element in the members that are written, level after level, and when all units have, the members hold tables.

- `Bundle.handle_map`, `Bundle.checkOuter_eq_ok`: the handles and the launch check of fields side by side;
- `Column`, `ColumnPair`: how far a unit has filled columns, with one step for each store;
- `Kernel.ensures_column`: the loop of a unit over its column;
- `Settled.exists_data`, `Settled.table`: the data of a member after a pass, and of one whose columns are all filled.
-/
import Mathlib.Tactic
import Stencil.Proofs.Access.Contracts
import Stencil.Proofs.Engine.Agreement
import Stencil.Proofs.Kernel.Triples
import Stencil.Proofs.Mesh.Columns

namespace Stencil

/-! ## Fields side by side -/

namespace Bundle

variable {ι : Type} {fields : Bundle View} {d : Dim}

theorem members_ofMembers (is : List ι) : (ofMembers is).members = is := by
  have hmembers : ∀ is : List ι, membersOf (is.map .member) = is := by
    intro is
    induction is with
    | nil => simp [membersOf]
    | cons i is ih => simp [membersOf, members, ih]
  rw [ofMembers, members, hmembers]

theorem getElem?_ofMembers {is : List ι} {m : Nat} {i : ι} (h : is[m]? = some i) :
    (ofMembers is).members[m]? = some i := by
  rw [members_ofMembers, h]

theorem handle_map {b : Bundle ι} {m : Nat} {i : ι} (hi : b.members[m]? = some i) (place : ι → Handle) :
    (b.map place).handle m = place i := by
  rw [handle, members_map, List.getElem?_map, hi]
  rfl

theorem steps_strides (h : ∃ v ∈ fields.members, v.strides.contains d = true) :
    fields.strides.steps d = .ok (fields.map fun v => v.strides.stepOf d) := by
  rw [steps_of_carries (carries_strides_iff.2 h), stepsOf, strides, map_map]

/-- fields pass the launch check when each passes and one has the axis -/
theorem checkOuter_eq_ok {extent : UInt64} {storage : Storage}
    (hcarries : ∃ v ∈ fields.members, v.strides.contains d = true)
    (hcheck : ∀ v ∈ fields.members, v.checkMember d extent storage = .ok ()) :
    fields.checkOuter d extent storage = .ok () :=
  checkOuter_eq_ok_iff.2 ⟨hcarries, fun v hv => View.checkMember_eq_ok_iff.1 (hcheck v hv)⟩

end Bundle

/-! ## Reading and writing -/

namespace View

variable {v : View} {b : Dim} {n m : UInt64} {access : Access} {storage : Storage}

/-- the handle of an element, moved along an axis -/
def columnHandle (v : View) (b : Dim) (i : UInt64) (j : Nat) : Handle :=
  (v.elementOrigin .horizontal i).shiftBy (v.strides.stepOf b) (Int64.ofNat j)

theorem columnHandle_eq_elementOrigin {dims : List (Dim × UInt64)} (h : v.RowMajor dims) (hb : b ∉ dims.map Prod.fst)
    (i : UInt64) (j : Nat) : v.columnHandle b i j = v.elementOrigin .horizontal i := by
  rw [columnHandle, h.stepOf_eq_zero hb, Handle.shiftBy_zero]

theorem Columns.writeIndex?_column (h : v.Columns .writable storage b n m) {i : UInt64} (hi : i < n) {j : Nat}
    (hj : j < m.toNat) : (v.columnHandle b i j).writeIndex? = some (i.toNat * m.toNat + j) := by
  have hwritable : (v.columnHandle b i j).access = .writable := (v.access_elementOrigin .horizontal i).trans h.access
  rw [Handle.writeIndex?, hwritable]
  exact h.index?_column hi hj

/-- a slot of a table, from wherever an axis that the table does not have has led -/
theorem Columns.index?_slot (h : v.Columns access storage b n m) {d : Dim} (hh : d ≠ .horizontal) (hd : d ≠ b)
    {i : UInt64} (hi : i < n) (l : Nat) {j : Nat} (hj : j < m.toNat) :
    ((v.columnHandle d i l).shiftBy (v.strides.stepOf b) (Int64.ofNat j)).index? = some (i.toNat * m.toNat + j) := by
  rw [columnHandle_eq_elementOrigin h.rowMajor (by simp [hh, hd])]
  exact h.index?_column hi hj

theorem index?_columnHandle_ofElements {length : Nat} (hlen : length ≤ signedMax) {d : Dim} (hd : d ≠ .horizontal)
    {i : UInt64} (hi : i.toNat < length) (l : Nat) :
    ((ofElements .readOnly length storage).columnHandle d i l).index? = some i.toNat := by
  rw [columnHandle_eq_elementOrigin (ofElements_rowMajor .readOnly length storage) (by simpa using hd)]
  exact index?_ofElements .readOnly storage hi (by omega)

end View

/-! ## Columns -/

namespace Cells

variable {α : Type} {c now : Cells α} {m base k : Nat} {x : Nat → α} {l : Nat}

/-- a column of a member is filled up to a level: below it stand the values of `x`, from it on those of before -/
structure Column (c now : Cells α) (m base k : Nat) (x : Nat → α) (l : Nat) : Prop where
  filled : ∀ j < l, now.value? m (base + j) = some (x j)
  kept : ∀ j, l ≤ j → j < k → now.value? m (base + j) = c.value? m (base + j)

theorem Column.start (c : Cells α) (m base k : Nat) (x : Nat → α) : Column c c m base k x 0 :=
  ⟨fun j hj => absurd hj (Nat.not_lt_zero j), fun _ _ _ => rfl⟩

theorem Column.put (h : Column c now m base k x l) (hl : l < k) (hc : (c.value? m (base + l)).isSome) :
    Column c (now.put m (base + l) (x l)) m base k x (l + 1) := by
  constructor
  · intro j hj
    rw [value?_put]
    by_cases hjl : j = l
    · subst hjl
      obtain ⟨old, hold⟩ := Option.isSome_iff_exists.1 hc
      rw [if_pos ⟨rfl, rfl⟩, h.kept j le_rfl hl, hold, Option.map_some]
    · rw [if_neg (by omega)]
      exact h.filled j (by omega)
  · intro j hj hjk
    rw [value?_put, if_neg (by omega)]
    exact h.kept j (by omega) hjk

theorem Column.put_other (h : Column c now m base k x l) {m' : Nat} (hm : m' ≠ m) (p : Nat) (v : α) :
    Column c (now.put m' p v) m base k x l := by
  have hvalue (q : Nat) : (now.put m' p v).value? m q = now.value? m q := by
    rw [value?_put, if_neg fun e => hm e.1]
  exact ⟨fun j hj => (hvalue _).trans (h.filled j hj), fun j hj hjk => (hvalue _).trans (h.kept j hj hjk)⟩

/-- the columns of two members are filled up to the same level -/
structure ColumnPair (c now : Cells α) (m m' base k : Nat) (x y : Nat → α) (l : Nat) : Prop where
  first : Column c now m base k x l
  second : Column c now m' base k y l

variable {m' : Nat} {y : Nat → α}

theorem ColumnPair.start (c : Cells α) (m m' base k : Nat) (x y : Nat → α) : ColumnPair c c m m' base k x y 0 :=
  ⟨.start .., .start ..⟩

theorem ColumnPair.put (h : ColumnPair c now m m' base k x y l) (hm : m ≠ m') (hl : l < k)
    (hc : (c.value? m (base + l)).isSome) (hc' : (c.value? m' (base + l)).isSome) :
    ColumnPair c ((now.put m (base + l) (x l)).put m' (base + l) (y l)) m m' base k x y (l + 1) :=
  ⟨(h.first.put hl hc).put_other hm.symm _ _, (h.second.put_other hm _ _).put hl hc'⟩

end Cells

open Backend (unitPass)

variable {α : Type} {fields : Bundle View} {body : Bundle Handle → Bundle (DimMap Int64) → Kernel α Unit}
  {cells cells' : Cells α} {m : Nat} {v : View} {storage : Storage} {b : Dim} {n k : UInt64} {data : Array α}

theorem Cells.isSome_value?_of_lt (hc : cells[m]? = some data) {p : Nat} (hp : p < data.size) :
    (cells.value? m p).isSome := by
  rw [value?, hc, Option.bind_some, Array.getElem?_eq_getElem hp]
  rfl

/-- after a pass, a member has data of the size of before -/
theorem Pass.Settled.exists_data {p : Pass α} {ran : UInt64 → Prop} (hs : p.Settled cells ran cells')
    (hc : cells[m]? = some data) :
    ∃ data', cells'[m]? = some data' ∧ data'.size = data.size ∧ ∀ q, cells'.value? m q = data'[q]? := by
  have hlt : m < cells'.size := hs.size ▸ (Array.getElem?_eq_some_iff.1 hc).1
  obtain ⟨data', hc'⟩ : ∃ data', cells'[m]? = some data' := ⟨_, Array.getElem?_eq_getElem hlt⟩
  have hvalue (q : Nat) : cells'.value? m q = data'[q]? := by rw [Cells.value?, hc', Option.bind_some]
  refine ⟨data', hc', ?_, hvalue⟩
  have hsome (q : Nat) : q < data'.size ↔ q < data.size := by
    have hsame := hs.isSome_value? m q
    rw [hvalue, Cells.value?, hc, Option.bind_some] at hsame
    have hlt' : (data'[q]?.isSome = true) = (q < data'.size) := isSome_getElem? data' q
    have hlt : (data[q]?.isSome = true) = (q < data.size) := isSome_getElem? data q
    rw [← hlt', ← hlt, hsame]
  have h1 := hsome data'.size
  have h2 := hsome data.size
  omega

/-- **A member whose columns are all filled** holds a table. -/
theorem Pass.Settled.table (hs : (unitPass fields body).Settled cells (fun i => i < n) cells')
    (hm : fields.members[m]? = some v) (h : v.Columns .writable storage b n k) (hc : cells[m]? = some data)
    (hsize : data.size = n.toNat * k.toNat) {f : Nat → Nat → α}
    (hcolumn : ∀ i, i < n → Cells.Column cells ((unitPass fields body).solo cells i).2.cells m (i.toNat * k.toNat)
      k.toNat (f i.toNat) k.toNat) : cells'[m]? = some (Field.table n.toNat k.toNat f) := by
  obtain ⟨data', hc', hsize', hvalue⟩ := hs.exists_data hc
  rw [hc']
  refine congrArg some (Field.eq_table (hsize'.trans hsize) ?_)
  intro i hi l hl
  have hiw : (UInt64.ofNat i).toNat = i :=
    UInt64.toNat_ofNat_of_lt' (by have := n.toNat_lt; simp only [UInt64.size]; omega)
  have hin : UInt64.ofNat i < n := by rw [UInt64.lt_iff_toNat_lt, hiw]; exact hi
  have hwrites : Writes ((unitPass fields body).unitHandles (.ofNat i)).members m (i * k.toNat + l) := by
    refine ⟨v.elementOrigin .horizontal (.ofNat i), _, ?_, (h.writeIndex?_column hin hl).trans (by rw [hiw])⟩
    exact (Backend.getElem?_members_elementOrigin fields .horizontal _ m).trans (by rw [hm]; rfl)
  have hfilled := (hcolumn (.ofNat i) hin).filled l hl
  rw [hiw] at hfilled
  rw [← hvalue, hs.written (.ofNat i) hin m _ hwrites]
  exact hfilled

/-! ## Units -/

section units

variable {i : UInt64}

theorem Backend.unitPass_solo (fields : Bundle View) (body : Bundle Handle → Bundle (DimMap Int64) → Kernel α Unit)
    {Q : Cells α → Prop} (h : Kernel.Ensures (fields.elementOrigin .horizontal i).members
      (body (fields.elementOrigin .horizontal i) fields.strides) ⟨cells, []⟩ fun _ s => Q s.cells) :
    (unitPass fields body).Completes cells i ∧ Q ((unitPass fields body).solo cells i).2.cells := by
  obtain ⟨u, s', hr, hQ⟩ := h
  have hsolo : (unitPass fields body).solo cells i = (.ok u, s') := hr
  rw [Pass.Completes, hsolo]
  exact ⟨rfl, hQ⟩

theorem getElem?_unitHandles (hm : fields.members[m]? = some v) :
    (fields.elementOrigin .horizontal i).members[m]? = some (v.elementOrigin .horizontal i) := by
  rw [Backend.getElem?_members_elementOrigin, hm]
  rfl

variable {s : RunState α} {l : Nat} {q : Bundle Handle} {Q : Unit → RunState α → Prop}

/-- **A loop over the entries of an element**, from one invariant per entry. -/
theorem Kernel.ensures_column {β : Type} {handles : List Handle} {f : β → Bundle Handle → Kernel α β} {init : β}
    (P : Nat → β → RunState α → Prop) (h0 : P 0 init s)
    (hstep : ∀ l < k.toNat, ∀ r s, P l r s → ∀ q, q = (fields.map fun v => v.columnHandle b i l) →
      Kernel.Ensures handles (f r q) s (P (l + 1))) :
    Kernel.Ensures handles (BoundLoop.fold ⟨fields.map fun v => v.strides.stepOf b, .given k⟩
      (fields.elementOrigin .horizontal i) init f) s (P k.toNat) :=
  Kernel.ensures_sweep P h0 fun l hl r s hP => hstep l hl r s hP _ rfl

/-- a loop that counts the entries fills the columns of two members when each step fills one more entry of both -/
theorem Kernel.ensures_counted {handles : List Handle} {f : Nat → Bundle Handle → Kernel α Nat} {m' base : Nat}
    {x y : Nat → α}
    (hstep : ∀ l < k.toNat, ∀ s, Cells.ColumnPair cells s.cells m m' base k.toNat x y l →
      ∀ q, q = (fields.map fun v => v.columnHandle b i l) →
      Kernel.Ensures handles (f l q) s fun next t =>
        next = l + 1 ∧ Cells.ColumnPair cells t.cells m m' base k.toNat x y (l + 1)) :
    Kernel.Ensures handles (do
      let _ ← BoundLoop.fold ⟨fields.map fun v => v.strides.stepOf b, .given k⟩
        (fields.elementOrigin .horizontal i) 0 f)
      ⟨cells, []⟩ fun _ t => Cells.ColumnPair cells t.cells m m' base k.toNat x y k.toNat := by
  have hloop : Kernel.Ensures handles
      (BoundLoop.fold ⟨fields.map fun v => v.strides.stepOf b, .given k⟩ (fields.elementOrigin .horizontal i) 0 f)
      ⟨cells, []⟩ fun next t => next = k.toNat ∧ Cells.ColumnPair cells t.cells m m' base k.toNat x y k.toNat := by
    refine Kernel.ensures_column (fun l next t => next = l ∧ Cells.ColumnPair cells t.cells m m' base k.toNat x y l)
      ⟨rfl, .start ..⟩ ?_
    rintro l hl next s ⟨rfl, hpair⟩ q hq
    exact hstep next hl s hpair q hq
  exact Kernel.Ensures.bind (hloop.mono fun _ _ h => Kernel.ensures_pure h.2)

theorem Kernel.ensures_set_column (hm : fields.members[m]? = some v) (h : v.Columns .writable storage b n k)
    (hi : i < n) (hl : l < k.toNat) (hq : q = fields.map fun v => v.columnHandle b i l) {x : α}
    (hQ : Q () ⟨s.cells.put m (i.toNat * k.toNat + l) x, s.reported⟩) :
    Kernel.Ensures (fields.elementOrigin .horizontal i).members (Kernel.set m (q.handle m) x) s Q := by
  rw [hq, Bundle.handle_map hm]
  exact Kernel.ensures_set (getElem?_unitHandles hm) rfl (h.writeIndex?_column hi hl) hQ

theorem Kernel.ensures_update_column (hm : fields.members[m]? = some v) (h : v.Columns .writable storage b n k)
    (hi : i < n) (hl : l < k.toNat) (hq : q = fields.map fun v => v.columnHandle b i l) {f : α → α} {x : α}
    (hx : s.cells.value? m (i.toNat * k.toNat + l) = some x)
    (hQ : Q () ⟨s.cells.put m (i.toNat * k.toNat + l) (f x), s.reported⟩) :
    Kernel.Ensures (fields.elementOrigin .horizontal i).members
      (Kernel.update m (q.handle m) fun x => return f x) s Q := by
  rw [hq, Bundle.handle_map hm]
  exact Kernel.ensures_update (getElem?_unitHandles hm) rfl (h.writeIndex?_column hi hl) hx hQ

end units

end Stencil
