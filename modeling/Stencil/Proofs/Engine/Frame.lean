/-
What a launch leaves alone. A unit stores only where the guard of its own handle admits, however its body moves the
handle. What every unit below an extent keeps, a pass keeps on either backend: in whatever order the blocks run, up to
the first fault of a block or a sequential pass, and over the blocks that still run after it.

- `Bundle.admits_of_writes`: a unit writes only positions that its guard admits;
- `Pass.runBlocks_keeps`, `Backend.dispatch_keeps`: what the units keep, a pass keeps;
- `Backend.launch_frame`: which cells a launch leaves alone, however it ends.
-/
import Mathlib.Tactic
import Stencil.Proofs.Engine.Tiling

namespace Stencil

/-! ## Admitted positions -/

/-- whether the guard of an element below an extent admits a position -/
def View.Admits (v : View) (d : Dim) (extent : UInt64) (q : Nat) : Prop :=
  ∃ i < extent, ∃ g offset, (v.elementOrigin d i).guard = some g ∧ offset.toInt = (q : Int) ∧ g.admits offset = true

theorem View.admits_of_writeIndex? {v : View} {d : Dim} {extent i : UInt64} (hi : i < extent) {offset : Int64}
    {q : Nat} (h : ((v.elementOrigin d i).moveTo offset).writeIndex? = some q) :
    v.access = .writable ∧ v.Admits d extent q := by
  have hwritable := Backend.writable_of_writes h
  have hindex := Handle.index?_of_writeIndex? h
  have helement : v.HasElement d i := by
    by_contra hnone
    rw [View.index?_eq_none hwritable hnone] at hindex
    cases hindex
  obtain ⟨g, -, horigin⟩ := View.elementOrigin_of_hasElement hwritable helement
  have hguard : (v.elementOrigin d i).guard = some g := by rw [horigin]
  rw [horigin] at hindex
  obtain ⟨hadmits, hq, -⟩ := Handle.position_of_index? hindex
  exact ⟨hwritable, i, hi, g, offset, hguard, hq, hadmits⟩

/-- whether a position is one of a writable member that the guard of an element below an extent admits -/
def Bundle.Admits (fields : Bundle View) (d : Dim) (extent : UInt64) (m q : Nat) : Prop :=
  ∃ v, fields.members[m]? = some v ∧ v.access = .writable ∧ v.Admits d extent q

/-- **A unit writes only what its guards admit.** -/
theorem Bundle.admits_of_writes {fields : Bundle View} {d : Dim} {extent i : UInt64} (hi : i < extent) {m q : Nat}
    (h : Writes (fields.elementOrigin d i).members m q) : fields.Admits d extent m q := by
  obtain ⟨g, offset, hg, hwrites⟩ := h
  rw [Backend.getElem?_members_elementOrigin] at hg
  obtain ⟨v, hv, rfl⟩ := Option.map_eq_some_iff.1 hg
  obtain ⟨hwritable, hadmits⟩ := View.admits_of_writeIndex? hi hwrites
  exact ⟨v, hv, hwritable, hadmits⟩

/-! ## Changes within some positions -/

namespace Cells

variable {α : Type} {within : Nat → Nat → Prop} {cells cells' cells'' : Cells α}

/-- whether cells differ at some positions at most -/
structure ChangedWithin (within : Nat → Nat → Prop) (cells cells' : Cells α) : Prop where
  size : cells'.size = cells.size
  value : ∀ m q, ¬ within m q → cells'.value? m q = cells.value? m q

theorem ChangedWithin.refl (within : Nat → Nat → Prop) (cells : Cells α) : ChangedWithin within cells cells :=
  ⟨rfl, fun _ _ _ => rfl⟩

theorem ChangedWithin.trans (h : ChangedWithin within cells cells') (h' : ChangedWithin within cells' cells'') :
    ChangedWithin within cells cells'' where
  size := h'.size.trans h.size
  value m q hq := (h'.value m q hq).trans (h.value m q hq)

theorem ChangedWithin.getElem?_eq (h : ChangedWithin within cells cells') {m : Nat} (hm : ∀ q, ¬ within m q) :
    cells'[m]? = cells[m]? := by
  have hsize := h.size
  by_cases hlt : m < cells.size
  · have hlt' : m < cells'.size := hsize ▸ hlt
    rw [Array.getElem?_eq_getElem hlt, Array.getElem?_eq_getElem hlt', Option.some.injEq]
    apply Array.ext_getElem?
    intro q
    simpa [value?, Array.getElem?_eq_getElem hlt, Array.getElem?_eq_getElem hlt'] using h.value m q (hm q)
  · rw [Array.getElem?_eq_none (by omega), Array.getElem?_eq_none (by omega)]

end Cells

theorem Kernel.changedWithin_run {α ρ : Type} {handles : List Handle} {within : Nat → Nat → Prop}
    (hwrites : ∀ m q, Writes handles m q → within m q) (k : Kernel α ρ) (s : RunState α) :
    Cells.ChangedWithin within s.cells (k.run handles s).2.cells where
  size := k.size_run s
  value _ _ hq := k.run_frame s fun h => hq (hwrites _ _ h)

/-! ## What units keep, a pass keeps -/

section Keeping

variable {α : Type} {p : Pass α} {P : RunState α → Prop}

namespace Pass

theorem runEach_keeps (is : List UInt64) (hunit : ∀ i ∈ is, ∀ s, P s → P (p.runUnit i s).2) {s : RunState α}
    (hs : P s) : P (p.runEach is s).2 := by
  induction is generalizing s with
  | nil => exact hs
  | cons i is ih =>
    have hnext := hunit i List.mem_cons_self s hs
    rw [runEach]
    split
    · next h =>
      rw [h] at hnext
      exact ih (fun j hj => hunit j (List.mem_cons_of_mem i hj)) hnext
    · next h =>
      rw [h] at hnext
      exact hnext

variable {extent : UInt64} (hunit : ∀ i < extent, ∀ s, P s → P (p.runUnit i s).2)
include hunit

theorem runUnits_keeps (n : Nat) (start : UInt64) (hn : start.toNat + n ≤ extent.toNat) {s : RunState α} (hs : P s) :
    P (p.runUnits n start s).2 := by
  rw [runUnits_eq_runEach]
  refine runEach_keeps _ (fun i hi => ?_) hs
  obtain ⟨k, hk, rfl⟩ := List.mem_map.1 hi
  rw [List.mem_range'_1] at hk
  have hlt : k < extent.toNat := by omega
  exact hunit _ ((UInt64.ofNat_lt_iff (hlt.trans extent.toNat_lt)).2 hlt)

theorem runBlock_keeps (g : Geometry) (block : Nat) {s : RunState α} (hs : P s) :
    P (p.runBlock g extent block s).2 := by
  have hroom : (g.activeRange (.ofNat block) extent).1.toNat + ((g.activeRange (.ofNat block) extent).2.toNat -
      (g.activeRange (.ofNat block) extent).1.toNat) ≤ extent.toNat := by
    rw [Geometry.toNat_start, Geometry.toNat_stop]
    omega
  exact runUnits_keeps hunit _ _ hroom hs

/-- **A grid keeps what its units keep**, whether or not blocks run after a fault. -/
theorem runBlocks_keeps (schedule : Schedule) (g : Geometry) (n position : Nat) (r : Option UnitFault × RunState α)
    (hr : P r.2) : P (p.runBlocks schedule g extent n position r).2 := by
  induction n generalizing position r with
  | zero => exact hr
  | succ n ih =>
    obtain ⟨fault, s⟩ := r
    rw [runBlocks]
    split
    · exact ih _ _ hr
    · exact ih _ _ (runBlock_keeps hunit g _ hr)

end Pass

/-- **Both backends keep what the units keep**, for any extent. -/
theorem Backend.dispatch_keeps (b : Backend) {extent : UInt64} {fields : Bundle View}
    {body : Bundle Handle → Bundle (DimMap Int64) → Kernel α Unit}
    (hunit : ∀ i < extent, ∀ s, P s → P ((unitPass fields body).runUnit i s).2) {s : RunState α} (hs : P s) :
    P (b.dispatch extent fields body s).2 := by
  unfold dispatch
  cases b.kind with
  | sequential => exact Pass.runUnits_keeps hunit _ 0 (by simp) hs
  | parallel =>
    simp only [gridPass_eq]
    split
    · exact Pass.runBlocks_keeps hunit b.schedule _ _ _ (none, s) hs
    · exact hs

end Keeping

/-! ## The frame of a launch -/

namespace Backend

variable {α : Type}

/-- a pass changes only what the guards of the elements below the extent admit -/
theorem changedWithin_dispatch (b : Backend) (extent : UInt64) (fields : Bundle View)
    (body : Bundle Handle → Bundle (DimMap Int64) → Kernel α Unit) (s : RunState α) :
    Cells.ChangedWithin (fields.Admits .horizontal extent) s.cells (b.dispatch extent fields body s).2.cells := by
  refine b.dispatch_keeps (P := fun t => Cells.ChangedWithin _ s.cells t.cells) (fun i hi t ht => ?_) (.refl _ _)
  exact ht.trans (Kernel.changedWithin_run (fun m q h => Bundle.admits_of_writes hi h) _ t)

/-- a pass that reports an invalid geometry has run nothing -/
theorem dispatch_of_invalidGeometry {b : Backend} {extent blocks : UInt64} {fields : Bundle View}
    {body : Bundle Handle → Bundle (DimMap Int64) → Kernel α Unit} {s : RunState α}
    (h : (b.dispatch extent fields body s).1 = .invalidGeometry blocks) : (b.dispatch extent fields body s).2 = s := by
  have hruns : ∀ fault, statusOf fault ≠ .invalidGeometry blocks := by
    intro fault
    cases fault <;> simp [statusOf, LaunchStatus.ofFault]
  unfold dispatch at h ⊢
  cases hkind : b.kind with
  | sequential =>
    simp only [hkind] at h
    exact absurd h (hruns _)
  | parallel =>
    simp only [hkind] at h ⊢
    split at h
    · exact absurd h (hruns _)
    · next hinvalid => rw [if_neg hinvalid]

/-- how a launch ends: it refuses the fields before any unit runs, or it dispatches them -/
theorem launch_cases (b : Backend) (op : String) (extent : UInt64) (fields : Bundle View)
    (body : Bundle Handle → Bundle (DimMap Int64) → Kernel α Unit) (s : RunState α) :
    (∃ e, b.launch op extent fields body s = (.error (.error (.contract e)), s)) ∨
      b.launch op extent fields body s =
        (checkLaunch op (b.dispatch extent fields body s).1 b.config.failurePolicy,
          (b.dispatch extent fields body s).2) := by
  cases hcheck : fields.checkOuter .horizontal extent b.storage with
  | error e => exact Or.inl ⟨e, by simp only [launch, hcheck]⟩
  | ok u => exact Or.inr (launch_of_accepted hcheck op body s)

theorem eq_invalidGeometry_of_checkLaunch {op : String} {status : LaunchStatus} {policy : FailurePolicy}
    {blocks : UInt64} (h : checkLaunch op status policy = checkLaunch op (.invalidGeometry blocks) policy) :
    ∃ blocks', status = .invalidGeometry blocks' := by
  cases status with
  | invalidGeometry blocks' => exact ⟨blocks', rfl⟩
  | success => cases policy <;> simp [checkLaunch, LaunchStatus.isSuccess] at h
  | kernelFault message =>
    cases policy <;> simp [checkLaunch, LaunchStatus.isSuccess, Failure.escalate, LaunchStatus.code] at h

/-- **The frame of a launch.** However a launch ends, on either backend and in whatever order its blocks run, a cell of
a writable member that the guard of no unit below the extent admits is unchanged, and so is every read-only member; and
if it ends by a contract violation or because the grid would have too many blocks, nothing has changed at all. -/
theorem launch_frame (b : Backend) (op : String) (extent : UInt64) (fields : Bundle View)
    (body : Bundle Handle → Bundle (DimMap Int64) → Kernel α Unit) (s : RunState α) :
    let r := b.launch op extent fields body s
    (∀ (m : Nat) (v : View), fields.members[m]? = some v → v.access = .writable → ∀ q, ¬ v.Admits .horizontal extent q →
      r.2.cells.value? m q = s.cells.value? m q) ∧
    (∀ (m : Nat) (v : View), fields.members[m]? = some v → v.access = .readOnly → r.2.cells[m]? = s.cells[m]?) ∧
    (∀ e, r.1 = .error (.error (.contract e)) → r.2 = s) ∧
    ∀ blocks, r.1 = checkLaunch op (.invalidGeometry blocks) b.config.failurePolicy → r.2 = s := by
  intro r
  have hframe : Cells.ChangedWithin (fields.Admits .horizontal extent) s.cells r.2.cells := by
    rcases b.launch_cases op extent fields body s with ⟨e, h⟩ | h
    · simp only [r, h]
      exact .refl _ _
    · simp only [r, h]
      exact b.changedWithin_dispatch extent fields body s
  refine ⟨?_, ?_, ?_, ?_⟩
  · intro m v hv hwritable q hq
    apply hframe.value
    intro h
    obtain ⟨v', hv', -, hadmits⟩ := h
    obtain rfl : v = v' := Option.some.inj (hv.symm.trans hv')
    exact hq hadmits
  · intro m v hv hreadOnly
    apply hframe.getElem?_eq
    intro q h
    obtain ⟨v', hv', hwritable, -⟩ := h
    obtain rfl : v = v' := Option.some.inj (hv.symm.trans hv')
    rw [hreadOnly] at hwritable
    cases hwritable
  · intro e he
    rcases b.launch_cases op extent fields body s with ⟨e', h⟩ | h
    · simp only [r, h]
    · simp only [r, h] at he
      exact absurd he (checkLaunch_ne_contract _ _ _ _)
  · intro blocks hblocks
    rcases b.launch_cases op extent fields body s with ⟨e', h⟩ | h
    · simp only [r, h]
    · simp only [r, h] at hblocks ⊢
      obtain ⟨blocks', hstatus⟩ := eq_invalidGeometry_of_checkLaunch hblocks
      exact dispatch_of_invalidGeometry hstatus

end Backend

end Stencil
