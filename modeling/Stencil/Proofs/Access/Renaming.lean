/-
Renamed axes. Strides and bounds are two maps, and an axis is renamed in each of them alone: a name is refused only if
one map has both axes. As long as the new name is nowhere in the view, the axis is the same axis with another name. If
the two axes meet only across the maps, nothing is refused, and the new axis has the stride of the one and the bound of
the other.

- `rename_eq_error_iff`, `rename_of_separate`: when renaming is refused, and what it makes otherwise;
- `Relabelled.carried`, `Relabelled.actsAs`: a view renamed to a name that is nowhere in it has all it had, and does
  along the new axis what it did along the old one;
- `rename_whole_iff`: renaming treats strides and bounds as one exactly if the axes do not meet across the maps.
-/
import Mathlib.Tactic
import Stencil.Proofs.Access.Contracts
import Stencil.Proofs.Access.Shifting
import Stencil.Proofs.Axis.Maps
import Stencil.Sweep.Reduction

namespace Stencil

/-- the same violation along an axis with another label -/
def ContractViolation.about (label : String) : ContractViolation → ContractViolation
  | missingStride _ => missingStride label
  | missingBound _ => missingBound label
  | extentMismatch _ extent bound => extentMismatch label extent bound
  | notAddressable _ => notAddressable label
  | duplicateDim _ => duplicateDim label
  | e => e

/-! ## Maps -/

namespace DimMap

variable {α : Type} {m m' : DimMap α} {a b d : Dim}

/-- a map with an axis called by a name that is not in it -/
structure Relabelled (m m' : DimMap α) (a b : Dim) : Prop where
  entries : m'.entries = relabel a b m.entries
  free : b ∉ m.keys

namespace Relabelled

theorem get? (h : m.Relabelled m' a b) (d : Dim) :
    m'.get? d = if d = b then m.get? a else if d = a then none else m.get? d := by
  rw [DimMap.get?, h.entries]
  exact find_relabel h.free d

theorem get?_new (h : m.Relabelled m' a b) : m'.get? b = m.get? a := by rw [h.get?, if_pos rfl]

theorem get?_old (h : m.Relabelled m' a b) (hab : a ≠ b) : m'.get? a = none := by
  rw [h.get?, if_neg hab, if_pos rfl]

theorem get?_other (h : m.Relabelled m' a b) (ha : d ≠ a) (hb : d ≠ b) : m'.get? d = m.get? d := by
  rw [h.get?, if_neg hb, if_neg ha]

theorem keys (h : m.Relabelled m' a b) : m'.keys = m.keys.map fun k => if k = a then b else k := by
  rw [DimMap.keys, h.entries, keys_relabel, DimMap.keys]

theorem contains (h : m.Relabelled m' a b) : m'.contains b = m.contains a := by
  rw [DimMap.contains, h.get?_new, DimMap.contains]

theorem rename (h : m.Relabelled m' a b) (hab : a ≠ b) : m.rename a b = .ok m' := by
  obtain ⟨o, ho, hentries⟩ := rename_of_free hab fun hboth => h.free hboth.2
  rw [ho, ext_entries (hentries.trans h.entries.symm)]

theorem adjust (h : m.Relabelled m' a b) (f : α → α) : (m.adjust a f).Relabelled (m'.adjust b f) a b where
  entries := by
    show mapAt b f m'.entries = relabel a b (mapAt a f m.entries)
    rw [h.entries, mapAt, relabel, mapAt, relabel, List.map_map, List.map_map]
    refine List.map_congr_left fun e he => ?_
    have hne : e.1 ≠ b := fun hb => h.free (hb ▸ mem_keys_of_mem he)
    by_cases ha : e.1 = a
    · simp [ha]
    · simp [ha, hne]
  free := by
    rw [DimMap.keys, DimMap.adjust, keys_mapAt]
    exact h.free

end Relabelled

theorem get?_relabel_or (hsep : ¬ (a ∈ m.keys ∧ b ∈ m.keys)) (hentries : m'.entries = relabel a b m.entries) :
    m'.get? b = (m.get? a).or (m.get? b) := by
  by_cases ha : a ∈ m.keys
  · have hfree : b ∉ m.keys := fun hb => hsep ⟨ha, hb⟩
    rw [Relabelled.get?_new ⟨hentries, hfree⟩, get?_eq_none_iff.2 hfree, Option.or_none]
  · rw [ext_entries (hentries.trans (relabel_of_not_mem ha)), get?_eq_none_iff.2 ha, Option.none_or]

theorem Relabelled.stepOf {m m' : DimMap Int64} (h : m.Relabelled m' a b) : m'.stepOf b = m.stepOf a := by
  rw [DimMap.stepOf, h.get?_new, DimMap.stepOf]

theorem others_relabel {l : List (Dim × Int64)} (hb : b ∉ l.map Prod.fst) :
    ((relabel a b l).filter fun e => e.1 ≠ b && 0 < e.2.toInt).map (fun e => e.2.toInt) =
      (l.filter fun e => e.1 ≠ a && 0 < e.2.toInt).map fun e => e.2.toInt := by
  induction l with
  | nil => rfl
  | cons e l ih =>
    rw [List.map_cons, List.mem_cons, not_or] at hb
    have ih := ih hb.2
    simp only [relabel, ne_eq, decide_not] at ih ⊢
    rw [List.map_cons]
    by_cases ha : e.1 = a
    · simp [ha, ih]
    · by_cases hpos : 0 < e.2.toInt <;> simp [ha, Ne.symm hb.1, hpos, ih]

theorem Relabelled.otherStrides {m m' : DimMap Int64} (h : m.Relabelled m' a b) :
    Guard.otherStrides m' b = Guard.otherStrides m a := by
  rw [Guard.otherStrides, Guard.otherStrides, h.entries, others_relabel h.free]

theorem Relabelled.forElement {m m' : DimMap Int64} (h : m.Relabelled m' a b) (base : Int64) (index : UInt64) :
    Guard.forElement m' b base index = Guard.forElement m a base index := by
  rw [Guard.forElement, Guard.forElement, h.get?_new, h.otherStrides]

theorem Relabelled.steps {m m' : DimMap Int64} (h : m.Relabelled m' a b) :
    (Bundle.member m').steps b = ((Bundle.member m).steps a).mapError (.about b.label) := by
  rw [Bundle.steps, Bundle.steps, Bundle.carries, Bundle.carries, h.contains, Bundle.stepsOf, Bundle.stepsOf,
    Bundle.map, Bundle.map, h.stepOf]
  split <;> rfl

end DimMap

/-! ## Views -/

namespace View

variable {v w : View} {a b d : Dim}

/-- whether a view has a stride or a bound along an axis -/
def Uses (v : View) (d : Dim) : Prop := d ∈ v.strides.keys ∨ d ∈ v.bounds.keys

/-- two axes of a view that meet in neither map: it has a stride along the one and a bound along the other -/
structure Crosses (v : View) (a b : Dim) : Prop where
  uses : v.Uses a ∧ v.Uses b
  strides : ¬ (a ∈ v.strides.keys ∧ b ∈ v.strides.keys)
  bounds : ¬ (a ∈ v.bounds.keys ∧ b ∈ v.bounds.keys)

/-- two axes that no map has both of are renamed in each map -/
theorem rename_of_separate (hab : a ≠ b) (hs : ¬ (a ∈ v.strides.keys ∧ b ∈ v.strides.keys))
    (hb : ¬ (a ∈ v.bounds.keys ∧ b ∈ v.bounds.keys)) :
    ∃ strides bounds, v.rename a b = .ok { v with strides, bounds } ∧
      strides.entries = DimMap.relabel a b v.strides.entries ∧
      bounds.entries = DimMap.relabel a b v.bounds.entries := by
  obtain ⟨strides, hstrides, hse⟩ := DimMap.rename_of_free hab hs
  obtain ⟨bounds, hbounds, hbe⟩ := DimMap.rename_of_free hab hb
  refine ⟨strides, bounds, ?_, hse, hbe⟩
  rw [rename, hstrides, hbounds]
  rfl

theorem rename_of_both (hab : a ≠ b)
    (hboth : (a ∈ v.strides.keys ∧ b ∈ v.strides.keys) ∨ (a ∈ v.bounds.keys ∧ b ∈ v.bounds.keys)) :
    v.rename a b = .error (.duplicateDim b.label) := by
  rw [rename]
  by_cases hs : a ∈ v.strides.keys ∧ b ∈ v.strides.keys
  · rw [DimMap.rename_eq_error_iff.2 ⟨hab, hs.1, hs.2, rfl⟩]
    rfl
  · obtain ⟨strides, hstrides, -⟩ := DimMap.rename_of_free hab hs
    have hb := hboth.resolve_left hs
    rw [hstrides, DimMap.rename_eq_error_iff.2 ⟨hab, hb.1, hb.2, rfl⟩]
    rfl

theorem rename_eq_error_iff (hab : a ≠ b) {e : ContractViolation} : v.rename a b = .error e ↔
    ((a ∈ v.strides.keys ∧ b ∈ v.strides.keys) ∨ (a ∈ v.bounds.keys ∧ b ∈ v.bounds.keys)) ∧
      e = .duplicateDim b.label := by
  by_cases hboth : (a ∈ v.strides.keys ∧ b ∈ v.strides.keys) ∨ (a ∈ v.bounds.keys ∧ b ∈ v.bounds.keys)
  · rw [rename_of_both hab hboth, and_iff_right hboth, Except.error.injEq, eq_comm]
  · obtain ⟨strides, bounds, hok, -⟩ := rename_of_separate hab (fun h => hboth (Or.inl h)) fun h => hboth (Or.inr h)
    simp [hok, hboth]

/-- a view with an axis called by a name that is nowhere in it -/
structure Relabelled (v w : View) (a b : Dim) : Prop where
  strides : v.strides.Relabelled w.strides a b
  bounds : v.bounds.Relabelled w.bounds a b
  rest : w = { v with strides := w.strides, bounds := w.bounds }

/-- a view that has along one axis all that another view has along an axis of its own, and otherwise the same -/
structure Carried (v w : View) (a b : Dim) : Prop where
  stride : w.strides.get? b = v.strides.get? a
  bound : w.bounds.get? b = v.bounds.get? a
  gone : w.strides.get? a = none ∧ w.bounds.get? a = none
  others : ∀ d, d ≠ a → d ≠ b → w.strides.get? d = v.strides.get? d ∧ w.bounds.get? d = v.bounds.get? d
  order : w.strides.keys = (v.strides.keys.map fun k => if k = a then b else k) ∧
    w.bounds.keys = v.bounds.keys.map fun k => if k = a then b else k
  rest : w = { v with strides := w.strides, bounds := w.bounds }

/-- a view that does along one axis what another view does along an axis of its own: it is moved, bounded, checked for a
launch and split into elements alike, and loops and folds along the axis do the same. Violations name the new axis. -/
structure ActsAs (v w : View) (a b : Dim) : Prop where
  shifted : ∀ count, w.shifted b count =
    ((v.shifted a count).mapError (.about b.label)).bind fun u => u.rename a b
  upperBound : w.upperBound b = (v.upperBound a).mapError (.about b.label)
  checkMember : ∀ extent storage,
    w.checkMember b extent storage = (v.checkMember a extent storage).mapError (.about b.label)
  elementOrigin : ∀ index, w.elementOrigin b index = v.elementOrigin a index
  unitOrigin : ∀ index, w.share.unitOrigin ⟨b, index⟩ = v.share.unitOrigin ⟨a, index⟩
  bindLoop : ∀ extent,
    Loop.bind ⟨b, extent⟩ (.member w.strides) = (Loop.bind ⟨a, extent⟩ (.member v.strides)).mapError (.about b.label)
  loop : ∀ {m : Type → Type} [Monad m] (extent : Extent) (p : Bundle Handle)
    (body : Bundle Handle → Bundle (DimMap Int64) → m Unit),
    Loop.run ⟨b, extent⟩ p (.member w.strides) body =
      (Loop.run ⟨a, extent⟩ p (.member v.strides) fun q _ => body q (.member w.strides)).mapError (.about b.label)
  eval : ∀ {m : Type → Type} [Monad m] {α ι : Type} [TableEntry ι] (f : NeighborFold m α) (p : Bundle Handle)
    (select : Bundle Handle → m ι) (target : Neighbors),
    { f with slot := b }.eval p (.member w.strides) select target =
      ({ f with slot := a }.eval p (.member v.strides) select target).mapError (.about b.label)
  tryEval : ∀ {m : Type → Type} [Monad m] {α ι : Type} [TableEntry ι] (f : NeighborFold m α) (p : Bundle Handle)
    (select : Bundle Handle → m ι) (target : Neighbors),
    (a ∈ v.strides.keys ∧ { f with slot := b }.tryEval p (.member w.strides) select target =
      { f with slot := a }.tryEval p (.member v.strides) select target) ∨
    (a ∉ v.strides.keys ∧
      { f with slot := b }.tryEval p (.member w.strides) select target =
        pure (.error (.contract (.missingStride b.label))) ∧
      { f with slot := a }.tryEval p (.member v.strides) select target =
        pure (.error (.contract (.missingStride a.label))))

namespace Relabelled

theorem access (h : v.Relabelled w a b) : w.access = v.access := by rw [h.rest]

theorem length (h : v.Relabelled w a b) : w.length = v.length := by rw [h.rest]

theorem offset (h : v.Relabelled w a b) : w.offset = v.offset := by rw [h.rest]

theorem storage (h : v.Relabelled w a b) : w.storage = v.storage := by rw [h.rest]

theorem rename (h : v.Relabelled w a b) (hab : a ≠ b) : v.rename a b = .ok w := by
  rw [View.rename, h.strides.rename hab, h.bounds.rename hab, h.rest]
  rfl

theorem carried (h : v.Relabelled w a b) (hab : a ≠ b) : v.Carried w a b where
  stride := h.strides.get?_new
  bound := h.bounds.get?_new
  gone := ⟨h.strides.get?_old hab, h.bounds.get?_old hab⟩
  others _ hda hdb := ⟨h.strides.get?_other hda hdb, h.bounds.get?_other hda hdb⟩
  order := ⟨h.strides.keys, h.bounds.keys⟩
  rest := h.rest

theorem moved (h : v.Relabelled w a b) (count : Int64) : (v.moved a count).Relabelled (w.moved b count) a b where
  strides := h.strides
  bounds := h.bounds.adjust _
  rest := by
    rw [View.moved, View.moved, h.strides.stepOf, h.offset, h.access, h.length, h.storage]

theorem shifted (h : v.Relabelled w a b) (hab : a ≠ b) (count : Int64) :
    w.shifted b count = ((v.shifted a count).mapError (.about b.label)).bind fun u => u.rename a b := by
  by_cases ha : a ∈ v.strides.keys
  · have hb : b ∈ w.strides.keys := by
      rw [← DimMap.contains_iff, h.strides.contains, DimMap.contains_iff]
      exact ha
    rw [shifted_eq_moved ha, shifted_eq_moved hb]
    exact ((h.moved count).rename hab).symm
  · have hstep : v.strides.step a = .error (.missingStride a.label) := if_neg (mt DimMap.contains_iff.1 ha)
    have hstep' : w.strides.step b = .error (.missingStride b.label) := by
      rw [DimMap.step, h.strides.contains]
      exact if_neg (mt DimMap.contains_iff.1 ha)
    rw [View.shifted, View.shifted, hstep, hstep']
    rfl

theorem upperBound (h : v.Relabelled w a b) : w.upperBound b = (v.upperBound a).mapError (.about b.label) := by
  rw [View.upperBound, View.upperBound, h.bounds.get?_new]
  split <;> rfl

theorem advances (h : v.Relabelled w a b) : w.Advances b ↔ v.Advances a := by
  rw [Advances, h.strides.get?_new, Advances]

theorem longEnough (h : v.Relabelled w a b) {extent : UInt64} : w.LongEnough b extent ↔ v.LongEnough a extent := by
  rw [LongEnough, h.bounds.get?_new, LongEnough]

theorem passes (h : v.Relabelled w a b) {extent : UInt64} {storage : Storage} (hp : v.Passes a extent storage) :
    w.Passes b extent storage where
  stored := h.storage.trans hp.stored
  written := by
    rw [h.access, h.advances, h.bounds.contains, h.longEnough]
    exact hp.written
  read := by
    rw [h.access, h.strides.contains, h.longEnough]
    exact hp.read

theorem violates (h : v.Relabelled w a b) {extent : UInt64} {storage : Storage} {e : ContractViolation}
    (hv : v.Violates a extent storage e) : w.Violates b extent storage (e.about b.label) := by
  cases hv with
  | storage hs =>
    rw [← h.storage] at hs ⊢
    exact .storage hs
  | stride hs hw hstep => exact .stride (h.storage.trans hs) (h.access.trans hw) (mt h.advances.1 hstep)
  | bound hs hw hstep hb =>
    exact .bound (h.storage.trans hs) (h.access.trans hw) (h.advances.2 hstep) (h.bounds.get?_new.trans hb)
  | extent hs hw hr hb hlt =>
    rw [← h.access, ← h.advances] at hw
    rw [← h.access, ← h.strides.contains] at hr
    exact .extent (h.storage.trans hs) hw hr (h.bounds.get?_new.trans hb) hlt

theorem checkMember (h : v.Relabelled w a b) (extent : UInt64) (storage : Storage) :
    w.checkMember b extent storage = (v.checkMember a extent storage).mapError (.about b.label) := by
  rcases passes_or_violates v a extent storage with hp | ⟨e, hv⟩
  · rw [hp.checkMember, (h.passes hp).checkMember]
    rfl
  · rw [hv.checkMember, (h.violates hv).checkMember]
    rfl

theorem elementOrigin (h : v.Relabelled w a b) (index : UInt64) : w.elementOrigin b index = v.elementOrigin a index := by
  simp only [View.elementOrigin, View.elementOffset, View.origin, View.denied, h.access, h.length, h.offset,
    h.strides.stepOf, h.strides.forElement, h.bounds.get?_new]

theorem unitOrigin (h : v.Relabelled w a b) (index : UInt64) :
    w.share.unitOrigin ⟨b, index⟩ = v.share.unitOrigin ⟨a, index⟩ := by
  simp only [Snapshot.unitOrigin, View.share, h.access, h.length, h.offset, h.strides.stepOf, h.strides.forElement,
    h.bounds.get?_new]
  rfl

theorem bindLoop (h : v.Relabelled w a b) (extent : Extent) :
    Loop.bind ⟨b, extent⟩ (.member w.strides) =
      (Loop.bind ⟨a, extent⟩ (.member v.strides)).mapError (.about b.label) := by
  rw [Loop.bind, Loop.bind, h.strides.steps]
  cases (Bundle.member v.strides).steps a <;> rfl

theorem loop {m : Type → Type} [Monad m] (h : v.Relabelled w a b) (extent : Extent) (p : Bundle Handle)
    (body : Bundle Handle → Bundle (DimMap Int64) → m Unit) :
    Loop.run ⟨b, extent⟩ p (.member w.strides) body =
      (Loop.run ⟨a, extent⟩ p (.member v.strides) fun q _ => body q (.member w.strides)).mapError
        (.about b.label) := by
  rw [Loop.run, Loop.run, h.bindLoop]
  cases Loop.bind ⟨a, extent⟩ (.member v.strides) <;> rfl

section Folding

variable {m : Type → Type} [Monad m] {α ι : Type} [TableEntry ι]

theorem eval (h : v.Relabelled w a b) (f : NeighborFold m α) (p : Bundle Handle) (select : Bundle Handle → m ι)
    (target : Neighbors) :
    { f with slot := b }.eval p (.member w.strides) select target =
      ({ f with slot := a }.eval p (.member v.strides) select target).mapError (.about b.label) := by
  rw [NeighborFold.eval, NeighborFold.eval, NeighborFold.bind, NeighborFold.bind, h.strides.steps]
  cases (Bundle.member v.strides).steps a <;> rfl

theorem firstOffender_slot (f : NeighborFold m α) (step : Bundle Int64) (select : Bundle Handle → m ι)
    (target : Neighbors) (n slot : Nat) (p : Bundle Handle) :
    (BoundFold.mk { f with slot := b } step).firstOffender select target n slot p =
      (BoundFold.mk { f with slot := a } step).firstOffender select target n slot p := by
  induction n generalizing slot p with
  | zero => rfl
  | succ n ih =>
    rw [BoundFold.firstOffender, BoundFold.firstOffender]
    simp only [ih]
    rfl

theorem tryEval (h : v.Relabelled w a b) (f : NeighborFold m α) (p : Bundle Handle) (select : Bundle Handle → m ι)
    (target : Neighbors) :
    (a ∈ v.strides.keys ∧ { f with slot := b }.tryEval p (.member w.strides) select target =
      { f with slot := a }.tryEval p (.member v.strides) select target) ∨
    (a ∉ v.strides.keys ∧
      { f with slot := b }.tryEval p (.member w.strides) select target =
        pure (.error (.contract (.missingStride b.label))) ∧
      { f with slot := a }.tryEval p (.member v.strides) select target =
        pure (.error (.contract (.missingStride a.label)))) := by
  rw [NeighborFold.tryEval, NeighborFold.tryEval, NeighborFold.bind, NeighborFold.bind, h.strides.steps]
  by_cases ha : a ∈ v.strides.keys
  · refine Or.inl ⟨ha, ?_⟩
    have hcarries : (Bundle.member v.strides).carries a = true := by
      rw [Bundle.carries]
      exact DimMap.contains_iff.2 ha
    rw [Bundle.steps_of_carries hcarries]
    show BoundFold.tryEval _ p select target = BoundFold.tryEval _ p select target
    rw [BoundFold.tryEval, BoundFold.tryEval, firstOffender_slot (a := a) (b := b)]
    rfl
  · refine Or.inr ⟨ha, ?_⟩
    have hcarries : (Bundle.member v.strides).carries a = false := by
      rw [Bundle.carries, ← Bool.not_eq_true, DimMap.contains_iff]
      exact ha
    rw [Bundle.steps_of_not_carries hcarries]
    exact ⟨rfl, rfl⟩

end Folding

theorem actsAs (h : v.Relabelled w a b) (hab : a ≠ b) : v.ActsAs w a b where
  shifted := h.shifted hab
  upperBound := h.upperBound
  checkMember := h.checkMember
  elementOrigin := h.elementOrigin
  unitOrigin := h.unitOrigin
  bindLoop := h.bindLoop
  loop := h.loop
  eval := h.eval
  tryEval := h.tryEval

end Relabelled

/-! ## Strides and bounds together -/

/-- renaming treats strides and bounds as one: it is refused exactly if both axes are used, be it in different maps, and
otherwise the new axis has and does all that the old one had and did -/
structure RenamesWhole (v : View) (a b : Dim) : Prop where
  refused : ∀ e, v.rename a b = .error e ↔ (v.Uses a ∧ v.Uses b) ∧ e = .duplicateDim b.label
  kept : ∀ w, v.rename a b = .ok w → v.Uses a → v.Carried w a b ∧ v.ActsAs w a b

theorem relabelled_of_rename (hab : a ≠ b) (hb : ¬ v.Uses b) (h : v.rename a b = .ok w) : v.Relabelled w a b := by
  rw [Uses, not_or] at hb
  obtain ⟨strides, bounds, hok, hs, hbs⟩ := rename_of_separate hab (fun h => hb.1 h.2) fun h => hb.2 h.2
  rw [h, Except.ok.injEq] at hok
  subst hok
  exact ⟨⟨hs, hb.1⟩, ⟨hbs, hb.2⟩, rfl⟩

/-- an axis that a view does not use is renamed to no effect -/
theorem rename_of_not_uses (ha : ¬ v.Uses a) (b : Dim) : v.rename a b = .ok v := by
  rw [Uses, not_or] at ha
  have hs : v.strides.rename a b = .ok v.strides := if_pos (Or.inr ha.1)
  have hb : v.bounds.rename a b = .ok v.bounds := if_pos (Or.inr ha.2)
  rw [rename, hs, hb]
  rfl

/-- of two axes that do not cross, both are used exactly if some map has both -/
theorem uses_iff_of_not_crosses (h : ¬ v.Crosses a b) : v.Uses a ∧ v.Uses b ↔
    (a ∈ v.strides.keys ∧ b ∈ v.strides.keys) ∨ (a ∈ v.bounds.keys ∧ b ∈ v.bounds.keys) := by
  constructor
  · intro huses
    by_contra hnot
    rw [not_or] at hnot
    exact h ⟨huses, hnot.1, hnot.2⟩
  · rintro (⟨ha, hb⟩ | ⟨ha, hb⟩)
    · exact ⟨Or.inl ha, Or.inl hb⟩
    · exact ⟨Or.inr ha, Or.inr hb⟩

theorem renamesWhole_of_not_crosses (hab : a ≠ b) (h : ¬ v.Crosses a b) : v.RenamesWhole a b where
  refused e := by rw [rename_eq_error_iff hab, uses_iff_of_not_crosses h]
  kept w hw ha := by
    have hb : ¬ v.Uses b := by
      intro hb
      rw [rename_of_both hab ((uses_iff_of_not_crosses h).1 ⟨ha, hb⟩)] at hw
      cases hw
    have hrelabelled := relabelled_of_rename hab hb hw
    exact ⟨hrelabelled.carried hab, hrelabelled.actsAs hab⟩

/-- the stride along the one axis and the bound along the other -/
inductive Mixed (v : View) (a b : Dim) : Option Int64 → Option UInt64 → Prop where
  | strideOfFirst {stride : Int64} {bound : UInt64} (hs : v.strides.get? a = some stride)
    (hb : v.bounds.get? b = some bound) (hnone : v.bounds.get? a = none) : Mixed v a b (some stride) (some bound)
  | boundOfFirst {stride : Int64} {bound : UInt64} (hb : v.bounds.get? a = some bound)
    (hs : v.strides.get? b = some stride) (hnone : v.strides.get? a = none) : Mixed v a b (some stride) (some bound)

/-- **Axes that cross** become one, which has the stride of the one and the bound of the other. -/
theorem Crosses.mixed (h : v.Crosses a b) (hab : a ≠ b) :
    ∃ w, v.rename a b = .ok w ∧ v.Mixed a b (w.strides.get? b) (w.bounds.get? b) := by
  obtain ⟨⟨ha, hb⟩, hstrides, hbounds⟩ := h
  obtain ⟨strides, bounds, hok, hs, hbs⟩ := rename_of_separate hab hstrides hbounds
  refine ⟨_, hok, ?_⟩
  show v.Mixed a b (strides.get? b) (bounds.get? b)
  rw [DimMap.get?_relabel_or hstrides hs, DimMap.get?_relabel_or hbounds hbs]
  -- an axis in the one map leaves only the other map to the other axis
  rcases ha with ha | ha
  · have hb := hb.resolve_left fun hb => hstrides ⟨ha, hb⟩
    obtain ⟨stride, hstride⟩ := Option.isSome_iff_exists.1 (DimMap.mem_keys_iff.1 ha)
    obtain ⟨bound, hbound⟩ := Option.isSome_iff_exists.1 (DimMap.mem_keys_iff.1 hb)
    have hnone := DimMap.get?_eq_none_iff.2 fun ha => hbounds ⟨ha, hb⟩
    rw [hstride, hbound, hnone]
    exact .strideOfFirst hstride hbound hnone
  · have hb := hb.resolve_right fun hb => hbounds ⟨ha, hb⟩
    obtain ⟨bound, hbound⟩ := Option.isSome_iff_exists.1 (DimMap.mem_keys_iff.1 ha)
    obtain ⟨stride, hstride⟩ := Option.isSome_iff_exists.1 (DimMap.mem_keys_iff.1 hb)
    have hnone := DimMap.get?_eq_none_iff.2 fun ha => hstrides ⟨ha, hb⟩
    rw [hstride, hbound, hnone]
    exact .boundOfFirst hbound hstride hnone

/-- **Renaming an axis** of any view. It is refused exactly if one of the maps has both axes. It treats strides and
bounds as one exactly if the axes do not cross: then it is refused just if both are used, and what is left of an axis
that is used is the same axis with another name. An axis that is not used is renamed to no effect. If the axes cross,
renaming succeeds all the same, and makes one axis of the stride of the one and the bound of the other. -/
theorem rename_whole_iff (v : View) (hab : a ≠ b) :
    (∀ e, v.rename a b = .error e ↔
      ((a ∈ v.strides.keys ∧ b ∈ v.strides.keys) ∨ (a ∈ v.bounds.keys ∧ b ∈ v.bounds.keys)) ∧
        e = .duplicateDim b.label) ∧
    (v.RenamesWhole a b ↔ ¬ v.Crosses a b) ∧
    (¬ v.Uses a → v.rename a b = .ok v) ∧
    (v.Crosses a b → ∃ w, v.rename a b = .ok w ∧ v.Mixed a b (w.strides.get? b) (w.bounds.get? b)) := by
  refine ⟨fun e => rename_eq_error_iff hab, ⟨fun hwhole hcross => ?_, renamesWhole_of_not_crosses hab⟩,
    fun ha => rename_of_not_uses ha b, fun hcross => hcross.mixed hab⟩
  obtain ⟨w, hw, -⟩ := hcross.mixed hab
  rw [(hwhole.refused _).2 ⟨hcross.uses, rfl⟩] at hw
  cases hw

/-- two columns of three levels -/
def twoColumns : View :=
  ofParts .writable 6 ⟨[(.horizontal, 3), (.vertical, 1)], by decide, by decide⟩
    ⟨[(.horizontal, 2), (.vertical, 3)], by decide, by decide⟩ .host

/-- the element axis of a field becomes its slot axis, but not its level axis -/
theorem rename_whole_iff_columns : Dim.horizontal ≠ .neighbor ∧ Dim.horizontal ≠ .vertical ∧
    ¬ twoColumns.Crosses .horizontal .neighbor ∧ twoColumns.RenamesWhole .horizontal .neighbor ∧
      twoColumns.rename .horizontal .vertical = .error (.duplicateDim "k") := by
  have hfree : ¬ twoColumns.Crosses .horizontal .neighbor := fun h => absurd h.uses.2 (by unfold Uses; decide)
  refine ⟨by decide, by decide, hfree, ?_, ?_⟩
  · exact (rename_whole_iff twoColumns (by decide)).2.1.2 hfree
  · exact ((rename_whole_iff twoColumns (by decide)).1 _).2 ⟨Or.inl (by decide), rfl⟩

/-- a stride along the element axis and a bound along the level axis -/
def crossing : View := ofParts .readOnly 3 (.single .horizontal 1) (.single .vertical 3) .host

/-- **A bound from another axis.** The element axis of this view has no bound, and its level axis is in use. Yet the
element axis can be called the level axis, and has the bound of the level axis then. -/
theorem rename_crossing : crossing.Uses .horizontal ∧ crossing.Uses .vertical ∧
    (∃ w, crossing.rename .horizontal .vertical = .ok w ∧ w.strides.get? .vertical = some 1 ∧
      crossing.upperBound .horizontal = .error (.missingBound "h") ∧ w.upperBound .vertical = .ok 3) ∧
    ¬ crossing.RenamesWhole .horizontal .vertical := by
  have huses : crossing.Uses .horizontal ∧ crossing.Uses .vertical := by unfold Uses; decide
  refine ⟨huses.1, huses.2, ⟨_, rfl, rfl, rfl, rfl⟩, fun hwhole => ?_⟩
  have hrefused := (hwhole.refused _).2 ⟨huses, rfl⟩
  cases hrefused

end View

end Stencil
