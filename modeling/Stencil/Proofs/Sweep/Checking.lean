/-
The checked reduction. It walks a row twice, and both walks see the same entries from the same handles: the first looks
for an entry that is neither left out nor the number of a target element, the second reduces. Nothing but selecting
happens before an offending entry is reported.

- `Running`: how computations run from a state, as kernel bodies do;
- `run_firstOffender_some`: the first walk stops at the first offending slot, by induction over the slots that are left;
- `run_tryEval_of_offends`, `run_tryEval_of_admits`: the two ways in which the checked reduction ends;
- `tryEval_spec`: when it is refused, for what reason, and what it is otherwise.
-/
import Mathlib.Tactic
import Stencil.Proofs.Access.Shifting
import Stencil.Proofs.Kernel.Footprint
import Stencil.Proofs.Sweep.Folding

namespace Stencil

namespace Bundle

/-- the handles with their steps along an axis, zero for members without it -/
def along (c : Bundle (Handle × DimMap Int64)) (d : Dim) : Bundle (Handle × Int64) :=
  c.map fun e => (e.1, e.2.stepOf d)

theorem map_fst_along (c : Bundle (Handle × DimMap Int64)) (d : Dim) :
    (c.along d).map Prod.fst = c.map Prod.fst := by
  rw [along, map_map]

theorem map_snd_along (c : Bundle (Handle × DimMap Int64)) (d : Dim) :
    (c.along d).map Prod.snd = (c.map Prod.snd).stepsOf d := by
  rw [along, map_map, stepsOf, map_map]

theorem after_zero (c : Bundle (Handle × Int64)) : c.after 0 = c.map Prod.fst :=
  congrArg (fun place => c.map place) (funext fun e => Handle.shiftBy_ofNat_zero e.1 e.2)

theorem shiftBy_after (c : Bundle (Handle × Int64)) (n : Nat) :
    (c.after n).shiftBy 1 (c.map Prod.snd) = c.after (n + 1) := by
  rw [after, shiftBy_map, after]
  refine congrArg (fun place => c.map place) (funext fun e => ?_)
  exact (Handle.shiftBy_comm e.1 e.2 _ e.2 1).trans (Handle.shiftBy_shiftBy_ofNat e.1 e.2 n)

end Bundle

/-! ## Running computations -/

/-- how computations run from a state: each ends with a result or a fault and leaves a state, and one that follows
another starts with the result of the other in the state that is left, unless there is a fault -/
structure Running (m : Type → Type) [Monad m] (σ : Type) where
  run {α : Type} : m α → σ → Except Fault α × σ
  run_pure {α : Type} (a : α) (s : σ) : run (pure a) s = (.ok a, s)
  run_bind {α β : Type} (x : m α) (k : α → m β) (s : σ) : run (x >>= k) s = match run x s with
    | (.ok a, s) => run (k a) s
    | (.error e, s) => (.error e, s)

namespace Running

/-- computations without a state -/
def ofExcept : Running (Except Fault) Unit where
  run x s := (x, s)
  run_pure _ _ := rfl
  run_bind x _ _ := by cases x <;> rfl

/-- bodies of kernels, with the handles of one unit -/
def ofKernel {α : Type} (handles : List Handle) : Running (Kernel α) (RunState α) where
  run k s := k.run handles s
  run_pure _ _ := rfl
  run_bind x k s := by
    show (x.bind k).run handles s = _
    rw [Kernel.run_bind]
    rcases x.run handles s with ⟨_ | _, _⟩ <;> rfl

variable {m : Type → Type} [Monad m] {σ α β : Type} (R : Running m σ) {x : m α} {a : α} {s s' : σ}

theorem run_bind_of_ok (h : R.run x s = (.ok a, s')) (k : α → m β) : R.run (x >>= k) s = R.run (k a) s' := by
  rw [R.run_bind, h]

end Running

/-! ## Offending entries -/

/-- the number of elements, taken as a signed word -/
def Neighbors.signedCount (target : Neighbors) : Int := target.count.toInt64.toInt

theorem Neighbors.signedCount_of_le {target : Neighbors} (h : target.count.toNat ≤ signedMax) :
    target.signedCount = target.count.toNat := toInt_toInt64_of_le h

namespace NeighborFold

variable {m : Type → Type} {α : Type}

/-- an entry is neither left out nor the number of one of `count` elements -/
def Offends (f : NeighborFold m α) (count entry : Int) : Prop :=
  ¬ (f.skips = true ∧ entry = missingNeighbor) ∧ ¬ (0 ≤ entry ∧ entry < count)

instance (f : NeighborFold m α) (count entry : Int) : Decidable (f.Offends count entry) :=
  inferInstanceAs (Decidable (_ ∧ _))

/-- the first slot of a row whose entry offends -/
def FirstOffends (f : NeighborFold m α) (count : Int) (entry : Nat → Int) (slot : Nat) : Prop :=
  slot < f.degree.get.toNat ∧ f.Offends count (entry slot) ∧ ∀ j < slot, ¬ f.Offends count (entry j)

theorem exists_firstOffends_or (f : NeighborFold m α) (count : Int) (entry : Nat → Int) :
    (∃ slot, f.FirstOffends count entry slot) ∨ ∀ slot < f.degree.get.toNat, ¬ f.Offends count (entry slot) := by
  rcases hfind : (List.range f.degree.get.toNat).find? (fun slot => f.Offends count (entry slot)) with _ | slot
  · rw [List.find?_range_eq_none] at hfind
    exact Or.inr fun slot hlt => by simpa using hfind slot hlt
  · rw [List.find?_range_eq_some] at hfind
    obtain ⟨hoffends, hlt, hleast⟩ := hfind
    refine Or.inl ⟨slot, List.mem_range.mp hlt, of_decide_eq_true hoffends, ?_⟩
    intro j hj
    simpa using hleast j hj

end NeighborFold

namespace BoundFold

variable {m : Type → Type} [Monad m] {σ α ι : Type} [TableEntry ι] {R : Running m σ} {f : NeighborFold m α}
  {c : Bundle (Handle × Int64)} {select : Bundle Handle → m ι} {entry : Nat → ι} {target : Neighbors} {s s' : σ}

omit [Monad m] in
theorem offends_iff {step : Bundle Int64} {e : ι} :
    (BoundFold.mk f step).offends target (TableEntry.widen e) = true ↔
      f.Offends target.signedCount (TableEntry.toInt e) := by
  have hleft : f.leavesOut (TableEntry.widen e) = true ↔ f.Skips e := NeighborFold.leavesOut_widen
  unfold NeighborFold.Skips at hleft
  unfold offends NeighborFold.Offends
  rw [← hleft, TableEntry.toInt_widen, ← Neighbors.signedCount]
  simp only [Bool.and_eq_true, Bool.not_eq_true', Bool.eq_false_iff, decide_eq_true_eq, ne_eq]

theorem run_firstOffender_none {n first : Nat}
    (hselect : ∀ slot, first ≤ slot → slot < first + n → R.run (select (c.after slot)) s = (.ok (entry slot), s))
    (h : ∀ slot, first ≤ slot → slot < first + n → ¬ f.Offends target.signedCount (TableEntry.toInt (entry slot))) :
    R.run ((BoundFold.mk f (c.map Prod.snd)).firstOffender select target n first (c.after first)) s =
      (.ok none, s) := by
  induction n generalizing first with
  | zero => exact R.run_pure none s
  | succ n ih =>
    have hstop := h first le_rfl (by omega)
    rw [firstOffender, R.run_bind_of_ok (hselect first le_rfl (by omega)), if_neg (mt offends_iff.mp hstop),
      Bundle.shiftBy_after]
    refine ih ?_ ?_
    · exact fun slot hle hlt => hselect slot (by omega) (by omega)
    · exact fun slot hle hlt => h slot (by omega) (by omega)

/-- the first walk stops at the first offending entry -/
theorem run_firstOffender_some {n first slot : Nat} (hle : first ≤ slot) (hlt : slot < first + n)
    (hselect : ∀ j, first ≤ j → j < first + n → R.run (select (c.after j)) s = (.ok (entry j), s))
    (hoffends : f.Offends target.signedCount (TableEntry.toInt (entry slot)))
    (hleast : ∀ j, first ≤ j → j < slot → ¬ f.Offends target.signedCount (TableEntry.toInt (entry j))) :
    R.run ((BoundFold.mk f (c.map Prod.snd)).firstOffender select target n first (c.after first)) s =
      (.ok (some (slot, TableEntry.widen (entry slot))), s) := by
  induction n generalizing first with
  | zero => omega
  | succ n ih =>
    rw [firstOffender, R.run_bind_of_ok (hselect first le_rfl (by omega))]
    rcases Nat.eq_or_lt_of_le hle with rfl | hlater
    · rw [if_pos (offends_iff.mpr hoffends)]
      exact R.run_pure _ s
    · have hstop := hleast first le_rfl hlater
      rw [if_neg (mt offends_iff.mp hstop), Bundle.shiftBy_after]
      refine ih hlater (by omega) ?_ ?_
      · exact fun j hj hjn => hselect j (by omega) (by omega)
      · exact fun j hj hjs => hleast j (by omega) hjs

variable (hselect : ∀ slot < f.degree.get.toNat, R.run (select (c.after slot)) s = (.ok (entry slot), s))

include hselect

/-- a row with an offending entry is refused for the first -/
theorem run_tryEval_of_offends {slot : Nat}
    (h : f.FirstOffends target.signedCount (fun slot => TableEntry.toInt (entry slot)) slot) :
    R.run ((BoundFold.mk f (c.map Prod.snd)).tryEval (c.map Prod.fst) select target) s =
      (.ok (.error (.indexOutOfRange none slot (TableEntry.toInt (entry slot)) target.count.toNat)), s) := by
  obtain ⟨hlt, hoffends, hleast⟩ := h
  have hwalk : R.run ((BoundFold.mk f (c.map Prod.snd)).firstOffender select target f.degree.get.toNat 0 (c.after 0)) s =
      (.ok (some (slot, TableEntry.widen (entry slot))), s) :=
    run_firstOffender_some (Nat.zero_le slot) (by omega) (fun j _ hj => hselect j (by omega)) hoffends
      fun j _ hj => hleast j hj
  unfold tryEval
  rw [← Bundle.after_zero, R.run_bind_of_ok hwalk]
  simp only [TableEntry.toInt_widen]
  exact R.run_pure _ s

/-- a row without an offending entry is reduced -/
theorem run_tryEval_of_admits
    (h : ∀ slot < f.degree.get.toNat, ¬ f.Offends target.signedCount (TableEntry.toInt (entry slot))) :
    R.run ((BoundFold.mk f (c.map Prod.snd)).tryEval (c.map Prod.fst) select target) s =
      Prod.map (Except.map .ok) id
        (R.run ((BoundFold.mk f (c.map Prod.snd)).eval (c.map Prod.fst) select target) s) := by
  have hwalk : R.run ((BoundFold.mk f (c.map Prod.snd)).firstOffender select target f.degree.get.toNat 0 (c.after 0)) s =
      (.ok none, s) :=
    run_firstOffender_none (fun j _ hj => hselect j (by omega)) fun j _ hj => h j (by omega)
  unfold tryEval
  rw [← Bundle.after_zero, R.run_bind_of_ok hwalk]
  simp only [R.run_bind]
  rcases R.run ((BoundFold.mk f (c.map Prod.snd)).eval (c.after 0) select target) s with ⟨_ | v, s'⟩
  · rfl
  · exact R.run_pure _ s'

/-- the checked reduction is refused exactly for a first offending entry, and then in the state where it started -/
theorem run_tryEval_eq_error_iff {e : EngineError} :
    R.run ((BoundFold.mk f (c.map Prod.snd)).tryEval (c.map Prod.fst) select target) s = (.ok (.error e), s') ↔
      (∃ slot, f.FirstOffends target.signedCount (fun slot => TableEntry.toInt (entry slot)) slot ∧
        e = .indexOutOfRange none slot (TableEntry.toInt (entry slot)) target.count.toNat) ∧ s' = s := by
  constructor
  · intro h
    rcases f.exists_firstOffends_or target.signedCount (fun slot => TableEntry.toInt (entry slot)) with
      ⟨slot, hfirst⟩ | hnone
    · rw [run_tryEval_of_offends hselect hfirst, Prod.mk.injEq] at h
      obtain ⟨herror, rfl⟩ := h
      exact ⟨⟨slot, hfirst, (Except.error.inj (Except.ok.inj herror)).symm⟩, rfl⟩
    · rw [run_tryEval_of_admits hselect hnone] at h
      rcases heval : R.run ((BoundFold.mk f (c.map Prod.snd)).eval (c.map Prod.fst) select target) s with ⟨_ | v, s''⟩
      · rw [heval] at h
        cases h
      · rw [heval] at h
        cases h
  · rintro ⟨⟨slot, hfirst, rfl⟩, rfl⟩
    exact run_tryEval_of_offends hselect hfirst

omit hselect in
theorem tryEval_eq_error_iff {f : NeighborFold (Except Fault) α} {select : Bundle Handle → Except Fault ι}
    {e : EngineError} (hselect : ∀ slot < f.degree.get.toNat, select (c.after slot) = .ok (entry slot)) :
    (BoundFold.mk f (c.map Prod.snd)).tryEval (c.map Prod.fst) select target = .ok (.error e) ↔
      ∃ slot, f.FirstOffends target.signedCount (fun slot => TableEntry.toInt (entry slot)) slot ∧
        e = .indexOutOfRange none slot (TableEntry.toInt (entry slot)) target.count.toNat := by
  have hrun : ∀ slot < f.degree.get.toNat,
      Running.ofExcept.run (select (c.after slot)) () = (.ok (entry slot), ()) := by
    intro slot hlt
    rw [hselect slot hlt]
    rfl
  have hrefused : Running.ofExcept.run ((BoundFold.mk f (c.map Prod.snd)).tryEval (c.map Prod.fst) select target) () =
      (.ok (.error e), ()) ↔ _ := run_tryEval_eq_error_iff hrun
  simpa only [Running.ofExcept, Prod.mk.injEq, and_true] using hrefused

end BoundFold

namespace NeighborFold

variable {m : Type → Type} [Monad m] {α ι : Type} [TableEntry ι] {f : NeighborFold m α}
  {c : Bundle (Handle × DimMap Int64)} {select : Bundle Handle → m ι} {target : Neighbors}

theorem tryEval_of_not_carries (h : (c.map Prod.snd).carries f.slot = false) :
    f.tryEval (c.map Prod.fst) (c.map Prod.snd) select target =
      pure (.error (.contract (.missingStride f.slot.label))) := by
  unfold tryEval NeighborFold.bind
  rw [Bundle.steps_of_not_carries h]
  rfl

omit [Monad m] in
theorem bind_of_carries (h : (c.map Prod.snd).carries f.slot = true) :
    f.bind (c.map Prod.snd) = .ok ⟨f, (c.along f.slot).map Prod.snd⟩ := by
  unfold NeighborFold.bind
  rw [Bundle.steps_of_carries h, Bundle.map_snd_along]
  rfl

theorem tryEval_of_carries (h : (c.map Prod.snd).carries f.slot = true) :
    f.tryEval (c.map Prod.fst) (c.map Prod.snd) select target =
      (BoundFold.mk f ((c.along f.slot).map Prod.snd)).tryEval ((c.along f.slot).map Prod.fst) select target := by
  rw [tryEval, bind_of_carries h, Bundle.map_fst_along]

theorem eval_of_carries (h : (c.map Prod.snd).carries f.slot = true) :
    f.eval (c.map Prod.fst) (c.map Prod.snd) select target =
      .ok ((BoundFold.mk f ((c.along f.slot).map Prod.snd)).eval ((c.along f.slot).map Prod.fst) select target) := by
  rw [eval, bind_of_carries h, Bundle.map_fst_along]
  rfl

/-- **The checked reduction** of handles in any groups, with computations that run from any kind of state. Along an axis
that no member has it is refused at once, whatever selecting does. Otherwise, let selecting do nothing but read an entry
at each slot. The reduction is refused exactly when the entry of some slot is neither left out nor the number of a target
element, for the smallest such slot, its entry and the number of elements, and then in the state where it started,
whatever starting, extracting and combining would have done. In all other cases it ends as the unchecked reduction does,
with the same result or fault and in the same state. -/
theorem tryEval_spec {σ : Type} (R : Running m σ) (f : NeighborFold m α) (c : Bundle (Handle × DimMap Int64))
    (target : Neighbors) (hcount : target.count.toNat ≤ signedMax) (s : σ) :
    ((c.map Prod.snd).carries f.slot = false → ∀ select : Bundle Handle → m ι,
      f.tryEval (c.map Prod.fst) (c.map Prod.snd) select target =
        pure (.error (.contract (.missingStride f.slot.label)))) ∧
    ((c.map Prod.snd).carries f.slot = true → ∀ (select : Bundle Handle → m ι) (entry : Nat → ι),
      (∀ slot < f.degree.get.toNat, R.run (select ((c.along f.slot).after slot)) s = (.ok (entry slot), s)) →
      (∀ e s', R.run (f.tryEval (c.map Prod.fst) (c.map Prod.snd) select target) s = (.ok (.error e), s') ↔
        (∃ slot, f.FirstOffends target.count.toNat (fun slot => TableEntry.toInt (entry slot)) slot ∧
          e = .indexOutOfRange none slot (TableEntry.toInt (entry slot)) target.count.toNat) ∧ s' = s) ∧
      ((∀ slot < f.degree.get.toNat, ¬ f.Offends target.count.toNat (TableEntry.toInt (entry slot))) →
        ∃ r, f.eval (c.map Prod.fst) (c.map Prod.snd) select target = .ok r ∧
          R.run (f.tryEval (c.map Prod.fst) (c.map Prod.snd) select target) s =
            Prod.map (Except.map .ok) id (R.run r s))) := by
  refine ⟨fun h select => tryEval_of_not_carries h, fun h select entry hselect => ?_⟩
  rw [tryEval_of_carries h, eval_of_carries h, ← Neighbors.signedCount_of_le hcount]
  constructor
  · exact fun e s' => BoundFold.run_tryEval_eq_error_iff hselect
  · exact fun hadmits => ⟨_, rfl, BoundFold.run_tryEval_of_admits hselect hadmits⟩

/-- a body that reads the entries from a member: missing neighbours, an entry that is too large, and nothing that may be
extracted or combined -/
theorem tryEval_spec_too_large :
    let f : NeighborFold (Kernel Int64) Int64 :=
      ⟨.neighbor, .fixed 4, true, .done 0, fun _ _ => .fault .textless, fun _ _ => .fault .textless⟩
    let select (p : Bundle Handle) : Kernel Int64 Int64 := Kernel.get 0 (p.handle 0)
    let s : RunState Int64 := ⟨#[#[-1, -1, 5, -2]], []⟩
    (Running.ofKernel [.reading 4 0]).run
      (f.tryEval (.member (.reading 4 0)) (.member (.single .neighbor 1)) select ⟨.reading 4 0, 1, 4⟩) s =
        (.ok (.error (.indexOutOfRange none 2 5 4)), s) := by
  intro f select s
  let c : Bundle (Handle × DimMap Int64) := .member (.reading 4 0, .single .neighbor 1)
  have hcarries : (c.map Prod.snd).carries f.slot = true := by decide
  have hselect : ∀ slot < f.degree.get.toNat, (Running.ofKernel [.reading 4 0]).run
      (select ((c.along f.slot).after slot)) s = (.ok (#[-1, -1, 5, -2].getD slot 0), s) := by
    intro slot hlt
    have hlt : slot < 4 := hlt
    interval_cases slot <;> rfl
  have hspec := (tryEval_spec (Running.ofKernel [.reading 4 0]) f c ⟨.reading 4 0, 1, 4⟩ (by decide) s).2 hcarries
    select _ hselect
  have hfirst : f.FirstOffends 4 (fun slot => TableEntry.toInt (#[-1, -1, 5, -2].getD slot (0 : Int64))) 2 :=
    ⟨by decide, by decide, by decide⟩
  exact (hspec.1 (.indexOutOfRange none 2 5 4) s).mpr ⟨⟨2, hfirst, rfl⟩, rfl⟩

end NeighborFold

end Stencil
