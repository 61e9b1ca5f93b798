/-
Loops and reductions as left folds. The handles of a loop move step by step; after any number of steps each member
stands where its own step, taken so often in the arithmetic of words, leads from its start, however the members are
grouped. A reduction is the left fold over its slots in ascending order, each seen from the handles that stand there.

- `sweep_eq_foldlM`: a loop is the left fold of its body over the offsets;
- `foldlM_range_eq_error`: a left fold that fails has the failure of the first step that does;
- `eval_eq_foldl`: a reduction without faults is the left fold over the slots that are not left out;
- `eval_eq_error`: a reduction that faults has the fault of the start, or else of the first slot with one;
- `eval_spec`: what a reduction computes, with all it calls acting in any monad, and which fault it ends with.
-/
import Mathlib.Tactic
import Stencil.Sweep.Reduction

namespace Stencil

/-! ## Steps of a loop -/

namespace Handle

theorem shiftBy_shiftBy_ofNat (h : Handle) (step : Int64) (n : Nat) :
    (h.shiftBy step 1).shiftBy step (Int64.ofNat n) = h.shiftBy step (Int64.ofNat (n + 1)) := by
  simp only [shiftBy, moveTo, Int64.ofNat_add, Int64.mul_add, Int64.add_assoc]
  rw [Int64.add_comm (step * 1)]
  rfl

@[simp] theorem shiftBy_ofNat_zero (h : Handle) (step : Int64) : h.shiftBy step (Int64.ofNat 0) = h := by
  simp only [shiftBy, moveTo, show Int64.ofNat 0 = 0 from rfl, Int64.mul_zero, Int64.add_zero]

end Handle

section folds

variable {m : Type → Type} [Monad m] {α β ι : Type}

/-- **A loop is a left fold** of its body over the offsets in ascending order, with every member where its own steps
have led. -/
theorem sweep_eq_foldlM (b : Bundle ι) (step : ι → Int64) (place : ι → Handle) (f : β → Bundle Handle → m β) (n : Nat)
    (init : β) : sweep (b.map step) f n (b.map place) init =
      (List.range n).foldlM (fun acc i => f acc (b.map fun x => (place x).shiftBy (step x) (Int64.ofNat i))) init := by
  induction n generalizing place init with
  | zero => rfl
  | succ n ih =>
    -- the rest of the loop starts one step further, so its offsets are those of the whole loop less one
    have hrest (acc : β) : sweep (b.map step) f n ((b.map place).shiftBy 1 (b.map step)) acc =
        ((List.range n).map Nat.succ).foldlM
          (fun acc i => f acc (b.map fun x => (place x).shiftBy (step x) (Int64.ofNat i))) acc := by
      rw [Bundle.shiftBy_map, ih, List.foldlM_map]
      simp only [Handle.shiftBy_shiftBy_ofNat]
    rw [sweep, List.range_succ_eq_map, List.foldlM_cons]
    simp only [hrest, Handle.shiftBy_ofNat_zero]

theorem bind_eq_error {ε : Type} {x : Except ε α} {k : α → Except ε β} {e : ε} :
    x >>= k = .error e ↔ x = .error e ∨ ∃ a, x = .ok a ∧ k a = .error e := by
  cases x with
  | error e' => simp [bind, Except.bind]
  | ok a => simp [bind, Except.bind]

/-- a left fold over numbers fails exactly with the failure of a step that is reached -/
theorem foldlM_range_eq_error {ε : Type} {f : β → Nat → Except ε β} {n : Nat} {init : β} {e : ε} :
    (List.range n).foldlM f init = .error e ↔
      ∃ i < n, ∃ acc, (List.range i).foldlM f init = .ok acc ∧ f acc i = .error e := by
  induction n with
  | zero => simp [pure, Except.pure]
  | succ n ih =>
    rw [List.range_succ, List.foldlM_append, bind_eq_error, ih]
    simp only [List.foldlM_cons, List.foldlM_nil, bind_pure, Nat.lt_succ_iff_lt_or_eq]
    constructor
    · rintro (⟨i, hi, hfail⟩ | ⟨acc, hacc, hfail⟩)
      · exact ⟨i, Or.inl hi, hfail⟩
      · exact ⟨n, Or.inr rfl, acc, hacc, hfail⟩
    · rintro ⟨i, hi | rfl, hfail⟩
      · exact Or.inl ⟨i, hi, hfail⟩
      · exact Or.inr hfail

end folds

/-! ## Slots -/

namespace Bundle

/-- handles after `n` of their steps each: where the products of steps and number lead, in the arithmetic of words -/
def after (c : Bundle (Handle × Int64)) (n : Nat) : Bundle Handle :=
  c.map fun e => e.1.moveTo (e.1.offset + e.2 * Int64.ofNat n)

end Bundle

namespace NeighborFold

variable {m : Type → Type} {α ι : Type} [TableEntry ι] {f : NeighborFold m α}

/-- a table entry marks a missing neighbour, and the reduction leaves these out -/
def Skips (f : NeighborFold m α) (entry : ι) : Prop := f.skips = true ∧ TableEntry.toInt entry = missingNeighbor

instance (f : NeighborFold m α) (entry : ι) : Decidable (f.Skips entry) :=
  inferInstanceAs (Decidable (f.skips = true ∧ TableEntry.toInt entry = missingNeighbor))

theorem leavesOut_widen {entry : ι} : f.leavesOut (TableEntry.widen entry) = true ↔ f.Skips entry := by
  rw [leavesOut, TableEntry.toInt_widen, Bool.and_eq_true, beq_iff_eq, Skips]

variable [Monad m]

/-- the accumulator after a slot: an entry is selected from the handles that stand there, and unless it is left out the
contribution of its neighbour is combined in -/
def slotStep (f : NeighborFold m α) (c : Bundle (Handle × Int64)) (select : Bundle Handle → m ι) (target : Neighbors)
    (acc : α) (slot : Nat) : m α := do
  let entry ← select (c.after slot)
  if f.Skips entry then return acc
  let neighbor := target.origin.moveTo (target.origin.offset + target.stride * TableEntry.widen entry)
  f.combine acc (← f.extract (c.after slot) neighbor)

variable [LawfulMonad m] {c : Bundle (Handle × Int64)} {select : Bundle Handle → m ι} {target : Neighbors} {acc : α}
  {slot : Nat} {entry : ι}

theorem slotStep_of_skips (hselect : select (c.after slot) = pure entry) (h : f.Skips entry) :
    f.slotStep c select target acc slot = pure acc := by
  simp only [slotStep, hselect, pure_bind, if_pos h]

/-- a slot with any other entry combines the contribution of the neighbour in -/
theorem slotStep_of_not_skips (hselect : select (c.after slot) = pure entry) (h : ¬ f.Skips entry) :
    f.slotStep c select target acc slot =
      f.extract (c.after slot) (target.element (TableEntry.widen entry)) >>= f.combine acc := by
  simp only [slotStep, hselect, pure_bind, if_neg h]
  rfl

end NeighborFold

namespace BoundFold

section monad

variable {m : Type → Type} [Monad m] {α ι : Type} [TableEntry ι]

theorem eval_eq_foldlM (f : NeighborFold m α) (c : Bundle (Handle × Int64)) (select : Bundle Handle → m ι)
    (target : Neighbors) : (BoundFold.mk f (c.map Prod.snd)).eval (c.map Prod.fst) select target =
      f.start >>= (List.range f.degree.get.toNat).foldlM (f.slotStep c select target) := by
  have hvisit : (fun acc i => (BoundFold.mk f (c.map Prod.snd)).visit select target acc (c.after i)) =
      f.slotStep c select target := by
    funext acc i
    simp only [visit, NeighborFold.leavesOut_widen]
    rfl
  simp only [eval, sweep_eq_foldlM]
  exact congrArg (fun step => f.start >>= (List.range f.degree.get.toNat).foldlM step) hvisit

/-- a reduction in which nothing faults is the left fold of the contributions, those of missing neighbours left out -/
theorem eval_eq_foldl [LawfulMonad m] {f : NeighborFold m α} {c : Bundle (Handle × Int64)}
    {select : Bundle Handle → m ι} {target : Neighbors} {init : α} {g : α → α → α} {contribution : Nat → Option α}
    (hstart : f.start = pure init)
    (hslot : ∀ acc, ∀ slot < f.degree.get.toNat, f.slotStep c select target acc slot =
      pure ((contribution slot).elim acc (g acc))) :
    (BoundFold.mk f (c.map Prod.snd)).eval (c.map Prod.fst) select target =
      pure (((List.range f.degree.get.toNat).filterMap contribution).foldl g init) := by
  rw [eval_eq_foldlM, hstart, pure_bind]
  generalize f.degree.get.toNat = n at hslot
  induction n with
  | zero => rfl
  | succ n ih =>
    have hlast : [n].filterMap contribution = (contribution n).toList := by cases h : contribution n <;> simp [h]
    rw [List.range_succ, List.foldlM_append, ih fun acc slot hlt => hslot acc slot (Nat.lt_succ_of_lt hlt), pure_bind,
      List.filterMap_append, List.foldl_append, hlast, List.foldlM_cons, hslot _ n (Nat.lt_succ_self n), pure_bind]
    cases contribution n <;> rfl

end monad

variable {α ι : Type} [TableEntry ι] {f : NeighborFold (Except Fault) α} {c : Bundle (Handle × Int64)}
  {select : Bundle Handle → Except Fault ι} {target : Neighbors} {e : Fault}

/-- a slot faults when selecting does, or else, if its entry is not left out, when extracting or else combining does -/
theorem slotStep_eq_error {acc : α} {slot : Nat} : f.slotStep c select target acc slot = .error e ↔
    select (c.after slot) = .error e ∨ ∃ entry, select (c.after slot) = .ok entry ∧ ¬ f.Skips entry ∧
      (f.extract (c.after slot) (target.element (TableEntry.widen entry)) = .error e ∨
        ∃ v, f.extract (c.after slot) (target.element (TableEntry.widen entry)) = .ok v ∧ f.combine acc v = .error e) := by
  rw [NeighborFold.slotStep, bind_eq_error]
  refine or_congr_right (exists_congr fun entry => and_congr_right fun _ => ?_)
  by_cases hskip : f.Skips entry
  · simp [hskip, pure, Except.pure]
  · simp only [hskip, if_false, not_false_eq_true, true_and]
    exact bind_eq_error

/-- a reduction faults when the start does, or else at the first slot that does -/
theorem eval_eq_error :
    (BoundFold.mk f (c.map Prod.snd)).eval (c.map Prod.fst) select target = .error e ↔ f.start = .error e ∨
      ∃ init, f.start = .ok init ∧ ∃ slot < f.degree.get.toNat, ∃ acc,
        (List.range slot).foldlM (f.slotStep c select target) init = .ok acc ∧
          f.slotStep c select target acc slot = .error e := by
  rw [eval_eq_foldlM, bind_eq_error]
  simp only [foldlM_range_eq_error]

theorem eval_of_skips (h : ∀ slot < f.degree.get.toNat, ∃ entry, select (c.after slot) = .ok entry ∧ f.Skips entry) :
    (BoundFold.mk f (c.map Prod.snd)).eval (c.map Prod.fst) select target = f.start := by
  cases hstart : f.start with
  | error e => exact eval_eq_error.mpr (Or.inl hstart)
  | ok init =>
    have hslot : ∀ acc, ∀ slot < f.degree.get.toNat,
        f.slotStep c select target acc slot = pure ((none : Option α).elim acc fun _ => acc) := by
      intro acc slot hlt
      obtain ⟨entry, hselect, hskip⟩ := h slot hlt
      exact NeighborFold.slotStep_of_skips hselect hskip
    have heval := eval_eq_foldl (g := fun acc _ => acc) hstart hslot
    rw [heval, List.filterMap_none]
    rfl

/-- **What a reduction computes**, for handles in any groups, each with a step of its own. Whatever starting, selecting,
extracting and combining do, the reduction is the left fold over the slots in ascending order: at each slot an entry is
selected from the handles that stand there, and unless it is left out, the contribution of its neighbour is combined in.
A row whose entries are all left out gives the starting value. If something called ends with a fault, so does the
reduction, and its fault is the first of them: that of the start, or that of the first slot where selecting, extracting
or combining ends with one. -/
theorem eval_spec (c : Bundle (Handle × Int64)) (target : Neighbors) :
    (∀ {m : Type → Type} [Monad m] {α ι : Type} [TableEntry ι] (f : NeighborFold m α) (select : Bundle Handle → m ι),
      (BoundFold.mk f (c.map Prod.snd)).eval (c.map Prod.fst) select target =
        f.start >>= (List.range f.degree.get.toNat).foldlM (f.slotStep c select target)) ∧
    ∀ {α ι : Type} [TableEntry ι] (f : NeighborFold (Except Fault) α) (select : Bundle Handle → Except Fault ι),
      ((∀ slot < f.degree.get.toNat, ∃ entry, select (c.after slot) = .ok entry ∧ f.Skips entry) →
        (BoundFold.mk f (c.map Prod.snd)).eval (c.map Prod.fst) select target = f.start) ∧
      ∀ e, (BoundFold.mk f (c.map Prod.snd)).eval (c.map Prod.fst) select target = .error e ↔ f.start = .error e ∨
        ∃ init, f.start = .ok init ∧ ∃ slot < f.degree.get.toNat, ∃ acc,
          (List.range slot).foldlM (f.slotStep c select target) init = .ok acc ∧
            (select (c.after slot) = .error e ∨ ∃ entry, select (c.after slot) = .ok entry ∧ ¬ f.Skips entry ∧
              (f.extract (c.after slot) (target.element (TableEntry.widen entry)) = .error e ∨
                ∃ v, f.extract (c.after slot) (target.element (TableEntry.widen entry)) = .ok v ∧
                  f.combine acc v = .error e)) := by
  refine ⟨fun f select => eval_eq_foldlM f c select target, fun f select => ⟨eval_of_skips, fun e => ?_⟩⟩
  simp only [eval_eq_error, slotStep_eq_error]

/-- the entries of a row as digits in stored order, the slot without a neighbour left out -/
example :
    let digits : NeighborFold (Except Fault) Int :=
      ⟨.neighbor, .fixed 4, true, .ok 0, fun acc v => .ok (10 * acc + v), fun _ n => .ok n.offset.toInt⟩
    let entry (p : Bundle Handle) : Except Fault Int32 := (p.handle 0).read #[4, 1, -1, 3]
    (BoundFold.mk digits (.member 1)).eval (.member (.reading 4 0)) entry ⟨.reading 5 0, 1, 5⟩ = .ok 413 := by
  rfl

end BoundFold

end Stencil
