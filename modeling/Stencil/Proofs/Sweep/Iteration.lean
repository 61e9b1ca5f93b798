/-
Loops over bundles. A loop visits all members of a bundle together: at every visit a member that carries the axis stands
where it would stand if it were moved alone, and any other member where it stood. All ways to run a loop make the same
visits, and none of them makes any if no member carries the axis.

- `members_visits`, `placeAlong_origin`: a member is visited where it leads when it is moved alone;
- `bind_of_carried`, `bind_of_not_carried`: a loop is bound exactly when some member carries its axis;
- `fold_eq_foldlM`, `forEach_eq_forM`: a bound loop folds over the visits and acts at each of them;
- `visits_spec`: all ways to run a loop over a bundle.
-/
import Mathlib.Tactic
import Stencil.Proofs.Sweep.Checking

namespace Stencil

variable {d : Dim} {n : Nat}

/-! ## Visits -/

/-- where a handle with strides stands at offset `i` along an axis: so many strides on, in the arithmetic of words, or
where it stood if it does not carry the axis -/
def placeAlong (d : Dim) (i : Nat) (e : Handle × DimMap Int64) : Handle :=
  match e.2.get? d with
  | some stride => e.1.moveTo (.ofInt (e.1.offset.toInt + i * stride.toInt))
  | none => e.1

/-- the handles at the offsets below `n` along an axis -/
def Bundle.visits (c : Bundle (Handle × DimMap Int64)) (d : Dim) (n : Nat) : List (Bundle Handle) :=
  (List.range n).map fun i => c.map (placeAlong d i)

theorem placeAlong_of_some {e : Handle × DimMap Int64} {stride : Int64} (h : e.2.get? d = some stride) (i : Nat) :
    placeAlong d i e = e.1.shiftBy stride (.ofNat i) := by
  have hoffset : Int64.ofInt (e.1.offset.toInt + i * stride.toInt) = e.1.offset + stride * .ofNat i := by
    rw [Int64.ofInt_add, Int64.ofInt_mul, Int64.ofInt_toInt, Int64.ofInt_toInt, Int64.mul_comm]
    rfl
  rw [placeAlong, h, Handle.shiftBy, ← hoffset]

theorem placeAlong_eq_shiftBy (e : Handle × DimMap Int64) (i : Nat) :
    placeAlong d i e = e.1.shiftBy (e.2.stepOf d) (.ofNat i) := by
  cases h : e.2.get? d with
  | some stride => rw [placeAlong_of_some h, DimMap.stepOf, h, Option.getD_some]
  | none => rw [placeAlong, h, DimMap.stepOf, h, Option.getD_none, Handle.shiftBy_zero]

/-- a view alone leads, when it is shifted, to where its handle is visited -/
theorem placeAlong_origin {v : View} (hd : d ∈ v.strides.keys) (i : Nat) :
    ∃ w, v.shifted d (.ofNat i) = .ok w ∧ placeAlong d i (v.origin, v.strides) = w.origin := by
  refine ⟨_, View.shifted_eq_moved hd (.ofNat i), ?_⟩
  rw [placeAlong_eq_shiftBy]
  rfl

/-- one visit for each offset, at which all members stand where each leads alone -/
theorem members_visits (c : Bundle (Handle × DimMap Int64)) {i : Nat} (hi : i < n) :
    ((c.visits d n)[i]?).map Bundle.members =
      some (c.members.map fun e => e.1.shiftBy (e.2.stepOf d) (.ofNat i)) := by
  rw [Bundle.visits, List.getElem?_map, List.getElem?_range hi, Option.map_some, Option.map_some, Bundle.members_map]
  exact congrArg (fun place => some (c.members.map place)) (funext fun e => placeAlong_eq_shiftBy e i)

/-! ## Ways to run a loop -/

theorem carries_map_snd {c : Bundle (Handle × DimMap Int64)} :
    (c.map Prod.snd).carries d = true ↔ ∃ e ∈ c.members, d ∈ e.2.keys := by
  rw [Bundle.carries_eq_any, Bundle.members_map, List.any_map, List.any_eq_true]
  simp only [Function.comp_apply, DimMap.contains_iff]

namespace Loop

variable {l : Loop} {c : Bundle (Handle × DimMap Int64)}

theorem bind_of_carried (h : ∃ e ∈ c.members, l.dim ∈ e.2.keys) :
    l.bind (c.map Prod.snd) = .ok ⟨c.map fun e => e.2.stepOf l.dim, l.extent⟩ := by
  rw [bind, Bundle.steps_of_carries (carries_map_snd.2 h), Bundle.stepsOf, Bundle.map_map]
  rfl

theorem bind_of_not_carried (h : ∀ e ∈ c.members, l.dim ∉ e.2.keys) :
    l.bind (c.map Prod.snd) = .error (.missingStride l.dim.label) := by
  have hnot : (c.map Prod.snd).carries l.dim = false := by
    rw [Bool.eq_false_iff]
    intro hcarries
    obtain ⟨e, he, hmem⟩ := carries_map_snd.1 hcarries
    exact h e he hmem
  rw [bind, Bundle.steps_of_not_carries hnot]
  rfl

end Loop

section ways

variable {m : Type → Type} [Monad m] {α : Type}

theorem foldlM_unit {β : Type} (f : β → m Unit) (bs : List β) : bs.foldlM (fun _ b => f b) () = forM bs f := by
  induction bs with
  | nil => rfl
  | cons b bs ih => exact congrArg (f b >>= ·) (funext fun _ => ih)

namespace BoundLoop

theorem fold_eq_foldlM (c : Bundle (Handle × DimMap Int64)) (extent : Extent) (init : α)
    (f : α → Bundle Handle → m α) : fold ⟨c.map fun e => e.2.stepOf d, extent⟩ (c.map Prod.fst) init f =
      (c.visits d extent.get.toNat).foldlM f init := by
  rw [fold, sweep_eq_foldlM, Bundle.visits, List.foldlM_map]
  simp only [← placeAlong_eq_shiftBy]

theorem forEach_eq_forM (c : Bundle (Handle × DimMap Int64)) (extent : Extent) (body : Bundle Handle → m Unit) :
    forEach ⟨c.map fun e => e.2.stepOf d, extent⟩ (c.map Prod.fst) body =
      forM (c.visits d extent.get.toNat) body := by
  rw [forEach, fold_eq_foldlM, foldlM_unit]

end BoundLoop

theorem Loop.run_of_carried {l : Loop} {c : Bundle (Handle × DimMap Int64)}
    (h : ∃ e ∈ c.members, l.dim ∈ e.2.keys) (body : Bundle Handle → Bundle (DimMap Int64) → m Unit) :
    l.run (c.map Prod.fst) (c.map Prod.snd) body =
      .ok (forM (c.visits l.dim l.extent.get.toNat) fun p => body p (c.map Prod.snd)) := by
  rw [run, bind_of_carried h]
  exact congrArg Except.ok (BoundLoop.forEach_eq_forM c l.extent _)

end ways

/-- **Loops over bundles**, with members in any groups, each with strides of its own. Without a member that carries the
axis, binding and running fail and nothing is done. With one, all ways to run the loop make one visit for each offset
below the extent, in ascending order, with members that carry the axis moved as if each were alone and the others in
their place. The handles given to the loop stay where they are, so that calling it again makes the same visits again. -/
theorem Loop.visits_spec (l : Loop) (c : Bundle (Handle × DimMap Int64)) :
    ((∀ e ∈ c.members, l.dim ∉ e.2.keys) →
      l.bind (c.map Prod.snd) = .error (.missingStride l.dim.label) ∧
      ∀ {m : Type → Type} [Monad m] (body : Bundle Handle → Bundle (DimMap Int64) → m Unit),
        l.run (c.map Prod.fst) (c.map Prod.snd) body = .error (.missingStride l.dim.label) ∧
        (l.apply body).call (c.map Prod.fst) (c.map Prod.snd) = .error (.missingStride l.dim.label)) ∧
    ((∃ e ∈ c.members, l.dim ∈ e.2.keys) →
      ∃ bound, l.bind (c.map Prod.snd) = .ok bound ∧ ∀ {m : Type → Type} [Monad m],
        (∀ body : Bundle Handle → Bundle (DimMap Int64) → m Unit, ∃ calls,
          l.run (c.map Prod.fst) (c.map Prod.snd) body = .ok calls ∧
          (l.apply body).call (c.map Prod.fst) (c.map Prod.snd) = .ok calls ∧
          calls = forM (c.visits l.dim l.extent.get.toNat) (fun p => body p (c.map Prod.snd)) ∧
          ∀ [LawfulMonad m], (calls >>= fun _ => calls) =
            forM (c.visits l.dim l.extent.get.toNat ++ c.visits l.dim l.extent.get.toNat)
              fun p => body p (c.map Prod.snd)) ∧
        (∀ body : Bundle Handle → m Unit, bound.forEach (c.map Prod.fst) body =
          forM (c.visits l.dim l.extent.get.toNat) body) ∧
        ∀ {α : Type} (init : α) (f : α → Bundle Handle → m α), bound.fold (c.map Prod.fst) init f =
          (c.visits l.dim l.extent.get.toNat).foldlM f init) ∧
    (∀ i < l.extent.get.toNat, ((c.visits l.dim l.extent.get.toNat)[i]?).map Bundle.members =
      some (c.members.map fun e => e.1.shiftBy (e.2.stepOf l.dim) (.ofNat i))) ∧
    ∀ v : View, l.dim ∈ v.strides.keys → ∀ i, ∃ w,
      v.shifted l.dim (.ofNat i) = .ok w ∧ placeAlong l.dim i (v.origin, v.strides) = w.origin := by
  refine ⟨fun hnone => ?_, fun hsome => ?_, fun i hi => members_visits c hi, fun v hd => placeAlong_origin hd⟩
  · have hbind := bind_of_not_carried hnone
    have hrun {m : Type → Type} [Monad m] (body : Bundle Handle → Bundle (DimMap Int64) → m Unit) :
        l.run (c.map Prod.fst) (c.map Prod.snd) body = .error (.missingStride l.dim.label) := by
      rw [run, hbind]
      rfl
    exact ⟨hbind, fun body => ⟨hrun body, hrun body⟩⟩
  · refine ⟨_, bind_of_carried hsome, ⟨fun body => ?_, BoundLoop.forEach_eq_forM c l.extent,
      BoundLoop.fold_eq_foldlM c l.extent⟩⟩
    refine ⟨_, run_of_carried hsome body, run_of_carried hsome body, rfl, ?_⟩
    exact List.forM_append.symm

end Stencil
