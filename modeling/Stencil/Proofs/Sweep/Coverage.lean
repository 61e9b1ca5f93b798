/-
Nested loops over a row-major field. The loops over the axes of the field, one in the body of another in the order of
the layout, go through its elements as they lie in the buffer. The volume of the inner axes is the stride of the outer
one, so that the passes of the inner loops follow one another without a gap.

- `forM_range_mul`: passes over blocks of equal length are one pass over all of them;
- `nest_rowSteps`: loops with row-major strides go through consecutive offsets, by induction over the nesting;
- `nest_spec`: nested loops cover a row-major field from its origin, each element once.
-/
import Mathlib.Tactic
import Stencil.Proofs.Sweep.Iteration

namespace Stencil

section nesting

variable {m : Type → Type} [Monad m]

/-! ## Nested loops -/

/-- the body within loops, each run in the body of the one in front of it, from the handles and with the strides there;
`refuse` says what happens where a loop cannot be run -/
def nest (refuse : ContractViolation → m Unit) (body : Bundle Handle → Bundle (DimMap Int64) → m Unit) :
    List Loop → Bundle Handle → Bundle (DimMap Int64) → m Unit
  | [], p, strides => body p strides
  | l :: loops, p, strides =>
    match l.run p strides (nest refuse body loops) with
    | .ok calls => calls
    | .error e => refuse e

variable [LawfulMonad m]

/-- a pass over `n` blocks of `k` elements each -/
theorem forM_range_mul (n k : Nat) (f : Nat → m Unit) :
    forM (List.range (n * k)) f = forM (List.range n) fun i => forM (List.range k) fun j => f (i * k + j) := by
  induction n with
  | zero => simp
  | succ n ih =>
    rw [Nat.succ_mul, List.range_add, List.forM_append, ih, List.range_succ, List.forM_append, List.forM_map]
    simp

variable {refuse : ContractViolation → m Unit} {body : Bundle Handle → Bundle (DimMap Int64) → m Unit}

theorem nest_cons {l : Loop} {e : Handle × DimMap Int64} (hd : l.dim ∈ e.2.keys) (loops : List Loop) :
    nest refuse body (l :: loops) (.member e.1) (.member e.2) =
      forM (List.range l.extent.get.toNat) fun i =>
        nest refuse body loops (.member (placeAlong l.dim i e)) (.member e.2) := by
  have hrun := Loop.run_of_carried (c := .member e) ⟨e, List.mem_singleton_self e, hd⟩ (nest refuse body loops)
  rw [Bundle.visits, List.forM_map] at hrun
  rw [nest]
  exact congrArg (fun r => match r with | .ok calls => calls | .error e => refuse e) hrun

/-! ## Row-major strides -/

/-- loops along axes with row-major strides go through consecutive offsets -/
theorem nest_rowSteps {strides : DimMap Int64} {loops : List Loop} {dims : List (Dim × UInt64)}
    (hloops : loops.map (fun l => (l.dim, l.extent.get)) = dims)
    (hsteps : ∀ s ∈ Layout.rowSteps dims, strides.get? s.1 = some (.ofNat s.2)) (h : Handle) (start : Nat) :
    nest refuse body loops (.member (h.moveTo (.ofNat start))) (.member strides) =
      forM (List.range (Layout.volume dims)) fun i =>
        body (.member (h.moveTo (.ofNat (start + i)))) (.member strides) := by
  induction loops generalizing dims start with
  | nil =>
    subst hloops
    simp [nest]
  | cons l loops ih =>
    subst hloops
    obtain ⟨hfirst, hrest⟩ := List.forall_mem_cons.1 hsteps
    have hplace (i : Nat) : placeAlong l.dim i (h.moveTo (.ofNat start), strides) =
        h.moveTo (.ofNat (start + i * Layout.volume (loops.map fun l => (l.dim, l.extent.get)))) := by
      rw [placeAlong_of_some hfirst, Handle.shiftBy, Int64.ofNat_add, Nat.mul_comm, Int64.ofNat_mul]
      rfl
    have hd : l.dim ∈ strides.keys := DimMap.mem_keys_of_mem (DimMap.mem_of_get?_eq_some hfirst)
    rw [nest_cons (e := (h.moveTo (.ofNat start), strides)) hd]
    -- the inner loops start at each place of the outer one, and run over the volume that is its stride
    simp only [hplace, ih rfl hrest]
    rw [List.map_cons, Layout.volume_cons, forM_range_mul]
    simp only [Nat.add_assoc]

/-- **Nested loops cover a row-major field.** From the start of a view with the strides of a row-major layout, loops
over all axes in the order of the layout, each with the extent of its axis, visit the offsets below the span, in
ascending order and each once. An offset is a word; as a signed word it is the same up to the largest. -/
theorem nest_spec {dims : List (Dim × UInt64)} {r : ResolvedLayout} {v : View} {loops : List Loop}
    (hr : (Layout.rowMajor dims).resolve = .ok r) (hstrides : v.strides = r.strides) (hstart : v.offset = 0)
    (hloops : loops.map (fun l => (l.dim, l.extent.get)) = dims) :
    (nest refuse body loops (.member v.origin) (.member v.strides) =
      forM (List.range r.span) fun i => body (.member (v.origin.moveTo (.ofNat i))) (.member v.strides)) ∧
    ∀ i < r.span, (Int64.ofNat i).toUInt64.toNat = i ∧ (i ≤ signedMax → (Int64.ofNat i).toInt = i) := by
  obtain ⟨-, -, hvol, -, hspan, hs, -⟩ := Layout.resolve_rowMajor.1 hr
  refine ⟨?_, fun i hi => ⟨?_, toInt_ofNat_of_le⟩⟩
  · have horigin : v.origin.moveTo (.ofNat 0) = v.origin := by
      rw [View.origin, hstart]
      rfl
    have hsteps : ∀ s ∈ Layout.rowSteps dims, v.strides.get? s.1 = some (.ofNat s.2) := by
      intro s hmem
      rw [hstrides]
      exact DimMap.get?_eq_some_of_mem (hs ▸ List.mem_map.2 ⟨s, hmem, rfl⟩)
    calc nest refuse body loops (.member v.origin) (.member v.strides)
        = nest refuse body loops (.member (v.origin.moveTo (.ofNat 0))) (.member v.strides) := by rw [horigin]
      _ = forM (List.range (Layout.volume dims)) fun i =>
            body (.member (v.origin.moveTo (.ofNat (0 + i)))) (.member v.strides) :=
          nest_rowSteps hloops hsteps v.origin 0
      _ = forM (List.range r.span) fun i => body (.member (v.origin.moveTo (.ofNat i))) (.member v.strides) := by
          rw [hspan]
          simp only [Nat.zero_add]
  · have hword : i < UInt64.size := by
      simp only [wordMax, UInt64.size] at hvol ⊢
      omega
    rw [Int64.toUInt64_ofNat', UInt64.toNat_ofNat_of_lt' hword]

/-- loops over three elements, one slot and two levels -/
def boxLoops : List Loop := [⟨.horizontal, .given 3⟩, ⟨.neighbor, .fixed 1⟩, ⟨.vertical, .given 2⟩]

/-- the offsets that loops visit, logged by their body -/
def visitedOffsets (loops : List Loop) (v : View) : List Int :=
  (nest (m := StateM (List Int)) (fun _ => pure ()) (fun p _ => modify fun log => log ++ [(p.handle 0).offset.toInt])
    loops (.member v.origin) (.member v.strides) []).2

/-- six elements in three columns with one slot are visited from the first to the last -/
theorem nest_spec_box : ∃ r v, (Layout.rowMajor [(.horizontal, 3), (.neighbor, 1), (.vertical, 2)]).resolve = .ok r ∧
    View.ofLayout .readOnly 6 (.rowMajor [(.horizontal, 3), (.neighbor, 1), (.vertical, 2)]) .host = .ok v ∧
      v.strides = r.strides ∧ v.offset = 0 ∧ r.span = 6 ∧ visitedOffsets boxLoops v = [0, 1, 2, 3, 4, 5] := by
  refine ⟨_, _, rfl, rfl, rfl, rfl, rfl, ?_⟩
  rw [visitedOffsets, (nest_spec rfl rfl rfl rfl).1]
  rfl

end nesting

end Stencil
