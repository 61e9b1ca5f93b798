/-
Tilings. The blocks of a grid that is large enough tile an extent: their ranges follow each other from zero to the
extent, and what lies behind the last block is empty. A schedule takes the blocks in some order; so a grid runs its
units in an order of all elements below the extent, each once.

- `Geometry.forExtent_le`: no smaller grid covers an extent;
- `Geometry.tiles`: the ranges of blocks of any width;
- `Schedule.perm_order`: the units of a grid are the elements below the extent, each once;
- `Pass.runBlocks_eq_none_iff`: a grid without a fault has run its units one after the other in that order;
- `Backend.dispatch_grid`: what all of this says of a parallel pass.
-/
import Mathlib.Tactic
import Stencil.Proofs.Engine.Grid
import Stencil.Proofs.Engine.Runs

namespace Stencil

/-! ## Ranges of blocks -/

namespace Geometry

variable {g : Geometry} {extent : UInt64}

/-- the elements of a block below an extent, in the order of its units -/
def elements (g : Geometry) (block extent : UInt64) : List Nat :=
  List.range' (g.activeRange block extent).1.toNat
    ((g.activeRange block extent).2.toNat - (g.activeRange block extent).1.toNat)

/-- the blocks of a grid tile an extent -/
structure Tiles (g : Geometry) (extent : UInt64) : Prop where
  /-- no range wraps: it is what the block has below the extent, over the natural numbers -/
  start : ∀ block, (g.activeRange block extent).1.toNat = min (block.toNat * g.threads.toNat) extent.toNat
  stop : ∀ block, (g.activeRange block extent).2.toNat = min ((block.toNat + 1) * g.threads.toNat) extent.toNat
  first : (g.activeRange 0 extent).1 = 0
  consecutive : ∀ block, block < g.blocks → (g.activeRange block extent).2 = (g.activeRange (block + 1) extent).1
  covers : ((List.range g.blocks.toNat).flatMap fun b => g.elements (.ofNat b) extent) = List.range extent.toNat
  idle : ∀ block, g.blocks ≤ block → (g.activeRange block extent).1 = (g.activeRange block extent).2

/-- the smallest grid covers the extent, and no grid of fewer blocks does -/
theorem forExtent_le (extent : UInt64) : extent.toNat ≤ (forExtent extent).blocks.toNat * 32 ∧
    ∀ blocks : Nat, extent.toNat ≤ blocks * 32 → (forExtent extent).blocks.toNat ≤ blocks := by
  rw [toNat_blocks]
  refine ⟨by omega, fun blocks h => by omega⟩

theorem toNat_start (g : Geometry) (block extent : UInt64) :
    (g.activeRange block extent).1.toNat = min (block.toNat * g.threads.toNat) extent.toNat :=
  (toNat_activeRange g block extent).1

theorem toNat_stop (g : Geometry) (block extent : UInt64) :
    (g.activeRange block extent).2.toNat = min ((block.toNat + 1) * g.threads.toNat) extent.toNat := by
  rw [(toNat_activeRange g block extent).2, Nat.succ_mul]
  omega

theorem elements_eq (g : Geometry) (block extent : UInt64) :
    g.elements block extent = List.range' (min (block.toNat * g.threads.toNat) extent.toNat)
      (min ((block.toNat + 1) * g.threads.toNat) extent.toNat - min (block.toNat * g.threads.toNat) extent.toNat) := by
  rw [elements, toNat_start, toNat_stop]

theorem flatMap_elements (g : Geometry) (extent : UInt64) {n : Nat} (hn : n ≤ 2 ^ 64) :
    ((List.range n).flatMap fun b => g.elements (.ofNat b) extent) =
      List.range (min (n * g.threads.toNat) extent.toNat) := by
  induction n with
  | zero => simp
  | succ n ih =>
    have hnum : (UInt64.ofNat n).toNat = n := UInt64.toNat_ofNat_of_lt' (show n < 2 ^ 64 by omega)
    have hle : n * g.threads.toNat ≤ (n + 1) * g.threads.toNat := Nat.mul_le_mul_right _ (Nat.le_succ n)
    rw [List.range_succ, List.flatMap_append, ih (by omega), List.flatMap_singleton, elements_eq, hnum,
      List.range_eq_range', List.range_eq_range']
    have happend := List.range'_append_1 (s := 0) (m := min (n * g.threads.toNat) extent.toNat)
      (n := min ((n + 1) * g.threads.toNat) extent.toNat - min (n * g.threads.toNat) extent.toNat)
    rw [Nat.zero_add] at happend
    rw [happend]
    congr 1
    omega

/-- **The blocks of a grid that is large enough tile the extent**, whatever their width. -/
theorem tiles (hcovers : extent.toNat ≤ g.blocks.toNat * g.threads.toNat) :
    g.Tiles extent where
  start block := toNat_start g block extent
  stop block := toNat_stop g block extent
  first := by
    rw [← UInt64.toNat_inj, toNat_start]
    simp
  consecutive block hblock := by
    have hlt := UInt64.lt_iff_toNat_lt.1 hblock
    have hblocks := g.blocks.toNat_lt
    have hnext : (block + 1).toNat = block.toNat + 1 := by
      rw [Pass.toNat_succ]
      omega
    rw [← UInt64.toNat_inj, toNat_stop, toNat_start, hnext]
  covers := by
    rw [flatMap_elements g extent (by have := g.blocks.toNat_lt; omega), Nat.min_eq_right hcovers]
  idle block hblock := by
    have hle := Nat.mul_le_mul_right g.threads.toNat (UInt64.le_iff_toNat_le.1 hblock)
    rw [← UInt64.toNat_inj, toNat_start, toNat_stop, Nat.succ_mul]
    omega

end Geometry

/-! ## Orders of units -/

namespace Schedule

/-- the order in which a grid over an extent takes its units -/
def order (schedule : Schedule) (extent : UInt64) : List UInt64 :=
  let g := Geometry.forExtent extent
  ((List.range g.blocks.toNat).flatMap fun position =>
    g.elements (.ofNat (schedule.piece g.blocks.toNat position)) extent).map UInt64.ofNat

/-- **A grid takes each element below the extent once**, in whatever order. -/
theorem perm_order (schedule : Schedule) (extent : UInt64) :
    (schedule.order extent).Perm ((List.range extent.toNat).map UInt64.ofNat) := by
  have htiles : (Geometry.forExtent extent).Tiles extent :=
    Geometry.tiles (Geometry.forExtent_le extent).1
  rw [order, ← htiles.covers]
  have hblocks := schedule.perm_pieces (Geometry.forExtent extent).blocks.toNat
  have hflat := hblocks.flatMap_right fun b => (Geometry.forExtent extent).elements (.ofNat b) extent
  rw [List.flatMap_map] at hflat
  exact hflat.map _

end Schedule

/-! ## Running units in the order of a grid -/

namespace Pass

variable {α : Type} {p : Pass α}

theorem runUnits_eq_runEach (n : Nat) (start : UInt64) (s : RunState α) :
    p.runUnits n start s = p.runEach ((List.range' start.toNat n).map UInt64.ofNat) s := by
  induction n generalizing start s with
  | zero => rfl
  | succ n ih =>
    have hrest : (List.range' (start + 1).toNat n).map UInt64.ofNat =
        (List.range' (start.toNat + 1) n).map UInt64.ofNat := by
      simp only [List.range'_eq_map_range, List.map_map]
      refine List.map_congr_left fun k _ => ?_
      simp only [Function.comp_apply, UInt64.ofNat_add, UInt64.ofNat_toNat]
      rfl
    rw [List.range'_succ, List.map_cons, UInt64.ofNat_toNat, runUnits, runEach]
    cases p.runUnit start s with
    | mk result s =>
      cases result with
      | ok u => simp only [ih, hrest]
      | error fault => rfl

/-- a block runs its elements in order -/
theorem runBlock_eq_runEach (p : Pass α) (g : Geometry) (extent : UInt64) (block : Nat) (s : RunState α) :
    p.runBlock g extent block s = p.runEach ((g.elements (.ofNat block) extent).map UInt64.ofNat) s :=
  runUnits_eq_runEach _ _ s

theorem runBlocks_isSome (p : Pass α) (schedule : Schedule) (g : Geometry) (extent : UInt64) (n position : Nat)
    (f : UnitFault) (s : RunState α) : (p.runBlocks schedule g extent n position (some f, s)).1.isSome = true := by
  induction n generalizing position f s with
  | zero => rfl
  | succ n ih =>
    rw [runBlocks]
    split
    · exact ih _ _ _
    · rcases earlier_some f (p.runBlock g extent (schedule.piece g.blocks.toNat position) s).1 with h | ⟨f', -, h⟩
      · simp only [h]
        exact ih _ _ _
      · simp only [h]
        exact ih _ _ _

/-- **A grid that ends without a fault** has run the units of its blocks one after the other. -/
theorem runBlocks_eq_none_iff (p : Pass α) (schedule : Schedule) (g : Geometry) (extent : UInt64) (n position : Nat)
    (s s' : RunState α) :
    p.runBlocks schedule g extent n position (none, s) = (none, s') ↔
      p.runEach (((List.range' position n).flatMap fun q =>
        g.elements (.ofNat (schedule.piece g.blocks.toNat q)) extent).map UInt64.ofNat) s = (none, s') := by
  induction n generalizing position s with
  | zero => rfl
  | succ n ih =>
    rw [List.range'_succ, List.flatMap_cons, List.map_append, runEach_append, ← runBlock_eq_runEach, runBlocks]
    simp only [Option.isSome_none, Bool.false_and, Bool.false_eq_true, if_false]
    cases p.runBlock g extent (schedule.piece g.blocks.toNat position) s with
    | mk found s₁ =>
      rw [earlier_none]
      cases found with
      | none => exact ih _ _
      | some f =>
        have hfault := runBlocks_isSome p schedule g extent n (position + 1) f s₁
        refine iff_of_false (fun h => ?_) (by simp)
        rw [h] at hfault
        cases hfault

end Pass

namespace Backend

variable {α : Type}

theorem statusOf_eq_success_iff (fault : Option UnitFault) : statusOf fault = .success ↔ fault = none := by
  cases fault with
  | none => simp [statusOf]
  | some f => simp [statusOf, LaunchStatus.ofFault]

/-- **A grid runs each element below the extent once.** The grid over an extent has the fewest blocks of 32 units that
cover it; the blocks of any grid that covers it tile it. So a parallel pass over an extent of at most `2 ^ 31 - 1`
blocks has an order of the elements below the extent, each once, and succeeds exactly if its units, run one after the
other in this order, all end without a fault, that is, if each takes its steps to the end of its body from where the one
before has ended; it then leaves what they leave. A pass over a larger extent runs no unit, and reports the number of
blocks. -/
theorem dispatch_grid (extent : UInt64) :
    ((Geometry.forExtent extent).threads = 32 ∧ extent.toNat ≤ (Geometry.forExtent extent).blocks.toNat * 32 ∧
      ∀ blocks : Nat, extent.toNat ≤ blocks * 32 → (Geometry.forExtent extent).blocks.toNat ≤ blocks) ∧
    (∀ g : Geometry, extent.toNat ≤ g.blocks.toNat * g.threads.toNat → g.Tiles extent) ∧
    ∀ b : Backend, b.kind = .parallel →
      ((extent.toNat + 31) / 32 ≤ 2 ^ 31 - 1 →
        ∃ order : List UInt64, order.Perm ((List.range extent.toNat).map UInt64.ofNat) ∧
          ∀ (fields : Bundle View) (body : Bundle Handle → Bundle (DimMap Int64) → Kernel α Unit) (s s' : RunState α),
            (b.dispatch extent fields body s = (.success, s') ↔
              (unitPass fields body).runEach order s = (none, s')) ∧
            (b.dispatch extent fields body s = (.success, s') ↔ (unitPass fields body).Ran order s s')) ∧
      (2 ^ 31 - 1 < (extent.toNat + 31) / 32 →
        ∃ blocks : UInt64, blocks.toNat = (extent.toNat + 31) / 32 ∧
          ∀ (fields : Bundle View) (body : Bundle Handle → Bundle (DimMap Int64) → Kernel α Unit) (s : RunState α),
            b.dispatch extent fields body s = (.invalidGeometry blocks, s)) := by
  refine ⟨⟨rfl, Geometry.forExtent_le extent⟩, fun g hcovers => Geometry.tiles hcovers, ?_⟩
  intro b hparallel
  constructor
  · intro hsmall
    refine ⟨b.schedule.order extent, b.schedule.perm_order extent, fun fields body s s' => ?_⟩
    have hvalid := (isValid_forExtent_iff extent).2 hsmall
    have hruns := (unitPass fields body).runBlocks_eq_none_iff b.schedule (Geometry.forExtent extent) extent
      (Geometry.forExtent extent).blocks.toNat 0 s s'
    rw [← List.range_eq_range'] at hruns
    have hend : b.dispatch extent fields body s = (.success, s') ↔
        (unitPass fields body).runEach (b.schedule.order extent) s = (none, s') := by
      rw [Schedule.order, ← hruns]
      simp only [dispatch, hparallel, hvalid, if_true, gridPass_eq, Prod.ext_iff, statusOf_eq_success_iff]
    exact ⟨hend, hend.trans Pass.runEach_eq_none_iff⟩
  · intro hlarge
    refine ⟨(Geometry.forExtent extent).blocks, Geometry.toNat_blocks extent, fun fields body s => ?_⟩
    have hinvalid : ¬ (Geometry.forExtent extent).isValid = true := by
      rw [isValid_forExtent_iff]
      omega
    simp only [dispatch, hparallel, hinvalid, if_false, Bool.false_eq_true]

end Backend

end Stencil
