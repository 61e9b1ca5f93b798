/-
Grids. The blocks of a grid cover an extent without gaps or overlaps, and a schedule visits each block once; so a grid
runs each element below the extent at most once, in whatever order the blocks are taken, and all of them unless a unit
faults.

- `Geometry.inBlock_iff`: the units of a block are the stretch of its range;
- `Pass.runBlocks_ends`: a grid in the order of a schedule keeps the cells settled;
- `Backend.dispatch_ends`: both backends leave settled cells, and succeed exactly when every unit completes alone.
-/
import Mathlib.Tactic
import Stencil.Proofs.Engine.Units
import Stencil.Proofs.WorkOrder

namespace Stencil

/-! ## Blocks -/

namespace Geometry

theorem toNat_min (a b : UInt64) : (min a b).toNat = min a.toNat b.toNat := by
  show (ite (a ≤ b) a b).toNat = _
  split
  · next h => rw [Nat.min_eq_left (UInt64.le_iff_toNat_le.1 h)]
  · next h =>
    have : ¬ a.toNat ≤ b.toNat := fun h' => h (UInt64.le_iff_toNat_le.2 h')
    omega

theorem toNat_blocks (extent : UInt64) : (forExtent extent).blocks.toNat = (extent.toNat + 31) / 32 := by
  have h32 : threadsPerBlock.toNat = 32 := rfl
  have hlt := extent.toNat_lt
  simp only [forExtent, UInt64.toNat_add, UInt64.toNat_div, h32]
  split
  · next h =>
    have : extent.toNat % 32 = 0 := by simpa [h32] using congrArg UInt64.toNat h
    simp only [UInt64.toNat_zero]
    omega
  · next h =>
    have : extent.toNat % 32 ≠ 0 := fun h0 => h (UInt64.toNat_inj.1 (by simpa [h32] using h0))
    simp only [UInt64.toNat_one]
    omega

theorem toNat_activeRange (g : Geometry) (block extent : UInt64) :
    (g.activeRange block extent).1.toNat = min (block.toNat * g.threads.toNat) extent.toNat ∧
      (g.activeRange block extent).2.toNat =
        min (min (block.toNat * g.threads.toNat) extent.toNat + g.threads.toNat) extent.toNat := by
  have := toNat_le_wordMax extent
  simp only [activeRange, toNat_min, toNat_clamp]
  omega

/-- whether a unit belongs to a block of the smallest grid over an extent -/
def InBlock (extent : UInt64) (b : Nat) (i : UInt64) : Prop := i.toNat / 32 = b ∧ i < extent

/-- the units of a block are a stretch -/
theorem inBlock_iff {extent : UInt64} {b : Nat} (hb : b < (forExtent extent).blocks.toNat) (i : UInt64) :
    let range := (forExtent extent).activeRange (.ofNat b) extent
    InBlock extent b i ↔ Pass.Stretch range.1.toNat (range.2.toNat - range.1.toNat) i := by
  intro range
  have hlt := extent.toNat_lt
  rw [toNat_blocks] at hb
  obtain ⟨h1, h2⟩ := toNat_activeRange (forExtent extent) (.ofNat b) extent
  have ht : (forExtent extent).threads.toNat = 32 := rfl
  have hn : (UInt64.ofNat b).toNat = b := UInt64.toNat_ofNat_of_lt' (show b < 2 ^ 64 by omega)
  rw [ht, hn] at h1 h2
  simp only [InBlock, Pass.Stretch, range, h1, h2, UInt64.lt_iff_toNat_lt]
  omega

end Geometry

/-! ## Running a grid -/

namespace Pass

variable {α : Type} {p : Pass α} {c : Cells α}

/-- how the blocks before a position have ended: the cells are settled, and either every unit of these blocks has
completed or a unit below the extent has faulted -/
def GridEnds (p : Pass α) (c : Cells α) (schedule : Schedule) (extent : UInt64) (position : Nat)
    (r : Option UnitFault × RunState α) : Prop :=
  let visited (i : UInt64) : Prop :=
    ∃ q < position, Geometry.InBlock extent (schedule.piece (Geometry.forExtent extent).blocks.toNat q) i
  ∃ ran, (∀ i, ran i → visited i) ∧ p.Settled c ran r.2.cells ∧
    ((r.1 = none ∧ ∀ i, visited i → ran i ∧ p.Completes c i) ∨
      ∃ f, r.1 = some f ∧ f.index < extent ∧ (p.solo c f.index).1 = .error f.fault)

theorem earlier_none (f : Option UnitFault) : earlier none f = f := by cases f <;> rfl

theorem earlier_some (f : UnitFault) (g : Option UnitFault) :
    earlier (some f) g = some f ∨ ∃ f', g = some f' ∧ earlier (some f) g = some f' := by
  cases g with
  | none => exact Or.inl rfl
  | some f' =>
    simp only [earlier]
    split
    · exact Or.inr ⟨f', rfl, rfl⟩
    · exact Or.inl rfl

/-- one more block of a grid -/
theorem runBlock_gridEnds (hp : p.Isolated) {schedule : Schedule} {extent : UInt64} {position : Nat}
    (hpos : position < (Geometry.forExtent extent).blocks.toNat) {fault : Option UnitFault} {s : RunState α}
    (h : p.GridEnds c schedule extent position (fault, s)) :
    let g := Geometry.forExtent extent
    let r := p.runBlock g extent (schedule.piece g.blocks.toNat position) s
    p.GridEnds c schedule extent (position + 1) (earlier fault r.1, r.2) := by
  intro g r
  obtain ⟨ran, hran, hs, hend⟩ := h
  set b := schedule.piece g.blocks.toNat position
  have hb : b < g.blocks.toNat := schedule.piece_lt hpos
  have inBlock := Geometry.inBlock_iff hb
  set range := g.activeRange (.ofNat b) extent
  have hr : r = p.runUnits (range.2.toNat - range.1.toNat) range.1 s := rfl
  have hroom : range.1.toNat + (range.2.toNat - range.1.toNat) ≤ 2 ^ 64 := by
    have := range.1.toNat_lt
    have := range.2.toNat_lt
    omega
  have hfresh : ∀ i, Stretch range.1.toNat (range.2.toNat - range.1.toNat) i → ¬ ran i := by
    intro i hi hri
    obtain ⟨q, hq, hqi⟩ := hran i hri
    have heq : schedule.piece g.blocks.toNat q = b := hqi.1.symm.trans ((inBlock i).2 hi).1
    have := schedule.piece_inj (Nat.lt_trans hq hpos) hpos heq
    omega
  obtain ⟨ran', ha, hb', hc, hd⟩ := runUnits_ends hp _ range.1 s hroom hs hfresh
  rw [← hr] at hc hd
  have hlt : ∀ i, Stretch range.1.toNat (range.2.toNat - range.1.toNat) i → i < extent := fun i hi =>
    ((inBlock i).2 hi).2
  refine ⟨ran', ?_, hc, ?_⟩
  · intro i hi
    rcases hb' i hi with h | h
    · obtain ⟨q, hq, hqi⟩ := hran i h
      exact ⟨q, by omega, hqi⟩
    · exact ⟨position, by omega, (inBlock i).2 h⟩
  · rcases hend with ⟨hnone, hall⟩ | ⟨f, hf, hfi, hfe⟩
    · simp only at hnone
      subst hnone
      rw [earlier_none]
      rcases hd with ⟨hnone', hall'⟩ | ⟨f, hf, hfu, hfe⟩
      · refine Or.inl ⟨hnone', ?_⟩
        rintro i ⟨q, hq, hqi⟩
        rcases Nat.lt_succ_iff_lt_or_eq.1 hq with hq | rfl
        · obtain ⟨h1, h2⟩ := hall i ⟨q, hq, hqi⟩
          exact ⟨ha i h1, h2⟩
        · exact hall' i ((inBlock i).1 hqi)
      · exact Or.inr ⟨f, hf, hlt _ hfu, hfe⟩
    · simp only at hf
      subst hf
      right
      rcases earlier_some f r.1 with he | ⟨f', hf', he⟩
      · exact ⟨f, he, hfi, hfe⟩
      · rcases hd with ⟨hnone', -⟩ | ⟨f'', hf'', hfu, hfe'⟩
        · rw [hf'] at hnone'
          cases hnone'
        · rw [hf'] at hf''
          cases hf''
          exact ⟨f', he, hlt _ hfu, hfe'⟩

theorem GridEnds.skip {schedule : Schedule} {extent : UInt64} {position : Nat} {fault : Option UnitFault}
    {s : RunState α} (h : p.GridEnds c schedule extent position (fault, s)) (hf : fault.isSome = true) :
    p.GridEnds c schedule extent (position + 1) (fault, s) := by
  obtain ⟨ran, hran, hs, hend⟩ := h
  refine ⟨ran, ?_, hs, ?_⟩
  · intro i hi
    obtain ⟨q, hq, hqi⟩ := hran i hi
    exact ⟨q, by omega, hqi⟩
  · rcases hend with ⟨hnone, -⟩ | hfault
    · simp only at hnone
      rw [hnone] at hf
      cases hf
    · exact Or.inr hfault

theorem runBlocks_ends (hp : p.Isolated) (schedule : Schedule) (extent : UInt64) (n position : Nat)
    (r : Option UnitFault × RunState α) (hn : position + n = (Geometry.forExtent extent).blocks.toNat)
    (h : p.GridEnds c schedule extent position r) :
    p.GridEnds c schedule extent (position + n)
      (p.runBlocks schedule (Geometry.forExtent extent) extent n position r) := by
  induction n generalizing position r with
  | zero => exact h
  | succ n ih =>
    obtain ⟨fault, s⟩ := r
    rw [runBlocks, show position + (n + 1) = (position + 1) + n by omega]
    split
    · next hskip =>
      simp only [Bool.and_eq_true] at hskip
      exact ih _ _ (by omega) (h.skip hskip.1)
    · exact ih _ _ (by omega) (runBlock_gridEnds hp (by omega) h)

end Pass

/-! ## Dispatching -/

namespace Backend

variable {α : Type}

/-- the units of a pass over a bundle, each with the handles of its element -/
def unitPass (fields : Bundle View) (body : Bundle Handle → Bundle (DimMap Int64) → Kernel α Unit) : Pass α :=
  ⟨fields.elementOrigin .horizontal, fields.strides, body⟩

theorem getElem?_members_elementOrigin (fields : Bundle View) (d : Dim) (i : UInt64) (m : Nat) :
    (fields.elementOrigin d i).members[m]? = (fields.members[m]?).map fun v => v.elementOrigin d i := by
  rw [Bundle.elementOrigin, Bundle.members_map, List.getElem?_map]

theorem writable_of_writes {v : View} {d : Dim} {i : UInt64} {offset : Int64} {q : Nat}
    (h : ((v.elementOrigin d i).moveTo offset).writeIndex? = some q) : v.access = .writable := by
  cases hw : v.access with
  | writable => rfl
  | readOnly =>
    have : (v.elementOrigin d i).access = .readOnly := (v.access_elementOrigin d i).trans hw
    simp only [Handle.writeIndex?, Handle.moveTo, this] at h
    cases h

/-- **The units of a pass do not interfere.** -/
theorem unitPass_isolated (fields : Bundle View) (body : Bundle Handle → Bundle (DimMap Int64) → Kernel α Unit) :
    (unitPass fields body).Isolated := by
  rintro i j hij m q ⟨h, a, hm, hw⟩ ⟨h', b, hm', hr⟩
  obtain ⟨v, hv, rfl⟩ :=
    Option.map_eq_some_iff.1 ((getElem?_members_elementOrigin fields .horizontal i m).symm.trans hm)
  obtain ⟨v', hv', rfl⟩ :=
    Option.map_eq_some_iff.1 ((getElem?_members_elementOrigin fields .horizontal j m).symm.trans hm')
  obtain rfl : v = v' := Option.some.inj (hv.symm.trans hv')
  exact View.index?_disjoint (writable_of_writes hw) hij (Handle.index?_of_writeIndex? hw) hr

theorem unitOrigin_share (fields : Bundle View) (u : View.LaunchUnit) :
    fields.share.unitOrigin u = fields.elementOrigin u.dim u.index := by
  rw [Bundle.share, Bundle.unitOrigin, Bundle.map_map, Bundle.elementOrigin]
  exact congrArg (fun f => fields.map f) (funext fun v => View.unitOrigin_share v u)

theorem gridPass_eq (fields : Bundle View) (body : Bundle Handle → Bundle (DimMap Int64) → Kernel α Unit) :
    (⟨fun index => fields.share.unitOrigin ⟨.horizontal, index⟩, fields.strides, body⟩ : Pass α) =
      unitPass fields body := by
  unfold unitPass
  congr 1
  exact funext fun index => unitOrigin_share fields ⟨.horizontal, index⟩

theorem isValid_forExtent_iff (extent : UInt64) :
    (Geometry.forExtent extent).isValid = true ↔ (extent.toNat + 31) / 32 ≤ 2 ^ 31 - 1 := by
  have hmax : maxGridBlocks.toNat = 2 ^ 31 - 1 := by decide
  have hthreads : 0 < (Geometry.forExtent extent).threads := show 0 < threadsPerBlock by decide
  simp only [Geometry.isValid, hthreads, decide_true, Bool.and_true, decide_eq_true_eq, UInt64.le_iff_toNat_le,
    Geometry.toNat_blocks, hmax]

/-- how a dispatch has ended: the cells are settled, and either every unit below the extent has completed or one of
them has faulted -/
def DispatchEnds (pass : Pass α) (c : Cells α) (extent : UInt64) (r : LaunchStatus × RunState α) : Prop :=
  ∃ ran, (∀ i, ran i → i < extent) ∧ pass.Settled c ran r.2.cells ∧
    ((r.1 = .success ∧ ∀ i, i < extent → ran i ∧ pass.Completes c i) ∨
      ∃ f : UnitFault, r.1 = .ofFault f.fault ∧ f.index < extent ∧ (pass.solo c f.index).1 = .error f.fault)

/-- **Both backends run the units as if each were alone.** -/
theorem dispatch_ends (b : Backend) (extent : UInt64) (hext : extent.toNat ≤ 32 * (2 ^ 31 - 1)) (fields : Bundle View)
    (body : Bundle Handle → Bundle (DimMap Int64) → Kernel α Unit) (s : RunState α) :
    DispatchEnds (unitPass fields body) s.cells extent (b.dispatch extent fields body s) := by
  have isolated := unitPass_isolated fields body
  have start := Pass.Settled.refl (unitPass fields body) s.cells
  unfold dispatch
  cases b.kind with
  | sequential =>
    obtain ⟨ran, -, hran, hs, hend⟩ := Pass.runUnits_ends isolated extent.toNat 0 s
      (by have := extent.toNat_lt; simp; omega) start (fun _ _ h => h)
    have hin : ∀ i, Pass.Stretch (UInt64.toNat 0) extent.toNat i ↔ i < extent := by
      intro i
      simp [Pass.Stretch, UInt64.lt_iff_toNat_lt]
    refine ⟨ran, fun i hi => (hin i).1 ((hran i hi).resolve_left id), hs, ?_⟩
    rcases hend with ⟨hnone, hall⟩ | ⟨f, hf, hfu, hfe⟩
    · exact Or.inl ⟨congrArg statusOf hnone, fun i hi => hall i ((hin i).2 hi)⟩
    · exact Or.inr ⟨f, congrArg statusOf hf, (hin f.index).1 hfu, hfe⟩
  | parallel =>
    have hblocks := Geometry.toNat_blocks extent
    have hvalid := (isValid_forExtent_iff extent).2 (by omega)
    simp only [hvalid, if_true, gridPass_eq]
    obtain ⟨ran, hran, hs, hend⟩ := Pass.runBlocks_ends isolated b.schedule extent
      (Geometry.forExtent extent).blocks.toNat 0 (none, s) (by omega)
      ⟨_, fun _ h => h.elim, start, Or.inl ⟨rfl, fun i hi => by obtain ⟨q, hq, -⟩ := hi; omega⟩⟩
    refine ⟨ran, ?_, hs, ?_⟩
    · intro i hi
      obtain ⟨q, -, -, hlt⟩ := hran i hi
      exact hlt
    · rcases hend with ⟨hnone, hall⟩ | ⟨f, hf, hfi, hfe⟩
      · refine Or.inl ⟨congrArg statusOf hnone, ?_⟩
        intro i hi
        apply hall i
        have hi' := UInt64.lt_iff_toNat_lt.1 hi
        obtain ⟨q, hq, hqb⟩ := b.schedule.exists_turn
          (show i.toNat / 32 < (Geometry.forExtent extent).blocks.toNat by omega)
        exact ⟨q, by omega, hqb.symm, hi⟩
      · exact Or.inr ⟨f, congrArg statusOf hf, hfi, hfe⟩

/-! ## Launching -/

theorem launch_of_accepted {b : Backend} {extent : UInt64} {fields : Bundle View}
    (hcheck : fields.checkOuter .horizontal extent b.storage = .ok ()) (op : String)
    (body : Bundle Handle → Bundle (DimMap Int64) → Kernel α Unit) (s : RunState α) :
    b.launch op extent fields body s =
      (checkLaunch op (b.dispatch extent fields body s).1 b.config.failurePolicy,
        (b.dispatch extent fields body s).2) := by
  simp only [launch, hcheck]

theorem checkLaunch_ne_contract (op : String) (status : LaunchStatus) (policy : FailurePolicy)
    (e : ContractViolation) : checkLaunch op status policy ≠ .error (.error (.contract e)) := by
  cases status <;> cases policy <;> simp [checkLaunch, LaunchStatus.isSuccess, Failure.escalate]

end Backend

end Stencil
