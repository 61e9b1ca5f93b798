/-
What the phase of an invocation tells. It is documented to tell what has come about: building while no temporary has been
handed out and no pass has started, allocating once a temporary has been handed out, and executing once a pass has
started, that is, has run a unit or has succeeded. But an operation moves the phase before its outcome is known. So the
phase tells what has been asked for, and the two differ where all that was asked for has been refused.

- `Backend.runsUnit_iff`, `Event.starts_iff`: when a launch runs a unit, and when a pass starts;
- `Event.phase_after`: where a call moves the phase;
- `PhaseOf.next`, `Client.phaseOf_ends`: what the phase tells after one call more, and after all calls of a client;
- `phase_spec`: what the phase of an invocation tells, when that is what is documented, and which calls leave it as it
  was.
-/
import Mathlib.Tactic
import Stencil.Proofs.Engine.Frame
import Stencil.Proofs.Engine.History

namespace Stencil

/-! ## Whether a launch runs a unit -/

section Units

variable {α : Type}

theorem Geometry.elements_ne_nil {extent : UInt64} {block : Nat} (h : block < (forExtent extent).blocks.toNat) :
    (forExtent extent).elements (.ofNat block) extent ≠ [] := by
  have hlt := extent.toNat_lt
  rw [toNat_blocks] at h
  have hnum : (UInt64.ofNat block).toNat = block := UInt64.toNat_ofNat_of_lt' (show block < 2 ^ 64 by omega)
  have hthreads : (forExtent extent).threads.toNat = 32 := rfl
  rw [elements_eq, hnum, hthreads, ne_eq, List.range'_eq_nil_iff]
  omega

theorem Kernel.reported_run {ρ : Type} (k : Kernel α ρ) (handles : List Handle) (s : RunState α) :
    s.reported <:+ (k.run handles s).2.reported := by
  induction k generalizing s with
  | done r => exact List.suffix_rfl
  | fault f => exact List.suffix_rfl
  | load m o next ih => exact ih _ s
  | store m o v next ih =>
    rw [run]
    split
    · next i h => exact ih true ⟨s.cells.put m i v, s.reported⟩
    · exact ih false s
  | emit row next ih =>
    rw [run]
    exact (List.suffix_cons row s.reported).trans (ih () ⟨s.cells, row :: s.reported⟩)

section Growing

variable {p : Pass α} {measure : RunState α → Nat} (hunit : ∀ i s, measure s < measure (p.runUnit i s).2)
include hunit

/-- what every unit adds to, some units add to -/
theorem Pass.lt_runEach {is : List UInt64} (his : is ≠ []) (s : RunState α) :
    measure s < measure (p.runEach is s).2 := by
  obtain ⟨i, is, rfl⟩ := List.exists_cons_of_ne_nil his
  have hfirst := hunit i s
  rw [runEach]
  split
  · next h =>
    rw [h] at hfirst
    exact runEach_keeps (P := fun t => measure s < measure t) is (fun j _ t ht => ht.trans (hunit j t)) hfirst
  · next h =>
    rw [h] at hfirst
    exact hfirst

theorem Pass.lt_runBlocks (schedule : Schedule) {extent : UInt64} (hsome : 0 < extent.toNat) (s : RunState α) :
    let g := Geometry.forExtent extent
    measure s < measure (p.runBlocks schedule g extent g.blocks.toNat 0 (none, s)).2 := by
  intro g
  have hblocks : g.blocks.toNat = (extent.toNat + 31) / 32 := Geometry.toNat_blocks extent
  obtain ⟨n, hn⟩ := Nat.exists_eq_succ_of_ne_zero (show g.blocks.toNat ≠ 0 by omega)
  have hfirst : measure s < measure (p.runBlock g extent (schedule.piece g.blocks.toNat 0) s).2 := by
    rw [runBlock_eq_runEach]
    apply lt_runEach hunit
    rw [ne_eq, List.map_eq_nil_iff]
    exact Geometry.elements_ne_nil (schedule.piece_lt (show 0 < g.blocks.toNat by omega))
  rw [hn, runBlocks]
  exact runBlocks_keeps (P := fun t => measure s < measure t) (fun j _ t ht => ht.trans (hunit j t)) schedule g n 1 _
    hfirst

end Growing

namespace Backend

/-- whether the blocks of a backend cover an extent -/
def Covers (b : Backend) (extent : UInt64) : Prop := b.kind = .parallel → (extent.toNat + 31) / 32 ≤ 2 ^ 31 - 1

/-- a body that reports itself before anything else -/
def announced (body : Bundle Handle → Bundle (DimMap Int64) → Kernel α Unit) (handles : Bundle Handle)
    (strides : Bundle (DimMap Int64)) : Kernel α Unit := .emit [] fun _ => body handles strides

/-- whether a launch runs a unit: if its units reported themselves first, there would be a report -/
def RunsUnit (b : Backend) (op : String) (extent : UInt64) (fields : Bundle View)
    (body : Bundle Handle → Bundle (DimMap Int64) → Kernel α Unit) (s : RunState α) : Prop :=
  (b.launch op extent fields (announced body) s).2.reported ≠ s.reported

variable {b : Backend} {extent : UInt64} {fields : Bundle View}

theorem dispatch_of_not_covers (h : ¬ b.Covers extent)
    (body : Bundle Handle → Bundle (DimMap Int64) → Kernel α Unit) (s : RunState α) :
    b.dispatch extent fields body s = (.invalidGeometry (Geometry.forExtent extent).blocks, s) := by
  obtain ⟨hparallel, hlarge⟩ := Classical.not_imp.1 h
  have hinvalid : ¬ (Geometry.forExtent extent).isValid = true := fun hvalid =>
    hlarge ((isValid_forExtent_iff extent).1 hvalid)
  simp only [dispatch, hparallel, hinvalid, if_false, Bool.false_eq_true]

theorem dispatch_of_empty (body : Bundle Handle → Bundle (DimMap Int64) → Kernel α Unit) (s : RunState α) :
    b.dispatch 0 fields body s = (.success, s) := by
  unfold dispatch
  cases b.kind with
  | sequential => rfl
  | parallel => rfl

/-- a pass over some elements that the blocks cover adds to what every unit adds to -/
theorem lt_dispatch (hcovers : b.Covers extent) (hsome : 0 < extent.toNat)
    {body : Bundle Handle → Bundle (DimMap Int64) → Kernel α Unit} {measure : RunState α → Nat}
    (hunit : ∀ i s, measure s < measure ((unitPass fields body).runUnit i s).2) (s : RunState α) :
    measure s < measure (b.dispatch extent fields body s).2 := by
  unfold dispatch
  cases hkind : b.kind with
  | sequential =>
    have hunits := Pass.runUnits_eq_runEach (p := unitPass fields body) extent.toNat 0 s
    have hnonempty : (List.range' (UInt64.toNat 0) extent.toNat).map UInt64.ofNat ≠ [] := by simpa using hsome.ne'
    have hlt := Pass.lt_runEach hunit hnonempty s
    rw [← hunits] at hlt
    exact hlt
  | parallel =>
    have hvalid := (isValid_forExtent_iff extent).2 (hcovers hkind)
    simp only [hvalid, if_true, gridPass_eq]
    exact Pass.lt_runBlocks hunit b.schedule hsome s

/-- **A launch runs a unit** exactly when it is accepted, its blocks cover the extent, and there are elements. -/
theorem runsUnit_iff (op : String) (body : Bundle Handle → Bundle (DimMap Int64) → Kernel α Unit) (s : RunState α) :
    b.RunsUnit op extent fields body s ↔
      fields.checkOuter .horizontal extent b.storage = .ok () ∧ b.Covers extent ∧ extent ≠ 0 := by
  unfold RunsUnit
  cases hcheck : fields.checkOuter .horizontal extent b.storage with
  | error e => simp [launch, hcheck]
  | ok u =>
    rw [launch_of_accepted hcheck, and_iff_right rfl]
    by_cases hcovers : b.Covers extent
    · by_cases hzero : extent = 0
      · subst hzero
        simp [dispatch_of_empty]
      · have hsome : 0 < extent.toNat := Nat.pos_of_ne_zero fun h => hzero (UInt64.toNat_inj.1 h)
        have hunit (i : UInt64) (t : RunState α) :
            t.reported.length < ((unitPass fields (announced body)).runUnit i t).2.reported.length :=
          (Kernel.reported_run (body (fields.elementOrigin .horizontal i) fields.strides)
            (fields.elementOrigin .horizontal i).members ⟨t.cells, [] :: t.reported⟩).length_le
        have hlt := lt_dispatch hcovers hsome hunit s
        refine iff_of_true ?_ ⟨hcovers, hzero⟩
        intro h
        exact hlt.ne (congrArg List.length h.symm)
    · simp [dispatch_of_not_covers hcovers, hcovers]

theorem accepted_of_launch_eq_ok {op : String} {body : Bundle Handle → Bundle (DimMap Int64) → Kernel α Unit}
    {s : RunState α} (h : (b.launch op extent fields body s).1 = .ok ()) :
    fields.checkOuter .horizontal extent b.storage = .ok () ∧ b.Covers extent := by
  cases hcheck : fields.checkOuter .horizontal extent b.storage with
  | error e =>
    simp only [launch, hcheck] at h
    cases h
  | ok u =>
    refine ⟨rfl, ?_⟩
    by_contra hcovers
    rw [launch_of_accepted hcheck, dispatch_of_not_covers hcovers] at h
    cases h

end Backend

end Units

/-! ## What has come about -/

namespace Invocation

/-- whether a call is a pass that starts: it runs a unit, or it succeeds -/
def Event.Starts : Event → Prop
  | ⟨.pass op extent fields body s, inv⟩ =>
    inv.launcher.RunsUnit op extent fields body s ∨ (inv.pass op extent fields body s).1 = .ok ()
  | _ => False

/-- whether a temporary has been asked for -/
def Requested (past : List Event) : Prop := ∃ e ∈ past, e.call.isAllocation = true

/-- whether a temporary has been handed out -/
def HandedOut (past : List Event) : Prop := ∃ e ∈ past, e.granted.isSome = true

/-- whether a pass has started -/
def Started (past : List Event) : Prop := ∃ e ∈ past, e.Starts

/-- what the phase is documented to tell -/
structure Documented (past : List Event) (phase : Phase) : Prop where
  building : phase = .building ↔ ¬ HandedOut past ∧ ¬ Started past
  allocating : phase = .allocating ↔ HandedOut past ∧ ¬ Started past
  executing : (∃ pass, phase = .executing pass) ↔ Started past

section Pass

variable {α : Type} {inv : Invocation} {op : String} {extent : UInt64} {fields : Bundle View}
  {body : Bundle Handle → Bundle (DimMap Int64) → Kernel α Unit} {s : RunState α}

theorem storage_launcher : inv.launcher.storage = inv.storage := rfl

theorem covers_launcher : inv.launcher.Covers extent ↔ inv.backend.Covers extent := Iff.rfl

theorem pass_eq_ok_iff :
    (inv.pass op extent fields body s).1 = .ok () ↔ (inv.launcher.launch op extent fields body s).1 = .ok () := by
  cases hlaunch : inv.launcher.launch op extent fields body s with
  | mk result s' => cases result <;> simp [pass, hlaunch]

/-- **A pass starts** exactly when it is accepted and the blocks of the backend cover its extent. -/
theorem Event.starts_iff : Event.Starts ⟨.pass op extent fields body s, inv⟩ ↔
    fields.checkOuter .horizontal extent inv.storage = .ok () ∧ inv.backend.Covers extent := by
  rw [Event.Starts, Backend.runsUnit_iff, pass_eq_ok_iff, ← storage_launcher, ← covers_launcher]
  constructor
  · intro h
    rcases h with ⟨hcheck, hcovers, -⟩ | hok
    · exact ⟨hcheck, hcovers⟩
    · exact Backend.accepted_of_launch_eq_ok hok
  · intro h
    obtain ⟨hcheck, hcovers⟩ := h
    by_cases hzero : extent = 0
    · subst hzero
      refine Or.inr ?_
      rw [Backend.launch_of_accepted hcheck, Backend.dispatch_of_empty]
      rfl
    · exact Or.inl ⟨hcheck, hcovers, hzero⟩

end Pass

variable {past : List Event} {e : Event}

theorem HandedOut.requested (h : HandedOut past) : Requested past := by
  obtain ⟨⟨call, inv⟩, hmem, hgranted⟩ := h
  refine ⟨_, hmem, ?_⟩
  cases call with
  | allocate => rfl
  | validate => cases hgranted
  | pass => cases hgranted

theorem Started.executed (h : Started past) : Executed past := by
  obtain ⟨⟨call, inv⟩, hmem, hstarts⟩ := h
  refine ⟨_, hmem, ?_⟩
  cases call with
  | pass => rfl
  | allocate => cases hstarts
  | validate => cases hstarts

/-! ## What the phase tells -/

/-- **Where a call moves the phase**, whatever becomes of it: a pass to its own number, an allocation out of building. -/
theorem Event.phase_after (e : Event) : e.after.phase =
    if e.call.isPass then .executing (e.before.passes.length + 1)
    else if e.call.isAllocation ∧ e.before.phase = .building then .allocating else e.before.phase := by
  obtain ⟨call, inv⟩ := e
  cases call with
  | validate table target => simp [Call.isPass, Call.isAllocation, Event.after, Call.perform]
  | pass op extent fields body s =>
    rcases inv.pass_cases op extent fields body s with ⟨err, s', hr⟩ | ⟨s', hr⟩
    · simp only [Event.after, Call.perform, hr, Call.isPass, if_true]
    · simp only [Event.after, Call.perform, hr, Call.isPass, if_true]
  | allocate system request elementSize zero =>
    have hcall : Call.isAllocation (.allocate system request elementSize zero) = true := rfl
    cases effect_allocate inv system request elementSize zero with
    | checked _ isAllocation => exact absurd (hcall.symm.trans isAllocation) Bool.true_eq_false.mp
    | refused isPass _ _ closed _ after => simp [isPass, closed.1, after]
    | requested isPass _ admitted allocator _ after =>
      have hopen : inv.phase = .building ∨ inv.phase = .allocating := admitted
      rw [after]
      rcases hopen with hphase | hphase
      · simp [isPass, hcall, hphase]
      · simp [isPass, hphase]
    | launched _ isAllocation => exact absurd (hcall.symm.trans isAllocation) Bool.true_eq_false.mp

/-- what the phase tells after some calls: whether a temporary has been asked for, and whether a pass has been called -/
inductive PhaseOf (past : List Event) : Phase → Prop
  | building (idle : ¬ Requested past) (early : ¬ Executed past) : PhaseOf past .building
  | allocating (requested : Requested past) (early : ¬ Executed past) : PhaseOf past .allocating
  | executing (executed : Executed past) (pass : Nat) : PhaseOf past (.executing pass)

theorem requested_append : Requested (past ++ [e]) ↔ Requested past ∨ e.call.isAllocation = true := by
  simp [Requested, or_and_right, exists_or]

/-- **One call more**: the phase tells what has been asked for with it. -/
theorem PhaseOf.next (h : PhaseOf past e.before.phase) : PhaseOf (past ++ [e]) e.after.phase := by
  rw [e.phase_after]
  by_cases hpass : e.call.isPass = true
  · rw [if_pos hpass]
    exact .executing (executed_append.2 (Or.inr hpass)) _
  · rw [if_neg hpass]
    have hexecuted : Executed (past ++ [e]) ↔ Executed past := by rw [executed_append, or_iff_left hpass]
    generalize e.before.phase = phase at h ⊢
    cases h with
    | building idle early =>
      by_cases halloc : e.call.isAllocation = true
      · rw [if_pos ⟨halloc, rfl⟩]
        exact .allocating (requested_append.2 (Or.inr halloc)) (mt hexecuted.1 early)
      · rw [if_neg fun h => halloc h.1]
        refine .building ?_ (mt hexecuted.1 early)
        rw [requested_append, not_or]
        exact ⟨idle, halloc⟩
    | allocating requested early =>
      rw [if_neg nofun]
      exact .allocating (requested_append.2 (Or.inl requested)) (mt hexecuted.1 early)
    | executing executed pass =>
      rw [if_neg nofun]
      exact .executing (hexecuted.2 executed) pass

/-- **What the phase tells** after all calls of a client, from the start. -/
theorem Client.phaseOf_ends (client : Client) (backend : Backend) (domain : Domain) :
    PhaseOf (client.events (.start backend domain)) (client.ends (.start backend domain)).2.phase := by
  have hstart : PhaseOf [] (start backend domain).phase := .building (by simp [Requested]) (by simp [Executed])
  exact client.keeps (P := fun past inv => PhaseOf past inv.phase) (fun _ _ => PhaseOf.next) hstart

theorem PhaseOf.tells {phase : Phase} (h : PhaseOf past phase) :
    (phase = .building ↔ ¬ Requested past ∧ ¬ Executed past) ∧
    (phase = .allocating ↔ Requested past ∧ ¬ Executed past) ∧
    ((∃ pass, phase = .executing pass) ↔ Executed past) := by
  cases h with
  | building idle early =>
    exact ⟨iff_of_true rfl ⟨idle, early⟩, iff_of_false nofun fun h => idle h.1, iff_of_false nofun early⟩
  | allocating requested early =>
    exact ⟨iff_of_false nofun fun h => h.1 requested, iff_of_true rfl ⟨requested, early⟩, iff_of_false nofun early⟩
  | executing executed pass =>
    exact ⟨iff_of_false nofun fun h => h.2 executed, iff_of_false nofun fun h => h.2 executed,
      iff_of_true ⟨pass, rfl⟩ executed⟩

/-- what is documented is what the phase tells, where some of what was asked for has come about -/
theorem PhaseOf.documented_iff {phase : Phase} (h : PhaseOf past phase) : Documented past phase ↔
    (Executed past → Started past) ∧ (Requested past → HandedOut past ∨ Executed past) := by
  constructor
  · intro hdoc
    cases h with
    | building idle early => exact ⟨fun h => absurd h early, fun h => absurd h idle⟩
    | allocating requested early =>
      exact ⟨fun h => absurd h early, fun _ => Or.inl (hdoc.allocating.1 rfl).1⟩
    | executing executed pass => exact ⟨fun _ => hdoc.executing.1 ⟨pass, rfl⟩, fun _ => Or.inr executed⟩
  · intro hreal
    obtain ⟨hpass, halloc⟩ := hreal
    cases h with
    | building idle early =>
      have hnone : ¬ HandedOut past := fun h => idle h.requested
      have hidle : ¬ Started past := fun h => early h.executed
      exact ⟨by simp [hnone, hidle], by simp [hnone], by simp [hidle]⟩
    | allocating requested early =>
      have hsome : HandedOut past := (halloc requested).resolve_right early
      have hidle : ¬ Started past := fun h => early h.executed
      exact ⟨by simp [hsome], by simp [hsome, hidle], by simp [hidle]⟩
    | executing executed pass =>
      have hstarted := hpass executed
      exact ⟨by simp [hstarted], by simp [hstarted], by simp [hstarted]⟩

/-- **What the phase of an invocation tells.** Whatever a client has called, it is building exactly while no temporary
has been asked for and no pass called, allocating exactly once a temporary has been asked for and while no pass has been
called, and executing exactly once a pass has been called, whether these calls have come to anything or not. This is
what is documented exactly when a pass has started if one has been called, and a temporary has been handed out if some
have been asked for and no pass has been called. Of the next calls, whatever becomes of them, an allocation leaves the
phase as it was exactly when the invocation is not building, and a pass exactly when it is executing under the number
the pass takes. A pass starts exactly when it is accepted and the blocks of the backend cover its extent. -/
theorem phase_spec (backend : Backend) (domain : Domain) (client : Client) :
    let past := client.events (.start backend domain)
    let inv := (client.ends (.start backend domain)).2
    (inv.phase = .building ↔ ¬ Requested past ∧ ¬ Executed past) ∧
    (inv.phase = .allocating ↔ Requested past ∧ ¬ Executed past) ∧
    ((∃ pass, inv.phase = .executing pass) ↔ Executed past) ∧
    (Documented past inv.phase ↔
      (Executed past → Started past) ∧ (Requested past → HandedOut past ∨ Executed past)) ∧
    (∀ e : Event, e.before = inv → e.call.isAllocation = true →
      (e.after.phase = inv.phase ↔ inv.phase ≠ .building)) ∧
    (∀ e : Event, e.before = inv → e.call.isPass = true →
      (e.after.phase = inv.phase ↔ inv.phase = .executing (inv.passes.length + 1))) ∧
    ∀ {α : Type} (op : String) (extent : UInt64) (fields : Bundle View)
      (body : Bundle Handle → Bundle (DimMap Int64) → Kernel α Unit) (s : RunState α),
      Event.Starts ⟨.pass op extent fields body s, inv⟩ ↔
        fields.checkOuter .horizontal extent inv.storage = .ok () ∧ inv.backend.Covers extent := by
  intro past inv
  have hphase : PhaseOf past inv.phase := client.phaseOf_ends backend domain
  obtain ⟨hbuilding, hallocating, hexecuting⟩ := hphase.tells
  refine ⟨hbuilding, hallocating, hexecuting, hphase.documented_iff, ?_, ?_, fun _ _ _ _ _ => Event.starts_iff⟩
  · intro e hbefore halloc
    have hpass : e.call.isPass ≠ true := by
      obtain ⟨call, before⟩ := e
      cases call <;> simp [Call.isPass, Call.isAllocation] at halloc ⊢
    rw [e.phase_after, if_neg hpass, hbefore]
    by_cases hidle : inv.phase = .building
    · simp [halloc, hidle]
    · simp [hidle]
  · intro e hbefore hpass
    rw [e.phase_after, if_pos hpass, hbefore]
    exact eq_comm

/-- a temporary whose axes repeat is refused, yet the invocation is allocating; and a pass over more elements than a
field has is refused, yet the invocation is executing -/
theorem phase_of_refused :
    let first := start ⟨.sequential, .propagating, fun _ => .ascending⟩ (.ofCounts 1 1 1)
    let asks : Client := .call (.allocate (.granting 100) (.extents [(.horizontal, 1), (.horizontal, 1)]) 8 (0 : Int))
      fun _ => .finish (.ok ())
    let passes : Client := .call (.pass "set" 3 (.member (.ofElements .writable 2 .host)) (fun _ _ => .done ())
      ⟨#[#[(1 : Int), 2]], []⟩) fun _ => .finish (.ok ())
    ((asks.ends first).2.phase = .allocating ∧ ¬ HandedOut (asks.events first) ∧
      ¬ Documented (asks.events first) (asks.ends first).2.phase) ∧
    ((passes.ends first).2.phase = .executing 1 ∧ ¬ Started (passes.events first) ∧
      ¬ Documented (passes.events first) (passes.ends first).2.phase) := by
  intro first asks passes
  have hnone : ¬ HandedOut (asks.events first) := by
    intro h
    obtain ⟨e, hmem, hgranted⟩ := h
    obtain rfl := List.mem_singleton.1 hmem
    cases hgranted
  have hidle : ¬ Started (passes.events first) := by
    intro h
    obtain ⟨e, hmem, hstarts⟩ := h
    obtain rfl := List.mem_singleton.1 hmem
    have hcheck := (Event.starts_iff.1 hstarts).1
    cases hcheck
  refine ⟨⟨rfl, hnone, ?_⟩, rfl, hidle, ?_⟩
  · intro h
    exact hnone (h.allocating.1 rfl).1
  · intro h
    exact hidle (h.executing.1 ⟨1, rfl⟩)

end Invocation

end Stencil
