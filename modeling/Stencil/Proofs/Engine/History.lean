/-
Histories of an invocation. A client calls operations of an invocation one after the other; it is given every reply, a
failure too, and decides by it what to call next or with what to end. Whatever it calls, the invocation agrees with the
calls so far: it has recorded the passes that succeeded and the temporaries that were made, and its phase tells whether
a pass has been called.

- `Phase.lt_chain`: the order of the phases;
- `Event.effect`: all that a call can do to the invocation that it finds;
- `Agrees.sound`, `Agrees.next`: what holds of one call after others, and that the invocation agrees with it again;
- `Client.keeps`, `Client.sound_of_events`, `Client.pairwise_phases`: the same of all calls of a client;
- `invoke_client`: what a client can rely on, and what the figures at its end count.
-/
import Mathlib.Tactic
import Stencil.Engine.Invocation
import Stencil.Proofs.Memory.Temporaries

namespace Stencil

/-! ## The order of phases -/

namespace Phase

/-- how far an invocation has come -/
def rank : Phase → ℕ ×ₗ ℕ
  | building => toLex (0, 0)
  | allocating => toLex (1, 0)
  | executing pass => toLex (2, pass)
  | released => toLex (3, 0)

instance : Preorder Phase := Preorder.lift rank

theorem le_iff {a b : Phase} : a ≤ b ↔ a.rank ≤ b.rank := Iff.rfl

theorem lt_iff {a b : Phase} : a < b ↔ a.rank < b.rank := Iff.rfl

/-- the phases in order: passes one after the other between allocating and being released -/
theorem lt_chain : building < allocating ∧ (∀ pass, allocating < executing pass) ∧
    (∀ pass pass', executing pass < executing pass' ↔ pass < pass') ∧ ∀ pass, executing pass < released := by
  simp [lt_iff, rank, Prod.Lex.toLex_lt_toLex]

theorem executing_le_executing {pass pass' : Nat} : executing pass ≤ executing pass' ↔ pass ≤ pass' := by
  simp [le_iff, rank, Prod.Lex.toLex_le_toLex]

end Phase

/-! ## What operations do -/

section Operations

variable {α : Type}

namespace Invocation

variable {inv : Invocation}

/-- before any pass, an allocation moves to the allocating phase, and enters what it makes -/
theorem alloc_cases (h : inv.phase = .building ∨ inv.phase = .allocating) (system : System)
    (dims : List (Dim × UInt64)) (elementSize : Nat) (zero : α) :
    (∃ e, inv.alloc system dims elementSize zero = (.error e, { inv with phase := .allocating })) ∨
      ∃ t, inv.alloc system dims elementSize zero = (.ok t, { inv with
        phase := .allocating
        allocator := { inv.allocator with ledger := inv.allocator.ledger.commit t.bytes } }) := by
  rcases Temporary.make_cases system inv.allocator elementSize zero dims with ⟨e, hmake⟩ | ⟨t, -, hmake⟩
  · refine Or.inl ⟨({ inv with phase := .allocating } : Invocation).onAllocation e, ?_⟩
    rcases h with h | h <;> simp only [alloc, h, hmake]
  · refine Or.inr ⟨t, ?_⟩
    rcases h with h | h <;> simp only [alloc, h, hmake]

/-- an allocation in a later phase is refused and changes nothing -/
theorem alloc_closed (h : inv.phase ≠ .building ∧ inv.phase ≠ .allocating) (system : System)
    (dims : List (Dim × UInt64)) (elementSize : Nat) (zero : α) : inv.alloc system dims elementSize zero =
      (.error (.error (.contract (.invalidState "allocate a temporary" inv.phase.name))), inv) := by
  unfold alloc
  split
  · next hp => exact absurd hp h.1
  · next hp => exact absurd hp h.2
  · rfl

/-- a pass takes the number after those that have succeeded, and is recorded if it succeeds -/
theorem pass_cases (inv : Invocation) (op : String) (extent : UInt64) (fields : Bundle View)
    (body : Bundle Handle → Bundle (DimMap Int64) → Kernel α Unit) (s : RunState α) :
    (∃ e s', inv.pass op extent fields body s = (.error e, { inv with
        phase := .executing (inv.passes.length + 1)
        asked := inv.asked + 1 }, s')) ∨
      ∃ s', inv.pass op extent fields body s = (.ok (), { inv with
        phase := .executing (inv.passes.length + 1)
        passes := inv.passes ++ [⟨op, extent, 0⟩]
        asked := inv.asked + 1 }, s') := by
  cases hlaunch : inv.launcher.launch op extent fields body s with
  | mk result s' =>
    cases result with
    | error e => exact Or.inl ⟨e, s', by simp only [pass, hlaunch]⟩
    | ok u => exact Or.inr ⟨s', by simp only [pass, hlaunch]⟩

end Invocation

end Operations

/-! ## Clients -/

namespace Invocation

/-- how a temporary is asked for -/
inductive Request where
  | extents (dims : List (Dim × UInt64))
  | columns (h k : UInt64)
  | elements (location : Location)

/-- the extents of the temporary, over a domain -/
def Request.dims (domain : Domain) : Request → List (Dim × UInt64)
  | extents dims => dims
  | columns h k => [(.horizontal, h), (.vertical, k)]
  | elements location => [(.horizontal, domain.count location), (.vertical, domain.k)]

/-- an operation of an invocation with its arguments; what the system grants may differ from call to call -/
inductive Call : Type 1 where
  | allocate {α : Type} (system : System) (request : Request) (elementSize : Nat) (zero : α)
  | validate (table : Connectivity) (target : Location)
  | pass {α : Type} (op : String) (extent : UInt64) (fields : Bundle View)
      (body : Bundle Handle → Bundle (DimMap Int64) → Kernel α Unit) (s : RunState α)

namespace Call

/-- what the caller is given: a failure, or what was asked for; of a pass the cells in any case -/
def Reply : Call → Type
  | @allocate α .. => Except Failure (Temporary α)
  | validate .. => Except Failure Unit
  | @pass α .. => Except Failure Unit × RunState α

def perform : (c : Call) → Invocation → c.Reply × Invocation
  | allocate system request elementSize zero, inv =>
    match request with
    | .extents dims => inv.alloc system dims elementSize zero
    | .columns h k => inv.allocSimple system h k elementSize zero
    | .elements location => inv.allocAt system location elementSize zero
  | validate table target, inv => (inv.validateConnectivity table target, inv)
  | pass op extent fields body s, inv =>
    let (r, inv, s) := inv.pass op extent fields body s
    ((r, s), inv)

def outcome : (c : Call) → c.Reply → Except Failure Unit
  | allocate .., r => r.map fun _ => ()
  | validate .., r => r
  | pass .., r => r.1

/-- the bytes of a temporary that was made -/
def granted : (c : Call) → c.Reply → Option Nat
  | allocate .., .ok t => some t.bytes
  | _, _ => none

/-- the name and the extent of a pass that succeeded -/
def succeeded : (c : Call) → c.Reply → Option (String × UInt64)
  | pass op extent .., (.ok _, _) => some (op, extent)
  | _, _ => none

def isPass : Call → Bool
  | pass .. => true
  | _ => false

def isAllocation : Call → Bool
  | allocate .. => true
  | _ => false

end Call

/-- what uses an invocation: it ends with a result, or calls an operation and goes on with the reply -/
inductive Client : Type 1 where
  | finish (result : Except Failure Unit)
  | call (c : Call) (next : c.Reply → Client)

/-- a call, and the invocation that it finds -/
structure Event : Type 1 where
  call : Call
  before : Invocation

namespace Event

variable (e : Event)

def after : Invocation := (e.call.perform e.before).2

def outcome : Except Failure Unit := e.call.outcome (e.call.perform e.before).1

def granted : Option Nat := e.call.granted (e.call.perform e.before).1

def succeeded : Option (String × UInt64) := e.call.succeeded (e.call.perform e.before).1

variable {e : Event}

/-- what a call is and leaves, read off what performing it gives -/
theorem of_perform {reply : e.call.Reply} {inv : Invocation} (h : e.call.perform e.before = (reply, inv)) :
    e.outcome = e.call.outcome reply ∧ e.granted = e.call.granted reply ∧ e.succeeded = e.call.succeeded reply ∧
      e.after = inv := by
  simp only [outcome, granted, succeeded, after, h, and_self]

end Event

namespace Client

/-- the client as a program -/
def program {σ : Type} : Client → InvocationM σ Unit
  | finish result => InvocationM.operate fun inv => (result, inv)
  | call c next => do
    let reply ← InvocationM.operate fun inv => (.ok (c.perform inv).1, (c.perform inv).2)
    (next reply).program

/-- the calls of the client, in order -/
def events : Client → Invocation → List Event
  | finish _, _ => []
  | call c next, inv => ⟨c, inv⟩ :: (next (c.perform inv).1).events (c.perform inv).2

/-- the result of the client, and the invocation that it leaves -/
def ends : Client → Invocation → Except Failure Unit × Invocation
  | finish result, inv => (result, inv)
  | call c next, inv => (next (c.perform inv).1).ends (c.perform inv).2

theorem run_program {σ : Type} (client : Client) (inv : Invocation) (s : σ) :
    client.program.run.run (inv, s) = ((client.ends inv).1, (client.ends inv).2, s) := by
  induction client generalizing inv with
  | finish result => cases result <;> rfl
  | call c next ih => exact ih _ _

end Client

/-! ## What a call does -/

/-- the passes of an invocation, each with its name and extent -/
def figures (inv : Invocation) : List (String × UInt64) := inv.passes.map fun p => (p.op, p.extent)

/-- all that a call can do to the invocation that it finds -/
inductive Event.Effect (e : Event) : Prop where
  | checked (isPass : e.call.isPass = false) (isAllocation : e.call.isAllocation = false)
      (succeeded : e.succeeded = none) (granted : e.granted = none) (after : e.after = e.before)
  /-- an allocation in a phase that does not admit it -/
  | refused (isPass : e.call.isPass = false) (succeeded : e.succeeded = none) (granted : e.granted = none)
      (closed : e.before.phase ≠ .building ∧ e.before.phase ≠ .allocating)
      (outcome : e.outcome =
        .error (.error (.contract (.invalidState "allocate a temporary" e.before.phase.name))))
      (after : e.after = e.before)
  /-- an allocation that was asked of the allocator -/
  | requested (isPass : e.call.isPass = false) (succeeded : e.succeeded = none)
      (admitted : e.before.phase = .building ∨ e.before.phase = .allocating) (allocator : Allocator)
      (ledger : allocator.ledger = e.granted.toList.foldl Ledger.commit e.before.allocator.ledger)
      (after : e.after = { e.before with phase := .allocating, allocator })
  | launched (isPass : e.call.isPass = true) (isAllocation : e.call.isAllocation = false)
      (granted : e.granted = none) (outcome : e.outcome = .ok () ↔ e.succeeded.isSome = true)
      (passes : List PassMetrics)
      (figures : passes.map (fun p => (p.op, p.extent)) = e.before.figures ++ e.succeeded.toList)
      (after : e.after = { e.before with
        phase := .executing (e.before.passes.length + 1), passes, asked := e.before.asked + 1 })

variable {α : Type}

/-- **An allocation** is refused once a pass has been called, and is asked of the allocator before. -/
theorem effect_allocate (inv : Invocation) (system : System) (request : Request) (elementSize : Nat) (zero : α) :
    Event.Effect ⟨.allocate system request elementSize zero, inv⟩ := by
  let e : Event := ⟨.allocate system request elementSize zero, inv⟩
  have hcall : e.call.perform e.before = inv.alloc system (request.dims inv.domain) elementSize zero := by
    cases request <;> rfl
  by_cases hopen : inv.phase = .building ∨ inv.phase = .allocating
  · rcases alloc_cases hopen system (request.dims inv.domain) elementSize zero with ⟨err, hr⟩ | ⟨t, hr⟩
    · obtain ⟨-, granted, succeeded, after⟩ := Event.of_perform (e := e) (hcall.trans hr)
      refine .requested rfl succeeded hopen inv.allocator ?_ after
      rw [granted]
      rfl
    · obtain ⟨-, granted, succeeded, after⟩ := Event.of_perform (e := e) (hcall.trans hr)
      let allocator := { inv.allocator with ledger := inv.allocator.ledger.commit t.bytes }
      refine .requested rfl succeeded hopen allocator ?_ after
      rw [granted]
      rfl
  · have hclosed : inv.phase ≠ .building ∧ inv.phase ≠ .allocating := not_or.1 hopen
    have hr := alloc_closed hclosed system (request.dims inv.domain) elementSize zero
    obtain ⟨outcome, granted, succeeded, after⟩ := Event.of_perform (e := e) (hcall.trans hr)
    exact .refused rfl succeeded granted hclosed outcome after

/-- **A pass** is numbered whatever becomes of it, and recorded if it succeeds. -/
theorem effect_pass (inv : Invocation) (op : String) (extent : UInt64) (fields : Bundle View)
    (body : Bundle Handle → Bundle (DimMap Int64) → Kernel α Unit) (s : RunState α) :
    Event.Effect ⟨.pass op extent fields body s, inv⟩ := by
  let e : Event := ⟨.pass op extent fields body s, inv⟩
  rcases inv.pass_cases op extent fields body s with ⟨err, s', hr⟩ | ⟨s', hr⟩
  · have hcall : e.call.perform e.before = ((.error err, s'), { inv with
        phase := .executing (inv.passes.length + 1)
        asked := inv.asked + 1 }) := by
      simp only [e, Call.perform, hr]
      rfl
    obtain ⟨outcome, granted, succeeded, after⟩ := Event.of_perform hcall
    refine .launched rfl rfl granted ?_ inv.passes ?_ after
    · rw [outcome, succeeded]
      exact iff_of_false nofun nofun
    · rw [succeeded]
      exact (List.append_nil _).symm
  · have hcall : e.call.perform e.before = ((.ok (), s'), { inv with
        phase := .executing (inv.passes.length + 1)
        passes := inv.passes ++ [⟨op, extent, 0⟩]
        asked := inv.asked + 1 }) := by
      simp only [e, Call.perform, hr]
      rfl
    obtain ⟨outcome, granted, succeeded, after⟩ := Event.of_perform hcall
    refine .launched rfl rfl granted ?_ (inv.passes ++ [⟨op, extent, 0⟩]) ?_ after
    · rw [outcome, succeeded]
      exact iff_of_true rfl rfl
    · rw [succeeded]
      exact List.map_append

/-- **All that a call does.** -/
theorem Event.effect (e : Event) : e.Effect := by
  obtain ⟨call, inv⟩ := e
  cases call with
  | allocate system request elementSize zero => exact effect_allocate inv system request elementSize zero
  | validate table target => exact .checked rfl rfl rfl rfl rfl
  | pass op extent fields body s => exact effect_pass inv op extent fields body s

/-! ## One call after others -/

/-- whether a pass is among the calls -/
def Executed (past : List Event) : Prop := ∃ e ∈ past, e.call.isPass = true

/-- what can be said of a call after others: the phase moves forward; once a pass has been called, an allocation is
refused and changes nothing; and a pass has the number of those that have succeeded with it, or one more if it fails -/
structure Event.Sound (past : List Event) (e : Event) : Prop where
  forward : e.before.phase ≤ e.after.phase
  refused : Executed past → e.call.isAllocation = true →
    e.outcome = .error (.error (.contract (.invalidState "allocate a temporary" "executing"))) ∧ e.after = e.before
  succeeded : e.call.isPass = true → e.outcome = .ok () →
    e.after.phase = .executing ((past ++ [e]).filterMap Event.succeeded).length
  failed : e.call.isPass = true → e.outcome ≠ .ok () →
    e.after.phase = .executing (((past ++ [e]).filterMap Event.succeeded).length + 1)

/-- whether an invocation is what calls have left: it has recorded the passes and the temporaries that came about, and
its phase tells whether a pass is among the calls, with a number that is at most that of the next -/
structure Agrees (past : List Event) (inv : Invocation) : Prop where
  figures : inv.figures = past.filterMap Event.succeeded
  ledger : inv.allocator.ledger = (past.filterMap Event.granted).foldl Ledger.commit .empty
  phase : (¬ Executed past ∧ (inv.phase = .building ∨ inv.phase = .allocating)) ∨
    ∃ pass ≤ inv.passes.length + 1, inv.phase = .executing pass

variable {past : List Event} {e : Event}

theorem executed_append : Executed (past ++ [e]) ↔ Executed past ∨ e.call.isPass = true := by
  simp [Executed, or_and_right, exists_or]

theorem filterMap_append_singleton {β : Type} (f : Event → Option β) (past : List Event) (e : Event) :
    (past ++ [e]).filterMap f = past.filterMap f ++ (f e).toList := by
  rw [List.filterMap_append]
  cases h : f e <;> simp [h]

theorem Agrees.start (backend : Backend) (domain : Domain) : Agrees [] (start backend domain) where
  figures := rfl
  ledger := by
    simp only [Invocation.start, Backend.makeAllocator]
    cases backend.kind <;> rfl
  phase := Or.inl ⟨by simp [Executed], Or.inl rfl⟩

theorem Agrees.length_passes {inv : Invocation} (h : Agrees past inv) :
    inv.passes.length = (past.filterMap Event.succeeded).length := by
  rw [← h.figures, Invocation.figures, List.length_map]

theorem Event.figures_after (e : Event) : e.after.figures = e.before.figures ++ e.succeeded.toList := by
  cases e.effect with
  | checked _ _ succeeded _ after => simp [succeeded, after]
  | refused _ succeeded _ _ _ after => simp [succeeded, after]
  | requested _ succeeded _ _ _ after => simp [succeeded, after, Invocation.figures]
  | launched _ _ _ _ passes figures after => rw [after, ← figures, Invocation.figures]

theorem Event.ledger_after (e : Event) :
    e.after.allocator.ledger = e.granted.toList.foldl Ledger.commit e.before.allocator.ledger := by
  cases e.effect with
  | checked _ _ _ granted after => simp [granted, after]
  | refused _ _ granted _ _ after => simp [granted, after]
  | requested _ _ _ allocator ledger after => rw [after, ledger]
  | launched _ _ granted _ _ _ after => simp [granted, after]

/-- a call is sound after those that have left what it finds -/
theorem Agrees.sound (h : Agrees past e.before) : e.Sound past := by
  have hlength := h.length_passes
  cases e.effect with
  | checked isPass isAllocation _ _ after =>
    exact ⟨by rw [after], by simp [isAllocation], by simp [isPass], by simp [isPass]⟩
  | refused isPass _ _ closed outcome after =>
    refine ⟨by rw [after], fun _ _ => ⟨?_, after⟩, by simp [isPass], by simp [isPass]⟩
    rcases h.phase with ⟨-, hopen⟩ | ⟨pass, -, hphase⟩
    · exact absurd hopen (not_or.2 closed)
    · rw [outcome, hphase, Phase.name]
  | requested isPass _ admitted allocator _ after =>
    refine ⟨?_, fun hpast => ?_, by simp [isPass], by simp [isPass]⟩
    · rw [after]
      rcases admitted with hp | hp
      · exact hp ▸ Phase.lt_chain.1.le
      · exact hp ▸ le_rfl
    · rcases h.phase with ⟨hnone, -⟩ | ⟨pass, -, hphase⟩
      · exact absurd hpast hnone
      · simp [hphase] at admitted
  | launched isPass isAllocation _ outcome passes _ after =>
    refine ⟨?_, by simp [isAllocation], fun _ hok => ?_, fun _ hfail => ?_⟩
    · rw [after]
      rcases h.phase with ⟨-, hp | hp⟩ | ⟨pass, hle, hphase⟩
      · exact hp ▸ (Phase.lt_chain.1.trans (Phase.lt_chain.2.1 _)).le
      · exact hp ▸ (Phase.lt_chain.2.1 _).le
      · exact hphase ▸ Phase.executing_le_executing.2 hle
    · obtain ⟨figure, hsome⟩ := Option.isSome_iff_exists.1 (outcome.1 hok)
      rw [after, filterMap_append_singleton, hsome, hlength]
      simp
    · have hnone : e.succeeded = none := by
        rw [← Option.not_isSome_iff_eq_none]
        exact fun hsome => hfail (outcome.2 hsome)
      rw [after, filterMap_append_singleton, hnone, hlength]
      simp

/-- **One call more**: what it leaves agrees with the calls up to it. -/
theorem Agrees.next (h : Agrees past e.before) : Agrees (past ++ [e]) e.after where
  figures := by rw [e.figures_after, h.figures, filterMap_append_singleton]
  ledger := by rw [e.ledger_after, h.ledger, filterMap_append_singleton, List.foldl_append]
  phase := by
    cases e.effect with
    | checked isPass _ _ _ after =>
      simpa [executed_append, isPass, after] using h.phase
    | refused isPass _ _ _ _ after =>
      simpa [executed_append, isPass, after] using h.phase
    | requested isPass _ admitted allocator _ after =>
      rcases h.phase with ⟨hnone, -⟩ | ⟨pass, -, hphase⟩
      · exact Or.inl ⟨by simp [executed_append, isPass, hnone], Or.inr (by rw [after])⟩
      · simp [hphase] at admitted
    | launched _ _ _ _ passes figures after =>
      refine Or.inr ⟨e.before.passes.length + 1, ?_, by rw [after]⟩
      have hlength := congrArg List.length figures
      simp only [List.length_map, List.length_append, Invocation.figures] at hlength
      rw [after]
      simp only [hlength]
      omega

/-! ## All calls of a client -/

namespace Client

variable {inv : Invocation}

/-- **What every call keeps**, a client keeps: a relation between calls and the invocation that they leave. -/
theorem keeps {P : List Event → Invocation → Prop} (hnext : ∀ past e, P past e.before → P (past ++ [e]) e.after)
    (client : Client) (h : P past inv) : P (past ++ client.events inv) (client.ends inv).2 := by
  induction client generalizing past inv with
  | finish result => simpa [events, ends] using h
  | call c next ih =>
    have hrest := ih (c.perform inv).1 (hnext past ⟨c, inv⟩ h)
    rwa [List.append_assoc] at hrest

theorem agrees_ends (client : Client) (h : Agrees past inv) :
    Agrees (past ++ client.events inv) (client.ends inv).2 :=
  client.keeps (fun _ _ => Agrees.next) h

/-- **Every call is sound** after the calls before it. -/
theorem sound_of_events (client : Client) (h : Agrees past inv) {earlier later : List Event}
    (hevents : client.events inv = earlier ++ e :: later) : e.Sound (past ++ earlier) := by
  induction client generalizing past inv earlier with
  | finish result => simp [events] at hevents
  | call c next ih =>
    rw [events] at hevents
    cases earlier with
    | nil =>
      obtain ⟨rfl, -⟩ := List.cons.inj hevents
      rw [List.append_nil]
      exact h.sound
    | cons e' earlier =>
      obtain ⟨rfl, hrest⟩ := List.cons.inj hevents
      have hnext := ih _ (Agrees.next (e := ⟨c, inv⟩) h) hrest
      rwa [List.append_assoc] at hnext

/-- **The phase only moves forward**, from what a client finds over what its calls leave. -/
theorem pairwise_phases (client : Client) (h : Agrees past inv) :
    (inv.phase :: (client.events inv).map fun e => e.after.phase).Pairwise (· ≤ ·) := by
  induction client generalizing past inv with
  | finish result => simp [events]
  | call c next ih =>
    let e : Event := ⟨c, inv⟩
    have hforward := (h.sound (e := e)).forward
    have hrest := ih (c.perform inv).1 (Agrees.next (e := e) h)
    rw [events, List.map_cons, List.pairwise_cons]
    refine ⟨fun phase hphase => ?_, hrest⟩
    rcases List.mem_cons.1 hphase with rfl | hlater
    · exact hforward
    · exact hforward.trans (List.rel_of_pairwise_cons hrest hlater)

end Client

end Invocation

/-! ## Figures -/

theorem invoke_program {σ : Type} (backend : Backend) (domain : Domain) (client : Invocation.Client) (s : σ) :
    invoke backend domain client.program s =
      ((client.ends (.start backend domain)).1.map fun _ => (client.ends (.start backend domain)).2.release.metrics,
        s) := by
  simp only [invoke, client.run_program]
  cases (client.ends (.start backend domain)).1 <;> rfl

/-- **The history of an invocation.** Whatever a client calls, whether the calls succeed or fail and whatever it makes
of the failures: the phase only moves forward; every call is sound after those before it; if the client ends with a
failure, this is the answer; and if it does not, the figures list the passes that succeeded, in order, and count the
temporaries that were made and their bytes, as far as a word counts. This holds under either failure policy. -/
theorem invoke_client {σ : Type} (backend : Backend) (domain : Domain) (client : Invocation.Client) (s : σ) :
    let events := client.events (.start backend domain)
    let result := (client.ends (.start backend domain)).1
    (Phase.building :: events.map fun e => e.after.phase).Pairwise (· ≤ ·) ∧
    (∀ earlier e later, events = earlier ++ e :: later → e.Sound earlier) ∧
    (∀ failure, result = .error failure → invoke backend domain client.program s = (.error failure, s)) ∧
    (result = .ok () → ∃ metrics, invoke backend domain client.program s = (.ok metrics, s) ∧
      metrics.passes.map (fun p => (p.op, p.extent)) = events.filterMap Invocation.Event.succeeded ∧
      metrics.tmpAllocations = (events.filterMap Invocation.Event.granted).length ∧
      metrics.tmpBytes = min (events.filterMap Invocation.Event.granted).sum wordMax) := by
  intro events result
  have hstart := Invocation.Agrees.start backend domain
  have hends := client.agrees_ends hstart
  refine ⟨client.pairwise_phases hstart, ?_, ?_, ?_⟩
  · intro earlier e later hevents
    exact client.sound_of_events hstart hevents
  · intro failure hresult
    rw [invoke_program, show (client.ends (.start backend domain)).1 = .error failure from hresult]
    rfl
  · intro hresult
    have hledger := hends.ledger
    rw [Ledger.foldl_commit] at hledger
    refine ⟨(client.ends (.start backend domain)).2.release.metrics, ?_, hends.figures, ?_, ?_⟩
    · rw [invoke_program, show (client.ends (.start backend domain)).1 = .ok () from hresult]
      rfl
    · exact congrArg Ledger.allocations hledger
    · exact congrArg Ledger.bytes hledger

/-- a client that makes two temporaries and, after a pass that is refused, asks for a third and passes again: neither
the refused pass nor the third temporary is counted -/
example :
    let client : Invocation.Client :=
      .call (.allocate (.granting 100) (.columns 2 3) 8 (0 : Int)) fun _ =>
      .call (.allocate (.granting 100) (.elements .vertex) 8 (0 : Int)) fun _ =>
      .call (.pass "set" 3 (.member (.ofElements .readOnly 2 .host)) (fun _ _ => .done ()) ⟨#[#[1, 2]], []⟩) fun _ =>
      .call (.allocate (.granting 100) (.columns 2 3) 8 (0 : Int)) fun _ =>
      .call (.pass "set" 2 (.member (.ofElements .readOnly 2 .host)) (fun _ _ => .done ()) ⟨#[#[1, 2]], []⟩) fun _ =>
      .finish (.ok ())
    (invoke (.standard .sequential) (.ofCounts 4 0 3) client.program ()).1 =
      .ok ⟨"sequential", 0, [⟨"set", 2, 0⟩], 2, 144⟩ := by
  decide +kernel

end Stencil
