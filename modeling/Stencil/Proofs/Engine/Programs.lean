/-
What programs with an invocation ensure. A program ensures a postcondition if it succeeds and ends in an invocation and
a state that have it; the postconditions of single steps are put together along the program.

- `ensures_allocAt`: a temporary is made when there is room for it and the system grants it;
- `ensures_pass`: a pass whose fields are accepted and whose units complete alone leaves what the units make;
- `invoke_eq`: what a program ensures is what invoking it gives.
-/
import Mathlib.Tactic
import Stencil.Engine.Invocation
import Stencil.Proofs.Axis.Resolution
import Stencil.Proofs.Engine.Agreement
import Stencil.Proofs.Memory.Ledger

namespace Stencil

namespace InvocationM

variable {σ α β : Type}

/-- the program succeeds, with a result and a state that satisfy `Q` -/
def Ensures (x : InvocationM σ α) (st : Invocation × σ) (Q : α → Invocation × σ → Prop) : Prop :=
  ∃ a st', x.run.run st = (.ok a, st') ∧ Q a st'

variable {x : InvocationM σ α} {st : Invocation × σ} {Q : α → Invocation × σ → Prop}

theorem ensures_pure {a : α} (h : Q a st) : Ensures (pure a) st Q := ⟨a, st, rfl, h⟩

theorem Ensures.bind {f : α → InvocationM σ β} {R : β → Invocation × σ → Prop}
    (h : Ensures x st fun a st' => Ensures (f a) st' R) : Ensures (x >>= f) st R := by
  obtain ⟨a, st', hr, b, st'', hb, hR⟩ := h
  refine ⟨b, st'', ?_, hR⟩
  rw [ExceptT.run_bind, StateT.run_bind]
  simp only [hr]
  exact hb

theorem ensures_contract {e : Except ContractViolation α} {a : α} (he : e = .ok a) (h : Q a st) :
    Ensures (contract e) st Q := by
  rw [he]
  exact ensures_pure h

theorem ensures_noFault {e : Except Fault α} {a : α} (he : e = .ok a) (h : Q a st) : Ensures (noFault e) st Q := by
  rw [he]
  exact ensures_pure h

theorem ensures_get {Q : Invocation × σ → Invocation × σ → Prop} (h : Q st st) : Ensures get st Q := ⟨st, st, rfl, h⟩

theorem ensures_put {Q : Unit → Invocation × σ → Prop} {st' : Invocation × σ} (h : Q () st') : Ensures (set st') st Q :=
  ⟨(), st', rfl, h⟩

theorem ensures_invocation {Q : Invocation → Invocation × σ → Prop} (h : Q st.1 st) : Ensures invocation st Q :=
  ⟨st.1, st, rfl, h⟩

theorem ensures_operate {f : Invocation → Except Failure α × Invocation} {a : α} {inv : Invocation}
    (hf : f st.1 = (.ok a, inv)) (h : Q a (inv, st.2)) : Ensures (operate f) st Q := by
  have hrun : (operate f).run.run st = (operate.liftExcept (f st.1).1).run.run ((f st.1).2, st.2) := rfl
  refine ⟨a, (inv, st.2), ?_, h⟩
  rw [hrun, hf]
  rfl

end InvocationM

/-! ## Memory and tables -/

namespace Invocation

/-- the invocation runs on a backend over a domain -/
structure RunsOn (inv : Invocation) (b : Backend) (domain : Domain) : Prop where
  backend : inv.backend = b
  domain : inv.domain = domain

/-- the invocation has run no pass yet, and its allocator has room for some bytes more -/
structure Allocating (inv : Invocation) (b : Backend) (domain : Domain) (room : Nat) : Prop where
  runsOn : inv.RunsOn b domain
  phase : inv.phase = .building ∨ inv.phase = .allocating
  kind : inv.allocator.kind = b.storage
  room : ∀ left, inv.allocator.available = some left → room ≤ left

variable {inv : Invocation} {b : Backend} {domain : Domain} {room : Nat}

theorem start_allocating (b : Backend) (domain : Domain)
    (hlimit : ∀ limit, b.kind = .parallel → b.config.deviceMemoryLimit = some limit → room ≤ limit.toNat) :
    (start b domain).Allocating b domain room := by
  have hallocator : b.makeAllocator.kind = b.storage ∧ ∀ left, b.makeAllocator.available = some left → room ≤ left := by
    unfold Backend.makeAllocator Backend.storage
    cases hk : b.kind with
    | sequential => exact ⟨rfl, nofun⟩
    | parallel =>
      refine ⟨rfl, fun left hleft => ?_⟩
      obtain ⟨bytes, hbytes, rfl⟩ := Option.map_eq_some_iff.1 hleft
      obtain ⟨limit, hconfig, rfl⟩ := Option.map_eq_some_iff.1 hbytes
      exact hlimit limit hk hconfig
  exact ⟨⟨rfl, rfl⟩, Or.inl rfl, hallocator.1, hallocator.2⟩

/-- what the system grants is allocated when there is room for it, and takes no more room than it needs -/
theorem allocate_eq {α : Type} {a : Allocator} {system : System} {elementSize len : Nat}
    (hroom : ∀ left, a.available = some left → len * elementSize + room ≤ left)
    (hbytes : len * elementSize ≤ signedMax) (hsystem : system.reserves (len * elementSize) = true) (zero : α) :
    ∃ a', a.allocate system elementSize len zero = (.ok (Array.replicate len zero), a') ∧
      a'.kind = a.kind ∧ ∀ left, a'.available = some left → room ≤ left := by
  let r : Allocator.Request := ⟨system, elementSize, len, zero⟩
  have hgranted : a.Outcome r (.ok (Array.replicate len zero), { a with ledger := a.ledger.commit r.bytes }) := by
    refine .granted (hbytes.trans (by decide)) (fun left hleft => ?_) hsystem
    exact (Nat.le_add_right _ _).trans (hroom left hleft)
  refine ⟨_, Allocator.perform_eq_iff.2 hgranted, rfl, fun left hleft => ?_⟩
  obtain ⟨limit, hlimit, rfl⟩ := Option.map_eq_some_iff.1 hleft
  have hbefore : a.available = some (limit - a.ledger.bytes) := by
    rw [Allocator.available, Budget.available, hlimit]
    rfl
  have hleft := hroom _ hbefore
  show room ≤ limit - min (a.ledger.bytes + r.bytes) wordMax
  simp only [r, Allocator.Request.bytes]
  omega

end Invocation

/-- the temporary is laid out as a field of `n` elements with `k` levels -/
def Temporary.LaidOut {α : Type} (t : Temporary α) (storage : Storage) (n k : UInt64) : Prop :=
  ∃ r, (Layout.rowMajor [(.horizontal, n), (.vertical, k)]).resolve = .ok r ∧ t.strides = r.strides ∧
    t.bounds = r.bounds ∧ t.storage = storage

namespace InvocationM

variable {σ α : Type} {st : Invocation × σ} {b : Backend} {domain : Domain} {room : Nat}

/-- **A temporary is made** when there is room for it and the system grants its bytes. -/
theorem ensures_allocAt {system : System} {location : Location} {elementSize : Nat} {zero : α}
    {Q : Temporary α → Invocation × σ → Prop}
    (h : st.1.Allocating b domain ((domain.count location).toNat * domain.k.toNat * elementSize + room))
    (hk : domain.k.toNat ≤ signedMax)
    (hbytes : (domain.count location).toNat * domain.k.toNat * elementSize ≤ signedMax)
    (hsize : (domain.count location).toNat * domain.k.toNat ≤ signedMax)
    (hsystem : system.reserves ((domain.count location).toNat * domain.k.toNat * elementSize) = true)
    (hQ : ∀ t inv, inv.Allocating b domain room → t.LaidOut b.storage (domain.count location) domain.k →
      t.data = Array.replicate ((domain.count location).toNat * domain.k.toNat) zero → Q t (inv, st.2)) :
    Ensures (allocAt system location elementSize zero) st Q := by
  obtain ⟨⟨rfl, rfl⟩, hphase, hkind, hroom⟩ := h
  obtain ⟨r, hr, hspan⟩ := Layout.resolve_columns (show Dim.horizontal ≠ .vertical by decide) hk
    (hsize.trans (by decide))
  obtain ⟨a', ha, hkind', hroom'⟩ := Invocation.allocate_eq hroom hbytes hsystem zero
  let t : Temporary α := ⟨Array.replicate r.span zero, elementSize, r.strides, r.bounds, a'.kind⟩
  have hmake : Temporary.make system st.1.allocator
      [(.horizontal, st.1.domain.count location), (.vertical, st.1.domain.k)] elementSize zero = (.ok t, a') := by
    simp only [Temporary.make, hr, hspan, ha, t]
  have halloc : st.1.allocAt system location elementSize zero =
      (.ok t, { st.1 with phase := .allocating, allocator := a' }) := by
    rcases hphase with hp | hp
    · simp only [Invocation.allocAt, Invocation.allocSimple, Invocation.alloc, hp, hmake]
    · simp only [Invocation.allocAt, Invocation.allocSimple, Invocation.alloc, hp, hmake]
  refine ensures_operate halloc (hQ _ _ ?_ ?_ ?_)
  · exact ⟨⟨rfl, rfl⟩, Or.inr rfl, hkind'.trans hkind, hroom'⟩
  · exact ⟨r, hr, rfl, rfl, hkind'.trans hkind⟩
  · simp only [t, hspan]

theorem ensures_validateConnectivity {table : Connectivity} {target : Location} {Q : Unit → Invocation × σ → Prop}
    (h : table.validate (st.1.domain.count target) = .ok ()) (hQ : Q () st) :
    Ensures (validateConnectivity table target) st Q := by
  have hvalid : st.1.validateConnectivity table target = .ok () := by
    simp only [Invocation.validateConnectivity, h]
    split <;> rfl
  exact ensures_operate (congrArg (fun r => (r, st.1)) hvalid) hQ

/-- **A pass whose units all complete alone** succeeds and leaves what the units make of the cells. -/
theorem ensures_pass (h : st.1.RunsOn b domain) {op : String} {extent : UInt64}
    (hext : extent.toNat ≤ 32 * (2 ^ 31 - 1)) {fields : Bundle View}
    (hcheck : fields.checkOuter .horizontal extent b.storage = .ok ())
    {body : Bundle Handle → Bundle (DimMap Int64) → Kernel α Unit} {cells : Cells α} {keep : Cells α → σ → σ}
    (hunits : ∀ i, i < extent → (Backend.unitPass fields body).Completes cells i)
    {Q : Cells α → Invocation × σ → Prop}
    (hQ : ∀ cells' inv, inv.RunsOn b domain →
      (Backend.unitPass fields body).Settled cells (fun i => i < extent) cells' → Q cells' (inv, keep cells' st.2)) :
    Ensures (pass op extent fields body cells keep) st Q := by
  obtain ⟨rfl, rfl⟩ := h
  obtain ⟨hok, hsettled⟩ := Backend.launch_completes st.1.launcher op extent hext fields hcheck body ⟨cells, []⟩ hunits
  cases hlaunch : st.1.launcher.launch op extent fields body ⟨cells, []⟩ with
  | mk result run =>
    rw [hlaunch] at hok hsettled
    cases hok
    let inv : Invocation := { st.1 with
      phase := .executing (st.1.passes.length + 1), passes := st.1.passes ++ [⟨op, extent, 0⟩]
      asked := st.1.asked + 1 }
    have hpass : st.1.pass op extent fields body ⟨cells, []⟩ = (.ok (), inv, run) := by
      simp only [Invocation.pass, hlaunch, inv]
    unfold InvocationM.pass
    refine Ensures.bind (ensures_get ?_)
    simp only [hpass]
    refine Ensures.bind (ensures_put ?_)
    exact ensures_pure (hQ run.cells inv ⟨rfl, rfl⟩ hsettled)

end InvocationM

/-- what a program ensures is what invoking it gives -/
theorem invoke_eq {σ : Type} {b : Backend} {domain : Domain} {f : InvocationM σ Unit} {s s' : σ}
    (h : InvocationM.Ensures f (.start b domain, s) fun _ st => st.2 = s') :
    ∃ metrics, invoke b domain f s = (.ok metrics, s') := by
  obtain ⟨u, ⟨inv, t⟩, hr, rfl⟩ := h
  exact ⟨inv.release.metrics, by simp only [invoke, hr]⟩

end Stencil
