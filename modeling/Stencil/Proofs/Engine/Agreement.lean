/-
Agreement of the backends. A pass over the same fields, in the storage that each backend asks for, ends in the same
way on the sequential backend and on the parallel one, in whatever order the parallel one takes its blocks.

- `checkOuter_placed`: the launch check does not depend on where the buffers live;
- `launch_ends`: what a launch whose check passes leaves behind, on either backend;
- `launch_completes`: a launch whose units all complete alone succeeds;
- `launch_agrees`: both launches succeed or both fail, with equal cells or the same code.
-/
import Mathlib.Tactic
import Stencil.Proofs.Engine.Grid

namespace Stencil

/-! ## Where the buffers live -/

/-- the view over a buffer in another storage -/
def View.placed (storage : Storage) (v : View) : View := { v with storage }

namespace Bundle

/-- the views over buffers in one storage -/
def placed (b : Bundle View) (storage : Storage) : Bundle View := b.map (View.placed storage)

theorem strides_placed (b : Bundle View) (storage : Storage) : (b.placed storage).strides = b.strides :=
  map_map _ _ b

theorem elementOrigin_placed (b : Bundle View) (storage : Storage) (d : Dim) (i : UInt64) :
    (b.placed storage).elementOrigin d i = b.elementOrigin d i :=
  map_map _ _ b

theorem checkAll_placed (d : Dim) (extent : UInt64) (storage storage' : Storage) (vs : List View) :
    checkAll d extent storage (vs.map (View.placed storage)) =
      checkAll d extent storage' (vs.map (View.placed storage')) := by
  have each : ∀ v : View, (v.placed storage).checkMember d extent storage =
      (v.placed storage').checkMember d extent storage' := by
    intro v
    simp only [View.checkMember, View.placed]
    rfl
  induction vs with
  | nil => rfl
  | cons v vs ih => simp only [List.map_cons, checkAll, each, ih]

theorem checkOuter_placed (b : Bundle View) (d : Dim) (extent : UInt64) (storage storage' : Storage) :
    (b.placed storage).checkOuter d extent storage = (b.placed storage').checkOuter d extent storage' := by
  simp only [checkOuter, strides_placed, checkMember_eq_members]
  rw [placed, placed, members_map, members_map, checkAll_placed d extent storage storage']

end Bundle

/-! ## Launching -/

namespace Backend

variable {α : Type}

theorem unitPass_placed (fields : Bundle View) (storage : Storage)
    (body : Bundle Handle → Bundle (DimMap Int64) → Kernel α Unit) :
    unitPass (fields.placed storage) body = unitPass fields body := by
  unfold unitPass
  rw [Bundle.strides_placed]
  congr 1
  exact funext fun i => Bundle.elementOrigin_placed fields storage .horizontal i

/-- **A launch whose check passes** leaves settled cells: it succeeds if every unit completes alone, and is a launch
failure with code 1 if one faults. -/
theorem launch_ends (b : Backend) (hpolicy : b.config.failurePolicy = .propagate) (op : String) (extent : UInt64)
    (hext : extent.toNat ≤ 32 * (2 ^ 31 - 1)) (fields : Bundle View)
    (hcheck : fields.checkOuter .horizontal extent b.storage = .ok ())
    (body : Bundle Handle → Bundle (DimMap Int64) → Kernel α Unit) (s : RunState α) :
    let r := b.launch op extent fields body s
    let pass := unitPass fields body
    ∃ ran, (∀ i, ran i → i < extent) ∧ pass.Settled s.cells ran r.2.cells ∧
      ((r.1 = .ok () ∧ ∀ i, i < extent → ran i ∧ pass.Completes s.cells i) ∨
        ((∃ detail, r.1 = .error (.error (.launchFailure op 1 detail))) ∧
          ∃ i, i < extent ∧ ¬ pass.Completes s.cells i)) := by
  intro r pass
  obtain ⟨ran, hran, hs, hend⟩ := dispatch_ends b extent hext fields body s
  simp only [r, launch_of_accepted hcheck]
  refine ⟨ran, hran, hs, ?_⟩
  rcases hend with ⟨hok, hall⟩ | ⟨f, hf, hfi, hfe⟩
  · exact Or.inl ⟨by rw [hok]; rfl, hall⟩
  · refine Or.inr ⟨⟨_, by rw [hf, hpolicy]; rfl⟩, f.index, hfi, ?_⟩
    intro hc
    rw [Pass.Completes, hfe] at hc
    cases hc

/-- **A launch whose units all complete alone** succeeds under either failure policy, and leaves what the units make of
the cells. -/
theorem launch_completes (b : Backend) (op : String) (extent : UInt64) (hext : extent.toNat ≤ 32 * (2 ^ 31 - 1))
    (fields : Bundle View) (hcheck : fields.checkOuter .horizontal extent b.storage = .ok ())
    (body : Bundle Handle → Bundle (DimMap Int64) → Kernel α Unit) (s : RunState α)
    (hunits : ∀ i, i < extent → (unitPass fields body).Completes s.cells i) :
    (b.launch op extent fields body s).1 = .ok () ∧
      (unitPass fields body).Settled s.cells (fun i => i < extent) (b.launch op extent fields body s).2.cells := by
  obtain ⟨ran, hran, hs, hend⟩ := dispatch_ends b extent hext fields body s
  rw [launch_of_accepted hcheck]
  rcases hend with ⟨hok, hall⟩ | ⟨f, -, hf, hfe⟩
  · exact ⟨by rw [hok]; rfl, hs.congr fun i => ⟨fun hi => (hall i hi).1, hran i⟩⟩
  · have hc := hunits f.index hf
    rw [Pass.Completes, hfe] at hc
    cases hc

/-- **The backends agree.** The same pass over the same fields, each in the storage its backend asks for, succeeds on
both or fails on both; if it succeeds, all cells end up equal; if it fails, both report a launch failure with code 1.
The parallel backend may take its blocks in any order, and its units get the handles of the elements. -/
theorem launch_agrees (seq par : Backend) (hseq : seq.kind = .sequential) (hpar : par.kind = .parallel)
    (hseqPolicy : seq.config.failurePolicy = .propagate) (hparPolicy : par.config.failurePolicy = .propagate)
    (op : String) (extent : UInt64) (hext : extent.toNat ≤ 32 * (2 ^ 31 - 1)) (fields : Bundle View)
    (hcheck : ∃ storage, (fields.placed storage).checkOuter .horizontal extent storage = .ok ())
    (body : Bundle Handle → Bundle (DimMap Int64) → Kernel α Unit) (s : RunState α) :
    let r := seq.launch op extent (fields.placed .host) body s
    let r' := par.launch op extent (fields.placed .device) body s
    (r.1 = .ok () ↔ r'.1 = .ok ()) ∧ (r.1 = .ok () → r.2.cells = r'.2.cells) ∧
      (r.1 ≠ .ok () → (∃ detail, r.1 = .error (.error (.launchFailure op 1 detail))) ∧
        ∃ detail, r'.1 = .error (.error (.launchFailure op 1 detail))) ∧
      ∀ (b : Bundle View) (i : UInt64),
        b.share.unitOrigin ⟨.horizontal, i⟩ = b.elementOrigin .horizontal i := by
  intro r r'
  obtain ⟨storage, hcheck⟩ := hcheck
  have hs : seq.storage = .host := by rw [Backend.storage, hseq]; rfl
  have hp : par.storage = .device := by rw [Backend.storage, hpar]; rfl
  obtain ⟨ran, hran, hset, hend⟩ := launch_ends seq hseqPolicy op extent hext (fields.placed .host)
    (by rw [hs, Bundle.checkOuter_placed fields _ _ .host storage]; exact hcheck) body s
  obtain ⟨ran', hran', hset', hend'⟩ := launch_ends par hparPolicy op extent hext (fields.placed .device)
    (by rw [hp, Bundle.checkOuter_placed fields _ _ .device storage]; exact hcheck) body s
  rw [unitPass_placed] at hset hend hset' hend'
  refine ⟨?_, ?_, ?_, fun b i => unitOrigin_share b ⟨.horizontal, i⟩⟩
  · rcases hend with ⟨hok, hall⟩ | ⟨⟨detail, hfail⟩, i, hi, hnot⟩
    · rcases hend' with ⟨hok', -⟩ | ⟨-, i, hi, hnot⟩
      · exact iff_of_true hok hok'
      · exact absurd (hall i hi).2 hnot
    · rcases hend' with ⟨-, hall'⟩ | ⟨⟨detail', hfail'⟩, -⟩
      · exact absurd (hall' i hi).2 hnot
      · exact iff_of_false (by rw [hfail]; exact nofun) (by rw [hfail']; exact nofun)
  · intro hok
    rcases hend with ⟨-, hall⟩ | ⟨⟨detail, hfail⟩, -⟩
    · rcases hend' with ⟨-, hall'⟩ | ⟨-, i, hi, hnot⟩
      · refine hset.unique (hset'.congr fun i => ⟨?_, ?_⟩)
        · intro h
          exact (hall' i (hran i h)).1
        · intro h
          exact (hall i (hran' i h)).1
      · exact absurd (hall i hi).2 hnot
    · rw [hfail] at hok
      cases hok
  · intro hno
    rcases hend with ⟨hok, -⟩ | ⟨hfail, i, hi, hnot⟩
    · exact absurd hok hno
    · rcases hend' with ⟨-, hall'⟩ | ⟨hfail', -⟩
      · exact absurd (hall' i hi).2 hnot
      · exact ⟨hfail, hfail'⟩

/-- blocks in descending order, all of them even after a fault -/
def descending : Schedule where
  piece blocks turn := blocks - 1 - turn
  piece_lt h := by omega
  piece_inj hi hj h := by omega
  afterFault _ := true

/-- launches that take their blocks in descending order and in ascending order by turns -/
def alternating (launch : Nat) : Schedule := if launch % 2 = 0 then descending else .ascending

/-- a field to read and a field to write, of `n` elements each, the second in a group of its own -/
def sourceAndTarget (n : Nat) : Bundle View :=
  .group [.member (.ofElements .readOnly n .host), .group [.member (.ofElements .writable n .host)]]

/-- adds twice the source to the target; an element whose source is negative raises -/
def addTwice (p : Bundle Handle) (_ : Bundle (DimMap Int64)) : Kernel Int Unit := do
  let v ← Kernel.get 0 (p.handle 0)
  if v < 0 then Kernel.fault (.raised "negative")
  Kernel.update 1 (p.handle 1) fun old => return old + 2 * v

/-- three blocks, the last first: the backends agree on the cells of a pass that succeeds, and on the failure of a pass
with raising elements in the second block and in the third -/
theorem launch_agrees_descending :
    let seq : Backend := ⟨.sequential, .propagating, fun _ => .ascending⟩
    let par : Backend := ⟨.parallel, .propagating, fun _ => descending⟩
    let rising : RunState Int := ⟨#[((List.range 65).map fun i => (i : Int)).toArray, Array.replicate 65 1], []⟩
    let falling : RunState Int := ⟨#[((List.range 65).map fun i => 40 - (i : Int)).toArray, Array.replicate 65 1], []⟩
    let r := seq.launch "twice" 65 ((sourceAndTarget 65).placed .host) addTwice falling
    let r' := par.launch "twice" 65 ((sourceAndTarget 65).placed .device) addTwice falling
    let w := seq.launch "twice" 65 ((sourceAndTarget 65).placed .host) addTwice rising
    let w' := par.launch "twice" 65 ((sourceAndTarget 65).placed .device) addTwice rising
    (∃ storage, ((sourceAndTarget 65).placed storage).checkOuter .horizontal 65 storage = .ok ()) ∧
      (w.1 = .ok () ∧ w'.1 = .ok () ∧ w.2.cells = w'.2.cells ∧
        w.2.cells[1]? = some ((List.range 65).map fun i => 1 + 2 * (i : Int)).toArray) ∧
      r.1 ≠ .ok () ∧ ∃ detail, r'.1 = .error (.error (.launchFailure "twice" 1 detail)) := by
  intro seq par rising falling r r' w w'
  have accepted : ((sourceAndTarget 65).placed .host).checkOuter .horizontal 65 .host = .ok () := by decide +kernel
  have completed : w.1 = .ok () := by decide +kernel
  have written : w.2.cells[1]? = some ((List.range 65).map fun i => 1 + 2 * (i : Int)).toArray := by decide +kernel
  have failed : r.1 ≠ .ok () := by decide +kernel
  have agree := launch_agrees seq par rfl rfl rfl rfl "twice" 65 (by decide) (sourceAndTarget 65) ⟨.host, accepted⟩
    addTwice
  have completed' : w'.1 = .ok () := (agree rising).1.1 completed
  have cells : w.2.cells = w'.2.cells := by
    unfold w w'
    exact (agree rising).2.1 completed
  have failed' : ∃ detail, r'.1 = .error (.error (.launchFailure "twice" 1 detail)) :=
    ((agree falling).2.2.1 failed).2
  exact ⟨⟨.host, accepted⟩, ⟨completed, completed', cells, written⟩, failed, failed'⟩

end Backend

end Stencil
