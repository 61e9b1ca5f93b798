/-
The launch check of a writable field. The check looks at one stride and one bound, the guard of a unit at all strides of
the field. So the check refuses a field whose elements all lie at one place, but not one whose elements lie where the
guard counts them as steps along another axis; this file shows which units of an accepted field reach their own element.

- `elementAlong_start_iff`: the start of an element belongs to it exactly when it lies below all larger strides;
- `accessible_elementOrigin_iff`: so an element reaches its own start exactly when that stands clear, in the buffer and
  below all larger strides;
- `checkOuter_member`: what the check asks of a single writable field;
- `launch_ok_iff`: a launch succeeds exactly when its check passes and every unit completes alone;
- `launch_check_iff`: what the check of a field over a layout refuses, and which launches it accepts succeed.
-/
import Mathlib.Tactic
import Stencil.Proofs.Access.InRange
import Stencil.Proofs.Access.Ownership
import Stencil.Proofs.Engine.Agreement

namespace Stencil

/-! ## Starts of elements -/

namespace Guard

theorem foldl_emod_bounds {l : List Int} (hl : ∀ s ∈ l, 0 < s) {n : Int} (h0 : 0 ≤ n) :
    0 ≤ l.foldl (fun rest stride => rest % stride) n ∧ l.foldl (fun rest stride => rest % stride) n ≤ n := by
  induction l generalizing n with
  | nil => exact ⟨h0, le_rfl⟩
  | cons s l ih =>
    have hs := hl s List.mem_cons_self
    have hrest := ih (fun t ht => hl t (List.mem_cons_of_mem s ht)) (Int.emod_nonneg n hs.ne')
    have hle : n % s ≤ n := by
      rcases lt_or_ge n s with hn | hn
      · rw [Int.emod_eq_of_lt h0 hn]
      · exact (Int.emod_lt_of_pos n hs).le.trans hn
    rw [List.foldl_cons]
    exact ⟨hrest.1, hrest.2.trans hle⟩

theorem foldl_emod_eq_self_iff {l : List Int} (hl : ∀ s ∈ l, 0 < s) {n : Int} (h0 : 0 ≤ n) :
    l.foldl (fun rest stride => rest % stride) n = n ↔ ∀ s ∈ l, n < s := by
  induction l generalizing n with
  | nil => simp
  | cons s l ih =>
    have hs := hl s List.mem_cons_self
    have hl' : ∀ t ∈ l, 0 < t := fun t ht => hl t (List.mem_cons_of_mem s ht)
    rw [List.foldl_cons, List.forall_mem_cons]
    by_cases hn : n < s
    · rw [Int.emod_eq_of_lt h0 hn, ih hl' h0, and_iff_right hn]
    · have hlt := Int.emod_lt_of_pos n hs
      have hle := (foldl_emod_bounds hl' (Int.emod_nonneg n hs.ne')).2
      exact iff_of_false (by omega) fun h => hn h.1

/-- an offset inside of a buffer belongs to an element when the element is the quotient of what the larger strides
leave -/
theorem elementAlong_eq_iff {larger : List Int} (hl : ∀ s ∈ larger, 0 < s) {step : Int} (hstep : 0 < step)
    {offset : Int64} (h0 : 0 ≤ offset.toInt) {i : UInt64} :
    elementAlong larger step offset = i ↔
      larger.foldl (fun rest stride => rest % stride) offset.toInt / step = i.toNat := by
  obtain ⟨hrest, hle⟩ := foldl_emod_bounds hl h0
  have hlt : larger.foldl (fun rest stride => rest % stride) offset.toInt / step < 2 ^ 64 := by
    have := Int.ediv_le_self step hrest
    have := offset.toInt_lt
    omega
  obtain ⟨n, hn⟩ := Int.eq_ofNat_of_zero_le (Int.ediv_nonneg hrest hstep.le)
  rw [hn] at hlt
  rw [elementAlong, hn, uint64_ofInt_natCast, UInt64.ofNat_eq_iff_mod_eq_toNat, Nat.mod_eq_of_lt (by omega)]
  exact Int.natCast_inj.symm

theorem toInt_mul_toInt64 {step : Int64} {i : UInt64} (hpos : 0 < step.toInt)
    (hle : step.toInt * i.toNat ≤ signedMax) : (step * i.toInt64).toInt = step.toInt * i.toNat := by
  have hmul : step * i.toInt64 = Int64.ofInt (step.toInt * i.toNat) := by
    rw [Int64.ofInt_mul, Int64.ofInt_toInt, toInt64_eq_ofNat, Int64.ofInt_eq_ofNat]
  have h0 : 0 ≤ step.toInt * i.toNat := mul_nonneg hpos.le (Int.natCast_nonneg _)
  rw [hmul]
  exact Int64.toInt_ofInt_of_le (by omega) (by simp only [signedMax] at hle; omega)

/-- **Which element owns its start.** The start of an element of a positive stride, computed with wrapping, lies at a
word that is not negative and belongs to the element, exactly when it has not wrapped and lies below all larger
strides. -/
theorem elementAlong_start_iff {larger : List Int} (hl : ∀ s ∈ larger, 0 < s) {step : Int64} (hpos : 0 < step.toInt)
    {i : UInt64} : 0 ≤ (step * i.toInt64).toInt ∧ elementAlong larger step.toInt (step * i.toInt64) = i ↔
      step.toInt * i.toNat ≤ signedMax ∧ ∀ s ∈ larger, step.toInt * i.toNat < s := by
  have hnonneg : 0 ≤ step.toInt * i.toNat := mul_nonneg hpos.le (Int.natCast_nonneg _)
  constructor
  · rintro ⟨h0, howns⟩
    rw [elementAlong_eq_iff hl hpos h0] at howns
    obtain ⟨-, hle⟩ := foldl_emod_bounds hl h0
    -- what is left is at least the start, and at most the offset, so the offset has not wrapped
    have hstart := Int.mul_ediv_self_le (x := larger.foldl (fun rest stride => rest % stride) (step * i.toInt64).toInt)
      hpos.ne'
    rw [howns] at hstart
    have hword : step.toInt * i.toNat ≤ signedMax := by
      have := (step * i.toInt64).toInt_lt
      simp only [signedMax]
      omega
    rw [toInt_mul_toInt64 hpos hword] at hle hstart
    exact ⟨hword, (foldl_emod_eq_self_iff hl hnonneg).1 (le_antisymm hle hstart)⟩
  · rintro ⟨hword, hlarger⟩
    have hint := toInt_mul_toInt64 hpos hword
    have h0 : 0 ≤ (step * i.toInt64).toInt := by rw [hint]; exact hnonneg
    refine ⟨h0, (elementAlong_eq_iff hl hpos h0).2 ?_⟩
    rw [hint, (foldl_emod_eq_self_iff hl hnonneg).2 hlarger, Int.mul_ediv_cancel_left _ hpos.ne']

end Guard

theorem Handle.accessible_iff {h : Handle} :
    h.accessible = true ↔ h.admitted = true ∧ 0 ≤ h.offset.toInt ∧ h.offset.toInt < h.length := by
  rw [accessible, index?, position?]
  split
  · next ha =>
    rw [and_iff_right ha]
    split
    · next hin => exact iff_of_true rfl hin
    · next hout => exact iff_of_false (by simp) hout
  · next ha => exact iff_of_false (by simp) fun h => ha h.1

namespace View

variable {v : View} {l : Layout} {d : Dim} {i : UInt64} {step : Int64}

/-- where an element along an axis starts, over the integers -/
def startOf (v : View) (d : Dim) (i : UInt64) : Int := (v.strides.stepOf d).toInt * i.toNat

/-- an element starts below all strides that are larger than that of its axis -/
def BelowLarger (v : View) (d : Dim) (i : UInt64) : Prop :=
  ∀ e ∈ v.strides.entries, v.strides.stepOf d < e.2 → v.startOf d i < e.2.toInt

/-- an element starts in the buffer, at a signed word, and below all larger strides -/
def StandsClear (v : View) (d : Dim) (i : UInt64) : Prop :=
  v.startOf d i < v.length ∧ v.startOf d i ≤ signedMax ∧ v.BelowLarger d i

instance (v : View) (d : Dim) (i : UInt64) : Decidable (v.StandsClear d i) :=
  inferInstanceAs (Decidable (_ ∧ _ ∧ ∀ e ∈ v.strides.entries, v.strides.stepOf d < e.2 → v.startOf d i < e.2.toInt))

theorem StandsClear.mono {j : UInt64} (h : v.StandsClear d j) (hstep : 0 ≤ (v.strides.stepOf d).toInt) (hij : i ≤ j) :
    v.StandsClear d i := by
  have hle : v.startOf d i ≤ v.startOf d j :=
    mul_le_mul_of_nonneg_left (by exact_mod_cast UInt64.le_iff_toNat_le.1 hij) hstep
  obtain ⟨hlen, hword, hlarger⟩ := h
  exact ⟨by omega, by omega, fun e he hlt => hle.trans_lt (hlarger e he hlt)⟩

theorem forall_standsClear_iff (hstep : 0 ≤ (v.strides.stepOf d).toInt) {extent : UInt64} :
    (∀ i, i < extent → v.StandsClear d i) ↔ extent = 0 ∨ v.StandsClear d (extent - 1) := by
  by_cases hzero : extent = 0
  · subst hzero
    exact iff_of_true (fun i hi => absurd hi UInt64.not_lt_zero) (Or.inl rfl)
  · have hpos : 1 ≤ extent.toNat := Nat.one_le_iff_ne_zero.2 fun h => hzero (UInt64.toNat_inj.1 h)
    have hnat : (extent - 1).toNat = extent.toNat - 1 :=
      UInt64.toNat_sub_of_le _ _ (UInt64.le_iff_toNat_le.2 hpos)
    have hbelow (i : UInt64) : i < extent ↔ i ≤ extent - 1 := by
      rw [UInt64.lt_iff_toNat_lt, UInt64.le_iff_toNat_le, hnat]
      omega
    rw [or_iff_right hzero]
    constructor
    · intro hall
      exact hall _ ((hbelow _).2 UInt64.le_rfl)
    · intro hlast i hi
      exact hlast.mono hstep ((hbelow i).1 hi)

theorem forall_larger_iff (hs : v.strides.get? d = some step) (hpos : 0 < step.toInt) {P : Int → Prop} :
    (∀ s ∈ (Guard.otherStrides v.strides d).filter fun s => step.toInt < s, P s) ↔
      ∀ e ∈ v.strides.entries, step < e.2 → P e.2.toInt := by
  simp only [Guard.otherStrides, List.mem_filter, List.mem_mergeSort, List.mem_map, decide_eq_true_eq,
    Bool.and_eq_true]
  constructor
  · intro h e he hlt
    have hlt := Int64.lt_iff_toInt_lt.1 hlt
    have hne : e.1 ≠ d := by
      rintro rfl
      rw [DimMap.get?_eq_some_of_mem he, Option.some.injEq] at hs
      rw [hs] at hlt
      exact lt_irrefl _ hlt
    exact h _ ⟨⟨e, ⟨he, hne, hpos.trans hlt⟩, rfl⟩, hlt⟩
  · rintro h _ ⟨⟨e, ⟨he, -, -⟩, rfl⟩, hlt⟩
    exact h e he (Int64.lt_iff_toInt_lt.2 hlt)

/-- **When an element reaches its own start**, in a view at the start of its buffer. -/
theorem accessible_elementOrigin_iff (hw : v.access = .writable) (hstart : v.offset = 0) (he : v.HasElement d i) :
    (v.elementOrigin d i).accessible = true ↔ v.StandsClear d i := by
  obtain ⟨g, hg, ho⟩ := elementOrigin_of_hasElement hw he
  obtain ⟨step, hs, hpos, rfl⟩ := Guard.forElement_eq_some.1 hg
  have hlarger : ∀ s ∈ (Guard.otherStrides v.strides d).filter fun s => step.toInt < s, 0 < s := fun s hmem =>
    (Guard.mem_otherStrides (List.mem_filter.1 hmem).1).1
  have hstep : v.strides.stepOf d = step := by rw [DimMap.stepOf, hs, Option.getD_some]
  have hoffset : v.elementOffset d i = step * i.toInt64 := by
    rw [elementOffset, hstart, hstep, Int64.zero_add]
  have hadmitted : (v.elementOrigin d i).admitted = true ↔
      Guard.elementAlong ((Guard.otherStrides v.strides d).filter fun s => step.toInt < s) step.toInt
        (step * i.toInt64) = i := by
    simp only [ho, Handle.admitted, Guard.admits, Guard.elementOf, hoffset, hstart, Guard.elementAlong_zero,
      UInt64.zero_add, beq_iff_eq]
  rw [Handle.accessible_iff, hadmitted, StandsClear, BelowLarger, startOf, hstep, ← forall_larger_iff hs hpos]
  have howns := Guard.elementAlong_start_iff hlarger hpos (i := i)
  simp only [ho, hoffset]
  constructor
  · rintro ⟨hown, h0, hlt⟩
    obtain ⟨hword, hall⟩ := howns.1 ⟨h0, hown⟩
    rw [Guard.toInt_mul_toInt64 hpos hword] at hlt
    exact ⟨hlt, hword, hall⟩
  · rintro ⟨hlt, hword, hall⟩
    obtain ⟨h0, hown⟩ := howns.2 ⟨hword, hall⟩
    exact ⟨hown, h0, by rwa [Guard.toInt_mul_toInt64 hpos hword]⟩

theorem Spans.stepOf_nonneg (h : v.Spans l) (d : Dim) : 0 ≤ (v.strides.stepOf d).toInt := by
  rw [DimMap.stepOf]
  cases hs : v.strides.get? d with
  | none => decide
  | some step => exact h.nonneg _ (DimMap.mem_of_get?_eq_some hs)

/-- in a field with elements, whose buffer has no more than signed words, the elements start inside of the buffer -/
theorem Spans.standsClear_iff (h : v.Spans l) (hsigned : v.length ≤ signedMax) (hsome : ∀ a ∈ l.axes, a.extent ≠ 0)
    {bound : UInt64} (hb : v.bounds.get? d = some bound) (hi : i < bound) :
    v.StandsClear d i ↔ v.BelowLarger d i := by
  have hcontains : l.Contains fun k => if k = d then i.toNat else 0 := by
    intro a ha
    have hpos : a.extent.toNat ≠ 0 := fun hz => hsome a ha (UInt64.toNat_inj.1 hz)
    simp only
    by_cases hk : a.dim = d
    · have hlt := UInt64.lt_iff_toNat_lt.1 hi
      rw [← hk, h.get?_bounds ha, Option.some.injEq] at hb
      rw [if_pos hk, hb]
      omega
    · rw [if_neg hk]
      omega
  have hlt := (h.inside _ hcontains).1
  rw [DimMap.position_single, ← startOf] at hlt
  rw [StandsClear, and_iff_right hlt, and_iff_right (by omega)]

end View

/-! ## Checking a single field -/

namespace Bundle

variable {v : View} {d : Dim} {extent : UInt64} {storage : Storage}

/-- what the launch check asks of a single writable field -/
theorem checkOuter_member (hw : v.access = .writable) :
    (member v).checkOuter d extent storage =
      match v.strides.get? d with
      | none => .error (.missingStride d.label)
      | some step =>
        if storage = v.storage then
          if 0 < step.toInt then
            match v.bounds.get? d with
            | none => .error (.missingBound d.label)
            | some bound =>
              if bound < extent then .error (.extentMismatch d.label extent.toNat bound.toNat) else .ok ()
          else .error (.notAddressable d.label)
        else .error (.storageMismatch storage v.storage) := by
  rw [checkOuter, strides, map, carries, DimMap.contains, checkMember]
  cases hs : v.strides.get? d with
  | none => rfl
  | some step =>
    have hsign : 0 < step ↔ 0 < step.toInt := Int64.lt_iff_toInt_lt
    simp only [View.checkMember, hw, hs, View.upperBound, Option.any_some, Option.isSome_some, if_true, hsign,
      decide_eq_true_eq]
    by_cases hstorage : storage = v.storage
    · by_cases hpos : 0 < step.toInt
      · simp only [hstorage, hpos, if_true]
        cases v.bounds.get? d with
        | none => rfl
        | some bound => rfl
      · simp only [hstorage, hpos, if_true, if_false]
        rfl
    · simp only [hstorage, if_false]
      rfl

theorem hasElement_of_checkOuter (hw : v.access = .writable)
    (hcheck : (member v).checkOuter d extent storage = .ok ()) {i : UInt64} (hi : i < extent) : v.HasElement d i := by
  rw [checkOuter_member hw] at hcheck
  split at hcheck
  · cases hcheck
  · next step hs =>
    split_ifs at hcheck with hstorage hpos
    split at hcheck
    · cases hcheck
    · next bound hb =>
      split_ifs at hcheck with hlt
      exact ⟨⟨bound, hb, UInt64.lt_of_lt_of_le hi (UInt64.not_lt.1 hlt)⟩, step, hs, hpos⟩

theorem checkOuter_member_eq_notAddressable (hw : v.access = .writable) :
    (member v).checkOuter d extent storage = .error (.notAddressable d.label) ↔
      storage = v.storage ∧ ∃ step, v.strides.get? d = some step ∧ step.toInt ≤ 0 := by
  rw [checkOuter_member hw]
  cases v.strides.get? d with
  | none => simp
  | some step =>
    by_cases hstorage : storage = v.storage
    · by_cases hpos : 0 < step.toInt
      · simp only [hstorage, hpos, if_true, Option.some.injEq, exists_eq_left', not_le.2 hpos, and_false, iff_false]
        cases v.bounds.get? d with
        | none => simp
        | some bound => by_cases hlt : bound < extent <;> simp [hlt]
      · simp [hstorage, hpos, not_lt.1 hpos]
    · simp [hstorage]

end Bundle

/-! ## Setting the own element -/

theorem Kernel.run_set_iff {α : Type} {h : Handle} (hw : h.access = .writable) (value : α) (s : RunState α) :
    ((Kernel.set 0 h value).run [h] s).1 = .ok () ↔ h.accessible = true := by
  have hwrite : (h.moveTo h.offset).writeIndex? = h.index? := by
    rw [show h.moveTo h.offset = h from rfl, Handle.writeIndex?, hw]
  simp only [set, run, List.getElem?_cons_zero, Option.bind_some, hwrite, Handle.accessible]
  cases h.index? with
  | none => simp
  | some p => simp

namespace Backend

variable {α : Type} {v : View} {l : Layout} {length : Nat} {storage : Storage}

/-- the body that only sets the element of its unit in a single field -/
def setOwn (value : α) (p : Bundle Handle) (_ : Bundle (DimMap Int64)) : Kernel α Unit := Kernel.set 0 (p.handle 0) value

/-- a unit that only sets its element completes exactly when it reaches its start -/
theorem completes_setOwn_iff (hw : v.access = .writable) (value : α) (c : Cells α) (i : UInt64) :
    (unitPass (.member v) (setOwn value)).Completes c i ↔ (v.elementOrigin .horizontal i).accessible = true := by
  have hmembers : ((Bundle.member v).elementOrigin .horizontal i).members = [v.elementOrigin .horizontal i] := rfl
  have hrun : (unitPass (.member v) (setOwn value)).solo c i =
      (Kernel.set 0 (v.elementOrigin .horizontal i) value).run [v.elementOrigin .horizontal i] ⟨c, []⟩ := rfl
  rw [Pass.Completes, hrun]
  exact Kernel.run_set_iff ((v.access_elementOrigin .horizontal i).trans hw) value ⟨c, []⟩

theorem launch_eq_violation_iff (b : Backend) (op : String) (extent : UInt64) (fields : Bundle View)
    (body : Bundle Handle → Bundle (DimMap Int64) → Kernel α Unit) (s : RunState α) (e : ContractViolation) :
    b.launch op extent fields body s = (.error (.error (.contract e)), s) ↔
      fields.checkOuter .horizontal extent b.storage = .error e := by
  cases hcheck : fields.checkOuter .horizontal extent b.storage with
  | error e' => simp [launch, hcheck]
  | ok u =>
    refine iff_of_false (fun h => ?_) (by simp)
    rw [launch_of_accepted hcheck] at h
    exact checkLaunch_ne_contract _ _ _ _ (congrArg Prod.fst h)

/-- **A launch succeeds** under either failure policy exactly when its check passes and every unit completes alone. -/
theorem launch_ok_iff (b : Backend) (op : String) (extent : UInt64) (hext : extent.toNat ≤ 32 * (2 ^ 31 - 1))
    (fields : Bundle View) (body : Bundle Handle → Bundle (DimMap Int64) → Kernel α Unit) (s : RunState α) :
    (b.launch op extent fields body s).1 = .ok () ↔ fields.checkOuter .horizontal extent b.storage = .ok () ∧
      ∀ i, i < extent → (unitPass fields body).Completes s.cells i := by
  refine ⟨fun h => ?_, fun h => (launch_completes b op extent hext fields h.1 body s h.2).1⟩
  cases hcheck : fields.checkOuter .horizontal extent b.storage with
  | error e =>
    simp only [launch, hcheck] at h
    cases h
  | ok u =>
    obtain ⟨ran, -, -, hend⟩ := dispatch_ends b extent hext fields body s
    rcases hend with ⟨-, hall⟩ | ⟨f, hf, -⟩
    · exact ⟨rfl, fun i hi => (hall i hi).2⟩
    · simp only [launch, hcheck, hf] at h
      cases h

/-- **The launch check of a writable field over a layout.** A launch is refused because the field is not addressable, and
then leaves the cells as they were, exactly when the stride of the elements is zero. Once the check accepts the launch,
a unit reaches its own element, and completes when it only sets that, exactly when the element stands clear: in a field
with elements, when it starts below every larger stride. So the launch of a pass that only sets the elements succeeds
exactly when it is empty or its last element stands clear. -/
theorem launch_check_iff (hv : View.ofLayout .writable length l storage = .ok v) (b : Backend) (op : String)
    (extent : UInt64) (value : α) (s : RunState α) :
    (∀ body, b.launch op extent (.member v) body s =
        (.error (.error (.contract (.notAddressable Dim.horizontal.label))), s) ↔
      b.storage = storage ∧ v.strides.get? .horizontal = some 0) ∧
    ((Bundle.member v).checkOuter .horizontal extent b.storage = .ok () →
      (∀ i, i < extent →
        ((v.elementOrigin .horizontal i).accessible = true ↔ v.StandsClear .horizontal i) ∧
        ((unitPass (.member v) (setOwn value)).Completes s.cells i ↔ v.StandsClear .horizontal i) ∧
        (length ≤ signedMax → (∀ a ∈ l.axes, a.extent ≠ 0) →
          (v.StandsClear .horizontal i ↔ v.BelowLarger .horizontal i))) ∧
      (extent.toNat ≤ 32 * (2 ^ 31 - 1) →
        ((b.launch op extent (.member v) (setOwn value) s).1 = .ok () ↔
          extent = 0 ∨ v.StandsClear .horizontal (extent - 1)))) := by
  obtain ⟨hspans, hw, hlength, hstorage⟩ := View.spans_of_ofLayout hv
  subst hlength hstorage
  refine ⟨fun body => ?_, fun hcheck => ?_⟩
  · rw [launch_eq_violation_iff, Bundle.checkOuter_member_eq_notAddressable hw]
    refine and_congr_right fun _ => ⟨?_, fun hs => ⟨0, hs, le_rfl⟩⟩
    rintro ⟨step, hs, hle⟩
    have h0 : 0 ≤ step.toInt := hspans.nonneg _ (DimMap.mem_of_get?_eq_some hs)
    have hzero : step.toInt = (0 : Int64).toInt := by rw [show (0 : Int64).toInt = 0 from rfl]; omega
    rw [hs, Int64.toInt_inj.1 hzero]
  · have hreach (i : UInt64) (hi : i < extent) :
        (v.elementOrigin .horizontal i).accessible = true ↔ v.StandsClear .horizontal i :=
      View.accessible_elementOrigin_iff hw hspans.start (Bundle.hasElement_of_checkOuter hw hcheck hi)
    have hunits (i : UInt64) (hi : i < extent) :
        (unitPass (.member v) (setOwn value)).Completes s.cells i ↔ v.StandsClear .horizontal i :=
      (completes_setOwn_iff hw value s.cells i).trans (hreach i hi)
    refine ⟨fun i hi => ⟨hreach i hi, hunits i hi, fun hsigned hsome => ?_⟩, fun hext => ?_⟩
    · obtain ⟨⟨bound, hb, hlt⟩, -⟩ := Bundle.hasElement_of_checkOuter hw hcheck hi
      exact hspans.standsClear_iff hsigned hsome hb hlt
    · rw [launch_ok_iff b op extent hext, and_iff_right hcheck,
        ← View.forall_standsClear_iff (hspans.stepOf_nonneg .horizontal)]
      exact forall₂_congr hunits

/-- a launch that sets the three elements of the lower padded level succeeds -/
theorem launch_check_iff_padded : View.ofLayout .writable 8 View.padded .host = .ok (View.paddedView .writable) ∧
    (Bundle.member (View.paddedView .writable)).checkOuter .horizontal 3 .host = .ok () ∧
      ((Backend.standard .sequential).launch "set" 3 (.member (View.paddedView .writable)) (setOwn 7)
        ⟨#[Array.replicate 8 (0 : Int)], []⟩).1 = .ok () := by
  have accepted : (Bundle.member (View.paddedView .writable)).checkOuter .horizontal 3 .host = .ok () := by
    decide +kernel
  obtain ⟨-, hends⟩ := launch_check_iff (View.ofLayout_padded .writable) (Backend.standard .sequential) "set" 3 7
    ⟨#[Array.replicate 8 (0 : Int)], []⟩
  exact ⟨View.ofLayout_padded .writable, accepted, ((hends accepted).2 (by decide)).2 (Or.inr (by decide +kernel))⟩

/-- three elements, one place apart, on two levels that are two places apart -/
def overlapping : Layout := ⟨[⟨.horizontal, 3, some 1⟩, ⟨.vertical, 2, some 2⟩]⟩

/-- the check accepts the overlapping levels, but the third element starts where the upper level does: its unit does
not reach it -/
theorem overlapping_element_refused : ∃ v, View.ofLayout .writable 5 overlapping .host = .ok v ∧
    (Bundle.member v).checkOuter .horizontal 3 .host = .ok () ∧
      (v.elementOrigin .horizontal 2).accessible = false ∧
        ((Backend.mk .sequential .propagating fun _ => .ascending).launch "set" 3 (.member v) (setOwn 7)
          ⟨#[Array.replicate 5 (0 : Int)], []⟩).1 = .error (.error (.launchFailure "set" 1
            "kernel fault: handle offset 2 belongs to element 0 but this unit owns element 2")) :=
  ⟨_, rfl, by decide +kernel, by decide +kernel, by decide +kernel⟩

end Backend

end Stencil
