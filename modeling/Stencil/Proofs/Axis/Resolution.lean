/-
What a layout resolves to. Resolving succeeds exactly when the axes are few and distinct and all strides and the span
are addressable, and then gives the axes in order with these strides and their extents.

- `ofList_eq_ok`: distinct entries, few enough, make the map that holds them in order;
- `strideList_eq_some`: when there are strides, and which;
- `resolve_cases`, `resolve_eq_ok`: how resolving ends, when a layout resolves, and to what;
- `resolve_rowMajor`: a row-major layout has the products of the later extents as strides, and their product as span.
-/
import Mathlib.Tactic
import Stencil.Axis.Layout

namespace Stencil

/-! ## Maps from entries -/

namespace DimMap

variable {α : Type}

theorem put_of_not_mem {d : Dim} {v : α} {l : List (Dim × α)} (h : d ∉ l.map Prod.fst) : put d v l = l ++ [(d, v)] := by
  induction l with
  | nil => rfl
  | cons e l ih =>
    obtain ⟨k, w⟩ := e
    simp only [List.map_cons, List.mem_cons, not_or] at h
    rw [put, if_neg fun e => h.1 e.symm, ih h.2]
    rfl

theorem length_keys (m : DimMap α) : m.keys.length = m.size := by rw [keys, List.length_map, size]

theorem insert_new {m : DimMap α} {d : Dim} (hd : d ∉ m.keys) (hroom : m.size < maxDims) (v : α) :
    ∃ m', m.insert d v = .ok m' ∧ m'.entries = m.entries ++ [(d, v)] := by
  rw [insert, dif_pos (Or.inr hroom)]
  exact ⟨_, rfl, put_of_not_mem hd⟩

theorem foldlM_insert {l : List (Dim × α)} {m : DimMap α} (hnew : (m.entries ++ l).map Prod.fst |>.Nodup)
    (hroom : (m.entries ++ l).length ≤ maxDims) :
    l.foldlM (fun m e => m.insert e.1 e.2) m = .ok ⟨m.entries ++ l, hnew, hroom⟩ := by
  induction l generalizing m with
  | nil => simp [pure, Except.pure]
  | cons e l ih =>
    have hd : e.1 ∉ m.keys := by
      rw [List.map_append, List.nodup_append] at hnew
      exact fun h => hnew.2.2 e.1 h e.1 (by simp) rfl
    have hlt : m.size < maxDims := by
      simp only [List.length_append, List.length_cons] at hroom
      simp only [size]
      omega
    obtain ⟨m', hinsert, hentries⟩ := insert_new hd hlt e.2
    have hassoc : m'.entries ++ l = m.entries ++ e :: l := by
      rw [hentries]; simp
    rw [List.foldlM_cons, hinsert]
    refine (ih (m := m') (by rw [hassoc]; exact hnew) (by rw [hassoc]; exact hroom)).trans ?_
    exact congrArg Except.ok (ext_entries hassoc)

theorem ofList_eq_ok {l : List (Dim × α)} (hnodup : (l.map Prod.fst).Nodup) (hroom : l.length ≤ maxDims) :
    ofList l = .ok ⟨l, hnodup, hroom⟩ := foldlM_insert (m := empty) hnodup hroom

theorem find_eq_some_of_mem {l : List (Dim × α)} (hnodup : (l.map Prod.fst).Nodup) {d : Dim} {v : α}
    (h : (d, v) ∈ l) : find d l = some v := by
  induction l with
  | nil => cases h
  | cons e l ih =>
    obtain ⟨k, w⟩ := e
    simp only [List.map_cons, List.nodup_cons] at hnodup
    rcases List.mem_cons.1 h with e | h
    · cases e
      simp [find]
    · have hk : k ≠ d := fun e => hnodup.1 (e ▸ List.mem_map.2 ⟨(d, v), h, rfl⟩)
      rw [find, if_neg hk, ih hnodup.2 h]

theorem get?_eq_some_of_mem {m : DimMap α} {d : Dim} {v : α} (h : (d, v) ∈ m.entries) : m.get? d = some v :=
  find_eq_some_of_mem m.nodup h

theorem mem_keys_of_mem {m : DimMap α} {e : Dim × α} (he : e ∈ m.entries) : e.1 ∈ m.keys :=
  List.mem_map.2 ⟨e, he, rfl⟩

theorem mem_of_find_eq_some {l : List (Dim × α)} {d : Dim} {v : α} (h : find d l = some v) : (d, v) ∈ l := by
  induction l with
  | nil => cases h
  | cons e l ih =>
    obtain ⟨k, w⟩ := e
    rw [find] at h
    split at h
    · next hk =>
      cases h
      exact hk ▸ List.mem_cons_self
    · exact List.mem_cons_of_mem _ (ih h)

theorem mem_of_get?_eq_some {m : DimMap α} {d : Dim} {v : α} (h : m.get? d = some v) : (d, v) ∈ m.entries :=
  mem_of_find_eq_some h

theorem rename_eq_ok {m : DimMap α} {a b : Dim} (hab : a ≠ b) (ha : a ∈ m.keys) (hb : b ∉ m.keys) :
    ∃ m', m.rename a b = .ok m' ∧ m'.entries = relabel a b m.entries := by
  have hnot : ¬ (a = b ∨ a ∉ m.keys) := fun h => h.elim hab fun hn => hn ha
  unfold rename
  rw [if_neg hnot, dif_neg hb]
  exact ⟨_, rfl, rfl⟩

end DimMap

namespace Layout

/-! ## Repeated axes -/

theorem firstRepeated_eq_none {seen : List Dim} {axes : List LayoutAxis} :
    firstRepeated seen axes = none ↔ (axes.map LayoutAxis.dim).Nodup ∧ ∀ a ∈ axes, a.dim ∉ seen := by
  induction axes generalizing seen with
  | nil => simp [firstRepeated]
  | cons a axes ih =>
    rw [firstRepeated]
    split
    · next h => simp [h]
    · next h =>
      rw [ih]
      simp only [List.map_cons, List.nodup_cons, List.mem_map, List.mem_cons, not_or, forall_eq_or_imp]
      constructor
      · rintro ⟨hn, hs⟩
        exact ⟨⟨fun ⟨b, hb, hba⟩ => (hs b hb).1 hba, hn⟩, h, fun b hb => (hs b hb).2⟩
      · rintro ⟨⟨ha, hn⟩, -, hs⟩
        exact ⟨hn, fun b hb => ⟨fun e => ha ⟨b, hb, e⟩, hs b hb⟩⟩

/-- the first repeated axis is the one that is known, or repeats one in front of it, while those in front are new -/
theorem firstRepeated_eq_some {seen : List Dim} {axes : List LayoutAxis} {d : Dim} :
    firstRepeated seen axes = some d ↔ ∃ front a back, axes = front ++ a :: back ∧ (front.map LayoutAxis.dim).Nodup ∧
      (∀ b ∈ front, b.dim ∉ seen) ∧ (a.dim ∈ seen ∨ a.dim ∈ front.map LayoutAxis.dim) ∧ d = a.dim := by
  induction axes generalizing seen with
  | nil => simp [firstRepeated]
  | cons c axes ih =>
    rw [firstRepeated]
    split
    · next hc =>
      rw [Option.some.injEq]
      constructor
      · rintro rfl
        exact ⟨[], c, axes, rfl, List.nodup_nil, by simp, Or.inl hc, rfl⟩
      · rintro ⟨front, a, back, haxes, -, hnew, -, rfl⟩
        cases front with
        | nil => exact congrArg LayoutAxis.dim (List.cons.inj haxes).1
        | cons b front => exact absurd ((List.cons.inj haxes).1 ▸ hc) (hnew b List.mem_cons_self)
    · next hc =>
      rw [ih]
      constructor
      · rintro ⟨front, a, back, rfl, hnodup, hnew, hrep, rfl⟩
        simp only [List.mem_cons, not_or] at hnew hrep
        refine ⟨c :: front, a, back, rfl, ?_, List.forall_mem_cons.2 ⟨hc, fun b hb => (hnew b hb).2⟩, ?_, rfl⟩
        · refine List.nodup_cons.2 ⟨fun hmem => ?_, hnodup⟩
          obtain ⟨b, hb, hbc⟩ := List.mem_map.1 hmem
          exact (hnew b hb).1 hbc
        · rw [List.map_cons, List.mem_cons]
          tauto
      · rintro ⟨front, a, back, haxes, hnodup, hnew, hrep, rfl⟩
        cases front with
        | nil =>
          obtain ⟨rfl, rfl⟩ := List.cons.inj haxes
          exact absurd (hrep.resolve_right List.not_mem_nil) hc
        | cons b front =>
          obtain ⟨rfl, rfl⟩ := List.cons.inj haxes
          rw [List.map_cons, List.nodup_cons] at hnodup
          rw [List.forall_mem_cons] at hnew
          rw [List.map_cons, List.mem_cons] at hrep
          refine ⟨front, a, back, rfl, hnodup.2, fun b hb => ?_, ?_, rfl⟩
          · rw [List.mem_cons, not_or]
            exact ⟨fun e => hnodup.1 (List.mem_map.2 ⟨b, hb, e⟩), hnew.2 b hb⟩
          · rw [List.mem_cons]
            tauto

/-! ## Strides -/

/-- the number of positions along the axes that have no stride of their own -/
def rowVolume (axes : List LayoutAxis) : Nat :=
  ((axes.filter fun a => a.stride.isNone).map fun a => a.extent.toNat).prod

@[simp] theorem rowVolume_nil : rowVolume [] = 1 := rfl

theorem rowVolume_cons_of_some {a : LayoutAxis} {stride : UInt64} (h : a.stride = some stride)
    (axes : List LayoutAxis) : rowVolume (a :: axes) = rowVolume axes := by
  simp [rowVolume, h]

theorem rowVolume_cons_of_none {a : LayoutAxis} (h : a.stride = none) (axes : List LayoutAxis) :
    rowVolume (a :: axes) = rowVolume axes * a.extent.toNat := by
  simp [rowVolume, h, Nat.mul_comm]

/-- the stride of an axis that stands in front of others: its own, or the row volume of the others -/
def strideBefore (a : LayoutAxis) (back : List LayoutAxis) : Nat := a.stride.elim (rowVolume back) UInt64.toNat

/-- the strides of all axes -/
def axisStrides : List LayoutAxis → List Nat
  | [] => []
  | a :: axes => strideBefore a axes :: axisStrides axes

theorem length_axisStrides (axes : List LayoutAxis) : (axisStrides axes).length = axes.length := by
  induction axes with
  | nil => rfl
  | cons a axes ih => simp [axisStrides, ih]

/-- there are strides exactly when the row volumes of all axes from some axis on are words -/
theorem strideList_eq_some {axes : List LayoutAxis} {running : Nat} {strides : List Nat} :
    strideList axes = some (running, strides) ↔
      (∀ back, back <:+ axes → rowVolume back ≤ wordMax) ∧ running = rowVolume axes ∧ strides = axisStrides axes := by
  induction axes generalizing running strides with
  | nil =>
    simp only [strideList, axisStrides, List.suffix_nil, forall_eq, rowVolume_nil, Option.some.injEq, Prod.mk.injEq]
    constructor
    · rintro ⟨rfl, rfl⟩
      exact ⟨by decide, rfl, rfl⟩
    · rintro ⟨-, rfl, rfl⟩
      exact ⟨rfl, rfl⟩
  | cons a axes ih =>
    simp only [strideList, Option.bind_eq_bind, Option.bind_eq_some_iff, Prod.exists, List.suffix_cons_iff,
      forall_eq_or_imp, axisStrides, strideBefore]
    cases hs : a.stride with
    | some stride =>
      simp only [rowVolume_cons_of_some hs, Option.some.injEq, Prod.mk.injEq, Option.elim_some]
      constructor
      · rintro ⟨_, _, h, rfl, rfl⟩
        obtain ⟨hwords, rfl, rfl⟩ := ih.1 h
        exact ⟨⟨hwords axes List.suffix_rfl, hwords⟩, rfl, rfl⟩
      · rintro ⟨⟨-, hwords⟩, rfl, rfl⟩
        exact ⟨_, _, ih.2 ⟨hwords, rfl, rfl⟩, rfl, rfl⟩
    | none =>
      simp only [rowVolume_cons_of_none hs, Option.map_eq_some_iff, fits_eq_some, Prod.mk.injEq, Option.elim_none]
      constructor
      · rintro ⟨_, _, h, next, ⟨hle, rfl⟩, rfl, rfl⟩
        obtain ⟨hwords, rfl, rfl⟩ := ih.1 h
        exact ⟨⟨hle, hwords⟩, rfl, rfl⟩
      · rintro ⟨⟨hle, hwords⟩, rfl, rfl⟩
        exact ⟨_, _, ih.2 ⟨hwords, rfl, rfl⟩, _, ⟨hle, rfl⟩, rfl, rfl⟩

/-! ## Spans -/

theorem spanOf_of_zero {axes : List LayoutAxis} (h : ∃ a ∈ axes, a.extent = 0) (strides : List Nat) :
    spanOf axes strides = some 0 := by
  obtain ⟨a, ha, hzero⟩ := h
  have hany : (axes.any fun a => a.extent == 0) = true := List.any_eq_true.2 ⟨a, ha, by rw [hzero]; rfl⟩
  exact if_pos hany

theorem spanOf_of_pos {axes : List LayoutAxis} (h : ∀ a ∈ axes, a.extent ≠ 0) (strides : List Nat) :
    spanOf axes strides = fits (1 + reach axes strides) := by
  refine if_neg fun hany => ?_
  obtain ⟨a, ha, hzero⟩ := List.any_eq_true.1 hany
  exact h a ha (beq_iff_eq.1 hzero)

theorem spanOf_le {axes : List LayoutAxis} {strides : List Nat} {span : Nat} (h : spanOf axes strides = some span) :
    span ≤ wordMax := by
  by_cases hzero : ∃ a ∈ axes, a.extent = 0
  · rw [spanOf_of_zero hzero, Option.some.injEq] at h
    omega
  · push Not at hzero
    rw [spanOf_of_pos hzero] at h
    obtain ⟨hle, rfl⟩ := fits_eq_some.1 h
    exact hle

/-! ## Resolving -/

/-- the axes of a layout with their strides, as a map holds them -/
def strideEntries (axes : List LayoutAxis) (strides : List Nat) : List (Dim × Int64) :=
  (axes.map LayoutAxis.dim).zip (strides.map fun s => Int64.ofNat s)

/-- the axes of a layout with their extents, as a map holds them -/
def boundEntries (axes : List LayoutAxis) : List (Dim × UInt64) :=
  (axes.map LayoutAxis.dim).zip (axes.map LayoutAxis.extent)

theorem keys_strideEntries {axes : List LayoutAxis} {strides : List Nat} (h : strides.length = axes.length) :
    (strideEntries axes strides).map Prod.fst = axes.map LayoutAxis.dim :=
  List.map_fst_zip (by simp [h])

theorem boundEntries_eq (axes : List LayoutAxis) : boundEntries axes = axes.map fun a => (a.dim, a.extent) := by
  simp [boundEntries, List.zip_map']

theorem ofList_entries {axes : List LayoutAxis} (hroom : axes.length ≤ maxDims)
    (hnodup : (axes.map LayoutAxis.dim).Nodup) {α : Type} (values : List α) (hlen : values.length = axes.length) :
    ∃ m, DimMap.ofList ((axes.map LayoutAxis.dim).zip values) = .ok m ∧
      m.entries = (axes.map LayoutAxis.dim).zip values := by
  have hkeys : (((axes.map LayoutAxis.dim).zip values).map Prod.fst) = axes.map LayoutAxis.dim :=
    List.map_fst_zip (by simp [hlen])
  exact ⟨_, DimMap.ofList_eq_ok (by rw [hkeys]; exact hnodup) (by simp [hlen, hroom]), rfl⟩

/-- what the strides of axes must satisfy: all row volumes are words, all strides signed words, and the span a word -/
structure FitWords (axes : List LayoutAxis) : Prop where
  volumes : ∀ back, back <:+ axes → rowVolume back ≤ wordMax
  strides : ∀ s ∈ axisStrides axes, s ≤ signedMax
  span : (spanOf axes (axisStrides axes)).isSome

/-- **How resolving ends**: with too many axes, with the first axis that repeats, with strides or a span that do not fit
words, or else with the maps and the span. -/
theorem resolve_cases (l : Layout) :
    (maxDims < l.axes.length ∧ l.resolve = .error (.tooManyDims maxDims)) ∨
    (l.axes.length ≤ maxDims ∧ ∃ d, firstRepeated [] l.axes = some d ∧ l.resolve = .error (.duplicateDim d.label)) ∨
    (l.axes.length ≤ maxDims ∧ (l.axes.map LayoutAxis.dim).Nodup ∧ ¬ FitWords l.axes ∧
      l.resolve = .error unaddressable) ∨
    (l.axes.length ≤ maxDims ∧ (l.axes.map LayoutAxis.dim).Nodup ∧ FitWords l.axes ∧
      ∃ r, l.resolve = .ok r ∧ spanOf l.axes (axisStrides l.axes) = some r.span ∧
        r.strides.entries = strideEntries l.axes (axisStrides l.axes) ∧ r.bounds.entries = boundEntries l.axes) := by
  unfold resolve
  by_cases hlen : maxDims < l.axes.length
  · exact Or.inl ⟨hlen, by simp only [hlen, if_true]; rfl⟩
  have hroom : l.axes.length ≤ maxDims := by omega
  refine Or.inr ?_
  cases hrep : firstRepeated [] l.axes with
  | some d => exact Or.inl ⟨hroom, d, rfl, by simp only [hlen, if_false]; rfl⟩
  | none =>
    refine Or.inr ?_
    have hnodup := (firstRepeated_eq_none.1 hrep).1
    cases hs : strideList l.axes with
    | none =>
      refine Or.inl ⟨hroom, hnodup, fun h => ?_, by simp only [hlen, if_false]; rfl⟩
      cases hs.symm.trans (strideList_eq_some.2 ⟨h.volumes, rfl, rfl⟩)
    | some result =>
      obtain ⟨running, strides⟩ := result
      obtain ⟨hvolumes, -, rfl⟩ := strideList_eq_some.1 hs
      by_cases hbig : ((axisStrides l.axes).any fun s => signedMax < s) = true
      · refine Or.inl ⟨hroom, hnodup, fun h => ?_, by simp only [hlen, hbig, if_false, if_true]; rfl⟩
        obtain ⟨s, hs, hlt⟩ := List.any_eq_true.1 hbig
        have := h.strides s hs
        have := of_decide_eq_true hlt
        omega
      have hsmall : ∀ s ∈ axisStrides l.axes, s ≤ signedMax := by
        intro s hs
        by_contra h
        exact hbig (List.any_eq_true.2 ⟨s, hs, decide_eq_true (by omega)⟩)
      cases hspan : spanOf l.axes (axisStrides l.axes) with
      | none =>
        refine Or.inl ⟨hroom, hnodup, fun h => ?_, by simp only [hlen, hbig, if_false, hspan]; rfl⟩
        have hsome := h.span
        rw [hspan] at hsome
        exact Bool.false_ne_true hsome
      | some span =>
        obtain ⟨sm, hsm, hsme⟩ := ofList_entries hroom hnodup ((axisStrides l.axes).map fun s => Int64.ofNat s)
          (by rw [List.length_map, length_axisStrides])
        obtain ⟨bm, hbm, hbme⟩ := ofList_entries hroom hnodup (l.axes.map LayoutAxis.extent) (by rw [List.length_map])
        refine Or.inr ⟨hroom, hnodup, ⟨hvolumes, hsmall, by rw [hspan]; rfl⟩, ⟨sm, bm, span⟩, ?_, rfl, hsme, hbme⟩
        simp only [hlen, hbig, if_false, hspan, hsm, hbm]
        rfl

/-- **When a layout resolves**, and to what. -/
theorem resolve_eq_ok {l : Layout} {r : ResolvedLayout} :
    l.resolve = .ok r ↔ l.axes.length ≤ maxDims ∧ (l.axes.map LayoutAxis.dim).Nodup ∧ FitWords l.axes ∧
      spanOf l.axes (axisStrides l.axes) = some r.span ∧
      r.strides.entries = strideEntries l.axes (axisStrides l.axes) ∧ r.bounds.entries = boundEntries l.axes := by
  rcases resolve_cases l with ⟨hlen, h⟩ | ⟨-, d, hrep, h⟩ | ⟨-, -, hfit, h⟩ | ⟨hroom, hnodup, hfit, r', h, hspan, hs, hb⟩
  · have : ¬ l.axes.length ≤ maxDims := by omega
    simp [h, this]
  · have : ¬ (l.axes.map LayoutAxis.dim).Nodup := fun hn => by
      rw [firstRepeated_eq_none.2 ⟨hn, fun a _ => List.not_mem_nil⟩] at hrep
      cases hrep
    simp [h, this]
  · simp [h, hfit]
  · rw [h, Except.ok.injEq]
    constructor
    · rintro rfl
      exact ⟨hroom, hnodup, hfit, hspan, hs, hb⟩
    · rintro ⟨-, -, -, hspan', hs', hb'⟩
      have hstrides : r'.strides = r.strides := DimMap.ext_entries (hs.trans hs'.symm)
      have hbounds : r'.bounds = r.bounds := DimMap.ext_entries (hb.trans hb'.symm)
      have hspans : r'.span = r.span := Option.some.inj (hspan.symm.trans hspan')
      cases r
      cases r'
      cases hstrides
      cases hbounds
      cases hspans
      rfl

/-! ## Row-major layouts -/

/-- the number of positions along some axes -/
def volume (dims : List (Dim × UInt64)) : Nat := (dims.map fun a => a.2.toNat).prod

@[simp] theorem volume_nil : volume [] = 1 := rfl

@[simp] theorem volume_cons (a : Dim × UInt64) (dims : List (Dim × UInt64)) :
    volume (a :: dims) = a.2.toNat * volume dims := rfl

@[simp] theorem volume_append (front back : List (Dim × UInt64)) :
    volume (front ++ back) = volume front * volume back := by
  simp [volume]

theorem volume_eq_zero {dims : List (Dim × UInt64)} (h : ∃ a ∈ dims, a.2 = 0) : volume dims = 0 := by
  obtain ⟨a, ha, hzero⟩ := h
  exact List.prod_eq_zero (List.mem_map.2 ⟨a, ha, congrArg UInt64.toNat hzero⟩)

/-- the axes with their row-major strides: the volume of the axes after them -/
def rowSteps : List (Dim × UInt64) → List (Dim × Nat)
  | [] => []
  | a :: dims => (a.1, volume dims) :: rowSteps dims

theorem map_fst_rowSteps (dims : List (Dim × UInt64)) : (rowSteps dims).map Prod.fst = dims.map Prod.fst := by
  induction dims with
  | nil => rfl
  | cons a dims ih => simp [rowSteps, ih]

theorem rowVolume_rowMajor (dims : List (Dim × UInt64)) : rowVolume (rowMajor dims).axes = volume dims := by
  have hall : (rowMajor dims).axes.filter (fun a => a.stride.isNone) = (rowMajor dims).axes :=
    List.filter_eq_self.2 (List.forall_mem_map.2 fun _ _ => rfl)
  rw [rowVolume, hall, rowMajor, List.map_map]
  rfl

theorem axisStrides_rowMajor (dims : List (Dim × UInt64)) :
    axisStrides (rowMajor dims).axes = (rowSteps dims).map Prod.snd := by
  induction dims with
  | nil => rfl
  | cons a dims ih =>
    rw [rowSteps, List.map_cons, ← ih, ← rowVolume_rowMajor dims]
    rfl

theorem forall_rowVolume_rowMajor {dims : List (Dim × UInt64)} {n : Nat} :
    (∀ back, back <:+ (rowMajor dims).axes → rowVolume back ≤ n) ↔
      volume dims ≤ n ∧ ∀ s ∈ rowSteps dims, s.2 ≤ n := by
  induction dims with
  | nil => simp [rowMajor, rowSteps]
  | cons a dims ih =>
    have hcons : (rowMajor (a :: dims)).axes = ⟨a.1, a.2, none⟩ :: (rowMajor dims).axes := rfl
    rw [hcons]
    simp only [List.suffix_cons_iff, forall_eq_or_imp, rowSteps, List.forall_mem_cons]
    rw [← hcons, rowVolume_rowMajor, ih]

theorem reach_rowMajor {dims : List (Dim × UInt64)} (hpos : ∀ a ∈ dims, 0 < a.2.toNat) :
    1 + reach (rowMajor dims).axes ((rowSteps dims).map Prod.snd) = volume dims := by
  induction dims with
  | nil => rfl
  | cons a dims ih =>
    have ha := hpos a (by simp)
    have ih := ih fun b hb => hpos b (by simp [hb])
    simp only [rowMajor, List.map_cons, rowSteps, reach, volume_cons] at ih ⊢
    rw [← ih]
    have : a.2.toNat = a.2.toNat - 1 + 1 := (Nat.sub_add_cancel ha).symm
    generalize a.2.toNat - 1 = n at *
    rw [this]
    ring

theorem spanOf_rowMajor {dims : List (Dim × UInt64)} (hvol : volume dims ≤ wordMax) :
    spanOf (rowMajor dims).axes ((rowSteps dims).map Prod.snd) = some (volume dims) := by
  by_cases hzero : ∃ a ∈ dims, a.2 = 0
  · rw [volume_eq_zero hzero]
    obtain ⟨a, ha, hz⟩ := hzero
    have hmem : (⟨a.1, a.2, none⟩ : LayoutAxis) ∈ (rowMajor dims).axes := List.mem_map.2 ⟨a, ha, rfl⟩
    exact spanOf_of_zero ⟨_, hmem, hz⟩ _
  · push Not at hzero
    have hpos : ∀ a ∈ dims, 0 < a.2.toNat :=
      fun a ha => Nat.pos_of_ne_zero fun e => hzero a ha (UInt64.toNat_inj.1 e)
    have hext : ∀ a ∈ (rowMajor dims).axes, a.extent ≠ 0 := List.forall_mem_map.2 hzero
    rw [spanOf_of_pos hext, reach_rowMajor hpos]
    exact fits_eq_some.2 ⟨hvol, rfl⟩

/-- **When a row-major layout resolves**, and to what: every stride is the volume of the later axes, the span the volume
of all. -/
theorem resolve_rowMajor {dims : List (Dim × UInt64)} {r : ResolvedLayout} :
    (rowMajor dims).resolve = .ok r ↔ dims.length ≤ maxDims ∧ (dims.map Prod.fst).Nodup ∧ volume dims ≤ wordMax ∧
      (∀ s ∈ rowSteps dims, s.2 ≤ signedMax) ∧ r.span = volume dims ∧
      r.strides.entries = (rowSteps dims).map (fun s => (s.1, Int64.ofNat s.2)) ∧ r.bounds.entries = dims := by
  have hdims : (rowMajor dims).axes.map LayoutAxis.dim = dims.map Prod.fst := by simp [rowMajor, Function.comp_def]
  have hstrides : strideEntries (rowMajor dims).axes ((rowSteps dims).map Prod.snd) =
      (rowSteps dims).map fun s => (s.1, Int64.ofNat s.2) := by
    rw [strideEntries, hdims, ← map_fst_rowSteps, List.map_map, List.zip_map', Function.comp_def]
  have hbounds : boundEntries (rowMajor dims).axes = dims := by
    simp [boundEntries, rowMajor, List.zip_map', Function.comp_def]
  rw [resolve_eq_ok, hdims, hbounds, axisStrides_rowMajor, hstrides]
  constructor
  · rintro ⟨hroom, hnodup, hfit, hspan, hs, hb⟩
    have hvol := (forall_rowVolume_rowMajor.1 hfit.volumes).1
    have hsmall := hfit.strides
    rw [axisStrides_rowMajor, List.forall_mem_map] at hsmall
    rw [spanOf_rowMajor hvol] at hspan
    exact ⟨by simpa [rowMajor] using hroom, hnodup, hvol, hsmall, (Option.some.inj hspan).symm, hs, hb⟩
  · rintro ⟨hroom, hnodup, hvol, hsmall, hspan, hs, hb⟩
    have hword : ∀ s ∈ rowSteps dims, s.2 ≤ wordMax := fun s hs => (hsmall s hs).trans (by decide)
    have hspan : spanOf (rowMajor dims).axes ((rowSteps dims).map Prod.snd) = some r.span := by
      rw [spanOf_rowMajor hvol, hspan]
    refine ⟨by simpa [rowMajor] using hroom, hnodup, ⟨forall_rowVolume_rowMajor.2 ⟨hvol, hword⟩, ?_, ?_⟩, hspan, hs, hb⟩
    · rw [axisStrides_rowMajor]
      exact List.forall_mem_map.2 hsmall
    · rw [axisStrides_rowMajor, hspan]
      rfl

/-- a row-major layout with few, distinct axes resolves when its volume is a word and its strides are signed words -/
theorem exists_resolve_rowMajor {dims : List (Dim × UInt64)} (hroom : dims.length ≤ maxDims)
    (hnodup : (dims.map Prod.fst).Nodup) (hvol : volume dims ≤ wordMax) (hs : ∀ s ∈ rowSteps dims, s.2 ≤ signedMax) :
    ∃ r, (rowMajor dims).resolve = .ok r ∧ r.span = volume dims := by
  have hkeys : ((rowSteps dims).map fun s => (s.1, Int64.ofNat s.2)).map Prod.fst = dims.map Prod.fst := by
    rw [List.map_map, ← map_fst_rowSteps dims]
    rfl
  have hlength : ((rowSteps dims).map fun s => (s.1, Int64.ofNat s.2)).length ≤ maxDims := by
    simpa using (congrArg List.length hkeys).trans_le (by simpa using hroom)
  exact ⟨⟨⟨_, hkeys ▸ hnodup, hlength⟩, ⟨dims, hnodup, hroom⟩, volume dims⟩,
    resolve_rowMajor.2 ⟨hroom, hnodup, hvol, hs, rfl, rfl, rfl⟩, rfl⟩

/-- a layout of elements and columns resolves when the columns are a signed word and the entries a word -/
theorem resolve_columns {a b : Dim} (hab : a ≠ b) {n m : UInt64} (hm : m.toNat ≤ signedMax)
    (hvol : n.toNat * m.toNat ≤ wordMax) :
    ∃ r, (rowMajor [(a, n), (b, m)]).resolve = .ok r ∧ r.span = n.toNat * m.toNat := by
  have hvolume : volume [(a, n), (b, m)] = n.toNat * m.toNat := by simp
  rw [← hvolume] at hvol ⊢
  refine exists_resolve_rowMajor (by simp [maxDims]) (by simp [hab]) hvol ?_
  simp only [rowSteps, volume_cons, volume_nil, Nat.mul_one, List.forall_mem_cons]
  exact ⟨hm, by decide, fun s hs => absurd hs List.not_mem_nil⟩

end Layout

end Stencil
