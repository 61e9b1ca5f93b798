/-
Resolving in words. A machine computes the strides and the span of a layout in words: a product or a sum that is no word
is refused, and so is a stride that is no signed word; a difference below zero is a fault. Computed in this way, one
operation after another, no fault arises and nothing is lost against the numbers.

- `map_toNat_product?`, `map_toNat_sum?`: operations on words give the numbers, wherever these are words;
- `map_toNat_strideWords`, `enterWords_cases`, `spanWords_eq`: so do strides, maps and span;
- `resolveWords_eq`: resolving in words ends without a fault, and as resolving does.
-/
import Mathlib.Tactic
import Stencil.Proofs.Axis.Resolution

namespace Stencil

/-! ## Operations on words -/

namespace Word

/-- the product of two words, if it is a word -/
def product? (a b : UInt64) : Option UInt64 := if a.toNat * b.toNat ≤ wordMax then some (a * b) else none

/-- the sum of two words, if it is a word -/
def sum? (a b : UInt64) : Option UInt64 := if a.toNat + b.toNat ≤ wordMax then some (a + b) else none

/-- the difference of two words; below zero it is a fault -/
def difference (a b : UInt64) : Except Fault UInt64 := if b ≤ a then .ok (a - b) else .error (.overflow .subtract)

/-- a word as a signed word, if it is one -/
def signed? (a : UInt64) : Option Int64 := if a.toNat ≤ signedMax then some a.toInt64 else none

theorem map_toNat_product? (a b : UInt64) : (product? a b).map UInt64.toNat = fits (a.toNat * b.toNat) := by
  unfold product? fits
  split
  · next h =>
    simp only [wordMax] at h
    rw [Option.map_some, UInt64.toNat_mul, Nat.mod_eq_of_lt (by omega)]
  · rfl

theorem map_toNat_sum? (a b : UInt64) : (sum? a b).map UInt64.toNat = fits (a.toNat + b.toNat) := by
  unfold sum? fits
  split
  · next h =>
    simp only [wordMax] at h
    rw [Option.map_some, UInt64.toNat_add, Nat.mod_eq_of_lt (by omega)]
  · rfl

theorem difference_one {a : UInt64} (h : a ≠ 0) : difference a 1 = .ok (a - 1) ∧ (a - 1).toNat = a.toNat - 1 := by
  have hpos : 1 ≤ a.toNat := Nat.one_le_iff_ne_zero.2 fun e => h (UInt64.toNat_inj.1 e)
  have hle : (1 : UInt64) ≤ a := UInt64.le_iff_toNat_le.2 hpos
  exact ⟨if_pos hle, UInt64.toNat_sub_of_le a 1 hle⟩

end Word

namespace Layout

/-! ## Strides -/

/-- the product of the row-major extents, and the stride of every axis, from the last axis to the first -/
def strideWords : List LayoutAxis → Option (UInt64 × List UInt64)
  | [] => some (1, [])
  | a :: rest => do
    let (running, strides) ← strideWords rest
    match a.stride with
    | some stride => some (running, stride :: strides)
    | none => (Word.product? running a.extent).map fun next => (next, running :: strides)

theorem map_toNat_strideWords (axes : List LayoutAxis) :
    (strideWords axes).map (fun r => (r.1.toNat, r.2.map UInt64.toNat)) = strideList axes := by
  induction axes with
  | nil => rfl
  | cons a rest ih =>
    rw [strideWords, strideList, ← ih]
    cases strideWords rest with
    | none => rfl
    | some result =>
      obtain ⟨running, strides⟩ := result
      simp only [Option.bind_eq_bind, Option.bind_some, Option.map_some]
      cases a.stride with
      | some stride => rfl
      | none =>
        simp only [← Word.map_toNat_product?, Option.map_map]
        rfl

/-! ## Maps -/

/-- the maps with axes entered in order, each with its extent and its stride as a signed word -/
def enterWords (strides : DimMap Int64) (bounds : DimMap UInt64) :
    List (LayoutAxis × UInt64) → Except ContractViolation (DimMap Int64 × DimMap UInt64)
  | [] => .ok (strides, bounds)
  | (a, word) :: rest => do
    let some stride := Word.signed? word | throw unaddressable
    let strides ← strides.insert a.dim stride
    let bounds ← bounds.insert a.dim a.extent
    enterWords strides bounds rest

variable {strides : DimMap Int64} {bounds : DimMap UInt64} {entries : List (LayoutAxis × UInt64)}

/-- distinct new axes, few enough, are all entered if their strides are signed words; else the first that is none is
refused -/
theorem enterWords_cases (hkeys : bounds.keys = strides.keys)
    (hnew : (strides.keys ++ entries.map fun e => e.1.dim).Nodup)
    (hroom : (strides.keys ++ entries.map fun e => e.1.dim).length ≤ maxDims) :
    ((∃ e ∈ entries, signedMax < e.2.toNat) ∧ enterWords strides bounds entries = .error unaddressable) ∨
    ((∀ e ∈ entries, e.2.toNat ≤ signedMax) ∧ ∃ s b, enterWords strides bounds entries = .ok (s, b) ∧
      s.entries = strides.entries ++ entries.map (fun e => (e.1.dim, Int64.ofNat e.2.toNat)) ∧
      b.entries = bounds.entries ++ entries.map fun e => (e.1.dim, e.1.extent)) := by
  -- over the axes still to be entered; those entered before are the keys of both maps
  induction entries generalizing strides bounds with
  | nil => exact Or.inr ⟨by simp, strides, bounds, rfl, by simp, by simp⟩
  | cons e entries ih =>
    obtain ⟨a, word⟩ := e
    rw [enterWords]
    by_cases hsmall : word.toNat ≤ signedMax
    · have hd : a.dim ∉ strides.keys := by
        rw [List.nodup_append] at hnew
        exact fun h => hnew.2.2 a.dim h a.dim (by simp) rfl
      have hlt : strides.keys.length < maxDims := by
        simp only [List.length_append, List.map_cons, List.length_cons] at hroom
        omega
      have hlt' : bounds.keys.length < maxDims := hkeys ▸ hlt
      rw [DimMap.length_keys] at hlt hlt'
      obtain ⟨strides', hs, hse⟩ := DimMap.insert_new hd hlt (Int64.ofNat word.toNat)
      obtain ⟨bounds', hb, hbe⟩ := DimMap.insert_new (hkeys ▸ hd) hlt' a.extent
      have hsigned : Word.signed? word = some (Int64.ofNat word.toNat) := by
        rw [Word.signed?, if_pos hsmall, toInt64_eq_ofNat]
      have hks : strides'.keys = strides.keys ++ [a.dim] := by simp [DimMap.keys, hse]
      have hkb : bounds'.keys = bounds.keys ++ [a.dim] := by simp [DimMap.keys, hbe]
      have hcons : strides'.keys ++ entries.map (fun e => e.1.dim) =
          strides.keys ++ ((a, word) :: entries).map fun e => e.1.dim := by
        rw [hks]
        simp
      simp only [hsigned, hs, hb, bind, Except.bind]
      rcases ih (by rw [hks, hkb, hkeys]) (hcons ▸ hnew) (hcons ▸ hroom) with
        ⟨⟨e, he, hbig⟩, herror⟩ | ⟨hall, s, b, hok, hse', hbe'⟩
      · exact Or.inl ⟨⟨e, List.mem_cons_of_mem _ he, hbig⟩, herror⟩
      · refine Or.inr ⟨List.forall_mem_cons.2 ⟨hsmall, hall⟩, s, b, hok, ?_, ?_⟩
        · rw [hse', hse]
          simp
        · rw [hbe', hbe]
          simp
    · have hsigned : Word.signed? word = none := if_neg hsmall
      refine Or.inl ⟨⟨(a, word), List.mem_cons_self, Nat.lt_of_not_le hsmall⟩, ?_⟩
      simp only [hsigned]
      rfl

/-! ## Spans -/

/-- `total` and the way to the last elements along the axes, if no word on the way is exceeded -/
def reachWords (total : UInt64) : List (LayoutAxis × UInt64) → Except Fault (Option UInt64)
  | [] => .ok (some total)
  | (a, stride) :: rest => do
    let last ← Word.difference a.extent 1
    match (Word.product? last stride).bind (Word.sum? total) with
    | some total => reachWords total rest
    | none => .ok none

/-- one more than what the axes reach, counted from the last axis; zero if there is an axis without elements -/
def spanWords (axes : List LayoutAxis) (strides : List UInt64) : Except Fault (Option UInt64) :=
  if axes.any fun a => a.extent == 0 then .ok (some 0) else reachWords 1 (axes.zip strides).reverse

/-- the way to the last element along an axis with a stride -/
def reachOf (e : LayoutAxis × UInt64) : Nat := (e.1.extent.toNat - 1) * e.2.toNat

/-- without an empty axis no difference is below zero, and a word is exceeded exactly when the sum exceeds it -/
theorem reachWords_eq (hpos : ∀ e ∈ entries, e.1.extent ≠ 0) (total : UInt64) :
    ∃ r, reachWords total entries = .ok r ∧ r.map UInt64.toNat = fits (total.toNat + (entries.map reachOf).sum) := by
  induction entries generalizing total with
  | nil => exact ⟨some total, rfl, (fits_eq_some.2 ⟨toNat_le_wordMax total, rfl⟩).symm⟩
  | cons e entries ih =>
    obtain ⟨a, stride⟩ := e
    obtain ⟨hfirst, hrest⟩ := List.forall_mem_cons.1 hpos
    obtain ⟨hlast, hval⟩ := Word.difference_one hfirst
    simp only [reachWords, hlast, bind, Except.bind, List.map_cons, List.sum_cons]
    have hstep : ((Word.product? (a.extent - 1) stride).bind (Word.sum? total)).map UInt64.toNat =
        fits (total.toNat + reachOf (a, stride)) := by
      have hproduct := Word.map_toNat_product? (a.extent - 1) stride
      cases hp : Word.product? (a.extent - 1) stride with
      | none =>
        rw [hp, Option.map_none, hval, eq_comm, fits_eq_none] at hproduct
        rw [Option.bind_none, Option.map_none, eq_comm, fits_eq_none]
        exact hproduct.trans_le (Nat.le_add_left _ _)
      | some product =>
        rw [hp, Option.map_some, hval, eq_comm, fits_eq_some] at hproduct
        rw [Option.bind_some, Word.map_toNat_sum?, reachOf, hproduct.2]
    cases hnext : (Word.product? (a.extent - 1) stride).bind (Word.sum? total) with
    | none =>
      rw [hnext, Option.map_none, eq_comm, fits_eq_none] at hstep
      refine ⟨none, rfl, ?_⟩
      rw [Option.map_none, eq_comm, fits_eq_none]
      omega
    | some next =>
      rw [hnext, Option.map_some, eq_comm, fits_eq_some] at hstep
      obtain ⟨r, hr, hval⟩ := ih hrest next
      refine ⟨r, hr, ?_⟩
      rw [hval, ← hstep.2, Nat.add_assoc]

theorem sum_reachOf {axes : List LayoutAxis} {words : List UInt64} :
    ((axes.zip words).map reachOf).sum = reach axes (words.map UInt64.toNat) := by
  induction axes generalizing words with
  | nil => rfl
  | cons a axes ih =>
    cases words with
    | nil => rfl
    | cons w words => rw [List.zip_cons_cons, List.map_cons, List.sum_cons, ih, List.map_cons, reach, reachOf]

theorem spanWords_eq (axes : List LayoutAxis) (words : List UInt64) :
    ∃ r, spanWords axes words = .ok r ∧ r.map UInt64.toNat = spanOf axes (words.map UInt64.toNat) := by
  by_cases hany : (axes.any fun a => a.extent == 0) = true
  · refine ⟨some 0, if_pos hany, ?_⟩
    rw [spanOf, if_pos hany]
    rfl
  · have hpos : ∀ e ∈ (axes.zip words).reverse, e.1.extent ≠ 0 := by
      rintro ⟨a, w⟩ he hzero
      rw [List.mem_reverse] at he
      exact hany (List.any_eq_true.2 ⟨a, (List.of_mem_zip he).1, beq_iff_eq.2 hzero⟩)
    obtain ⟨r, hr, hval⟩ := reachWords_eq hpos 1
    refine ⟨r, (if_neg hany).trans hr, ?_⟩
    rw [hval, List.map_reverse, List.sum_reverse, sum_reachOf, spanOf, if_neg hany]
    rfl

/-! ## Resolving -/

/-- strides, bounds and span of a layout, computed in words -/
def resolveWords (l : Layout) : Except Fault (Except ContractViolation ResolvedLayout) :=
  if maxDims < l.axes.length then .ok (.error (.tooManyDims maxDims))
  else
    match firstRepeated [] l.axes with
    | some d => .ok (.error (.duplicateDim d.label))
    | none =>
      match strideWords l.axes with
      | none => .ok (.error unaddressable)
      | some (_, words) =>
        match enterWords .empty .empty (l.axes.zip words) with
        | .error e => .ok (.error e)
        | .ok (strides, bounds) =>
          match spanWords l.axes words with
          | .error fault => .error fault
          | .ok none => .ok (.error unaddressable)
          | .ok (some span) => .ok (.ok ⟨strides, bounds, span.toNat⟩)

section

variable {axes : List LayoutAxis} {running : UInt64} {words : List UInt64}

theorem not_fitWords_of_strideWords (hw : strideWords axes = none) : ¬ FitWords axes := by
  intro hfit
  have hlist := map_toNat_strideWords axes
  rw [hw, strideList_eq_some.2 ⟨hfit.volumes, rfl, rfl⟩] at hlist
  cases hlist

theorem strideList_of_strideWords (hw : strideWords axes = some (running, words)) :
    (∀ back, back <:+ axes → rowVolume back ≤ wordMax) ∧ words.map UInt64.toNat = axisStrides axes := by
  have hlist := map_toNat_strideWords axes
  rw [hw] at hlist
  obtain ⟨hvolumes, -, hstrides⟩ := strideList_eq_some.1 hlist.symm
  exact ⟨hvolumes, hstrides⟩

/-- all axes are entered when the strides are signed words, and then the maps hold them -/
theorem enterWords_zip (hroom : axes.length ≤ maxDims) (hnodup : (axes.map LayoutAxis.dim).Nodup)
    (hwords : words.map UInt64.toNat = axisStrides axes) :
    ((¬ ∀ s ∈ axisStrides axes, s ≤ signedMax) ∧ enterWords .empty .empty (axes.zip words) = .error unaddressable) ∨
    ((∀ s ∈ axisStrides axes, s ≤ signedMax) ∧ ∃ s b, enterWords .empty .empty (axes.zip words) = .ok (s, b) ∧
      s.entries = strideEntries axes (axisStrides axes) ∧ b.entries = boundEntries axes) := by
  have hlen : axes.length ≤ words.length := by
    rw [← length_axisStrides axes, ← hwords, List.length_map]
  have hfst {β : Type} (f : LayoutAxis → β) : (axes.zip words).map (fun e => f e.1) = axes.map f := by
    rw [show (fun e : LayoutAxis × UInt64 => f e.1) = f ∘ Prod.fst from rfl, ← List.map_map, List.map_fst_zip hlen]
  have hstrides : (axes.zip words).map (fun e => (e.1.dim, Int64.ofNat e.2.toNat)) =
      strideEntries axes (axisStrides axes) := by
    rw [← hwords, strideEntries, List.map_map, List.zip_map]
    rfl
  have hsmall : (∀ s ∈ axisStrides axes, s ≤ signedMax) → ∀ e ∈ axes.zip words, e.2.toNat ≤ signedMax := by
    rintro hall ⟨a, w⟩ he
    rw [← hwords, List.forall_mem_map] at hall
    exact hall w (List.of_mem_zip he).2
  have hsmall' : (∀ e ∈ axes.zip words, e.2.toNat ≤ signedMax) → ∀ s ∈ axisStrides axes, s ≤ signedMax := by
    intro hall
    have hsnd : (axes.zip words).map Prod.snd = words := List.map_snd_zip (by
      rw [← length_axisStrides axes, ← hwords, List.length_map])
    rw [← hwords, ← hsnd, List.map_map]
    exact List.forall_mem_map.2 hall
  have hkeys : (DimMap.empty : DimMap Int64).keys ++ (axes.zip words).map (fun e => e.1.dim) =
      axes.map LayoutAxis.dim := hfst LayoutAxis.dim
  have hlength : ((DimMap.empty : DimMap Int64).keys ++ (axes.zip words).map fun e => e.1.dim).length ≤ maxDims := by
    rw [hkeys, List.length_map]
    exact hroom
  rcases @enterWords_cases .empty .empty (axes.zip words) rfl (hkeys ▸ hnodup) hlength with
    ⟨⟨e, he, hbig⟩, herror⟩ | ⟨hall, s, b, hok, hs, hb⟩
  · exact Or.inl ⟨fun hall => absurd (hsmall hall e he) (Nat.not_le.2 hbig), herror⟩
  · exact Or.inr ⟨hsmall' hall, s, b, hok, hs.trans hstrides,
      hb.trans ((hfst fun a => (a.dim, a.extent)).trans (boundEntries_eq axes).symm)⟩

end

/-- **Resolving in words** ends without a fault, and as resolving does. -/
theorem resolveWords_eq (l : Layout) : l.resolveWords = .ok l.resolve := by
  unfold resolveWords
  rcases resolve_cases l with ⟨hlen, h⟩ | ⟨hroom, d, hrep, h⟩ | ⟨hroom, hnodup, hfit, h⟩ |
    ⟨hroom, hnodup, hfit, r, h, hspan, hs, hb⟩
  · rw [h, if_pos hlen]
  · have hlen : ¬ maxDims < l.axes.length := by omega
    rw [h, if_neg hlen, hrep]
  · have hlen : ¬ maxDims < l.axes.length := by omega
    rw [h, if_neg hlen, firstRepeated_eq_none.2 ⟨hnodup, fun _ _ => List.not_mem_nil⟩]
    cases hw : strideWords l.axes with
    | none => rfl
    | some result =>
      obtain ⟨running, words⟩ := result
      obtain ⟨hvolumes, hwords⟩ := strideList_of_strideWords hw
      rcases enterWords_zip hroom hnodup hwords with ⟨-, herror⟩ | ⟨hsmall, s, b, hok, -, -⟩
      · simp only [herror]
      · obtain ⟨span, hspan, hval⟩ := spanWords_eq l.axes words
        simp only [hok, hspan]
        cases span with
        | none => rfl
        | some span =>
          rw [hwords] at hval
          exact absurd ⟨hvolumes, hsmall, by rw [← hval]; rfl⟩ hfit
  · have hlen : ¬ maxDims < l.axes.length := by omega
    rw [h, if_neg hlen, firstRepeated_eq_none.2 ⟨hnodup, fun _ _ => List.not_mem_nil⟩]
    cases hw : strideWords l.axes with
    | none => exact absurd hfit (not_fitWords_of_strideWords hw)
    | some result =>
      obtain ⟨running, words⟩ := result
      obtain ⟨hvolumes, hwords⟩ := strideList_of_strideWords hw
      rcases enterWords_zip hroom hnodup hwords with ⟨hbig, -⟩ | ⟨-, s, b, hok, hse, hbe⟩
      · exact absurd hfit.strides hbig
      · obtain ⟨span, hspan', hval⟩ := spanWords_eq l.axes words
        rw [hwords, hspan] at hval
        obtain ⟨span, rfl, hspans⟩ := Option.map_eq_some_iff.1 hval
        simp only [hok, hspan']
        rw [DimMap.ext_entries (hse.trans hs.symm), DimMap.ext_entries (hbe.trans hb.symm), hspans]

end Layout

end Stencil
