/-
The gradient by index loops, value by value. The loops over edges, vertices and levels succeed for every input that
belongs to the mesh, and fill the fields with the values that are written down here as functions of vertex and level.

- `foldlM_ok`: a loop whose steps succeed and keep an invariant succeeds and has it;
- `Filled.set`: one more entry of a field that is filled in order;
- `flux_eq`: the signed sum over the slots of a vertex;
- `nablaDirect_eq`: the fields that the loops compute.
-/
import Mathlib.Tactic
import Stencil.Proofs.Mesh.Values

namespace Stencil

/-! ## Loops -/

/-- a loop whose steps succeed and keep an invariant, indexed by the completed steps -/
theorem foldlM_ok {ε α β : Type} {l : List α} {f : β → α → Except ε β} {init : β} {Q : β → Prop} (P : Nat → β → Prop)
    (h0 : P 0 init) (hstep : ∀ j a b, l[j]? = some a → P j b → ∃ b', f b a = .ok b' ∧ P (j + 1) b')
    (hend : ∀ b, P l.length b → Q b) : ∃ b, l.foldlM f init = .ok b ∧ Q b := by
  induction l generalizing init P with
  | nil => exact ⟨init, rfl, hend init h0⟩
  | cons a l ih =>
    obtain ⟨b, hb, hP⟩ := hstep 0 a init rfl h0
    obtain ⟨r, hr, hQ⟩ := ih (fun j => P (j + 1)) hP (fun j c b hc hPb => hstep (j + 1) c b hc hPb) hend
    refine ⟨r, ?_, hQ⟩
    rw [List.foldlM_cons, hb]
    exact hr

theorem foldlM_range_ok {ε β : Type} {n : Nat} {f : β → Nat → Except ε β} {init : β} {Q : β → Prop}
    (P : Nat → β → Prop) (h0 : P 0 init) (hstep : ∀ j < n, ∀ b, P j b → ∃ b', f b j = .ok b' ∧ P (j + 1) b')
    (hend : ∀ b, P n b → Q b) : ∃ b, (List.range n).foldlM f init = .ok b ∧ Q b := by
  refine foldlM_ok P h0 ?_ (by rwa [List.length_range])
  intro j a b ha hPb
  obtain ⟨hj, rfl⟩ := List.getElem?_eq_some_iff.1 ha
  rw [List.length_range] at hj
  rw [List.getElem_range]
  exact hstep j hj b hPb

theorem getElem?_zipIdx_eq {α : Type} {l : List α} {i j : Nat} {a : α} (h : l.zipIdx[i]? = some (a, j)) :
    l[j]? = some a ∧ i = j := by
  rw [List.getElem?_zipIdx, Nat.zero_add] at h
  obtain ⟨b, hb, e⟩ := Option.map_eq_some_iff.1 h
  cases e
  exact ⟨hb, rfl⟩

/-- a loop whose invariant determines its result -/
theorem foldlM_eq_ok {ε α β : Type} {l : List α} {f : β → α → Except ε β} {init r : β} (P : Nat → β → Prop)
    (h0 : P 0 init) (hstep : ∀ j a b, l[j]? = some a → P j b → ∃ b', f b a = .ok b' ∧ P (j + 1) b')
    (hend : ∀ b, P l.length b → b = r) : l.foldlM f init = .ok r := by
  obtain ⟨b, hb, rfl⟩ := foldlM_ok P h0 hstep hend
  exact hb

/-! ## Fields that are filled in order -/

namespace Field

variable {α : Type} {f : Field α} {h k : UInt64} {g : Nat → Nat → α} {i l : Nat}

/-- the field has the values of `g` before level `l` of element `i` -/
structure Filled (f : Field α) (h k : UInt64) (g : Nat → Nat → α) (i l : Nat) : Prop where
  elements : f.h = h
  levels : f.k = k
  size : f.data.size = h.toNat * k.toNat
  before : ∀ i' < h.toNat, ∀ l' < k.toNat, i' < i ∨ (i' = i ∧ l' < l) → f.data[i' * k.toNat + l']? = some (g i' l')

theorem column_inj {k i i' l l' : Nat} (hl : l < k) (hl' : l' < k) (h : i * k + l = i' * k + l') : i = i' ∧ l = l' := by
  have hi : i = i' := by
    rcases Nat.lt_trichotomy i i' with hlt | heq | hlt
    · have := Nat.mul_le_mul_right k (Nat.succ_le_of_lt hlt)
      rw [Nat.succ_mul] at this
      omega
    · exact heq
    · have := Nat.mul_le_mul_right k (Nat.succ_le_of_lt hlt)
      rw [Nat.succ_mul] at this
      omega
  subst hi
  exact ⟨rfl, by omega⟩

theorem position_eq {h k : UInt64} (hword : f.h.toNat * f.k.toNat ≤ wordMax) (hh : h.toNat < f.h.toNat)
    (hk : k.toNat < f.k.toNat) : f.position h k = .ok (h.toNat * f.k.toNat + k.toNat) := by
  have hlt := column_lt hh hk
  have h1 : fits (h.toNat * f.k.toNat) = some (h.toNat * f.k.toNat) := fits_eq_some.2 ⟨by omega, rfl⟩
  have h2 : fits (h.toNat * f.k.toNat + k.toNat) = some (h.toNat * f.k.toNat + k.toNat) :=
    fits_eq_some.2 ⟨by omega, rfl⟩
  simp only [position, product, h1, h2, bind, Except.bind, pure, Except.pure]

theorem get_eq {h k : UInt64} {v : α} (hword : f.h.toNat * f.k.toNat ≤ wordMax) (hh : h.toNat < f.h.toNat)
    (hk : k.toNat < f.k.toNat) (hv : f.data[h.toNat * f.k.toNat + k.toNat]? = some v) : f.get h k = .ok v := by
  simp only [get, position_eq hword hh hk, hv, bind, Except.bind, pure, Except.pure]

theorem toNat_ofNat_of_lt {n : Nat} {w : UInt64} (h : n < w.toNat) : (UInt64.ofNat n).toNat = n :=
  UInt64.toNat_ofNat_of_lt' (by have := w.toNat_lt; simp only [UInt64.size]; omega)

/-- one more entry of a field that is filled in order -/
theorem Filled.set (hf : f.Filled h k g i l) (hword : h.toNat * k.toNat ≤ wordMax) (hi : i < h.toNat) (hl : l < k.toNat)
    {v : α} (hv : v = g i l) :
    ∃ f', f.set (UInt64.ofNat i) (UInt64.ofNat l) v = .ok f' ∧ f'.Filled h k g i (l + 1) := by
  obtain ⟨rfl, rfl, hsize, hbefore⟩ := hf
  have hiw := toNat_ofNat_of_lt hi
  have hlw := toNat_ofNat_of_lt hl
  have hposition := position_eq hword (hiw.symm ▸ hi) (hlw.symm ▸ hl)
  rw [hiw, hlw] at hposition
  have hlt : i * f.k.toNat + l < f.data.size := by rw [hsize]; exact column_lt hi hl
  refine ⟨{ f with data := f.data.setIfInBounds (i * f.k.toNat + l) v }, ?_, rfl, rfl, ?_, ?_⟩
  · simp only [Field.set, hposition, hlt, if_true, bind, Except.bind, pure, Except.pure]
  · rw [Array.size_setIfInBounds, hsize]
  · intro i' hi' l' hl' hbef
    by_cases he : i * f.k.toNat + l = i' * f.k.toNat + l'
    · obtain ⟨rfl, rfl⟩ := column_inj hl hl' he
      rw [Array.getElem?_setIfInBounds_self_of_lt hlt, hv]
    · rw [Array.getElem?_setIfInBounds_ne he]
      refine hbefore i' hi' l' hl' ?_
      rcases hbef with hlt | ⟨rfl, hle⟩
      · exact Or.inl hlt
      · exact Or.inr ⟨rfl, by have : l' ≠ l := fun e => he (by rw [e]); omega⟩

theorem Filled.next (hf : f.Filled h k g i k.toNat) : f.Filled h k g (i + 1) 0 := by
  refine ⟨hf.elements, hf.levels, hf.size, fun i' hi' l' hl' hbef => hf.before i' hi' l' hl' ?_⟩
  rcases hbef with hlt | ⟨-, hlt⟩
  · rcases Nat.lt_succ_iff_lt_or_eq.1 hlt with hlt | rfl
    · exact Or.inl hlt
    · exact Or.inr ⟨rfl, hl'⟩
  · omega

/-- a field is determined when all its elements are filled -/
theorem Filled.eq_tabulate {n : Nat} (hf : f.Filled (clamp n) k g n 0) (hn : (clamp n).toNat = n) :
    f = tabulate n k g := by
  obtain ⟨fh, fk, data⟩ := f
  obtain ⟨rfl, rfl, hsize, hbefore⟩ := hf
  rw [hn] at hsize hbefore
  exact congrArg (Field.mk (clamp n) fk) (Field.eq_table hsize fun i hi l hl => hbefore i hi l hl (Or.inl hi))

theorem ofValue_eq_ok {size : Nat} (hword : h.toNat * k.toNat ≤ wordMax)
    (hbytes : h.toNat * k.toNat * size ≤ signedMax) (v : α) :
    ofValue size h k v = .ok ⟨h, k, Array.replicate (h.toNat * k.toNat) v⟩ := by
  have hfits := fits_eq_some.2 ⟨hword, rfl⟩
  simp only [ofValue, product, hfits, Buffer.replicate, Buffer.reserve, if_pos hbytes, bind, Except.bind, pure,
    Except.pure]

theorem replicate_filled (hbytes : h.toNat * k.toNat * elementBytes ≤ signedMax) (v : α) (g : Nat → Nat → α) :
    ∃ f : Field α, replicate h k v = .ok f ∧ f.Filled h k g 0 0 := by
  have hword : h.toNat * k.toNat ≤ wordMax := by
    simp only [elementBytes, signedMax, wordMax] at hbytes ⊢
    omega
  refine ⟨⟨h, k, Array.replicate (h.toNat * k.toNat) v⟩, ofValue_eq_ok hword hbytes v, rfl, rfl,
    Array.size_replicate, ?_⟩
  rintro i' - l' - (h | ⟨-, h⟩)
  · exact absurd h (Nat.not_lt_zero _)
  · exact absurd h (Nat.not_lt_zero _)

end Field

/-! ## Reading -/

namespace NablaDirect

open Nabla

variable {ρ : Type} {mesh : Mesh} {input : NablaInputs ρ}

theorem toNat_number {v : Int32} (h : 0 ≤ v.toInt) : (number v).toNat = v.toInt.toNat := by
  have := v.toInt_lt
  rw [number, toInt64_of_nonneg h, Int64.toUInt64_ofNat', UInt64.toNat_ofNat_of_lt']
  simp only [UInt64.size]
  omega

theorem get_table {h k : UInt64} {g : Nat → Nat → ρ} (hword : h.toNat * k.toNat ≤ wordMax) {v : Int32}
    (hv : 0 ≤ v.toInt) (hlt : v.toInt.toNat < h.toNat) {l : Nat} (hl : l < k.toNat) :
    (Field.mk h k (Field.table h.toNat k.toNat g)).get (number v) (UInt64.ofNat l) = .ok (g v.toInt.toNat l) := by
  have hlw := Field.toNat_ofNat_of_lt hl
  refine Field.get_eq hword ?_ ?_ ?_
  · rw [toNat_number hv]; exact hlt
  · rw [hlw]; exact hl
  · rw [toNat_number hv, hlw]; exact Field.getElem?_table g hlt hl

theorem row_eq (h : Admissible mesh input) {v : Nat} (hv : v < mesh.vertexCount) :
    ∃ row, mesh.vertexEdges.row v = .ok row ∧ row.length = mesh.vertexEdges.maxDegree ∧
      ∀ slot < mesh.vertexEdges.maxDegree, row[slot]? =
        mesh.vertexEdges.data[v * mesh.vertexEdges.maxDegree + slot]? := by
  have hslots := h.slots
  have hrows := h.consistent.vertexRows
  have hvertices := h.words.1
  have hword : signedMax ≤ wordMax := by decide
  have hrow : v < mesh.vertexEdges.rows := by rwa [hrows]
  have hsize : mesh.vertexEdges.data.size ≤ wordMax := by
    rw [mesh.vertexEdges.size_eq, hrows]
    omega
  refine ⟨_, Connectivity.row_eq_ok hsize (hrows ▸ hvertices) hrow, by simp, ?_⟩
  intro slot hslot
  rw [Connectivity.getElem?_entry hrow hslot, List.getElem?_map, List.getElem?_range hslot, Option.map_some]

theorem sign_eq (h : Admissible mesh input) {v slot : Nat} (hv : v < mesh.vertexCount)
    (hslot : slot < mesh.vertexEdges.maxDegree) :
    mesh.sign v slot = .ok (mesh.signs[v * mesh.vertexEdges.maxDegree + slot]?.getD 0) := by
  have hlt := Field.column_lt hv hslot
  have hslots := h.slots
  have hword : signedMax ≤ wordMax := by decide
  refine Mesh.sign_eq_ok (by omega) ?_
  rw [Array.getElem?_eq_getElem (h.consistent.signs.symm ▸ hlt), Option.getD_some]

/-! ## The loops -/

variable [Scalar ρ]

theorem item_eq {data : Array ρ} {p : Nat} (hp : p < data.size) : item data p = .ok (entryAt data p) := by
  simp only [item, getElem?_entryAt hp]

theorem pp_get (h : Admissible mesh input) {v : Int32} (hv : Mesh.isVertex mesh.vertexCount v = true) {l : Nat}
    (hl : l < input.pp.k.toNat) :
    input.pp.get (number v) (UInt64.ofNat l) = .ok (endAt input v l) := by
  obtain ⟨hv, hlt⟩ := Mesh.isVertex_iff.1 hv
  have hlt : v.toInt.toNat < mesh.vertexCount := by omega
  have hh : input.pp.h.toNat = mesh.vertexCount := h.pp.elements ▸ h.toNat_vertices
  have hlw := Field.toNat_ofNat_of_lt hl
  refine Field.get_eq ?_ ?_ ?_ ?_
  · rw [hh]; exact h.vertexEntries.trans (by decide)
  · rw [toNat_number hv, hh]; exact hlt
  · rw [hlw]; exact hl
  · rw [toNat_number hv, hlw]
    exact getElem?_entryAt (by rw [h.pp.size]; exact Field.column_lt hlt hl)

theorem mean_eq (h : Admissible mesh input) {e l : Nat} {a : Int32 × Int32} (ha : mesh.edges[e]? = some a)
    (hl : l < input.pp.k.toNat) : mean input a l = .ok (meanAt mesh input e l) := by
  obtain ⟨hstart, hend⟩ := h.consistent.ends a (List.mem_of_getElem? ha)
  simp only [mean, pp_get h hstart hl, pp_get h hend hl, meanAt, ha, bind, Except.bind, pure, Except.pure]

theorem means_eq (h : Admissible mesh input) : means mesh input =
    .ok (Field.tabulate mesh.edgeCount input.pp.k (scaledAt input.sMxx mesh input),
      Field.tabulate mesh.edgeCount input.pp.k (scaledAt input.sMyy mesh input)) := by
  have he := h.toNat_edges
  have hword : (clamp mesh.edgeCount).toNat * input.pp.k.toNat ≤ wordMax := by
    rw [he]; exact h.edgeEntries.trans (by decide)
  have hbytes : (clamp mesh.edgeCount).toNat * input.pp.k.toNat * Field.elementBytes ≤ signedMax := by
    rw [he]; exact h.edgeBytes
  obtain ⟨zero, hzero, hfresh⟩ := Field.replicate_filled hbytes (Scalar.zero : ρ) (scaledAt input.sMxx mesh input)
  obtain ⟨zero', hzero', hfresh'⟩ := Field.replicate_filled hbytes (Scalar.zero : ρ) (scaledAt input.sMyy mesh input)
  obtain rfl : zero = zero' := Except.ok.inj (hzero.symm.trans hzero')
  let Both (i l : Nat) (fields : Field ρ × Field ρ) : Prop :=
    fields.1.Filled (clamp mesh.edgeCount) input.pp.k (scaledAt input.sMxx mesh input) i l ∧
      fields.2.Filled (clamp mesh.edgeCount) input.pp.k (scaledAt input.sMyy mesh input) i l
  have hstep (e l : Nat) (a : Int32 × Int32) (fields : Field ρ × Field ρ) (ha : mesh.edges[e]? = some a)
      (hl : l < input.pp.k.toNat) (hboth : Both e l fields) :
      ∃ mxx myy, fields.1.set (UInt64.ofNat e) (UInt64.ofNat l) (scaledAt input.sMxx mesh input e l) = .ok mxx ∧
        fields.2.set (UInt64.ofNat e) (UInt64.ofNat l) (scaledAt input.sMyy mesh input e l) = .ok myy ∧
        Both e (l + 1) (mxx, myy) := by
    have hlt : e < (clamp mesh.edgeCount).toNat := by rw [he]; exact (List.getElem?_eq_some_iff.1 ha).1
    obtain ⟨mxx, hmxx, hfilled⟩ := hboth.1.set hword hlt hl rfl
    obtain ⟨myy, hmyy, hfilled'⟩ := hboth.2.set hword hlt hl rfl
    exact ⟨mxx, myy, hmxx, hmyy, hfilled, hfilled'⟩
  unfold means
  simp only [hzero, bind, Except.bind]
  refine foldlM_eq_ok (fun i => Both i 0) ⟨hfresh, hfresh'⟩ ?_ ?_
  · rintro e ⟨a, e'⟩ fields hentry hboth
    obtain ⟨ha, rfl⟩ := getElem?_zipIdx_eq hentry
    refine foldlM_range_ok (Both e) hboth ?_ fun fields hboth => ⟨hboth.1.next, hboth.2.next⟩
    intro l hl fields hboth
    obtain ⟨mxx, myy, hmxx, hmyy, hnext⟩ := hstep e l a fields ha hl hboth
    have hlt : e < mesh.edgeCount := (List.getElem?_eq_some_iff.1 ha).1
    have hitem := item_eq (h.sMxx.symm ▸ hlt)
    have hitem' := item_eq (h.sMyy.symm ▸ hlt)
    refine ⟨(mxx, myy), ?_, hnext⟩
    simp only [scaledAt] at hmxx hmyy
    simp only [mean_eq h ha hl, hitem, hitem', hmxx, hmyy]
    rfl
  · rintro ⟨mxx, myy⟩ ⟨hmxx, hmyy⟩
    rw [List.length_zipIdx] at hmxx hmyy
    exact Prod.ext (hmxx.eq_tabulate he) (hmyy.eq_tabulate he)

omit [Scalar ρ] in
theorem get_edges (h : Admissible mesh input) {g : Nat → Nat → ρ} {e : Nat} (he : e < mesh.edgeCount) {l : Nat}
    (hl : l < input.pp.k.toNat) :
    (Field.tabulate mesh.edgeCount input.pp.k g).get (number (Int32.ofNat e)) (UInt64.ofNat l) = .ok (g e l) := by
  have hint : (Int32.ofNat e).toInt = e := Int32.toInt_ofNat_of_lt (by have := h.edges; omega)
  have hcount := h.toNat_edges
  have hword : (clamp mesh.edgeCount).toNat * input.pp.k.toNat ≤ wordMax := by
    rw [hcount]; exact h.edgeEntries.trans (by decide)
  have hget := get_table (g := g) hword (v := Int32.ofNat e) (by omega) (by rw [hint, hcount]; exact he) hl
  rw [hcount, hint] at hget
  exact hget

/-- the signed sums of both means over the slots of a vertex -/
theorem flux_eq (h : Admissible mesh input) {x y : Nat → Nat → ρ} {v l : Nat} (hv : v < mesh.vertexCount)
    (hl : l < input.pp.k.toNat) :
    flux mesh (Field.tabulate mesh.edgeCount input.pp.k x) (Field.tabulate mesh.edgeCount input.pp.k y) v l =
      .ok (fluxAt mesh x v l, fluxAt mesh y v l) := by
  obtain ⟨row, hrow, hlength, hslots⟩ := row_eq h hv
  simp only [flux, hrow, bind, Except.bind]
  refine foldlM_eq_ok (fun slot sums => sums = (fluxUpTo mesh x v l slot, fluxUpTo mesh y v l slot)) rfl ?_ ?_
  · rintro slot ⟨entry, slot'⟩ _ hentry rfl
    obtain ⟨hentry, rfl⟩ := getElem?_zipIdx_eq hentry
    have hslot : slot < mesh.vertexEdges.maxDegree := hlength ▸ (List.getElem?_eq_some_iff.1 hentry).1
    have hdata := (hslots slot hslot).symm.trans hentry
    refine ⟨_, ?_, rfl⟩
    by_cases hskip : entry = Connectivity.skipValue
    · simp only [fluxUpTo, hdata, hskip, beq_self_eq_true, if_true, pure, Except.pure]
    · obtain ⟨e, he, rfl⟩ := (h.consistent.vertexNumbers entry (Array.mem_of_getElem? hdata).val).resolve_left hskip
      have hint : (Int32.ofNat e).toInt = e := Int32.toInt_ofNat_of_lt (by have := h.edges; omega)
      have hget (g : Nat → Nat → ρ) := get_edges h (g := g) he hl
      simp only [fluxUpTo, hdata, beq_iff_eq, hskip, if_false, hget, sign_eq h hv hslot, hint, Int.toNat_natCast]
      rfl
  · rintro _ rfl
    rw [List.length_zipIdx, hlength]
    rfl

/-- **The index loops** compute the gradient. -/
theorem nablaDirect_eq (h : Admissible mesh input) : nablaDirect mesh input = .ok (gradient mesh input) := by
  have hn := h.toNat_vertices
  have hword : (clamp mesh.vertexCount).toNat * input.pp.k.toNat ≤ wordMax := by
    rw [hn]; exact h.vertexEntries.trans (by decide)
  have hbytes : (clamp mesh.vertexCount).toNat * input.pp.k.toNat * Field.elementBytes ≤ signedMax := by
    rw [hn]; exact h.vertexBytes
  obtain ⟨zero, hzero, hfresh⟩ := Field.replicate_filled hbytes (Scalar.zero : ρ) (gradientAt input.sMxx mesh input)
  obtain ⟨zero', hzero', hfresh'⟩ := Field.replicate_filled hbytes (Scalar.zero : ρ) (gradientAt input.sMyy mesh input)
  obtain rfl : zero = zero' := Except.ok.inj (hzero.symm.trans hzero')
  let Both (i l : Nat) (out : NablaOutputs ρ) : Prop :=
    out.mxx.Filled (clamp mesh.vertexCount) input.pp.k (gradientAt input.sMxx mesh input) i l ∧
      out.myy.Filled (clamp mesh.vertexCount) input.pp.k (gradientAt input.sMyy mesh input) i l
  simp only [nablaDirect, means_eq h, NablaOutputs.zeroed, hzero, bind, Except.bind, pure, Except.pure]
  refine foldlM_eq_ok (fun v => Both v 0) ⟨hfresh, hfresh'⟩ ?_ ?_
  · intro v v' out hentry hboth
    obtain ⟨hv, rfl⟩ : v < mesh.vertexCount ∧ v = v' := by
      obtain ⟨hv, e⟩ := List.getElem?_eq_some_iff.1 hentry
      rw [List.length_range] at hv
      exact ⟨hv, by rw [← e, List.getElem_range]⟩
    refine foldlM_range_ok (Both v) hboth ?_ fun out hboth => ⟨hboth.1.next, hboth.2.next⟩
    intro l hl out hboth
    have hvol := item_eq (h.vol.symm ▸ hv)
    obtain ⟨mxx, hmxx, hfilled⟩ := hboth.1.set hword (hn.symm ▸ hv) hl rfl
    obtain ⟨myy, hmyy, hfilled'⟩ := hboth.2.set hword (hn.symm ▸ hv) hl rfl
    refine ⟨⟨mxx, myy⟩, ?_, hfilled, hfilled'⟩
    simp only [gradientAt] at hmxx hmyy
    simp only [flux_eq h hv hl, hvol, hmxx, hmyy]
  · rintro ⟨mxx, myy⟩ ⟨hmxx, hmyy⟩
    rw [List.length_range] at hmxx hmyy
    exact congrArg₂ NablaOutputs.mk (hmxx.eq_tabulate hn) (hmyy.eq_tabulate hn)

end NablaDirect

end Stencil
