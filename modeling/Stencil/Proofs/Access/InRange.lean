/-
Views in range. A view that is shifted along the axes of its layout, and never before the start or past the end of an
axis, shows the rest of the field: its bounds are what is left of the extents, and all coordinates below them lead to
places of the buffer, where the elements are that the layout puts there.

- `movedAll_inRange`: the position and the bounds after shifts in range;
- `contains_window`: coordinates below the bounds of a shifted view lie in the field;
- `window_reads`: the handle of a shifted view, moved to coordinates below the bounds, reads the element at the sum of
  the strides times position and coordinates, if that is a signed word.
-/
import Mathlib.Tactic
import Stencil.Proofs.Access.Shifting

namespace Stencil

/-- moves along the axes of a layout whose every position lies between zero and the extents, the ends included -/
structure Layout.StaysWithin (l : Layout) (moves : List (Dim × Int64)) : Prop where
  along : ∀ m ∈ moves, m.1 ∈ l.axes.map LayoutAxis.dim
  within : ∀ front, front <+: moves → ∀ a ∈ l.axes,
    0 ≤ travelled front a.dim ∧ travelled front a.dim ≤ a.extent.toNat

instance (l : Layout) (moves : List (Dim × Int64)) : Decidable (l.StaysWithin moves) :=
  decidable_of_iff ((∀ m ∈ moves, m.1 ∈ l.axes.map LayoutAxis.dim) ∧ ∀ front ∈ moves.inits, ∀ a ∈ l.axes,
      0 ≤ travelled front a.dim ∧ travelled front a.dim ≤ a.extent.toNat)
    ⟨fun h => ⟨h.1, fun front hf => h.2 front ((List.mem_inits front moves).2 hf)⟩,
      fun h => ⟨h.along, fun front hf => h.within front ((List.mem_inits front moves).1 hf)⟩⟩

namespace View

variable {v : View} {l : Layout} {moves : List (Dim × Int64)} {access : Access} {length : Nat} {storage : Storage}

/-- **Shifts in range** lead to the position travelled, and leave of the extents what has not been travelled. -/
theorem Spans.movedAll_inRange (h : v.Spans l) (hext : ∀ a ∈ l.axes, a.extent.toNat ≤ signedMax)
    (hmoves : l.StaysWithin moves) :
    v.applyAll (shifts moves) = .ok (v.movedAll moves) ∧
      (v.movedAll moves).offset = .ofInt (v.strides.position (travelled moves)) ∧
      ∀ a ∈ l.axes, ∃ bound, (v.movedAll moves).bounds.get? a.dim = some bound ∧
        (bound.toNat : Int) = a.extent.toNat - travelled moves a.dim := by
  refine ⟨applyAll_shifts fun m hm => ?_, ?_, fun a ha => ?_⟩
  · rw [h.keys]
    exact hmoves.along m hm
  · rw [offset_movedAll, h.start, Int64.zero_add]
  · -- in range the furthest position is the extent
    have hfurthest (front : List (Dim × Int64)) (hf : front <+: moves) :
        furthest a.extent.toNat a.dim front = a.extent.toNat := by
      have hle := furthest_le_iff.2 ⟨le_refl (a.extent.toNat : Int),
        fun f hp => (hmoves.within f (hp.trans hf) a ha).2⟩
      have hge := (furthest_le_iff.1 (le_refl (furthest a.extent.toNat a.dim front))).1
      omega
    obtain ⟨bound, hb, hval⟩ := bound_movedAll (h.get?_bounds ha) fun front (hf : front <+: moves) => by
      have := hext a ha
      have := (hmoves.within front hf a ha).1
      rw [hfurthest front hf]
      omega
    exact ⟨bound, hb, by rw [hval, hfurthest moves List.prefix_rfl]⟩

/-- coordinates below what is left of the extents lie in the field -/
theorem contains_window (hmoves : l.StaysWithin moves) {c : Dim → UInt64}
    (hc : ∀ a ∈ l.axes, ((c a.dim).toNat : Int) < a.extent.toNat - travelled moves a.dim) :
    l.Contains fun d => travelled moves d + (c d).toNat := by
  intro a ha
  have := hc a ha
  have := (hmoves.within moves List.prefix_rfl a ha).1
  simp only
  omega

/-- **A window into a field.** A view over a layout, shifted along its axes and never out of range, has as bounds what
is left of the extents and as offset the word of the position travelled. Its handle, moved to coordinates below the
bounds in any number of steps and any order, stands at the position of all that has been travelled, which lies in the
buffer: the handle reads the element there exactly if the position is a signed word, as it always is in a buffer of no
more elements than these. -/
theorem window_reads (hv : ofLayout access length l storage = .ok v)
    (hext : ∀ a ∈ l.axes, a.extent.toNat ≤ signedMax) (hmoves : l.StaysWithin moves) :
    ∃ w, v.applyAll (shifts moves) = .ok w ∧ w.strides = v.strides ∧
      (∀ a ∈ l.axes, ∃ bound, w.upperBound a.dim = .ok bound ∧
        (bound.toNat : Int) = a.extent.toNat - travelled moves a.dim) ∧
      w.offset = .ofInt (v.strides.position (travelled moves)) ∧
      ∀ c : Dim → UInt64, (∀ a ∈ l.axes, ∃ bound, w.upperBound a.dim = .ok bound ∧ c a.dim < bound) →
        ∀ path : List (Dim × Int64), (∀ a ∈ l.axes, travelled path a.dim = (c a.dim).toNat) →
          let h := w.origin.shiftAll (w.strides.path path)
          let p := v.strides.position fun d => travelled moves d + (c d).toNat
          0 ≤ p ∧ p < length ∧ (length ≤ signedMax → p ≤ signedMax) ∧
            h.index? = (if p ≤ signedMax then some p.toNat else none) ∧
            ∀ {α : Type} (data : Array α), data.size = length →
              ∃ x, data[p.toNat]? = some x ∧ (h.read data = .ok x ↔ p ≤ signedMax) := by
  obtain ⟨hspans, -, hlength, -⟩ := spans_of_ofLayout hv
  obtain ⟨happly, hoffset, hbounds⟩ := hspans.movedAll_inRange hext hmoves
  refine ⟨v.movedAll moves, happly, strides_movedAll v moves, fun a ha => ?_, hoffset, ?_⟩
  · obtain ⟨bound, hb, hval⟩ := hbounds a ha
    exact ⟨bound, by rw [upperBound, hb], hval⟩
  intro c hc path hpath h p
  have hcontains : l.Contains fun d => travelled moves d + (c d).toNat := by
    refine contains_window hmoves fun a ha => ?_
    obtain ⟨bound, hb, hval⟩ := hbounds a ha
    obtain ⟨bound', hb', hlt⟩ := hc a ha
    rw [upperBound, hb, Except.ok.injEq] at hb'
    rw [← hval, hb']
    exact_mod_cast UInt64.lt_iff_toNat_lt.1 hlt
  obtain ⟨hlt, hword⟩ := hspans.inside _ hcontains
  have h0 : 0 ≤ p := hspans.position_nonneg fun a ha => (hcontains a ha).1
  rw [hlength] at hlt
  have hstand : h = (v.movedAll moves).origin.moveTo (.ofInt p) := by
    have htotal : v.strides.position (travelled moves) + v.strides.position (travelled path) = p := by
      rw [← DimMap.position_add]
      refine DimMap.position_congr fun d hd => ?_
      rw [hspans.keys] at hd
      obtain ⟨a, ha, rfl⟩ := List.mem_map.1 hd
      rw [hpath a ha]
    simp only [h, Handle.shiftAll_path, origin, strides_movedAll, hoffset, ← Int64.ofInt_add, htotal]
  have hindex : h.index? = if p ≤ signedMax then some p.toNat else none := by
    have hadmitted : ((v.movedAll moves).origin.moveTo (.ofInt p)).admitted = true := rfl
    rw [hstand, Handle.index?_moveTo _ h0 (by simpa [origin, hlength] using hlt) hword]
    simp only [hadmitted, true_and]
  refine ⟨h0, hlt, fun hsigned => by omega, hindex, fun {α} data hdata => ?_⟩
  have hin : p.toNat < data.size := by omega
  refine ⟨data[p.toNat], Array.getElem?_eq_getElem hin, ?_⟩
  by_cases hp : p ≤ signedMax
  · rw [if_pos hp] at hindex
    exact iff_of_true (Handle.read_eq_ok hindex (Array.getElem?_eq_getElem hin)) hp
  · rw [if_neg hp] at hindex
    refine iff_of_false (fun hread => ?_) hp
    cases (Handle.read_eq_error hindex data).symm.trans hread

/-- two levels of three elements, four places from level to level -/
def padded : Layout := ⟨[⟨.vertical, 2, some 4⟩, ⟨.horizontal, 3, none⟩]⟩

/-- the view over the padded levels -/
def paddedView (access : Access) : View :=
  ofParts access 8 ⟨[(.vertical, 4), (.horizontal, 1)], by decide, by decide⟩
    ⟨[(.vertical, 2), (.horizontal, 3)], by decide, by decide⟩ .host

theorem ofLayout_padded (access : Access) : ofLayout access 8 padded .host = .ok (paddedView access) := rfl

/-- two elements on, one level up and one element back -/
def detour : List (Dim × Int64) := [(.horizontal, 2), (.vertical, 1), (.horizontal, -1)]

/-- after the detour two elements are left on the upper level, and the second of them is the number 6 -/
theorem window_reads_padded : ofLayout .readOnly 8 padded .host = .ok (paddedView .readOnly) ∧
    (∀ a ∈ padded.axes, a.extent.toNat ≤ signedMax) ∧ padded.StaysWithin detour ∧
      ∃ w, (paddedView .readOnly).applyAll (shifts detour) = .ok w ∧ w.upperBound .horizontal = .ok 2 ∧
        (w.origin.shiftAll (w.strides.path [(.horizontal, 1)])).read #[0, 1, 2, 3, 4, 5, 6, 7] = .ok 6 := by
  have hext : ∀ a ∈ padded.axes, a.extent.toNat ≤ signedMax := by decide
  have hmoves : padded.StaysWithin detour := by decide
  obtain ⟨w, hw, -, hbounds, -, hreads⟩ := window_reads (ofLayout_padded .readOnly) hext hmoves
  obtain ⟨up, hup, hlevels⟩ := hbounds ⟨.vertical, 2, some 4⟩ (by decide)
  obtain ⟨on, hon, helements⟩ := hbounds ⟨.horizontal, 3, none⟩ (by decide)
  have hup' : up = 1 := UInt64.toNat_inj.1 (Int.ofNat_inj.1 hlevels)
  have hon' : on = 2 := UInt64.toNat_inj.1 (Int.ofNat_inj.1 helements)
  subst hup' hon'
  let c : Dim → UInt64 := fun d => if d = .horizontal then 1 else 0
  have hbelow : ∀ a ∈ padded.axes, ∃ bound, w.upperBound a.dim = .ok bound ∧ c a.dim < bound := by
    simp only [padded, List.mem_cons, List.not_mem_nil, or_false]
    rintro a (rfl | rfl)
    · exact ⟨1, hup, by decide⟩
    · exact ⟨2, hon, by decide⟩
  obtain ⟨-, -, hsmall, -, hread⟩ := hreads c hbelow [(.horizontal, 1)] (by decide)
  obtain ⟨x, hx, hread⟩ := hread #[0, 1, 2, 3, 4, 5, 6, 7] rfl
  have hsix : x = 6 := (Option.some.inj hx).symm
  exact ⟨ofLayout_padded .readOnly, hext, hmoves, w, hw, hon, hsix ▸ hread.2 (hsmall (by decide))⟩

/-- three towers of `2 ^ 62` levels each, which are more places than there are signed words; elements of no size can be
so many -/
def towers : Layout := .rowMajor [(.horizontal, 3), (.vertical, 0x4000000000000000)]

/-- the view over the towers -/
def towersView : View :=
  ofParts .readOnly (3 * 2 ^ 62) ⟨[(.horizontal, 0x4000000000000000), (.vertical, 1)], by decide, by decide⟩
    ⟨[(.horizontal, 3), (.vertical, 0x4000000000000000)], by decide, by decide⟩ .host

theorem ofLayout_towers : ofLayout .readOnly (3 * 2 ^ 62) towers .host = .ok towersView := by
  refine ofLayout_eq_ok.2 ⟨⟨towersView.strides, towersView.bounds, 3 * 2 ^ 62⟩, ?_, le_rfl, rfl⟩
  refine Layout.resolve_rowMajor.2 ⟨by decide, by decide, ?_, ?_, ?_, ?_, rfl⟩
  all_goals decide +kernel

/-- to the last level of the last tower -/
def ascent : List (Dim × Int64) := [(.horizontal, 2), (.vertical, 0x3fffffffffffffff)]

/-- the last level of the last tower lies in the buffer, and in range of the view that is shifted there; but the word of
its position is negative, and the handle of the view reads nothing -/
theorem window_past_signed : ofLayout .readOnly (3 * 2 ^ 62) towers .host = .ok towersView ∧
    (∀ a ∈ towers.axes, a.extent.toNat ≤ signedMax) ∧ towers.StaysWithin ascent ∧
      towersView.strides.position (travelled ascent) = 3 * 2 ^ 62 - 1 ∧
      ∃ w, towersView.applyAll (shifts ascent) = .ok w ∧ w.upperBound .horizontal = .ok 1 ∧
        w.upperBound .vertical = .ok 1 ∧ w.offset.toInt = -2 ^ 62 - 1 ∧
        ∀ data : Array Unit, data.size = 3 * 2 ^ 62 → data[3 * 2 ^ 62 - 1]? = some () ∧
          w.origin.read data = .error (.outOfBounds w.offset (3 * 2 ^ 62)) := by
  have hext : ∀ a ∈ towers.axes, a.extent.toNat ≤ signedMax := by decide +kernel
  have hmoves : towers.StaysWithin ascent := by decide +kernel
  have hposition : towersView.strides.position (travelled ascent) = 3 * 2 ^ 62 - 1 := by decide +kernel
  obtain ⟨hspans, -, -, -⟩ := spans_of_ofLayout ofLayout_towers
  obtain ⟨happly, hoffset, hbounds⟩ := hspans.movedAll_inRange hext hmoves
  have hnegative : (towersView.movedAll ascent).offset.toInt = -2 ^ 62 - 1 := by
    rw [hoffset, hposition]
    decide +kernel
  have hbound (a : LayoutAxis) (ha : a ∈ towers.axes) (hleft : (a.extent.toNat : Int) - travelled ascent a.dim = 1) :
      (towersView.movedAll ascent).upperBound a.dim = .ok 1 := by
    obtain ⟨bound, hb, hval⟩ := hbounds a ha
    obtain rfl : bound = 1 := UInt64.toNat_inj.1 (Int.ofNat_inj.1 (hval.trans hleft))
    rw [upperBound, hb]
  refine ⟨ofLayout_towers, hext, hmoves, hposition, towersView.movedAll ascent, happly, ?_, ?_, hnegative, ?_⟩
  · exact hbound ⟨.horizontal, 3, none⟩ (by decide +kernel) (by decide +kernel)
  · exact hbound ⟨.vertical, 0x4000000000000000, none⟩ (by decide +kernel) (by decide +kernel)
  intro data hdata
  have hnone : (towersView.movedAll ascent).origin.position? = none := by
    rw [Handle.position?, if_neg]
    simp [origin, hnegative]
  have hindex : (towersView.movedAll ascent).origin.index? = none := by rw [Handle.index?, hnone, ite_self]
  refine ⟨Array.getElem?_eq_getElem (by omega), ?_⟩
  rw [Handle.read_eq_error hindex, Handle.refusal, hnone, origin, length_movedAll]
  rfl

end View

end Stencil
