/-
Validation and the checked reduction. Validation looks for the first entry of a table that is out of range, the checked
reduction for the first in a row; walked over all rows in turn, the rows have the first of the table where validation
finds it. The two compare an entry with the number of elements differently: validation as sizes, the checked reduction as
signed words, to which a number beyond the largest signed word is negative.

- `forall_firstAt_iff`: when two properties have the same first entry;
- `validate_eq_error_iff`: validation reports the first entry out of range;
- `firstAt_row_iff`: the first entry of the table is the first of the first row that has one;
- `checksAgree_iff`: the two checks agree when they have the same first entry;
- `validate_agrees_iff`: when that is.
-/
import Mathlib.Tactic
import Stencil.Proofs.Mesh.Validation

namespace Stencil

/-! ## Entries out of range -/

/-- an entry marks no missing neighbour and is not the number of one of `count` elements -/
def OutOfRange (count entry : Int) : Prop := entry ≠ missingNeighbor ∧ ¬ (0 ≤ entry ∧ entry < count)

theorem NeighborFold.offends_iff_outOfRange {m : Type → Type} {α : Type} {f : NeighborFold m α} (hf : f.skips = true)
    {count entry : Int} : f.Offends count entry ↔ OutOfRange count entry := by
  simp only [NeighborFold.Offends, OutOfRange, hf, true_and, ne_eq]

theorem Neighbors.signedCount_neg {target : Neighbors} (h : signedMax < target.count.toNat) : target.signedCount < 0 := by
  have hlt := target.count.toNat_lt
  unfold Neighbors.signedCount
  rw [toInt64_eq_ofNat, Int64.toInt_ofNat', Int.bmod_def]
  simp only [signedMax, Int64.size] at h ⊢
  omega

namespace Connectivity

variable {t : Connectivity} {count : UInt64} {P Q : Int → Prop} {p q : Nat}

theorem admits_eq_false_iff {v : Int32} : admits count v = false ↔ OutOfRange count.toNat v.toInt := by
  rw [← Bool.not_eq_true, admits_iff, OutOfRange, ne_eq, toInt_eq_missing_iff, not_or]

/-- the first entry of a table with a property, by its position -/
def FirstAt (t : Connectivity) (P : Int → Prop) (p : Nat) : Prop :=
  (∃ v, t.data[p]? = some v ∧ P v.toInt) ∧ ∀ q < p, ∀ w, t.data[q]? = some w → ¬ P w.toInt

theorem FirstAt.unique (hp : t.FirstAt P p) (hq : t.FirstAt P q) : p = q := by
  obtain ⟨⟨v, hv, hPv⟩, hbefore⟩ := hp
  obtain ⟨⟨w, hw, hPw⟩, hbefore'⟩ := hq
  rcases Nat.lt_trichotomy p q with hlt | heq | hlt
  · exact absurd hPv (hbefore' p hlt v hv)
  · exact heq
  · exact absurd hPw (hbefore q hlt w hw)

theorem exists_firstAt {v : Int32} (hv : t.data[p]? = some v) (hP : P v.toInt) : ∃ q ≤ p, t.FirstAt P q := by
  classical
  have hex : ∃ q, ∃ w : Int32, t.data[q]? = some w ∧ P w.toInt := ⟨p, v, hv, hP⟩
  refine ⟨Nat.find hex, Nat.find_min' hex ⟨v, hv, hP⟩, Nat.find_spec hex, ?_⟩
  intro q hq w hw hPw
  exact Nat.find_min hex hq ⟨w, hw, hPw⟩

theorem FirstAt.position (h : t.FirstAt P p) : p / t.maxDegree < t.rows ∧ p % t.maxDegree < t.maxDegree ∧
    p / t.maxDegree * t.maxDegree + p % t.maxDegree = p := by
  obtain ⟨⟨v, hv, -⟩, -⟩ := h
  have hlt : p < t.rows * t.maxDegree := t.size_eq ▸ (Array.getElem?_eq_some_iff.mp hv).1
  have hpos : 0 < t.maxDegree := Nat.pos_of_ne_zero fun hzero => by
    rw [hzero, Nat.mul_zero] at hlt
    exact Nat.not_lt_zero p hlt
  exact ⟨(Nat.div_lt_iff_lt_mul hpos).mpr hlt, Nat.mod_lt p hpos, Nat.div_add_mod' p t.maxDegree⟩

/-- when one property has another, their first entries are the same exactly when no entry with the second comes before
all entries with the first -/
theorem forall_firstAt_iff (himp : ∀ v : Int32, P v.toInt → Q v.toInt) :
    (∀ p, t.FirstAt P p ↔ t.FirstAt Q p) ↔ ∀ (i : Nat) (v : Int32), t.data[i]? = some v → Q v.toInt →
      ∃ j ≤ i, ∃ w : Int32, t.data[j]? = some w ∧ P w.toInt := by
  constructor
  · intro h i v hv hQ
    obtain ⟨p, hle, hp⟩ := exists_firstAt hv hQ
    exact ⟨p, hle, ((h p).mpr hp).1⟩
  · intro h p
    constructor
    · rintro ⟨⟨v, hv, hP⟩, hbefore⟩
      refine ⟨⟨v, hv, himp v hP⟩, ?_⟩
      intro q hq w hw hQ
      obtain ⟨j, hj, x, hx, hPx⟩ := h q w hw hQ
      exact hbefore j (hj.trans_lt hq) x hx hPx
    · rintro ⟨⟨v, hv, hQ⟩, hbefore⟩
      obtain ⟨j, hj, w, hw, hPw⟩ := h p v hv hQ
      rcases Nat.lt_or_eq_of_le hj with hlt | rfl
      · exact absurd (himp w hPw) (hbefore j hlt w hw)
      · refine ⟨⟨w, hw, hPw⟩, ?_⟩
        intro q hq x hx hPx
        exact hbefore q hq x hx (himp x hPx)

/-- validation looks for the first entry that is out of range -/
theorem firstOffender_eq_some_iff_firstAt {v : Int32} : firstOffender count t.data.toList 0 = some (p, v) ↔
    t.data[p]? = some v ∧ t.FirstAt (OutOfRange count.toNat) p := by
  rw [firstOffender_eq_some_iff]
  simp only [Nat.zero_add, Array.getElem?_toList, FirstAt, admits_eq_false_iff]
  constructor
  · rintro ⟨j, rfl, hv, hout, hbefore⟩
    refine ⟨hv, ⟨v, hv, hout⟩, ?_⟩
    intro q hq w hw hPw
    rw [← admits_eq_false_iff, hbefore q hq w hw] at hPw
    cases hPw
  · rintro ⟨hv, ⟨w, hw, hout⟩, hbefore⟩
    obtain rfl : v = w := Option.some.inj (hv.symm.trans hw)
    refine ⟨p, rfl, hv, hout, ?_⟩
    intro q hq w hw
    by_contra hadmits
    exact hbefore q hq w hw (admits_eq_false_iff.mp (by simpa using hadmits))

/-- validation reports the first entry that is out of range, by its row and slot -/
theorem validate_eq_error_iff {e : EngineError} : t.validate count = .error e ↔
    ∃ p v, t.data[p]? = some v ∧ t.FirstAt (OutOfRange count.toNat) p ∧
      e = .indexOutOfRange (some (p / t.maxDegree)) (p % t.maxDegree) v.toInt count.toNat := by
  unfold validate
  cases hoff : firstOffender count t.data.toList 0 with
  | none =>
    refine ⟨fun h => (by cases h), ?_⟩
    rintro ⟨p, v, hv, hat, -⟩
    rw [firstOffender_eq_some_iff_firstAt.mpr ⟨hv, hat⟩] at hoff
    cases hoff
  | some found =>
    obtain ⟨p, v⟩ := found
    obtain ⟨hv, hat⟩ := firstOffender_eq_some_iff_firstAt.mp hoff
    constructor
    · intro h
      exact ⟨p, v, hv, hat, (Except.error.inj h).symm⟩
    · rintro ⟨q, w, hw, hat', rfl⟩
      obtain rfl := hat.unique hat'
      obtain rfl : v = w := Option.some.inj (hv.symm.trans hw)
      rfl

theorem validate_eq_ok_iff_firstAt : t.validate count = .ok () ↔ ∀ p, ¬ t.FirstAt (OutOfRange count.toNat) p := by
  cases hvalid : t.validate count with
  | ok u =>
    refine ⟨fun _ p hp => ?_, fun _ => rfl⟩
    obtain ⟨v, hv, -⟩ := hp.1
    rw [validate_eq_error_iff.mpr ⟨p, v, hv, hp, rfl⟩] at hvalid
    cases hvalid
  | error e =>
    obtain ⟨p, v, hv, hp, -⟩ := validate_eq_error_iff.mp hvalid
    exact ⟨fun h => (by cases h), fun h => absurd hp (h p)⟩

/-! ## The checked reduction, row by row -/

variable {α : Type} {f : NeighborFold (Except Fault) α} {limit : Int} {r j : Nat}

/-- the entries of a row, as numbers -/
def rowEntries (t : Connectivity) (r j : Nat) : Int := (t.entry r j).toInt

section rows

variable (hskips : f.skips = true) (hdegree : f.degree.get.toNat = t.maxDegree)

include hskips hdegree

theorem exists_firstOffends_of_outOfRange (hj : j < t.maxDegree) (hout : OutOfRange limit (t.rowEntries r j)) :
    ∃ slot, f.FirstOffends limit (t.rowEntries r) slot := by
  refine (f.exists_firstOffends_or limit (t.rowEntries r)).resolve_right ?_
  intro hnone
  exact hnone j (hdegree.symm ▸ hj) ((NeighborFold.offends_iff_outOfRange hskips).mpr hout)

/-- the first entry out of range of the table is the first of the first row that has one -/
theorem firstAt_row_iff (hr : r < t.rows) (hj : j < t.maxDegree) :
    t.FirstAt (OutOfRange limit) (r * t.maxDegree + j) ↔
      f.FirstOffends limit (t.rowEntries r) j ∧ ∀ r' < r, ∀ slot, ¬ f.FirstOffends limit (t.rowEntries r') slot := by
  have hentry := getElem?_entry hr hj
  constructor
  · rintro ⟨⟨v, hv, hout⟩, hbefore⟩
    obtain rfl : v = t.entry r j := Option.some.inj (hv.symm.trans hentry)
    refine ⟨⟨hdegree.symm ▸ hj, (NeighborFold.offends_iff_outOfRange hskips).mpr hout, ?_⟩, ?_⟩
    · intro j' hj' hoffends
      exact hbefore (r * t.maxDegree + j') (by omega) _ (getElem?_entry hr (hj'.trans hj))
        ((NeighborFold.offends_iff_outOfRange hskips).mp hoffends)
    · rintro r' hr' slot ⟨hslot, hoffends, -⟩
      have hslot : slot < t.maxDegree := hdegree ▸ hslot
      have hlt := Field.column_lt hr' hslot
      exact hbefore (r' * t.maxDegree + slot) (by omega) _ (getElem?_entry (hr'.trans hr) hslot)
        ((NeighborFold.offends_iff_outOfRange hskips).mp hoffends)
  · rintro ⟨⟨-, hoffends, hleast⟩, hrows⟩
    refine ⟨⟨_, hentry, (NeighborFold.offends_iff_outOfRange hskips).mp hoffends⟩, ?_⟩
    intro q hq w hw hout
    have hdegree_pos : 0 < t.maxDegree := Nat.zero_lt_of_lt hj
    have hsplit : q / t.maxDegree * t.maxDegree + q % t.maxDegree = q := Nat.div_add_mod' q t.maxDegree
    have hmod := Nat.mod_lt q hdegree_pos
    have hrow : q / t.maxDegree ≤ r := by
      have hlt : q < (r + 1) * t.maxDegree := by rw [Nat.succ_mul]; omega
      exact Nat.lt_succ_iff.mp ((Nat.div_lt_iff_lt_mul hdegree_pos).mpr hlt)
    have hentry' := getElem?_entry (hrow.trans_lt hr) hmod
    rw [hsplit, hw] at hentry'
    obtain rfl : w = t.entry (q / t.maxDegree) (q % t.maxDegree) := Option.some.inj hentry'
    have hout' : OutOfRange limit (t.rowEntries (q / t.maxDegree) (q % t.maxDegree)) := hout
    -- an earlier position lies in an earlier row, which would then have a first offender, or earlier in this one
    rcases Nat.lt_or_eq_of_le hrow with hearlier | hsame
    · obtain ⟨slot, hslot⟩ := exists_firstOffends_of_outOfRange hskips hdegree hmod hout'
      exact hrows _ hearlier slot hslot
    · rw [hsame] at hout' hsplit
      exact hleast (q % t.maxDegree) (by omega) ((NeighborFold.offends_iff_outOfRange hskips).mpr hout')

end rows

/-! ## Agreement of both checks -/

/-- a checked reduction reports an entry out of range -/
def ReportsRange (result : Except Fault (Except EngineError α)) : Prop :=
  ∃ row slot index bound, result = .ok (.error (.indexOutOfRange row slot index bound))

/-- validation and the checked reductions of the rows accept the same tables, and validation reports the first row that
is refused, as that row is -/
structure ChecksAgree (t : Connectivity) (count : UInt64) (check : Nat → Except Fault (Except EngineError α)) : Prop where
  ok_iff : t.validate count = .ok () ↔ ∀ r < t.rows, ¬ ReportsRange (check r)
  first : ∀ e, t.validate count = .error e → ∃ r slot index bound, e = .indexOutOfRange (some r) slot index bound ∧
    r < t.rows ∧ check r = .ok (.error (.indexOutOfRange none slot index bound)) ∧
      ∀ r' < r, ¬ ReportsRange (check r')

section agreement

variable {check : Nat → Except Fault (Except EngineError α)} (hskips : f.skips = true)
  (hdegree : f.degree.get.toNat = t.maxDegree)
  (hcheck : ∀ r < t.rows, ∀ e, check r = .ok (.error e) ↔ ∃ slot, f.FirstOffends limit (t.rowEntries r) slot ∧
    e = .indexOutOfRange none slot (t.rowEntries r slot) count.toNat)

include hcheck in
theorem reportsRange_iff (hr : r < t.rows) :
    ReportsRange (check r) ↔ ∃ slot, f.FirstOffends limit (t.rowEntries r) slot := by
  constructor
  · rintro ⟨row, slot, index, bound, h⟩
    obtain ⟨slot, hfirst, -⟩ := (hcheck r hr _).mp h
    exact ⟨slot, hfirst⟩
  · rintro ⟨slot, hfirst⟩
    exact ⟨none, slot, _, _, (hcheck r hr _).mpr ⟨slot, hfirst, rfl⟩⟩

include hskips hdegree hcheck

theorem forall_not_reportsRange_iff :
    (∀ r < t.rows, ¬ ReportsRange (check r)) ↔ ∀ p, ¬ t.FirstAt (OutOfRange limit) p := by
  constructor
  · intro h p hp
    obtain ⟨hr, hj, hsplit⟩ := hp.position
    rw [← hsplit, firstAt_row_iff hskips hdegree hr hj] at hp
    exact h _ hr ((reportsRange_iff hcheck hr).mpr ⟨_, hp.1⟩)
  · intro h r hr hreports
    obtain ⟨slot, hslot, hoffends, -⟩ := (reportsRange_iff hcheck hr).mp hreports
    obtain ⟨p, -, hp⟩ := exists_firstAt (getElem?_entry hr (hdegree ▸ hslot))
      ((NeighborFold.offends_iff_outOfRange hskips).mp hoffends)
    exact h p hp

/-- the checks agree when the first entry that one of them finds is the first that the other finds -/
theorem checksAgree_iff : t.ChecksAgree count check ↔
    ∀ p, t.FirstAt (OutOfRange count.toNat) p ↔ t.FirstAt (OutOfRange limit) p := by
  constructor
  · intro h
    have hfound : ∀ p, t.FirstAt (OutOfRange count.toNat) p → t.FirstAt (OutOfRange limit) p := by
      intro p hp
      obtain ⟨hr, hj, hsplit⟩ := hp.position
      obtain ⟨v, hv, -⟩ := hp.1
      obtain ⟨r, slot, index, bound, he, -, hreport, hearlier⟩ :=
        h.first _ (validate_eq_error_iff.mpr ⟨p, v, hv, hp, rfl⟩)
      cases he
      obtain ⟨slot, hslot, he⟩ := (hcheck _ hr _).mp hreport
      rw [EngineError.indexOutOfRange.injEq] at he
      obtain ⟨-, rfl, -⟩ := he
      rw [← hsplit, firstAt_row_iff hskips hdegree hr hj]
      refine ⟨hslot, ?_⟩
      intro r' hr' slot' hslot'
      exact hearlier r' hr' ((reportsRange_iff hcheck (hr'.trans hr)).mpr ⟨slot', hslot'⟩)
    refine fun p => ⟨hfound p, fun hq => ?_⟩
    -- the rows refuse the table, so validation does, for an entry that the rows find first as well
    have hrefused : t.validate count ≠ .ok () := by
      intro hok
      exact (forall_not_reportsRange_iff hskips hdegree hcheck).mp (h.ok_iff.mp hok) p hq
    rw [ne_eq, validate_eq_ok_iff_firstAt, not_forall_not] at hrefused
    obtain ⟨p', hp'⟩ := hrefused
    rwa [hq.unique (hfound p' hp')]
  · intro h
    constructor
    · rw [validate_eq_ok_iff_firstAt, forall_not_reportsRange_iff hskips hdegree hcheck]
      exact forall_congr' fun p => not_congr (h p)
    · intro e he
      obtain ⟨p, v, hv, hp, rfl⟩ := validate_eq_error_iff.mp he
      obtain ⟨hr, hj, hsplit⟩ := hp.position
      have hq := (h p).mp hp
      rw [← hsplit, firstAt_row_iff hskips hdegree hr hj] at hq
      have hentry := getElem?_entry hr hj
      rw [hsplit, hv] at hentry
      obtain rfl : v = t.entry (p / t.maxDegree) (p % t.maxDegree) := Option.some.inj hentry
      refine ⟨_, _, _, _, rfl, hr, (hcheck _ hr _).mpr ⟨_, hq.1, rfl⟩, ?_⟩
      intro r' hr' hreports
      obtain ⟨slot, hslot⟩ := (reportsRange_iff hcheck (hr'.trans hr)).mp hreports
      exact hq.2 r' hr' slot hslot

end agreement

/-! ## Numbers of elements beyond the largest signed word -/

/-- beyond the largest signed word, validation refuses exactly the entries below the mark of a missing neighbour -/
theorem outOfRange_of_signedMax_lt {v : Int32} (h : signedMax < count.toNat) :
    OutOfRange count.toNat v.toInt ↔ v.toInt < -1 := by
  have hsmall := v.toInt_lt
  simp only [OutOfRange, missingNeighbor, signedMax] at h ⊢
  omega

/-- and the checked reduction all entries but the mark -/
theorem outOfRange_of_neg {entry : Int} (h : limit < 0) : OutOfRange limit entry ↔ entry ≠ -1 := by
  simp only [OutOfRange, missingNeighbor]
  omega

/-- every entry that may name an element comes after one that names none, whatever their number -/
def NamesLate (t : Connectivity) : Prop :=
  ∀ (i : Nat) (v : Int32), t.data[i]? = some v → 0 ≤ v.toInt →
    ∃ j < i, ∃ w : Int32, t.data[j]? = some w ∧ w.toInt < -1

/-- both checks find the same first entry exactly when the number of elements is a signed word or no element is named
before an entry that both refuse -/
theorem forall_firstAt_outOfRange_iff (target : Neighbors) :
    (∀ p, t.FirstAt (OutOfRange target.count.toNat) p ↔ t.FirstAt (OutOfRange target.signedCount) p) ↔
      target.count.toNat ≤ signedMax ∨ t.NamesLate := by
  rcases Nat.lt_or_ge signedMax target.count.toNat with hlarge | hsmall
  · have hneg := Neighbors.signedCount_neg hlarge
    have himp : ∀ v : Int32, OutOfRange target.count.toNat v.toInt → OutOfRange target.signedCount v.toInt := by
      intro v
      rw [outOfRange_of_signedMax_lt hlarge, outOfRange_of_neg hneg]
      omega
    rw [forall_firstAt_iff himp, or_iff_right (by omega)]
    simp only [outOfRange_of_signedMax_lt hlarge, outOfRange_of_neg hneg]
    constructor
    · intro h i v hv hpos
      obtain ⟨j, hj, w, hw, hwneg⟩ := h i v hv (by omega)
      refine ⟨j, Nat.lt_of_le_of_ne hj ?_, w, hw, hwneg⟩
      rintro rfl
      obtain rfl : v = w := Option.some.inj (hv.symm.trans hw)
      omega
    · intro hlate i v hv hmark
      by_cases hpos : 0 ≤ v.toInt
      · obtain ⟨j, hj, hw⟩ := hlate i v hv hpos
        exact ⟨j, hj.le, hw⟩
      · exact ⟨i, le_rfl, v, hv, by omega⟩
  · rw [Neighbors.signedCount_of_le hsmall]
    exact ⟨fun _ => Or.inl hsmall, fun _ p => Iff.rfl⟩

variable {row slot : Dim} {v : View}

theorem tryEval_row_iff (h : v.RowMajor [(row, clamp t.rows), (slot, clamp t.maxDegree)])
    (hsize : t.data.size ≤ signedMax) (hslot : f.slot = slot) (hdegree : f.degree.get.toNat = t.maxDegree)
    (hr : r < t.rows) (target : Neighbors) (e : EngineError) :
    f.tryEval (.member (v.moved row (Int64.ofNat r)).origin) (.member (v.moved row (Int64.ofNat r)).strides)
      t.entryUnder target = .ok (.error e) ↔
        ∃ j, f.FirstOffends target.signedCount (t.rowEntries r) j ∧
          e = .indexOutOfRange none j (t.rowEntries r j) target.count.toNat := by
  have hcarries : ((v.moved row (Int64.ofNat r)).center.map Prod.snd).carries f.slot = true := hslot ▸ carries_slot h r
  have hselect : ∀ j < f.degree.get.toNat,
      t.entryUnder (((v.moved row (Int64.ofNat r)).center.along f.slot).after j) = .ok (t.entry r j) := by
    intro j hj
    exact hslot ▸ entryUnder_after h hsize hr (hdegree ▸ hj)
  have hrow : f.tryEval (.member (v.moved row (Int64.ofNat r)).origin) (.member (v.moved row (Int64.ofNat r)).strides)
      t.entryUnder target = _ := NeighborFold.tryEval_of_carries hcarries
  rw [hrow]
  exact BoundFold.tryEval_eq_error_iff hselect

/-- **When validation and the checked reduction agree.** The view of a table with a row can be moved to each of its rows.
There, let a reduction that leaves out missing neighbours be checked over all slots against any number of elements. It
accepts and refuses the same tables as validation does, and validation reports the first row that is refused, with the
slot, the entry and the number of elements that are reported there, exactly when the number is at most the largest
signed word or every entry that may name an element comes after one that both refuse. -/
theorem validate_agrees_iff {t : Connectivity} (hrows : 0 < t.rows) (hsize : t.data.size ≤ signedMax) {row slot : Dim}
    (hne : row ≠ slot) {f : NeighborFold (Except Fault) α} (hslot : f.slot = slot) (hskips : f.skips = true)
    (hdegree : f.degree.get = clamp t.maxDegree) (target : Neighbors) (storage : Storage) :
    ∃ (v : View) (w : Nat → View), t.view row slot storage = .ok v ∧
      (∀ r < t.rows, v.shifted row (Int64.ofNat r) = .ok (w r)) ∧
      (t.ChecksAgree target.count
        (fun r => f.tryEval (.member (w r).origin) (.member (w r).strides) t.entryUnder target) ↔
          target.count.toNat ≤ signedMax ∨ t.NamesLate) := by
  obtain ⟨v, hview, h⟩ := view_eq_ok hrows hsize hne storage
  have hcount : f.degree.get.toNat = t.maxDegree := hdegree ▸ toNat_degree hrows hsize
  refine ⟨v, fun r => v.moved row (Int64.ofNat r), hview, fun r _ => shifted_row h r, ?_⟩
  rw [checksAgree_iff hskips hcount fun r hr e => tryEval_row_iff h hsize hslot hcount hr target e,
    forall_firstAt_outOfRange_iff]

/-- two rows, with an entry beyond three elements in the second -/
theorem validate_agrees_iff_beyond :
    let t : Connectivity := ⟨2, 2, #[0, -1, 2, 3], rfl⟩
    let f : NeighborFold (Except Fault) Int :=
      ⟨.neighbor, .fixed 2, true, .ok 0, fun a b => .ok (a + b), fun _ _ => .ok 1⟩
    ∃ (v : View) (w : Nat → View), t.view .horizontal .neighbor .host = .ok v ∧
      (∀ r < t.rows, v.shifted .horizontal (Int64.ofNat r) = .ok (w r)) ∧
      t.ChecksAgree 3 (fun r => f.tryEval (.member (w r).origin) (.member (w r).strides) t.entryUnder
        ⟨.reading 3 0, 1, 3⟩) := by
  intro t f
  obtain ⟨v, w, hview, hshifted, hagree⟩ := validate_agrees_iff (t := t) (by decide) (by decide)
    (show Dim.horizontal ≠ .neighbor by decide) (f := f) rfl rfl rfl ⟨.reading 3 0, 1, 3⟩ .host
  exact ⟨v, w, hview, hshifted, hagree.mpr (Or.inl (by decide))⟩

/-- a table with one entry, which names the first of more elements than the largest signed word, passes validation, and
is refused by the checked reduction -/
theorem validated_entry_refused :
    let t : Connectivity := ⟨1, 1, #[0], rfl⟩
    let f : NeighborFold (Except Fault) Int :=
      ⟨.neighbor, .fixed 1, true, .ok 0, fun a b => .ok (a + b), fun _ _ => .ok 7⟩
    let target : Neighbors := ⟨.reading 1 0, 0, 9223372036854775808⟩
    ∃ v w, t.view .horizontal .neighbor .host = .ok v ∧ v.shifted .horizontal (Int64.ofNat 0) = .ok w ∧
      t.validate target.count = .ok () ∧
      f.tryEval (.member w.origin) (.member w.strides) t.entryUnder target =
        .ok (.error (.indexOutOfRange none 0 0 9223372036854775808)) :=
  ⟨_, _, rfl, rfl, rfl, rfl⟩

end Connectivity

end Stencil
