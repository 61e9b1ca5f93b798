/-
Maps by what they hold. Two maps are equal when they are as long and every entry of the first is found in the second.
As no map has an axis twice, this finds the axes of the second in the first as well, so that equal maps are those that
hold the same at every axis, whatever the order of their entries.

- `keys_perm_of_subset`: as many axes, all of them found in the other map, are its axes;
- `beq_iff_get?`: equal maps are those that hold the same at every axis;
- `get?_insertAll`, `insertAll_isOk_iff`: what a map holds after insertions, and when all of them find room;
- `rename_eq_error_iff`, `rename_of_free`: when an axis cannot be renamed, and what renaming does to the entries
  otherwise;
- `equality_extensional`: equality of maps, an equivalence that does not see the order of insertions.
-/
import Mathlib.Tactic
import Stencil.Proofs.Axis.Resolution

namespace Stencil

namespace DimMap

variable {α : Type} {m o : DimMap α} {a b d : Dim}

/-! ## Equality -/

theorem mem_keys_iff : d ∈ m.keys ↔ (m.get? d).isSome = true := contains_iff.symm

theorem get?_eq_none_iff : m.get? d = none ↔ d ∉ m.keys := find_eq_none

/-- **No axis is left over**: of two maps with as many axes, if all axes of the first are found in the second, then the
second has no others. -/
theorem keys_perm_of_subset (hsize : m.size = o.size) (hsub : ∀ d ∈ m.keys, d ∈ o.keys) : m.keys.Perm o.keys := by
  have hlen : o.keys.length ≤ m.keys.length := by rw [length_keys, length_keys, hsize]
  exact (List.subperm_of_subset m.nodup hsub).perm_of_length_le hlen

/-- maps that hold something at the same axes are of one size -/
theorem size_eq_of_isSome_eq (h : ∀ d, (m.get? d).isSome = (o.get? d).isSome) : m.size = o.size := by
  have hperm : m.keys.Perm o.keys := by
    refine (List.perm_ext_iff_of_nodup m.nodup o.nodup).2 fun d => ?_
    show d ∈ m.keys ↔ d ∈ o.keys
    rw [mem_keys_iff, mem_keys_iff, h d]
  rw [← length_keys, ← length_keys, hperm.length_eq]

section Equality

variable [BEq α]

theorem isSome_eq_of_beq {x y : Option α} (h : (x == y) = true) : x.isSome = y.isSome := by
  cases x <;> cases y <;> first | rfl | cases h

theorem beq_iff : m == o ↔ m.size = o.size ∧ ∀ e ∈ m.entries, (o.get? e.1 == some e.2) = true := by
  show agrees m o = true ↔ _
  rw [agrees, Bool.and_eq_true, beq_iff_eq, List.all_eq_true]

/-- **Equal maps hold the same** at every axis, and maps that do are equal: whatever equality of values may be. -/
theorem beq_iff_get? : m == o ↔ ∀ d, (o.get? d == m.get? d) = true := by
  rw [beq_iff]
  constructor
  · rintro ⟨hsize, hall⟩ d
    have hsub : ∀ d ∈ m.keys, d ∈ o.keys := by
      intro d hd
      obtain ⟨e, he, rfl⟩ := List.mem_map.1 hd
      rw [mem_keys_iff, isSome_eq_of_beq (hall e he)]
      rfl
    cases hget : m.get? d with
    | some v => exact hall (d, v) (mem_of_get?_eq_some hget)
    | none =>
      have habsent : d ∉ o.keys := fun hd =>
        get?_eq_none_iff.1 hget ((keys_perm_of_subset hsize hsub).mem_iff.2 hd)
      rw [get?_eq_none_iff.2 habsent]
      rfl
  · intro h
    refine ⟨size_eq_of_isSome_eq fun d => (isSome_eq_of_beq (h d)).symm, fun e he => ?_⟩
    rw [← get?_eq_some_of_mem he]
    exact h e.1

end Equality

theorem beq_symm_option [BEq α] [PartialEquivBEq α] {x y : Option α} (h : (x == y) = true) : (y == x) = true := by
  cases x with
  | none => cases y with
    | none => rfl
    | some w => cases h
  | some v => cases y with
    | none => cases h
    | some w => exact BEq.symm (a := v) h

theorem beq_trans_option [BEq α] [PartialEquivBEq α] {x y z : Option α} (hxy : (x == y) = true)
    (hyz : (y == z) = true) : (x == z) = true := by
  cases x with
  | none => cases y with
    | none => exact hyz
    | some w => cases hxy
  | some v => cases y with
    | none => cases hxy
    | some w => cases z with
      | none => cases hyz
      | some u => exact BEq.trans (a := v) (b := w) hxy hyz

/-! ## Renaming -/

theorem rename_eq_error_iff {e : ContractViolation} :
    m.rename a b = .error e ↔ a ≠ b ∧ a ∈ m.keys ∧ b ∈ m.keys ∧ e = .duplicateDim b.label := by
  unfold rename
  split
  · next h =>
    simp only [reduceCtorEq, false_iff]
    rintro ⟨hab, ha, -⟩
    exact h.elim hab fun hnot => hnot ha
  · next h =>
    rw [not_or, not_not] at h
    split
    · next hb =>
      constructor
      · intro he
        cases he
        exact ⟨h.1, h.2, hb, rfl⟩
      · rintro ⟨-, -, -, rfl⟩
        rfl
    · next hb =>
      simp only [reduceCtorEq, false_iff]
      rintro ⟨-, -, hmem, -⟩
      exact hb hmem

theorem relabel_of_not_mem {l : List (Dim × α)} (ha : a ∉ l.map Prod.fst) : relabel a b l = l := by
  refine (List.map_congr_left fun e he => ?_).trans (List.map_id l)
  have hne : e.1 ≠ a := fun h => ha (h ▸ List.mem_map.2 ⟨e, he, rfl⟩)
  rw [if_neg hne, id_eq]

/-- two axes that are not both there are renamed in place; an absent axis leaves the entries as they are -/
theorem rename_of_free (hab : a ≠ b) (hfree : ¬ (a ∈ m.keys ∧ b ∈ m.keys)) :
    ∃ m', m.rename a b = .ok m' ∧ m'.entries = relabel a b m.entries := by
  by_cases ha : a ∈ m.keys
  · exact rename_eq_ok hab ha fun hb => hfree ⟨ha, hb⟩
  · exact ⟨m, if_pos (Or.inr ha), (relabel_of_not_mem ha).symm⟩

/-! ## Insertions -/

/-- the map after insertions in order; the first that finds no room is the answer -/
def insertAll (m : DimMap α) (es : List (Dim × α)) : Except ContractViolation (DimMap α) :=
  es.foldlM (fun m e => m.insert e.1 e.2) m

variable {es es' : List (Dim × α)}

theorem insertAll_cons (m : DimMap α) (e : Dim × α) (es : List (Dim × α)) :
    m.insertAll (e :: es) = (m.insert e.1 e.2).bind fun m' => m'.insertAll es := rfl

theorem insertAll_entries (m : DimMap α) : empty.insertAll m.entries = .ok m := ofList_eq_ok m.nodup m.length_le

theorem find_append (d : Dim) (l l' : List (Dim × α)) : find d (l ++ l') = (find d l).or (find d l') := by
  induction l with
  | nil => rfl
  | cons e l ih =>
    rw [List.cons_append, find, find, ih]
    split <;> rfl

/-- **The last insertion counts**: after insertions a map holds at each axis what was inserted there last, or what it
held before. -/
theorem get?_insertAll (h : m.insertAll es = .ok o) (d : Dim) : o.get? d = (find d es.reverse).or (m.get? d) := by
  induction es generalizing m with
  | nil =>
    cases h
    rfl
  | cons e es ih =>
    rw [insertAll_cons] at h
    cases hinsert : m.insert e.1 e.2 with
    | error v =>
      rw [hinsert] at h
      cases h
    | ok m' =>
      rw [hinsert] at h
      rw [ih h, get?_insert hinsert, List.reverse_cons, find_append, Option.or_assoc]
      by_cases hd : e.1 = d <;> simp [find, hd]

theorem insert_of_room (hroom : d ∈ m.keys ∨ m.size < maxDims) (v : α) :
    ∃ o, m.insert d v = .ok o ∧ o.entries = put d v m.entries := ⟨_, dif_pos hroom, rfl⟩

theorem toFinset_keys_insert {v : α} (h : m.insert d v = .ok o) : o.keys.toFinset = Insert.insert d m.keys.toFinset := by
  ext k
  rw [Finset.mem_insert, List.mem_toFinset, List.mem_toFinset, mem_keys_iff, mem_keys_iff, get?_insert h]
  by_cases hk : d = k
  · simp [hk]
  · simp [hk, Ne.symm hk]

theorem card_toFinset_keys (m : DimMap α) : m.keys.toFinset.card = m.size :=
  (List.toFinset_card_of_nodup m.nodup).trans m.length_keys

/-- **Insertions find room** exactly if there are not more than six axes, those of the map and those inserted taken
together. -/
theorem insertAll_isOk_iff :
    (∃ o, m.insertAll es = .ok o) ↔ (m.keys.toFinset ∪ (es.map Prod.fst).toFinset).card ≤ maxDims := by
  induction es generalizing m with
  | nil =>
    have hsmall : (m.keys.toFinset ∪ (([] : List (Dim × α)).map Prod.fst).toFinset).card ≤ maxDims := by
      rw [List.map_nil, List.toFinset_nil, Finset.union_empty, card_toFinset_keys]
      exact m.length_le
    exact ⟨fun _ => hsmall, fun _ => ⟨m, rfl⟩⟩
  | cons e es ih =>
    have hunion : m.keys.toFinset ∪ ((e :: es).map Prod.fst).toFinset =
        Insert.insert e.1 m.keys.toFinset ∪ (es.map Prod.fst).toFinset := by
      rw [List.map_cons, List.toFinset_cons, Finset.union_insert, Finset.insert_union]
    rw [insertAll_cons, hunion]
    cases hinsert : m.insert e.1 e.2 with
    | ok m' =>
      rw [← toFinset_keys_insert hinsert]
      exact ih
    | error v =>
      -- without room for the first axis there is none for all of them
      obtain ⟨hnew, hfull, -⟩ := insert_eq_error.1 hinsert
      have hcard : (Insert.insert e.1 m.keys.toFinset).card = maxDims + 1 := by
        rw [Finset.card_insert_of_notMem fun h => hnew (List.mem_toFinset.1 h), card_toFinset_keys, hfull]
      have hle : (Insert.insert e.1 m.keys.toFinset).card ≤
          (Insert.insert e.1 m.keys.toFinset ∪ (es.map Prod.fst).toFinset).card :=
        Finset.card_le_card Finset.subset_union_left
      constructor
      · rintro ⟨o, ho⟩
        cases ho
      · intro hroom
        omega

/-! ## The order of insertions -/

theorem find_perm (hperm : es.Perm es') (hnodup : (es.map Prod.fst).Nodup) (d : Dim) : find d es = find d es' := by
  have hnodup' : (es'.map Prod.fst).Nodup := (hperm.map Prod.fst).nodup_iff.1 hnodup
  cases h : find d es with
  | none =>
    have habsent : d ∉ es'.map Prod.fst := fun hd => find_eq_none.1 h ((hperm.map Prod.fst).mem_iff.2 hd)
    exact (find_eq_none.2 habsent).symm
  | some v =>
    have hmem : (d, v) ∈ es := mem_of_find_eq_some h
    exact (find_eq_some_of_mem hnodup' (hperm.mem_iff.1 hmem)).symm

/-- insertions that agree on what is inserted last at every axis find room together, and make maps that hold the same -/
theorem insertAll_congr (hlast : ∀ d, find d es.reverse = find d es'.reverse) (h : m.insertAll es = .ok o) :
    ∃ o', m.insertAll es' = .ok o' ∧ ∀ d, o.get? d = o'.get? d := by
  have hkeys : (es.map Prod.fst).toFinset = (es'.map Prod.fst).toFinset := by
    ext d
    rw [List.mem_toFinset, List.mem_toFinset, ← List.mem_reverse, ← List.map_reverse, ← not_iff_not, ← find_eq_none,
      hlast d, find_eq_none, List.map_reverse, List.mem_reverse]
  have hroom := insertAll_isOk_iff.1 ⟨o, h⟩
  rw [hkeys] at hroom
  obtain ⟨o', ho'⟩ := insertAll_isOk_iff.2 hroom
  exact ⟨o', ho', fun d => by rw [get?_insertAll h, get?_insertAll ho', hlast d]⟩

/-- **Equality of maps**, over values with an equality that is an equivalence. Every map is made by insertions. Two maps
are equal exactly when they hold equal values at every axis, and the same values if equal values are the same. This is an
equivalence, though one map alone is run through. Equal maps come of insertions that agree on what is inserted last at
every axis, and so of insertions at distinct axes in any order. -/
theorem equality_extensional [BEq α] [EquivBEq α] :
    (∀ m : DimMap α, empty.insertAll m.entries = .ok m) ∧
    (∀ m o : DimMap α, m == o ↔ ∀ d, (m.get? d == o.get? d) = true) ∧
    (LawfulBEq α → ∀ m o : DimMap α, m == o ↔ ∀ d, m.get? d = o.get? d) ∧
    (∀ m : DimMap α, m == m) ∧
    (∀ m o : DimMap α, m == o → o == m) ∧
    (∀ m o p : DimMap α, m == o → o == p → m == p) ∧
    (∀ (m : DimMap α) (es es' : List (Dim × α)), (∀ d, find d es.reverse = find d es'.reverse) →
      ∀ o, m.insertAll es = .ok o → ∃ o', m.insertAll es' = .ok o' ∧ o == o') ∧
    ∀ (m : DimMap α) (es es' : List (Dim × α)), es.Perm es' → (es.map Prod.fst).Nodup →
      ∀ o, m.insertAll es = .ok o → ∃ o', m.insertAll es' = .ok o' ∧ o == o' := by
  have hrefl (x : Option α) : (x == x) = true := by
    cases x with
    | none => rfl
    | some v => exact BEq.refl (a := v)
  have hequal {o o' : DimMap α} (h : ∀ d, o.get? d = o'.get? d) : o == o' :=
    beq_iff_get?.2 fun d => h d ▸ hrefl (o.get? d)
  have hext (m o : DimMap α) : m == o ↔ ∀ d, (m.get? d == o.get? d) = true := by
    rw [beq_iff_get?]
    exact forall_congr' fun d => ⟨beq_symm_option, beq_symm_option⟩
  refine ⟨insertAll_entries, hext, fun _ m o => ?_, fun m => hequal fun d => rfl, fun m o h => ?_, fun m o p h h' => ?_,
    fun m es es' hlast o ho => ?_, fun m es es' hperm hnodup o ho => ?_⟩
  · rw [hext]
    exact forall_congr' fun d => beq_iff_eq
  · exact (hext o m).2 fun d => beq_symm_option ((hext m o).1 h d)
  · exact (hext m p).2 fun d => beq_trans_option ((hext m o).1 h d) ((hext o p).1 h' d)
  · obtain ⟨o', ho', hsame⟩ := insertAll_congr hlast ho
    exact ⟨o', ho', hequal hsame⟩
  · have hreverse : es.reverse.Perm es'.reverse := (es.reverse_perm.trans hperm).trans es'.reverse_perm.symm
    have hdistinct : (es.reverse.map Prod.fst).Nodup := by
      rw [List.map_reverse]
      exact List.nodup_reverse.2 hnodup
    obtain ⟨o', ho', hsame⟩ := insertAll_congr (find_perm hreverse hdistinct) ho
    exact ⟨o', ho', hequal hsame⟩

/-- strides inserted from either end make equal maps -/
theorem equality_extensional_swapped :
    let es : List (Dim × Int64) := [(.horizontal, 2), (.vertical, 1)]
    let es' : List (Dim × Int64) := [(.vertical, 1), (.horizontal, 2)]
    es.Perm es' ∧ (es.map Prod.fst).Nodup ∧ (∀ d, find d es.reverse = find d es'.reverse) ∧
      ∃ o o', empty.insertAll es = .ok o ∧ empty.insertAll es' = .ok o' ∧ o.entries ≠ o'.entries ∧ o == o' ∧
        ∀ d, o.get? d = o'.get? d := by
  intro es es'
  have hperm : es.Perm es' := List.Perm.swap _ _ []
  have hnodup : (es.map Prod.fst).Nodup := by decide
  have hlast : ∀ d, find d es.reverse = find d es'.reverse :=
    find_perm (List.Perm.swap _ _ []) (by decide)
  obtain ⟨-, -, hlawful, -, -, -, hsame, horder⟩ := equality_extensional (α := Int64)
  obtain ⟨o', ho', hequal⟩ := horder empty es es' hperm hnodup ⟨es, hnodup, by decide⟩ rfl
  obtain ⟨p, hp, -⟩ := hsame empty es es' hlast ⟨es, hnodup, by decide⟩ rfl
  have hentries : o'.entries = es' := by
    cases ho'
    rfl
  refine ⟨hperm, hnodup, hlast, _, o', rfl, ho', ?_, hequal, (hlawful inferInstance _ _).1 hequal⟩
  rw [hentries]
  decide

end DimMap

end Stencil
