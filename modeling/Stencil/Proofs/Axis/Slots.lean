/-
Maps in slots. A map can be kept in a row of six slots and the number of those in use: operations run through the slots
in use, tell axes apart by their tags, and change slots in place. Axes are given by their tags here, and a naming says
how they are called. A listing is what such slots stand for: the tags with their values, in the order in which the axes
came. It holds no names.

- `MapOp.run_simulates`: what every single operation keeps between two kinds of maps, any operations keep;
- `OnSlots.insert`, `OnSlots.rename`, `OnSlots.perform`: an operation answers on slots as on a listing, and leads from
  slots that stand for a listing to such that stand for the listing after the operation;
- `OnSlots.orderly`: slots that stand for a listing are in order.
-/
import Mathlib.Tactic
import Stencil.Axis.DimMap

namespace Stencil

/-- the axis with a tag, under a naming of axes -/
def Dim.named (name : String → String) (tag : String) : Dim := ⟨tag, name tag⟩

theorem Dim.named_inj {name : String → String} {t u : String} : Dim.named name t = Dim.named name u ↔ t = u := by
  simp only [named, Dim.mk.injEq]
  exact ⟨And.left, fun h => ⟨h, congrArg name h⟩⟩

/-! ## Operations -/

/-- an operation on a map, with axes given by their tags -/
inductive MapOp (α : Type) where
  /-- stores a value in place -/
  | insert (tag : String) (v : α)
  /-- makes a copy with one value more -/
  | extended (tag : String) (v : α)
  | rename (a b : String)

/-- the answer of an operation that makes something new, which takes the place of the old if there is an answer -/
def replacing {σ : Type} (old : σ) : Except ContractViolation σ → Except ContractViolation Unit × σ
  | .ok new => (.ok (), new)
  | .error e => (.error e, old)

theorem replacing_eq_error_iff {σ : Type} {old : σ} {x : Except ContractViolation σ} {e : ContractViolation} :
    (replacing old x).1 = .error e ↔ x = .error e := by
  cases x <;> simp [replacing]

theorem replacing_error {σ : Type} {old : σ} {x : Except ContractViolation σ} {e : ContractViolation}
    (h : (replacing old x).1 = .error e) : (replacing old x).2 = old := by
  cases x with
  | ok new => cases h
  | error e => rfl

/-- the answers of operations performed one after the other, and what they leave -/
def MapOp.run {σ α : Type} (perform : σ → MapOp α → Except ContractViolation Unit × σ) (s : σ) :
    List (MapOp α) → List (Except ContractViolation Unit) × σ
  | [] => ([], s)
  | op :: ops =>
    let (answer, s) := perform s op
    let (answers, s) := run perform s ops
    (answer :: answers, s)

/-- **Simulation**: if a relation between two kinds of states is kept by every operation, and every operation answers
alike on related states, then so do operations one after the other. -/
theorem MapOp.run_simulates {σ τ α : Type} {p : σ → MapOp α → Except ContractViolation Unit × σ}
    {q : τ → MapOp α → Except ContractViolation Unit × τ} {R : σ → τ → Prop}
    (hstep : ∀ s t op, R s t → (p s op).1 = (q t op).1 ∧ R (p s op).2 (q t op).2) {s : σ} {t : τ} (hR : R s t)
    (ops : List (MapOp α)) : (run p s ops).1 = (run q t ops).1 ∧ R (run p s ops).2 (run q t ops).2 := by
  induction ops generalizing s t with
  | nil => exact ⟨rfl, hR⟩
  | cons op ops ih =>
    obtain ⟨hanswer, hnext⟩ := hstep s t op hR
    obtain ⟨hanswers, hlast⟩ := ih hnext
    exact ⟨congrArg₂ List.cons hanswer hanswers, hlast⟩

/-! ## Slots -/

/-- a row of slots for entries, and how many of them are in use -/
structure Slots (α : Type) where
  slots : List (Option (Dim × α))
  len : Nat

namespace Slots

variable {α : Type}

def empty : Slots α := ⟨List.replicate maxDims none, 0⟩

/-- the slots in use -/
def used (s : Slots α) : List (Option (Dim × α)) := s.slots.take s.len

/-- the entries in the slots in use -/
def entries (s : Slots α) : List (Dim × α) := s.used.filterMap id

/-- the value of the first entry with the tag of an axis -/
def get? (s : Slots α) (d : Dim) : Option α := (s.entries.find? fun e => e.1.tag == d.tag).map Prod.snd

def contains (s : Slots α) (d : Dim) : Bool := (s.get? d).isSome

/-- slots with the value of the first entry with the tag of an axis replaced, if there is one -/
def overwrite (d : Dim) (v : α) : List (Option (Dim × α)) → Option (List (Option (Dim × α)))
  | [] => none
  | none :: rest => (overwrite d v rest).map (none :: ·)
  | some (k, w) :: rest =>
    if k.tag = d.tag then some (some (k, v) :: rest) else (overwrite d v rest).map (some (k, w) :: ·)

/-- stores a value in place, in the slot of its axis or else in the next slot -/
def insert (s : Slots α) (d : Dim) (v : α) : Except ContractViolation Unit × Slots α :=
  match overwrite d v s.used with
  | some used => (.ok (), { s with slots := used ++ s.slots.drop s.len })
  | none =>
    if s.len = maxDims then (.error (.tooManyDims maxDims), s)
    else (.ok (), ⟨s.slots.set s.len (some (d, v)), s.len + 1⟩)

/-- a copy with a value stored -/
def extended (s : Slots α) (d : Dim) (v : α) : Except ContractViolation (Slots α) :=
  match s.insert d v with
  | (.ok (), s') => .ok s'
  | (.error e, _) => .error e

/-- an entry with the tag of `a` moved to `b` -/
def retag (a b : Dim) (e : Dim × α) : Dim × α := if e.1.tag = a.tag then (b, e.2) else e

/-- a copy with the axis `a` called `b` -/
def rename (s : Slots α) (a b : Dim) : Except ContractViolation (Slots α) :=
  if a.tag = b.tag ∨ s.contains a = false then .ok s
  else if s.contains b then .error (.duplicateDim b.label)
  else .ok { s with slots := s.used.map (Option.map (retag a b)) ++ s.slots.drop s.len }

/-- an insertion that is refused leaves the slots as they were -/
theorem insert_refused {s : Slots α} {d : Dim} {v : α} {e : ContractViolation} (he : (s.insert d v).1 = .error e) :
    (s.insert d v).2 = s := by
  revert he
  rw [Slots.insert]
  split
  · exact fun he => by cases he
  · split
    · exact fun _ => rfl
    · exact fun he => by cases he

theorem replacing_extended (s : Slots α) (d : Dim) (v : α) : replacing s (s.extended d v) = s.insert d v := by
  rw [Slots.extended]
  split
  · next s' h => exact h.symm
  · next e s' h =>
    have hsame := insert_refused (s := s) (d := d) (v := v) (e := e) (by rw [h])
    rw [h] at hsame ⊢
    exact congrArg (Prod.mk _) hsame.symm

/-- an operation on slots -/
def perform (name : String → String) (s : Slots α) : MapOp α → Except ContractViolation Unit × Slots α
  | .insert t v => s.insert (.named name t) v
  | .extended t v => replacing s (s.extended (.named name t) v)
  | .rename a b => replacing s (s.rename (.named name a) (.named name b))

/-- slots in order: six, of which those in use are filled and no others, with distinct tags -/
structure Orderly (s : Slots α) : Prop where
  room : s.slots.length = maxDims
  len_le : s.len ≤ maxDims
  filled : ∀ i < maxDims, (∃ e, s.slots[i]? = some (some e)) ↔ i < s.len
  distinct : (s.entries.map fun e => e.1.tag).Nodup

end Slots

/-! ## Listings -/

/-- what is stored for one axis, under the tag that it has -/
structure Stored (α : Type) where
  tag : String
  value : α

namespace Stored

variable {α : Type}

/-- the entry that a map has for it -/
def entry (name : String → String) (x : Stored α) : Dim × α := (.named name x.tag, x.value)

/-- with another value, if its tag is `t` -/
def store (t : String) (v : α) (x : Stored α) : Stored α := if x.tag = t then ⟨t, v⟩ else x

/-- with another tag, if its tag is `a` -/
def retag (a b : String) (x : Stored α) : Stored α := if x.tag = a then { x with tag := b } else x

end Stored

/-- what is stored for each axis, in the order in which they came -/
abbrev Listing (α : Type) := List (Stored α)

namespace Listing

variable {α : Type}

def tags (c : Listing α) : List String := c.map Stored.tag

/-- the value of the axis with a tag -/
def value? (c : Listing α) (t : String) : Option α := (c.find? fun x => x.tag == t).map Stored.value

/-- stores a value for its axis in place; a new axis is appended, if there are not six -/
def insert (c : Listing α) (t : String) (v : α) : Except ContractViolation (Listing α) :=
  if t ∈ c.tags then .ok (c.map (Stored.store t v))
  else if c.length = maxDims then .error (.tooManyDims maxDims)
  else .ok (c ++ [⟨t, v⟩])

/-- gives the axis with the tag `a` the tag `b` in place; an axis that is not there is not renamed, and two axes cannot
become one -/
def rename (name : String → String) (c : Listing α) (a b : String) : Except ContractViolation (Listing α) :=
  if a = b ∨ a ∉ c.tags then .ok c
  else if b ∈ c.tags then .error (.duplicateDim (name b))
  else .ok (c.map (Stored.retag a b))

/-- an operation on a listing -/
def perform (name : String → String) (c : Listing α) : MapOp α → Except ContractViolation Unit × Listing α
  | .insert t v => replacing c (c.insert t v)
  | .extended t v => replacing c (c.insert t v)
  | .rename a b => replacing c (c.rename name a b)

/-! ## Slots stand for listings -/

variable {name : String → String} {c : Listing α} {t a b : String}

theorem tags_store (t : String) (v : α) (c : Listing α) : tags (c.map (Stored.store t v)) = c.tags := by
  rw [tags, List.map_map]
  refine List.map_congr_left fun x _ => ?_
  simp only [Function.comp_apply, Stored.store]
  split
  · next h => exact h.symm
  · rfl

theorem map_store_of_not_mem (ht : t ∉ c.tags) (v : α) : c.map (Stored.store t v) = c := by
  refine (List.map_congr_left fun x hx => ?_).trans (List.map_id c)
  exact if_neg fun h => ht (List.mem_map.2 ⟨x, hx, h⟩)

theorem isSome_value? : (c.value? t).isSome = true ↔ t ∈ c.tags := by
  rw [value?, Option.isSome_map, List.find?_isSome]
  simp [tags]

theorem tags_retag (a b : String) (c : Listing α) :
    tags (c.map (Stored.retag a b)) = c.tags.map fun t => if t = a then b else t := by
  rw [tags, tags, List.map_map, List.map_map]
  refine List.map_congr_left fun x _ => ?_
  simp only [Function.comp_apply, Stored.retag]
  split <;> rfl

theorem nodup_retag (hnodup : c.tags.Nodup) (hb : b ∉ c.tags) : (tags (c.map (Stored.retag a b))).Nodup := by
  rw [tags_retag]
  refine List.pairwise_map.2 (hnodup.imp_of_mem ?_)
  intro x y hx hy hxy
  have hbx : b ≠ x := fun h => hb (h ▸ hx)
  have hby : b ≠ y := fun h => hb (h ▸ hy)
  grind

end Listing

/-- slots that hold the entries of a listing -/
structure OnSlots {α : Type} (name : String → String) (s : Slots α) (c : Listing α) : Prop where
  slots : s.slots = c.map (fun x => some (x.entry name)) ++ List.replicate (maxDims - c.length) none
  len : s.len = c.length
  room : c.length ≤ maxDims
  distinct : c.tags.Nodup

namespace OnSlots

variable {α : Type} {name : String → String} {s : Slots α} {c : Listing α} {t a b : String}

theorem used (h : OnSlots name s c) : s.used = c.map fun x => some (x.entry name) := by
  rw [Slots.used, h.slots, h.len]
  exact List.take_left' (List.length_map _)

theorem unused (h : OnSlots name s c) : s.slots.drop s.len = List.replicate (maxDims - c.length) none := by
  rw [h.slots, h.len]
  exact List.drop_left' (List.length_map _)

theorem entries (h : OnSlots name s c) : s.entries = c.map (Stored.entry name) := by
  rw [Slots.entries, h.used, List.filterMap_map]
  exact congrFun (List.filterMap_eq_map (f := Stored.entry name)) c

theorem get? (h : OnSlots name s c) (t : String) : s.get? (.named name t) = c.value? t := by
  rw [Slots.get?, h.entries, List.find?_map, Option.map_map]
  rfl

theorem contains (h : OnSlots name s c) : s.contains (.named name t) = true ↔ t ∈ c.tags := by
  rw [Slots.contains, h.get?, Listing.isSome_value?]

theorem overwrite_eq (hdistinct : c.tags.Nodup) (t : String) (v : α) :
    Slots.overwrite (.named name t) v (c.map fun x => some (x.entry name)) =
      if t ∈ c.tags then some ((c.map (Stored.store t v)).map fun x => some (x.entry name)) else none := by
  induction c with
  | nil => rfl
  | cons x c ih =>
    rw [Listing.tags, List.map_cons, List.nodup_cons] at hdistinct
    have hstep : Slots.overwrite (.named name t) v ((x :: c).map fun x => some (x.entry name)) =
        if x.tag = t then some (some (.named name x.tag, v) :: c.map fun x => some (x.entry name))
        else (Slots.overwrite (.named name t) v (c.map fun x => some (x.entry name))).map (some (x.entry name) :: ·) :=
      rfl
    rw [hstep, ih hdistinct.2]
    by_cases hx : x.tag = t
    · -- the search ends here, and storing changes nothing behind, as no other axis has the tag
      have hrest : t ∉ Listing.tags c := hx ▸ hdistinct.1
      have hmem : t ∈ Listing.tags (x :: c) := hx ▸ List.mem_cons_self
      rw [if_pos hx, if_pos hmem, List.map_cons, Listing.map_store_of_not_mem hrest, List.map_cons, Stored.store,
        if_pos hx, hx]
      rfl
    · have hmem : t ∈ Listing.tags (x :: c) ↔ t ∈ Listing.tags c := by
        rw [Listing.tags, List.map_cons, List.mem_cons]
        exact or_iff_right (Ne.symm hx)
      rw [if_neg hx, List.map_cons, List.map_cons, Stored.store, if_neg hx]
      by_cases ht : t ∈ Listing.tags c
      · rw [if_pos ht, if_pos (hmem.2 ht)]
        rfl
      · rw [if_neg ht, if_neg fun h => ht (hmem.1 h)]
        rfl

theorem set_free {β : Type} (l : List β) (x y : β) {n : Nat} (hn : 0 < n) :
    (l ++ List.replicate n y).set l.length x = l ++ [x] ++ List.replicate (n - 1) y := by
  obtain ⟨k, rfl⟩ := Nat.exists_eq_succ_of_ne_zero hn.ne'
  rw [List.set_append_right _ _ (Nat.le_refl _), Nat.sub_self, List.replicate_succ, List.set_cons_zero,
    Nat.succ_sub_one, List.append_assoc]
  rfl

theorem stored (h : OnSlots name s c) (t : String) (v : α) :
    OnSlots name { s with slots := ((c.map (Stored.store t v)).map fun x => some (x.entry name)) ++ s.slots.drop s.len }
      (c.map (Stored.store t v)) where
  slots := by rw [h.unused, List.length_map]
  len := by rw [List.length_map, h.len]
  room := by rw [List.length_map]; exact h.room
  distinct := by rw [Listing.tags_store]; exact h.distinct

theorem appended (h : OnSlots name s c) (ht : t ∉ c.tags) (hroom : c.length < maxDims) (v : α) :
    OnSlots name ⟨s.slots.set s.len (some (.named name t, v)), s.len + 1⟩ (c ++ [⟨t, v⟩]) where
  slots := by
    have hset := set_free (c.map fun x => some (x.entry name)) (some (Dim.named name t, v)) none
      (n := maxDims - c.length) (by omega)
    rw [List.length_map] at hset
    rw [h.slots, h.len, hset, List.map_append, List.length_append]
    rfl
  len := by
    rw [List.length_append, h.len]
    rfl
  room := by
    rw [List.length_append, List.length_singleton]
    exact hroom
  distinct := by
    rw [Listing.tags, List.map_append, List.nodup_append]
    refine ⟨h.distinct, List.nodup_singleton _, fun x hx y hy hxy => ht ?_⟩
    rw [List.map_singleton, List.mem_singleton] at hy
    rw [hxy, hy] at hx
    exact hx

theorem retagged (h : OnSlots name s c) (hb : b ∉ c.tags) :
    OnSlots name { s with
        slots := s.used.map (Option.map (Slots.retag (.named name a) (.named name b))) ++ s.slots.drop s.len }
      (c.map (Stored.retag a b)) where
  slots := by
    show s.used.map _ ++ s.slots.drop s.len = _
    rw [h.used, h.unused, List.length_map, List.map_map, List.map_map]
    refine congrArg (· ++ _) (List.map_congr_left fun x _ => ?_)
    simp only [Function.comp_apply, Option.map_some, Slots.retag, Stored.retag, Stored.entry, Dim.named]
    split <;> rfl
  len := by rw [List.length_map, h.len]
  room := by rw [List.length_map]; exact h.room
  distinct := Listing.nodup_retag h.distinct hb

/-- storing in slots answers and leaves what storing in the listing does -/
theorem insert (h : OnSlots name s c) (t : String) (v : α) :
    (s.insert (.named name t) v).1 = (replacing c (c.insert t v)).1 ∧
      OnSlots name (s.insert (.named name t) v).2 (replacing c (c.insert t v)).2 := by
  rw [Slots.insert, h.used, overwrite_eq h.distinct, Listing.insert]
  by_cases ht : t ∈ c.tags
  · rw [if_pos ht, if_pos ht]
    exact ⟨rfl, h.stored t v⟩
  · rw [if_neg ht, if_neg ht]
    by_cases hfull : c.length = maxDims
    · have hlen : s.len = maxDims := h.len.trans hfull
      simp only [if_pos hlen, if_pos hfull]
      exact ⟨rfl, h⟩
    · have hlen : ¬ s.len = maxDims := fun hlen => hfull (h.len.symm.trans hlen)
      simp only [if_neg hlen, if_neg hfull]
      exact ⟨rfl, h.appended ht (lt_of_le_of_ne h.room hfull) v⟩

/-- renaming in slots makes what renaming in the listing does -/
theorem rename (h : OnSlots name s c) (a b : String) :
    (replacing s (s.rename (.named name a) (.named name b))).1 = (replacing c (c.rename name a b)).1 ∧
      OnSlots name (replacing s (s.rename (.named name a) (.named name b))).2 (replacing c (c.rename name a b)).2 := by
  have hnone : ((Dim.named name a).tag = (Dim.named name b).tag ∨ s.contains (.named name a) = false) ↔
      (a = b ∨ a ∉ c.tags) := or_congr Iff.rfl (by rw [← h.contains, Bool.not_eq_true])
  rw [Slots.rename, Listing.rename]
  by_cases hsame : a = b ∨ a ∉ c.tags
  · rw [if_pos (hnone.2 hsame), if_pos hsame]
    exact ⟨rfl, h⟩
  · rw [if_neg (mt hnone.1 hsame), if_neg hsame]
    by_cases hb : b ∈ c.tags
    · rw [if_pos (h.contains.2 hb), if_pos hb]
      exact ⟨rfl, h⟩
    · rw [if_neg (mt h.contains.1 hb), if_neg hb]
      exact ⟨rfl, h.retagged hb⟩

/-- **Operations on slots** answer as on the listing, and leave slots that stand for what it leaves. -/
theorem perform (h : OnSlots name s c) (op : MapOp α) :
    (s.perform name op).1 = (c.perform name op).1 ∧ OnSlots name (s.perform name op).2 (c.perform name op).2 := by
  cases op with
  | insert t v => exact h.insert t v
  | extended t v =>
    rw [Slots.perform, Slots.replacing_extended]
    exact h.insert t v
  | rename a b => exact h.rename a b

theorem start (name : String → String) : OnSlots name (Slots.empty : Slots α) [] where
  slots := rfl
  len := rfl
  room := Nat.zero_le _
  distinct := List.nodup_nil

theorem unique {s' : Slots α} (h : OnSlots name s c) (h' : OnSlots name s' c) : s = s' := by
  obtain ⟨slots, len⟩ := s
  obtain ⟨slots', len'⟩ := s'
  exact congrArg₂ Slots.mk (h.slots.trans h'.slots.symm) (h.len.trans h'.len.symm)

/-- slots that stand for a listing are in order -/
theorem orderly (h : OnSlots name s c) : s.Orderly where
  room := by
    have hroom := h.room
    rw [h.slots, List.length_append, List.length_map, List.length_replicate]
    omega
  len_le := h.len ▸ h.room
  filled := by
    intro i hi
    rw [h.slots, h.len]
    by_cases hlt : i < c.length
    · rw [List.getElem?_append_left (by rwa [List.length_map]), List.getElem?_map, List.getElem?_eq_getElem hlt]
      exact ⟨fun _ => hlt, fun _ => ⟨_, rfl⟩⟩
    · rw [List.getElem?_append_right (by rw [List.length_map]; omega), List.length_map, List.getElem?_replicate]
      simp only [hlt, iff_false]
      rintro ⟨e, he⟩
      split at he <;> cases he
  distinct := by
    rw [h.entries, List.map_map]
    exact h.distinct

end OnSlots

end Stencil
