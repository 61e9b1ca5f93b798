/-
Operations on maps. Maps that are kept in slots and maps that are lists of entries stand for one listing after any
operations. What is found at a tag is the last value that was stored for the axis, followed through its renamings.

- `OnMaps.perform`: an operation on a map answers as on a listing, and leads along with it;
- `MapOp.found_run`, `DimMap.get?_perform`: what is found after an operation, and after any;
- `Listing.perform_eq_error_iff`, `Listing.rename_back`: which operations are refused, and what renaming there and back
  restores;
- `operations_spec`: what slots and maps are after any operations.
-/
import Mathlib.Tactic
import Stencil.Proofs.Axis.Maps
import Stencil.Proofs.Axis.Slots

namespace Stencil

/-- an operation on a map -/
def DimMap.perform {α : Type} (name : String → String) (m : DimMap α) :
    MapOp α → Except ContractViolation Unit × DimMap α
  | .insert t v => replacing m (m.insert (.named name t) v)
  | .extended t v => replacing m (m.insert (.named name t) v)
  | .rename a b => replacing m (m.rename (.named name a) (.named name b))

/-! ## Maps stand for listings -/

/-- a map that holds the entries of a listing -/
def OnMaps {α : Type} (name : String → String) (m : DimMap α) (c : Listing α) : Prop :=
  m.entries = c.map (Stored.entry name)

namespace OnMaps

variable {α : Type} {name : String → String} {m : DimMap α} {c : Listing α} {t a b : String}

theorem keys (h : OnMaps name m c) : m.keys = c.tags.map (Dim.named name) := by
  rw [DimMap.keys, h, Listing.tags, List.map_map, List.map_map]
  rfl

theorem mem_keys (h : OnMaps name m c) : Dim.named name t ∈ m.keys ↔ t ∈ c.tags := by
  rw [h.keys, List.mem_map]
  constructor
  · rintro ⟨u, hu, hname⟩
    exact Dim.named_inj.1 hname ▸ hu
  · exact fun ht => ⟨t, ht, rfl⟩

theorem size (h : OnMaps name m c) : m.size = c.length := by
  rw [DimMap.size, h, List.length_map]

theorem distinct (h : OnMaps name m c) : c.tags.Nodup := by
  have hnodup : m.keys.Nodup := m.nodup
  rw [h.keys] at hnodup
  exact hnodup.of_map _

theorem find_eq (t : String) (c : Listing α) :
    DimMap.find (.named name t) (c.map (Stored.entry name)) = c.value? t := by
  induction c with
  | nil => rfl
  | cons x c ih =>
    have hstep : DimMap.find (.named name t) ((x :: c).map (Stored.entry name)) =
        if Dim.named name x.tag = .named name t then some x.value
        else DimMap.find (.named name t) (c.map (Stored.entry name)) := rfl
    rw [hstep, ih, Listing.value?, Listing.value?, List.find?_cons]
    by_cases hx : x.tag = t
    · rw [if_pos (Dim.named_inj.2 hx), beq_iff_eq.2 hx]
      rfl
    · rw [if_neg (mt Dim.named_inj.1 hx), beq_eq_false_iff_ne.2 hx]

theorem get? (h : OnMaps name m c) (t : String) : m.get? (.named name t) = c.value? t := by
  rw [DimMap.get?, h, find_eq]

theorem put_eq (hdistinct : c.tags.Nodup) (ht : t ∈ c.tags) (v : α) :
    DimMap.put (.named name t) v (c.map (Stored.entry name)) = (c.map (Stored.store t v)).map (Stored.entry name) := by
  induction c with
  | nil => cases ht
  | cons x c ih =>
    rw [Listing.tags, List.map_cons, List.nodup_cons] at hdistinct
    have hstep : DimMap.put (.named name t) v ((x :: c).map (Stored.entry name)) =
        if Dim.named name x.tag = .named name t then (Dim.named name x.tag, v) :: c.map (Stored.entry name)
        else x.entry name :: DimMap.put (.named name t) v (c.map (Stored.entry name)) := rfl
    rw [hstep, List.map_cons, List.map_cons, Stored.store]
    by_cases hx : x.tag = t
    · have hrest : t ∉ Listing.tags c := hx ▸ hdistinct.1
      rw [if_pos (Dim.named_inj.2 hx), if_pos hx, Listing.map_store_of_not_mem hrest, hx]
      rfl
    · have hrest : t ∈ Listing.tags c := (List.mem_cons.1 ht).resolve_left (Ne.symm hx)
      rw [if_neg (mt Dim.named_inj.1 hx), if_neg hx, ih hdistinct.2 hrest]

theorem relabel_eq (a b : String) (c : Listing α) :
    DimMap.relabel (.named name a) (.named name b) (c.map (Stored.entry name)) =
      (c.map (Stored.retag a b)).map (Stored.entry name) := by
  rw [DimMap.relabel, List.map_map, List.map_map]
  refine List.map_congr_left fun x _ => ?_
  simp only [Function.comp_apply, Stored.entry, Dim.named_inj, Stored.retag]
  split <;> rfl

theorem insert (h : OnMaps name m c) (t : String) (v : α) :
    (replacing m (m.insert (.named name t) v)).1 = (replacing c (c.insert t v)).1 ∧
      OnMaps name (replacing m (m.insert (.named name t) v)).2 (replacing c (c.insert t v)).2 := by
  rw [Listing.insert]
  by_cases ht : t ∈ c.tags
  · obtain ⟨o, ho, hentries⟩ := DimMap.insert_of_room (Or.inl (h.mem_keys.2 ht)) v
    rw [if_pos ht, ho]
    refine ⟨rfl, ?_⟩
    show o.entries = (c.map (Stored.store t v)).map (Stored.entry name)
    rw [hentries, h, put_eq h.distinct ht]
  · rw [if_neg ht]
    have hnew : Dim.named name t ∉ m.keys := mt h.mem_keys.1 ht
    by_cases hfull : c.length = maxDims
    · rw [if_pos hfull, DimMap.insert_eq_error.2 ⟨hnew, h.size.trans hfull, rfl⟩]
      exact ⟨rfl, h⟩
    · have hlt : m.size < maxDims := lt_of_le_of_ne m.length_le fun hsize => hfull (h.size.symm.trans hsize)
      obtain ⟨o, ho, hentries⟩ := DimMap.insert_new hnew hlt v
      rw [if_neg hfull, ho]
      have hmap : (c ++ [Stored.mk t v]).map (Stored.entry name) =
          c.map (Stored.entry name) ++ [(Dim.named name t, v)] := List.map_append
      refine ⟨rfl, hentries.trans ?_⟩
      rw [h]
      exact hmap.symm

theorem rename (h : OnMaps name m c) (a b : String) :
    (replacing m (m.rename (.named name a) (.named name b))).1 = (replacing c (c.rename name a b)).1 ∧
      OnMaps name (replacing m (m.rename (.named name a) (.named name b))).2 (replacing c (c.rename name a b)).2 := by
  rw [Listing.rename]
  by_cases hsame : a = b ∨ a ∉ c.tags
  · have hnone : Dim.named name a = Dim.named name b ∨ Dim.named name a ∉ m.keys :=
      hsame.imp Dim.named_inj.2 (mt h.mem_keys.1)
    rw [if_pos hsame, show m.rename (.named name a) (.named name b) = .ok m from if_pos hnone]
    exact ⟨rfl, h⟩
  · rw [if_neg hsame]
    rw [not_or, not_not] at hsame
    have hab : Dim.named name a ≠ Dim.named name b := mt Dim.named_inj.1 hsame.1
    have ha : Dim.named name a ∈ m.keys := h.mem_keys.2 hsame.2
    by_cases hb : b ∈ c.tags
    · rw [if_pos hb, DimMap.rename_eq_error_iff.2 ⟨hab, ha, h.mem_keys.2 hb, rfl⟩]
      exact ⟨rfl, h⟩
    · obtain ⟨o, ho, hentries⟩ := DimMap.rename_eq_ok hab ha (mt h.mem_keys.1 hb)
      rw [if_neg hb, ho]
      refine ⟨rfl, ?_⟩
      show o.entries = (c.map (Stored.retag a b)).map (Stored.entry name)
      rw [hentries, h, relabel_eq]

/-- **Operations on maps** answer as on the listing, and leave maps that stand for what it leaves. -/
theorem perform (h : OnMaps name m c) (op : MapOp α) :
    (m.perform name op).1 = (c.perform name op).1 ∧ OnMaps name (m.perform name op).2 (c.perform name op).2 := by
  cases op with
  | insert t v => exact h.insert t v
  | extended t v => exact h.insert t v
  | rename a b => exact h.rename a b

theorem unique {m' : DimMap α} (h : OnMaps name m c) (h' : OnMaps name m' c) : m = m' :=
  DimMap.ext_entries (h.trans h'.symm)

theorem start (name : String → String) : OnMaps name (DimMap.empty : DimMap α) [] := rfl

end OnMaps

/-! ## What is found after operations -/

/-- the operations that were not refused -/
def MapOp.accepted {α : Type} (ops : List (MapOp α)) (answers : List (Except ContractViolation Unit)) : List (MapOp α) :=
  ((ops.zip answers).filter fun x => x.2.isOk).map Prod.fst

/-- what is found at a tag after an operation that is accepted, from what was found before -/
def MapOp.after {α : Type} (found : String → Option α) (op : MapOp α) (t : String) : Option α :=
  match op with
  | .insert u v | .extended u v => if u = t then some v else found t
  | .rename a b =>
    if a = b ∨ (found a).isNone then found t
    else if t = b then found a
    else if t = a then none
    else found t

/-- what is found at a tag after operations that are accepted: the last value that was stored for the axis, followed
through the tags that it had -/
def MapOp.found {α : Type} (ops : List (MapOp α)) : String → Option α := ops.foldl MapOp.after fun _ => none

/-- if every operation that is accepted makes of what was found what it should, then so do operations one after the
other -/
theorem MapOp.found_run {σ α : Type} {p : σ → MapOp α → Except ContractViolation Unit × σ}
    {g : σ → String → Option α} (hstep : ∀ s op, g (p s op).2 = if (p s op).1.isOk then after (g s) op else g s) (s : σ)
    (ops : List (MapOp α)) : g (run p s ops).2 = (accepted ops (run p s ops).1).foldl after (g s) := by
  induction ops generalizing s with
  | nil => rfl
  | cons op ops ih =>
    have hrest := ih (p s op).2
    rw [hstep s op] at hrest
    show g (run p (p s op).2 ops).2 = (accepted (op :: ops) ((p s op).1 :: (run p (p s op).2 ops).1)).foldl _ _
    rw [hrest]
    cases hanswer : (p s op).1 <;> rfl

namespace DimMap

variable {α : Type} {m m' : DimMap α}

theorem get?_insert_named {name : String → String} {u : String} {v : α} (h : m.insert (.named name u) v = .ok m')
    (t : String) : m'.get? (.named name t) = if u = t then some v else m.get? (.named name t) := by
  rw [get?_insert h]
  exact if_congr Dim.named_inj rfl rfl

theorem get?_rename_named {name : String → String} {a b : String}
    (h : m.rename (.named name a) (.named name b) = .ok m') (t : String) :
    m'.get? (.named name t) = MapOp.after (fun t => m.get? (.named name t)) (.rename a b) t := by
  rw [MapOp.after]
  by_cases hsame : a = b ∨ (m.get? (.named name a)).isNone
  · have hnone : Dim.named name a = .named name b ∨ Dim.named name a ∉ m.keys :=
      hsame.imp Dim.named_inj.2 fun hget => get?_eq_none_iff.1 (Option.isNone_iff_eq_none.1 hget)
    rw [if_pos hsame]
    rw [show m.rename (.named name a) (.named name b) = .ok m from if_pos hnone, Except.ok.injEq] at h
    rw [h]
  · rw [if_neg hsame]
    rw [not_or, Option.isNone_iff_eq_none, get?_eq_none_iff, not_not] at hsame
    rw [get?_rename h (mt Dim.named_inj.1 hsame.1) hsame.2]
    exact if_congr Dim.named_inj rfl (if_congr Dim.named_inj rfl rfl)

/-- what a map holds after an operation is told by what it held before -/
theorem get?_perform (name : String → String) (m : DimMap α) (op : MapOp α) :
    (fun t => (m.perform name op).2.get? (.named name t)) =
      if (m.perform name op).1.isOk then MapOp.after (fun t => m.get? (.named name t)) op
      else fun t => m.get? (.named name t) := by
  cases op with
  | insert u v | extended u v =>
    cases h : m.insert (.named name u) v with
    | ok m' =>
      simp only [perform, h]
      exact funext (get?_insert_named h)
    | error e =>
      simp only [perform, h]
      rfl
  | rename a b =>
    cases h : m.rename (.named name a) (.named name b) with
    | ok m' =>
      simp only [perform, h]
      exact funext (get?_rename_named h)
    | error e =>
      simp only [perform, h]
      rfl

end DimMap

/-! ## What is kept by all of them -/

namespace Listing

variable {α : Type} {name : String → String} {c : Listing α} {op : MapOp α} {e : ContractViolation} {a b : String}

/-- which operations are refused, and why: a new axis beside six, and the name of another axis -/
def Refuses (name : String → String) (c : Listing α) (op : MapOp α) (e : ContractViolation) : Prop :=
  match op with
  | .insert t _ | .extended t _ => t ∉ c.tags ∧ c.length = maxDims ∧ e = .tooManyDims maxDims
  | .rename a b => a ≠ b ∧ a ∈ c.tags ∧ b ∈ c.tags ∧ e = .duplicateDim (name b)

theorem insert_eq_error_iff {t : String} {v : α} :
    c.insert t v = .error e ↔ t ∉ c.tags ∧ c.length = maxDims ∧ e = .tooManyDims maxDims := by
  rw [insert]
  by_cases ht : t ∈ c.tags
  · simp [ht]
  · by_cases hfull : c.length = maxDims <;> simp [ht, hfull, eq_comm]

theorem rename_eq_error_iff :
    c.rename name a b = .error e ↔ a ≠ b ∧ a ∈ c.tags ∧ b ∈ c.tags ∧ e = .duplicateDim (name b) := by
  rw [rename]
  by_cases hab : a = b
  · simp [hab]
  · by_cases ha : a ∈ c.tags
    · by_cases hb : b ∈ c.tags <;> simp [hab, ha, hb, eq_comm]
    · simp [ha]

theorem perform_eq_error_iff : (c.perform name op).1 = .error e ↔ c.Refuses name op e := by
  cases op with
  | insert t v => exact replacing_eq_error_iff.trans insert_eq_error_iff
  | extended t v => exact replacing_eq_error_iff.trans insert_eq_error_iff
  | rename a b => exact replacing_eq_error_iff.trans rename_eq_error_iff

theorem perform_error (h : (c.perform name op).1 = .error e) : (c.perform name op).2 = c := by
  cases op <;> exact replacing_error h

theorem map_retag_back (hb : b ∉ c.tags) : (c.map (Stored.retag a b)).map (Stored.retag b a) = c := by
  rw [List.map_map]
  refine (List.map_congr_left fun x hx => ?_).trans (List.map_id c)
  have hne : x.tag ≠ b := fun h => hb (List.mem_map.2 ⟨x, hx, h⟩)
  obtain ⟨t, v⟩ := x
  simp only [Function.comp_apply, Stored.retag, id_eq]
  by_cases ht : t = a
  · simp [ht]
  · simp [ht, show t ≠ b from hne]

/-- an axis renamed to a tag that no axis has, and back, is as before -/
theorem rename_back (hb : b ∉ c.tags) :
    MapOp.run (perform name) c [.rename a b, .rename b a] = ([.ok (), .ok ()], c) := by
  by_cases hsame : a = b ∨ a ∉ c.tags
  · have hthere : c.rename name a b = .ok c := if_pos hsame
    have hback : c.rename name b a = .ok c := if_pos (Or.inr hb)
    simp only [MapOp.run, perform, hthere, hback, replacing]
  · have hthere : c.rename name a b = .ok (c.map (Stored.retag a b)) := by rw [rename, if_neg hsame, if_neg hb]
    rw [not_or, not_not] at hsame
    have hb' : b ∈ tags (c.map (Stored.retag a b)) := by
      rw [tags_retag, List.mem_map]
      exact ⟨a, hsame.2, if_pos rfl⟩
    have ha' : a ∉ tags (c.map (Stored.retag a b)) := by
      rw [tags_retag, List.mem_map]
      rintro ⟨t, -, ht⟩
      split at ht
      · exact hsame.1 ht.symm
      · next hne => exact hne ht
    have hback : rename name (c.map (Stored.retag a b)) b a = .ok c := by
      rw [rename, if_neg, if_neg ha', map_retag_back hb]
      rintro (h | h)
      · exact hsame.1 h.symm
      · exact h hb'
    simp only [MapOp.run, perform, hthere, hback, replacing]

theorem perform_names (name name' : String → String) (c : Listing α) (op : MapOp α) :
    (c.perform name op).2 = (c.perform name' op).2 := by
  cases op with
  | insert t v => rfl
  | extended t v => rfl
  | rename a b =>
    rw [perform, perform, rename, rename]
    split
    · rfl
    · split <;> rfl

theorem run_names (name name' : String → String) (c : Listing α) (ops : List (MapOp α)) :
    (MapOp.run (perform name) c ops).2 = (MapOp.run (perform name') c ops).2 := by
  induction ops generalizing c with
  | nil => rfl
  | cons op ops ih =>
    show (MapOp.run (perform name) (c.perform name op).2 ops).2 =
      (MapOp.run (perform name') (c.perform name' op).2 ops).2
    rw [ih, perform_names name name']

end Listing

/-- what a kind of maps, with its operations, entries and values at tags, has to be to keep a listing: it holds the
entries of the listing in order, finds their values, refuses the same operations and is left by them as it was,
and is restored by renaming an axis to a new tag and back -/
structure Keeps {σ α : Type} (name : String → String) (perform : σ → MapOp α → Except ContractViolation Unit × σ)
    (entries : σ → List (Dim × α)) (get? : σ → String → Option α) (s : σ) (c : Listing α) : Prop where
  entries : entries s = c.map (Stored.entry name)
  get? : ∀ t, get? s t = c.value? t
  refused : ∀ op e, (perform s op).1 = .error e ↔ c.Refuses name op e
  unchanged : ∀ op e, (perform s op).1 = .error e → (perform s op).2 = s
  restored : ∀ a b, b ∉ c.tags → MapOp.run perform s [.rename a b, .rename b a] = ([.ok (), .ok ()], s)

/-- maps keep their listings if operations lead along them and no two maps have one listing -/
theorem Keeps.of_simulation {σ α : Type} {name : String → String}
    {perform : σ → MapOp α → Except ContractViolation Unit × σ} {entries : σ → List (Dim × α)}
    {get? : σ → String → Option α} {R : σ → Listing α → Prop}
    (hstep : ∀ s c op, R s c → (perform s op).1 = (c.perform name op).1 ∧ R (perform s op).2 (c.perform name op).2)
    (hone : ∀ s s' c, R s c → R s' c → s = s') {s : σ} {c : Listing α} (h : R s c)
    (hentries : entries s = c.map (Stored.entry name)) (hget : ∀ t, get? s t = c.value? t) :
    Keeps name perform entries get? s c where
  entries := hentries
  get? := hget
  refused := by
    intro op e
    rw [(hstep s c op h).1, Listing.perform_eq_error_iff]
  unchanged := by
    intro op e he
    obtain ⟨hanswer, hnext⟩ := hstep s c op h
    rw [hanswer] at he
    rw [Listing.perform_error he] at hnext
    exact hone _ _ _ hnext h
  restored := by
    intro a b hb
    obtain ⟨hanswers, hlast⟩ := MapOp.run_simulates hstep h [.rename a b, .rename b a]
    rw [Listing.rename_back hb] at hanswers hlast
    exact Prod.ext hanswers (hone _ _ _ hlast h)

/-- **Operations on maps.** After any operations from the empty map, those that fail leaving it unchanged, slots and maps
have answered alike and keep one listing, in which a value is stored in place or appended and an axis is renamed in
place. At each tag they hold the last value that was stored for the axis, followed through the tags that it had. The
slots are in order: there are six, those in use are filled and no others, and they have distinct tags. Axes are told
apart by tags: other names change nothing but messages. -/
theorem operations_spec {α : Type} (name : String → String) (ops : List (MapOp α)) :
    let slots := MapOp.run (Slots.perform name) Slots.empty ops
    let map := MapOp.run (DimMap.perform name) DimMap.empty ops
    let listed := MapOp.run (Listing.perform name) [] ops
    slots.1 = listed.1 ∧ map.1 = listed.1 ∧
    slots.2.Orderly ∧ slots.2.len = listed.2.length ∧ map.2.size = listed.2.length ∧
    Keeps name (Slots.perform name) Slots.entries (fun s t => s.get? (.named name t)) slots.2 listed.2 ∧
    Keeps name (DimMap.perform name) DimMap.entries (fun m t => m.get? (.named name t)) map.2 listed.2 ∧
    listed.2.value? = MapOp.found (MapOp.accepted ops listed.1) ∧
    ∀ name', (MapOp.run (Listing.perform name') [] ops).2 = listed.2 := by
  intro slots map listed
  obtain ⟨hslots, hon⟩ := MapOp.run_simulates (fun _ _ op h => OnSlots.perform h op) (OnSlots.start name) ops
  obtain ⟨hmap, hof⟩ := MapOp.run_simulates (fun _ _ op h => OnMaps.perform h op) (OnMaps.start name) ops
  have hfound := MapOp.found_run (g := fun (m : DimMap α) t => m.get? (.named name t)) (DimMap.get?_perform name)
    DimMap.empty ops
  refine ⟨hslots, hmap, hon.orderly, hon.len, hof.size,
    .of_simulation (fun _ _ op h => OnSlots.perform h op) (fun _ _ _ h h' => h.unique h') hon hon.entries hon.get?,
    .of_simulation (fun _ _ op h => OnMaps.perform h op) (fun _ _ _ h h' => h.unique h') hof hof hof.get?,
    ?_, fun name' => Listing.run_names name' name [] ops⟩
  -- the listing does not say what was stored when, but a map stands for it, of which this is known
  calc listed.2.value?
      = fun t => map.2.get? (.named name t) := funext fun t => (hof.get? t).symm
    _ = MapOp.found (MapOp.accepted ops map.1) := hfound
    _ = MapOp.found (MapOp.accepted ops listed.1) := by rw [hmap]

end Stencil
