/-
Reductions of integers. The sum and the product of a row are exact, or the reduction overflows at the first partial
result, in the order of the slots, that leaves the range of the accumulator. The least and the greatest value are found
whatever the values are, since comparing cannot overflow; without a value they are the limits of the type. So the order
of the entries, and where missing neighbours stand between them, is seen in nothing but whether there is an overflow.

- `EntryRow`, `IntElements`: a row of entries as a reduction selects them, and the integers that it reads;
- `EntryRow.reduce_eq_foldlM`: the reduction is the left fold of the values that the row names;
- `IntRange.foldlM_checked`: a checked left fold is exact until a partial result leaves the range, by induction on the
  values;
- `EntryRow.reduce_least`, `EntryRow.reduce_greatest`: the extremes of a row;
- `integer_reductions`: what the four reductions of integers are, and that the order of the entries does not matter.
-/
import Mathlib.Tactic
import Stencil.Proofs.Mesh.Validation
import Stencil.Sweep.Combiner

namespace Stencil

/-! ## Integer types -/

namespace IntRange

variable {r : IntRange}

/-- whether an integer is a value of the type -/
def Contains (r : IntRange) (n : Int) : Prop := r.low ≤ n ∧ n ≤ r.high

instance (r : IntRange) (n : Int) : Decidable (r.Contains n) := inferInstanceAs (Decidable (_ ∧ _))

/-- the range of a type of so many bits, with or without a sign -/
def OfBits (r : IntRange) : Prop := ∃ bits, 8 ≤ bits ∧ (r = signed bits ∨ r = unsigned bits)

theorem OfBits.contains (h : r.OfBits) : r.Contains 0 ∧ r.Contains 1 := by
  obtain ⟨bits, hbits, h⟩ := h
  have hpow (n : Nat) (hn : 1 ≤ n) : (2 : Int) ≤ Int.pow 2 n := by
    have hle : (2 : Int) ^ 1 ≤ 2 ^ n := pow_le_pow_right₀ (by norm_num) hn
    exact hle
  rcases h with rfl | rfl
  · have hhigh := hpow (bits - 1) (by omega)
    simp only [Contains, signed]
    omega
  · have hhigh := hpow bits (by omega)
    simp only [Contains, unsigned]
    omega

/-! ## Checked folds -/

theorem checked_of_contains {operation : Operation} {n : Int} (h : r.Contains n) : r.checked operation n = .ok n :=
  if_pos h

theorem checked_of_not_contains {operation : Operation} {n : Int} (h : ¬ r.Contains n) :
    r.checked operation n = .error (.overflow operation) := if_neg h

/-- how a checked reduction of some values ends: with their exact total if that of all first values of them is in the
range, and with an overflow otherwise -/
structure ExactOrOverflows (r : IntRange) (operation : Operation) (total : List Int → Int) (xs : List Int)
    (result : Except Fault Int) : Prop where
  exact_iff : ∀ n, result = .ok n ↔ n = total xs ∧ ∀ k ≤ xs.length, r.Contains (total (xs.take k))
  overflow_iff : ∀ e, result = .error e ↔
    e = .overflow operation ∧ ∃ k ≤ xs.length, ¬ r.Contains (total (xs.take k))

/-- whether all partial results of a left fold are in the range -/
def Stays (r : IntRange) (f : Int → Int → Int) (init : Int) (xs : List Int) : Prop :=
  ∀ k ≤ xs.length, r.Contains ((xs.take k).foldl f init)

theorem stays_cons {f : Int → Int → Int} {init x : Int} {xs : List Int} :
    r.Stays f init (x :: xs) ↔ r.Contains init ∧ r.Stays f (f init x) xs := by
  constructor
  · intro h
    exact ⟨h 0 (Nat.zero_le _), fun k hk => h (k + 1) (Nat.succ_le_succ hk)⟩
  · rintro ⟨hinit, h⟩ k hk
    cases k with
    | zero => exact hinit
    | succ k => exact h k (Nat.le_of_succ_le_succ hk)

section

variable {operation : Operation} {f : Int → Int → Int} {init : Int} {xs : List Int}

theorem Stays.foldlM_checked (h : r.Stays f init xs) :
    xs.foldlM (fun acc x => r.checked operation (f acc x)) init = .ok (xs.foldl f init) := by
  induction xs generalizing init with
  | nil => rfl
  | cons x xs ih =>
    have hrest := (stays_cons.1 h).2
    have hnext : r.Contains (f init x) := hrest 0 (Nat.zero_le _)
    rw [List.foldlM_cons, checked_of_contains hnext, List.foldl_cons]
    exact ih hrest

theorem foldlM_checked_of_not_stays (hinit : r.Contains init) (h : ¬ r.Stays f init xs) :
    xs.foldlM (fun acc x => r.checked operation (f acc x)) init = .error (.overflow operation) := by
  induction xs generalizing init with
  | nil =>
    refine absurd ?_ h
    intro k _
    rwa [List.take_nil]
  | cons x xs ih =>
    rw [stays_cons, and_iff_right hinit] at h
    rw [List.foldlM_cons]
    by_cases hnext : r.Contains (f init x)
    · rw [checked_of_contains hnext]
      exact ih hnext h
    · rw [checked_of_not_contains hnext]
      rfl

/-- **A checked left fold** is exact, or overflows where a partial result leaves the range. -/
theorem foldlM_checked (hinit : r.Contains init) (xs : List Int) :
    r.ExactOrOverflows operation (fun ys => ys.foldl f init) xs
      (xs.foldlM (fun acc x => r.checked operation (f acc x)) init) := by
  have hsplit : (∃ k ≤ xs.length, ¬ r.Contains ((xs.take k).foldl f init)) ↔ ¬ r.Stays f init xs := by
    simp only [Stays, not_forall, exists_prop]
  by_cases hstays : r.Stays f init xs
  · rw [hstays.foldlM_checked]
    refine ⟨fun n => ?_, fun e => iff_of_false nofun fun h => hsplit.1 h.2 hstays⟩
    rw [Except.ok.injEq, eq_comm, iff_self_and]
    exact fun _ => hstays
  · rw [foldlM_checked_of_not_stays hinit hstays]
    refine ⟨fun n => iff_of_false nofun fun h => hstays h.2, fun e => ?_⟩
    rw [Except.error.injEq, eq_comm, iff_self_and]
    exact fun _ => hsplit.2 hstays

end

end IntRange

/-! ## Rows of entries -/

/-- integers of a type as targets: the elements that a reduction reads, and the buffer they are in -/
structure IntElements (r : IntRange) where
  target : Neighbors
  data : Array Int
  contained : ∀ x ∈ data, r.Contains x

/-- a row of table entries as a reduction selects them, from handles that move along an axis -/
structure EntryRow (ι : Type) where
  slot : Dim
  degree : Extent
  handles : Bundle (Handle × Int64)
  select : Bundle Handle → Except Fault ι
  /-- the entries at the slots -/
  entries : List ι
  length_entries : entries.length = degree.get.toNat
  selected : ∀ j e, entries[j]? = some e → select (handles.after j) = .ok e

namespace IntElements

variable {r : IntRange}

/-- the value of an element by its number, if it can be read -/
def value? (t : IntElements r) (n : Int) : Option Int := (t.target.element (Int64.ofInt n)).read? t.data

/-- the value that an entry adds to a reduction: that of the element it names, or nothing for a missing neighbour -/
def contribution {ι : Type} [TableEntry ι] (t : IntElements r) (entry : ι) : Option Int :=
  if TableEntry.toInt entry = missingNeighbor then none else t.value? (TableEntry.toInt entry)

theorem contained_of_value? {t : IntElements r} {n x : Int} (h : t.value? n = some x) : r.Contains x := by
  obtain ⟨i, -, hi⟩ := Option.bind_eq_some_iff.1 h
  exact t.contained x (Array.mem_of_getElem? hi)

/-- the elements of a buffer -/
def ofBuffer (data : Array Int) (contained : ∀ x ∈ data, r.Contains x) (storage : Storage) : IntElements r :=
  ⟨Connectivity.targets data.size storage, data, contained⟩

theorem isSome_value?_ofBuffer {data : Array Int} (contained : ∀ x ∈ data, r.Contains x) (storage : Storage) {n : Int}
    (h0 : 0 ≤ n) (hlt : n < data.size) (hsmall : data.size ≤ signedMax) :
    ((ofBuffer data contained storage).value? n).isSome = true := by
  obtain ⟨i, rfl⟩ := Int.eq_ofNat_of_zero_le h0
  have hi : i < data.size := by omega
  have hindex : ((Connectivity.targets data.size storage).element (Int64.ofNat i)).index? = some i :=
    Connectivity.index?_targets hi (by omega)
  rw [value?, Int64.ofInt_eq_ofNat, ofBuffer, Handle.read?, hindex, Option.bind_some, Array.getElem?_eq_getElem hi]
  rfl

end IntElements

namespace EntryRow

variable {ι κ : Type} [TableEntry ι] [TableEntry κ] {r : IntRange} {t : IntElements r} {row : EntryRow ι}
  {row' : EntryRow κ}

/-- the entries of a row that name neighbours, in the order of the slots -/
def neighbors (row : EntryRow ι) : List Int := (row.entries.map TableEntry.toInt).filter fun n => n ≠ missingNeighbor

/-- whether every entry that names a neighbour names an element of the target -/
def Names (row : EntryRow ι) (t : IntElements r) : Prop := ∀ n ∈ row.neighbors, (t.value? n).isSome = true

/-- the values that the entries of a row name, in the order of the slots -/
def values (row : EntryRow ι) (t : IntElements r) : List Int := row.neighbors.filterMap t.value?

/-- the reduction by a combiner of what a row names -/
def reduce (row : EntryRow ι) (op : Combiner) (t : IntElements r) : Except Fault Int :=
  (BoundFold.mk (op.reduction (.integer r) 0 row.slot row.degree fun _ n => n.read t.data)
    (row.handles.map Prod.snd)).eval (row.handles.map Prod.fst) row.select t.target

omit [TableEntry ι] in
/-- a left fold over the numbers of slots is one over what is found at them -/
theorem foldlM_range_eq_foldlM {m : Type → Type} [Monad m] {β : Type} {f : β → Nat → m β} {g : β → ι → m β}
    {l : List ι} (h : ∀ acc j e, l[j]? = some e → f acc j = g acc e) (init : β) :
    (List.range l.length).foldlM f init = l.foldlM g init := by
  induction l generalizing f init with
  | nil => rfl
  | cons e l ih =>
    have hrest (acc : β) : ((List.range l.length).map Nat.succ).foldlM f acc = l.foldlM g acc := by
      rw [List.foldlM_map]
      exact ih (fun acc j e he => h acc (j + 1) e he) acc
    rw [List.length_cons, List.range_succ_eq_map, List.foldlM_cons, List.foldlM_cons, h init 0 e rfl]
    simp only [hrest]

theorem values_eq_contributions (row : EntryRow ι) (t : IntElements r) :
    row.values t = row.entries.filterMap t.contribution := by
  rw [values, neighbors, List.filterMap_filter, List.filterMap_map]
  refine List.filterMap_congr fun e _ => ?_
  simp only [Function.comp_apply, IntElements.contribution, decide_not, Bool.not_eq_true', decide_eq_false_iff_not,
    ite_not]

theorem contained_values {x : Int} (h : x ∈ row.values t) : r.Contains x := by
  obtain ⟨n, -, hn⟩ := List.mem_filterMap.1 h
  exact IntElements.contained_of_value? hn

theorem Names.map_value? (h : row.Names t) : row.neighbors.map t.value? = (row.values t).map some := by
  unfold Names at h
  unfold values
  generalize row.neighbors = numbers at h
  induction numbers with
  | nil => rfl
  | cons n ns ih =>
    rw [List.forall_mem_cons] at h
    obtain ⟨x, hx⟩ := Option.isSome_iff_exists.1 h.1
    rw [List.map_cons, List.filterMap_cons_some hx, List.map_cons, ih h.2, hx]

/-- **A reduction of a row** is the left fold of the values that its entries name. -/
theorem reduce_eq_foldlM (h : row.Names t) (op : Combiner) :
    row.reduce op t = (row.values t).foldlM (op.apply (.integer r)) ((op.start? (.integer r)).getD 0) := by
  rw [reduce, BoundFold.eval_eq_foldlM, values_eq_contributions, List.foldlM_filterMap]
  refine (pure_bind _ _).trans ?_
  simp only [Combiner.reduction, ← row.length_entries]
  refine foldlM_range_eq_foldlM (fun acc j e he => ?_) _
  have hselect := row.selected j e he
  by_cases hmissing : TableEntry.toInt e = missingNeighbor
  · rw [NeighborFold.slotStep_of_skips hselect ⟨rfl, hmissing⟩, IntElements.contribution, if_pos hmissing]
  · have hmem : TableEntry.toInt e ∈ row.neighbors :=
      List.mem_filter.2 ⟨List.mem_map_of_mem (List.mem_of_getElem? he), by simpa using hmissing⟩
    obtain ⟨x, hx⟩ := Option.isSome_iff_exists.1 (h _ hmem)
    have hword : Int64.ofInt (TableEntry.toInt e) = TableEntry.widen e := by
      rw [← TableEntry.toInt_widen, Int64.ofInt_toInt]
    have hread : (t.target.element (TableEntry.widen e)).read? t.data = some x := hword ▸ hx
    rw [NeighborFold.slotStep_of_not_skips hselect fun hskips => hmissing hskips.2, IntElements.contribution,
      if_neg hmissing, hx]
    simp only [Handle.read, hread]
    rfl

/-! ## The four reductions -/

/-- the least value of a row, or the largest of the type -/
theorem reduce_least (h : row.Names t) : row.reduce .least t = .ok ((row.values t).min?.getD r.high) := by
  have hstep : Combiner.least.apply (.integer r) = fun acc x => pure (min acc x) := by
    funext acc x
    simp only [Combiner.apply, Arithmetic.integer, decide_eq_true_eq]
    rcases lt_or_ge x acc with hlt | hle
    · rw [if_pos hlt, min_eq_right hlt.le]
      rfl
    · rw [if_neg (not_lt.2 hle), min_eq_left hle]
      rfl
  rw [reduce_eq_foldlM h, hstep, List.foldlM_pure, List.foldl_min]
  refine congrArg Except.ok (min_eq_right ?_)
  cases hmin : (row.values t).min? with
  | none => exact le_rfl
  | some x => exact (contained_values (List.min?_mem hmin)).2

/-- the greatest value of a row, or the least of the type -/
theorem reduce_greatest (h : row.Names t) : row.reduce .greatest t = .ok ((row.values t).max?.getD r.low) := by
  have hstep : Combiner.greatest.apply (.integer r) = fun acc x => pure (max acc x) := by
    funext acc x
    simp only [Combiner.apply, Arithmetic.integer, decide_eq_true_eq]
    rcases lt_or_ge acc x with hlt | hle
    · rw [if_pos hlt, max_eq_right hlt.le]
      rfl
    · rw [if_neg (not_lt.2 hle), max_eq_left hle]
      rfl
  rw [reduce_eq_foldlM h, hstep, List.foldlM_pure, List.foldl_max]
  refine congrArg Except.ok (max_eq_right ?_)
  cases hmax : (row.values t).max? with
  | none => exact le_rfl
  | some x => exact (contained_values (List.max?_mem hmax)).1

theorem reduce_sum (h : row.Names t) (hzero : r.Contains 0) :
    r.ExactOrOverflows .add List.sum (row.values t) (row.reduce .sum t) := by
  have hsum : (List.sum : List Int → Int) = fun ys => ys.foldl (· + ·) 0 := funext fun ys => List.sum_eq_foldl
  rw [reduce_eq_foldlM h, hsum]
  exact IntRange.foldlM_checked hzero (row.values t)

theorem reduce_product (h : row.Names t) (hone : r.Contains 1) :
    r.ExactOrOverflows .multiply List.prod (row.values t) (row.reduce .product t) := by
  have hprod : (List.prod : List Int → Int) = fun ys => ys.foldl (· * ·) 1 := funext fun ys => List.prod_eq_foldl
  rw [reduce_eq_foldlM h, hprod]
  exact IntRange.foldlM_checked hone (row.values t)

/-! ## Other orders of the entries -/

theorem values_perm (h : row'.neighbors.Perm row.neighbors) : (row'.values t).Perm (row.values t) := h.filterMap _

theorem Names.perm (hnames : row.Names t) (h : row'.neighbors.Perm row.neighbors) : row'.Names t :=
  fun n hn => hnames n (h.subset hn)

theorem min?_perm {xs ys : List Int} (h : xs.Perm ys) : xs.min? = ys.min? := by
  ext n
  simp only [List.min?_eq_some_iff, h.mem_iff]

theorem max?_perm {xs ys : List Int} (h : xs.Perm ys) : xs.max? = ys.max? := by
  ext n
  simp only [List.max?_eq_some_iff, h.mem_iff]

/-- the combiners of integers whose results do not depend on the order of the values -/
def unordered : List Combiner := [.sum, .product, .least, .greatest]

/-- **The order of the entries** does not matter, nor how many slots without neighbours are between them. -/
theorem reduce_perm (hr : r.OfBits) (hnames : row.Names t) (h : row'.neighbors.Perm row.neighbors) {op : Combiner}
    (hop : op ∈ unordered) {a b : Int} (ha : row.reduce op t = .ok a) (hb : row'.reduce op t = .ok b) : a = b := by
  obtain ⟨hzero, hone⟩ := hr.contains
  have hnames' := hnames.perm h
  have hvalues : (row'.values t).Perm (row.values t) := values_perm h
  simp only [unordered, List.mem_cons, List.not_mem_nil, or_false] at hop
  rcases hop with rfl | rfl | rfl | rfl
  · rw [(((reduce_sum hnames hzero).exact_iff a).1 ha).1, (((reduce_sum hnames' hzero).exact_iff b).1 hb).1]
    exact hvalues.sum_eq.symm
  · rw [(((reduce_product hnames hone).exact_iff a).1 ha).1, (((reduce_product hnames' hone).exact_iff b).1 hb).1]
    exact hvalues.prod_eq.symm
  · rw [reduce_least hnames, Except.ok.injEq] at ha
    rw [reduce_least hnames', Except.ok.injEq, min?_perm hvalues] at hb
    exact ha.symm.trans hb
  · rw [reduce_greatest hnames, Except.ok.injEq] at ha
    rw [reduce_greatest hnames', Except.ok.injEq, max?_perm hvalues] at hb
    exact ha.symm.trans hb

/-! ## Rows in a buffer -/

/-- a row of entries that are stored one after the other -/
def stored (entries : List Int32) (hsmall : entries.length ≤ signedMax) : EntryRow Int32 where
  slot := .neighbor
  degree := .given (UInt64.ofNat entries.length)
  handles := .member (.reading entries.length 0, 1)
  select p := (p.handle 0).read entries.toArray
  entries
  length_entries := by
    have hword : signedMax < 2 ^ 64 := by decide
    exact (UInt64.toNat_ofNat_of_lt' (hsmall.trans_lt hword)).symm
  selected j e he := by
    obtain ⟨hlt, -⟩ := List.getElem?_eq_some_iff.1 he
    have hplace : ((Bundle.member (Handle.reading entries.length 0, (1 : Int64))).after j).handle 0 =
        (Handle.reading entries.length 0).moveTo (Int64.ofNat j) := by
      show (Handle.reading entries.length 0).moveTo (0 + 1 * Int64.ofNat j) = _
      rw [Int64.zero_add, Int64.one_mul]
    rw [hplace]
    exact Handle.read_eq_ok (Handle.index?_unguarded rfl hlt (hlt.le.trans hsmall)) (by rwa [List.getElem?_toArray])

end EntryRow

/-- **Reductions of integers.** For an accumulator of any integer type, and a row of any degree, with missing neighbours
anywhere, whose other entries name elements of the target: let `xs` be the values that they name, in the order of the
slots. The reductions by sum and by product give the sum and the product of `xs`, and overflow exactly when that of some
first values of `xs` is not a value of the type. Those by least and by greatest value give the least and the greatest of
`xs`, or the largest and the least value of the type when there is none. Rows with the same entries in another order,
and with missing neighbours elsewhere, give equal results by any of the four, whenever both give one. -/
theorem integer_reductions {r : IntRange} (hr : r.OfBits) (t : IntElements r) {ι : Type} [TableEntry ι]
    (row : EntryRow ι) (hnames : row.Names t) :
    let xs := row.values t
    row.neighbors.map t.value? = xs.map some ∧
    r.ExactOrOverflows .add List.sum xs (row.reduce .sum t) ∧
    r.ExactOrOverflows .multiply List.prod xs (row.reduce .product t) ∧
    row.reduce .least t = .ok (xs.min?.getD r.high) ∧ row.reduce .greatest t = .ok (xs.max?.getD r.low) ∧
    ∀ {κ : Type} [TableEntry κ] (row' : EntryRow κ), row'.neighbors.Perm row.neighbors →
      ∀ op ∈ EntryRow.unordered, ∀ a b, row.reduce op t = .ok a → row'.reduce op t = .ok b → a = b := by
  intro xs
  obtain ⟨hzero, hone⟩ := hr.contains
  refine ⟨hnames.map_value?, EntryRow.reduce_sum hnames hzero, EntryRow.reduce_product hnames hone,
    EntryRow.reduce_least hnames, EntryRow.reduce_greatest hnames, ?_⟩
  intro κ _ row' h op hop a b ha hb
  exact EntryRow.reduce_perm hr hnames h hop ha hb

/-- three values of a byte with a sign -/
def signedBytes : IntElements (.signed 8) := .ofBuffer #[100, 50, -100] (by decide) .host

/-- a row of bytes whose first two values are too much for a byte: its sum overflows, its extremes are found, and in
another order its sum is exact -/
theorem integer_reductions_bytes :
    let row := EntryRow.stored [0, -1, 1, 2] (by decide)
    let other := EntryRow.stored [-1, 2, 0, 1] (by decide)
    (IntRange.signed 8).OfBits ∧ row.Names signedBytes ∧ row.reduce .sum signedBytes = .error (.overflow .add) ∧
      row.reduce .least signedBytes = .ok (-100) ∧ row.reduce .greatest signedBytes = .ok 100 ∧
        other.reduce .sum signedBytes = .ok 50 := by
  intro row other
  have hbits : (IntRange.signed 8).OfBits := ⟨8, le_rfl, Or.inl rfl⟩
  have hnames : row.Names signedBytes := by
    intro n hn
    have hrange : ∀ n ∈ row.neighbors, 0 ≤ n ∧ n < 3 := by decide
    obtain ⟨h0, hlt⟩ := hrange n hn
    exact IntElements.isSome_value?_ofBuffer _ .host h0 hlt (by decide)
  have hnames' : other.Names signedBytes := hnames.perm (by decide)
  have hvalues : row.values signedBytes = [100, 50, -100] := by decide +kernel
  have hvalues' : other.values signedBytes = [-100, 100, 50] := by decide +kernel
  obtain ⟨-, hsum, -, hleast, hgreatest, -⟩ := integer_reductions hbits signedBytes row hnames
  obtain ⟨-, hsum', -⟩ := integer_reductions hbits signedBytes other hnames'
  rw [hvalues] at hsum hleast hgreatest
  rw [hvalues'] at hsum'
  exact ⟨hbits, hnames, (hsum.overflow_iff _).2 ⟨rfl, 2, by decide, by decide⟩, hleast, hgreatest,
    (hsum'.exact_iff 50).2 ⟨by decide, by decide⟩⟩

end Stencil
