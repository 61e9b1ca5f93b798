/-
The ledger of an allocator. An allocator is asked for buffers one after the other, of any element types, and the system
may refuse any of them. How a request ends depends on the requests before it only through the bytes that were granted;
a request that is refused leaves no trace.

- `Allocator.perform_eq_iff`: how one request ends, and what it leaves;
- `Accounts.next`, `Accounts.after`: the ledger accounts for the requests that were granted, over one request and a run;
- `ledger_spec`: what a fresh allocator of either kind has counted after any requests, and how it answers the next one.
-/
import Mathlib.Tactic
import Stencil.Memory.Allocator
import Stencil.Proofs.WorkOrder

namespace Stencil

/-! ## Entries -/

theorem Ledger.foldl_commit (bytes : List Nat) :
    bytes.foldl commit empty = ⟨bytes.length, min bytes.sum wordMax⟩ := by
  induction bytes using List.reverseRecOn with
  | nil => rfl
  | append_singleton bytes n ih =>
    rw [List.foldl_append, ih, List.foldl_cons, List.foldl_nil, commit, List.length_append, List.sum_append]
    simp only [List.length_singleton, List.sum_singleton, Ledger.mk.injEq, true_and]
    omega

/-- how the ledger answers: bytes that are no word are refused first, then those that are not available -/
theorem Ledger.grant_cases (l : Ledger) (budget : Budget) (elementSize len : Nat) :
    (wordMax < len * elementSize ∧ l.grant budget elementSize len = .error (.sizeOverflow len elementSize)) ∨
    (len * elementSize ≤ wordMax ∧ ∃ available, budget.available l.bytes = some available ∧
      available < len * elementSize ∧
        l.grant budget elementSize len = .error (.capacityExceeded (len * elementSize) available)) ∨
    (len * elementSize ≤ wordMax ∧
      (∀ available, budget.available l.bytes = some available → len * elementSize ≤ available) ∧
        l.grant budget elementSize len = .ok (len * elementSize)) := by
  unfold grant
  rcases lt_or_ge wordMax (len * elementSize) with hlarge | hword
  · exact Or.inl ⟨hlarge, by rw [fits_eq_none.2 hlarge]⟩
  · rw [fits_eq_some.2 ⟨hword, rfl⟩]
    refine Or.inr ?_
    cases budget.available l.bytes with
    | none => exact Or.inr ⟨hword, by simp, rfl⟩
    | some available =>
      rcases lt_or_ge available (len * elementSize) with hshort | hroom
      · exact Or.inl ⟨hword, available, rfl, hshort, if_pos hshort⟩
      · exact Or.inr ⟨hword, by simpa using hroom, if_neg (Nat.not_lt.2 hroom)⟩

namespace Allocator

theorem fill_eq {α : Type} (a : Allocator) (system : System) (len : Nat) (zero : α) :
    a.fill system len zero = Array.replicate len zero := by
  rw [fill]
  split
  · rfl
  · exact system.filling.fill_eq zero len

/-! ## One request -/

/-- a request for a buffer; what the system grants may differ from request to request -/
structure Request : Type 1 where
  {α : Type}
  system : System
  elementSize : Nat
  len : Nat
  zero : α

namespace Request

/-- the bytes that are asked for -/
def bytes (r : Request) : Nat := r.len * r.elementSize

def perform (r : Request) (a : Allocator) : Except AllocationError (Array r.α) × Allocator :=
  a.allocate r.system r.elementSize r.len r.zero

/-- whether a request is granted by an allocator -/
def isGranted (r : Request) (a : Allocator) : Bool := (r.perform a).1.isOk

end Request

/-- how a request ends and what it leaves, each reason to refuse it only where those before it do not apply -/
inductive Outcome (a : Allocator) (r : Request) : Except AllocationError (Array r.α) × Allocator → Prop
  | sizeOverflow (hlarge : wordMax < r.bytes) : Outcome a r (.error (.sizeOverflow r.len r.elementSize), a)
  | capacityExceeded (hword : r.bytes ≤ wordMax) {available : Nat} (ha : a.available = some available)
      (hshort : available < r.bytes) : Outcome a r (.error (.capacityExceeded r.bytes available), a)
  | reserveFailed (hword : r.bytes ≤ wordMax) (hroom : ∀ available, a.available = some available → r.bytes ≤ available)
      (hrefused : r.system.reserves r.bytes = false) : Outcome a r (.error (.reserveFailed r.bytes), a)
  | granted (hword : r.bytes ≤ wordMax) (hroom : ∀ available, a.available = some available → r.bytes ≤ available)
      (hreserved : r.system.reserves r.bytes = true) :
      Outcome a r (.ok (Array.replicate r.len r.zero), { a with ledger := a.ledger.commit r.bytes })

theorem perform_outcome (a : Allocator) (r : Request) : a.Outcome r (r.perform a) := by
  unfold Request.perform allocate
  rcases a.ledger.grant_cases a.budget r.elementSize r.len with ⟨hlarge, h⟩ | ⟨hword, n, ha, hshort, h⟩ | ⟨hword, hroom, h⟩
  · rw [h]
    exact .sizeOverflow hlarge
  · rw [h]
    exact .capacityExceeded hword ha hshort
  · rw [h]
    dsimp only
    rw [a.fill_eq]
    cases hreserved : r.system.reserves (r.len * r.elementSize) with
    | false => exact .reserveFailed hword hroom hreserved
    | true => exact .granted hword hroom hreserved

/-- a request is refused and leaves no trace, or granted and entered with its bytes -/
theorem Request.perform_cases (r : Request) (a : Allocator) : (∃ e, r.perform a = (.error e, a)) ∨
    r.perform a = (.ok (Array.replicate r.len r.zero), { a with ledger := a.ledger.commit r.bytes }) := by
  have houtcome := a.perform_outcome r
  generalize r.perform a = ends at houtcome ⊢
  cases houtcome with
  | sizeOverflow | capacityExceeded | reserveFailed => exact Or.inl ⟨_, rfl⟩
  | granted => exact Or.inr rfl

theorem Outcome.unique {a : Allocator} {r : Request} {x y : Except AllocationError (Array r.α) × Allocator}
    (hx : a.Outcome r x) (hy : a.Outcome r y) : x = y := by
  cases hx with
  | sizeOverflow hlarge =>
    cases hy with
    | sizeOverflow => rfl
    | capacityExceeded hword | reserveFailed hword | granted hword => omega
  | capacityExceeded hword ha hshort =>
    cases hy with
    | sizeOverflow hlarge => omega
    | capacityExceeded _ ha' => rw [Option.some.inj (ha.symm.trans ha')]
    | reserveFailed _ hroom | granted _ hroom =>
      have := hroom _ ha
      omega
  | reserveFailed hword hroom hrefused =>
    cases hy with
    | sizeOverflow hlarge => omega
    | capacityExceeded _ ha hshort =>
      have := hroom _ ha
      omega
    | reserveFailed => rfl
    | granted _ _ hreserved => exact absurd (hrefused.symm.trans hreserved) Bool.false_ne_true
  | granted hword hroom hreserved =>
    cases hy with
    | sizeOverflow hlarge => omega
    | capacityExceeded _ ha hshort =>
      have := hroom _ ha
      omega
    | reserveFailed _ _ hrefused => exact absurd (hrefused.symm.trans hreserved) Bool.false_ne_true
    | granted => rfl

/-- **How a request ends**, and what it leaves. -/
theorem perform_eq_iff {a : Allocator} {r : Request} {x : Except AllocationError (Array r.α) × Allocator} :
    r.perform a = x ↔ a.Outcome r x :=
  ⟨fun h => h ▸ a.perform_outcome r, fun h => (a.perform_outcome r).unique h⟩

section Results

variable {a : Allocator} {r : Request}

theorem fst_perform_eq_iff {result : Except AllocationError (Array r.α)} :
    (r.perform a).1 = result ↔ ∃ a', a.Outcome r (result, a') := by
  constructor
  · intro h
    exact ⟨_, perform_eq_iff.1 (Prod.ext h rfl)⟩
  · intro h
    obtain ⟨a', houtcome⟩ := h
    rw [perform_eq_iff.2 houtcome]

theorem perform_snd_of_error {e : AllocationError} (h : (r.perform a).1 = .error e) : (r.perform a).2 = a := by
  obtain ⟨a', houtcome⟩ := fst_perform_eq_iff.1 h
  rw [perform_eq_iff.2 houtcome]
  cases houtcome <;> rfl

theorem perform_eq_sizeOverflow_iff {len size : Nat} : (r.perform a).1 = .error (.sizeOverflow len size) ↔
    wordMax < r.bytes ∧ len = r.len ∧ size = r.elementSize := by
  rw [fst_perform_eq_iff]
  constructor
  · intro h
    obtain ⟨a', houtcome⟩ := h
    cases houtcome with
    | sizeOverflow hlarge => exact ⟨hlarge, rfl, rfl⟩
  · intro h
    obtain ⟨hlarge, rfl, rfl⟩ := h
    exact ⟨a, .sizeOverflow hlarge⟩

theorem perform_eq_capacityExceeded_iff {requested left : Nat} :
    (r.perform a).1 = .error (.capacityExceeded requested left) ↔
      r.bytes ≤ wordMax ∧ requested = r.bytes ∧ a.available = some left ∧ left < r.bytes := by
  rw [fst_perform_eq_iff]
  constructor
  · intro h
    obtain ⟨a', houtcome⟩ := h
    cases houtcome with
    | capacityExceeded hword ha hshort => exact ⟨hword, rfl, ha, hshort⟩
  · intro h
    obtain ⟨hword, rfl, ha, hshort⟩ := h
    exact ⟨a, .capacityExceeded hword ha hshort⟩

theorem perform_eq_reserveFailed_iff {requested : Nat} : (r.perform a).1 = .error (.reserveFailed requested) ↔
    r.bytes ≤ wordMax ∧ requested = r.bytes ∧ (∀ left, a.available = some left → r.bytes ≤ left) ∧
      r.system.reserves r.bytes = false := by
  rw [fst_perform_eq_iff]
  constructor
  · intro h
    obtain ⟨a', houtcome⟩ := h
    cases houtcome with
    | reserveFailed hword hroom hrefused => exact ⟨hword, rfl, hroom, hrefused⟩
  · intro h
    obtain ⟨hword, rfl, hroom, hrefused⟩ := h
    exact ⟨a, .reserveFailed hword hroom hrefused⟩

theorem perform_eq_ok_iff {data : Array r.α} : (r.perform a).1 = .ok data ↔
    r.bytes ≤ wordMax ∧ data = Array.replicate r.len r.zero ∧ (∀ left, a.available = some left → r.bytes ≤ left) ∧
      r.system.reserves r.bytes = true := by
  rw [fst_perform_eq_iff]
  constructor
  · intro h
    obtain ⟨a', houtcome⟩ := h
    cases houtcome with
    | granted hword hroom hreserved => exact ⟨hword, rfl, hroom, hreserved⟩
  · intro h
    obtain ⟨hword, rfl, hroom, hreserved⟩ := h
    exact ⟨_, .granted hword hroom hreserved⟩

end Results

/-! ## Requests one after the other -/

/-- the allocator after requests -/
def after (a : Allocator) (rs : List Request) : Allocator := rs.foldl (fun a r => (r.perform a).2) a

/-- the requests that are granted -/
def granted (a : Allocator) : List Request → List Request
  | [] => []
  | r :: rs => (if r.isGranted a then [r] else []) ++ (r.perform a).2.granted rs

/-- the bytes of all requests -/
def total (rs : List Request) : Nat := (rs.map Request.bytes).sum

theorem total_append (rs rs' : List Request) : total (rs ++ rs') = total rs + total rs' := by
  simp [total]

theorem granted_sublist (a : Allocator) (rs : List Request) : (a.granted rs).Sublist rs := by
  induction rs generalizing a with
  | nil => exact List.Sublist.refl []
  | cons r rs ih =>
    rw [granted]
    split_ifs
    · exact (ih _).cons_cons r
    · exact (ih _).cons r

/-- whether an allocator with a limit has granted some requests: its ledger has entered them, within the limit -/
structure Accounts (limit : Option UInt64) (past : List Request) (a : Allocator) : Prop where
  budget : a.budget = ⟨limit.map UInt64.toNat⟩
  ledger : a.ledger = (past.map Request.bytes).foldl Ledger.commit .empty
  within : ∀ most, limit = some most → total past ≤ most.toNat

variable {limit : Option UInt64} {past : List Request} {a : Allocator} {r : Request}

theorem Accounts.allocations_eq (h : Accounts limit past a) : a.ledger.allocations = past.length := by
  rw [h.ledger, Ledger.foldl_commit, List.length_map]

theorem Accounts.bytes_eq (h : Accounts limit past a) : a.ledger.bytes = min (total past) wordMax := by
  rw [h.ledger, Ledger.foldl_commit, total]

theorem Accounts.bytes_eq_total (h : Accounts limit past a) {most : UInt64} (hmost : limit = some most) :
    a.ledger.bytes = total past := by
  rw [h.bytes_eq]
  exact Nat.min_eq_left ((h.within most hmost).trans (toNat_le_wordMax most))

theorem Accounts.available_iff (h : Accounts limit past a) {left : Nat} :
    a.available = some left ↔ ∃ most, limit = some most ∧ left = most.toNat - total past := by
  unfold available Budget.available
  rw [h.budget, Option.map_map, Option.map_eq_some_iff]
  constructor
  · intro hleft
    obtain ⟨most, hmost, hsub⟩ := hleft
    exact ⟨most, hmost, by rw [← h.bytes_eq_total hmost]; exact hsub.symm⟩
  · intro hleft
    obtain ⟨most, hmost, hsub⟩ := hleft
    exact ⟨most, hmost, by rw [hsub, ← h.bytes_eq_total hmost]; rfl⟩

/-- bytes are available when they fit the limit together with those granted before -/
theorem Accounts.room_iff (h : Accounts limit past a) {n : Nat} :
    (∀ left, a.available = some left → n ≤ left) ↔ ∀ most, limit = some most → total past + n ≤ most.toNat := by
  simp only [h.available_iff, forall_exists_index, and_imp]
  constructor
  · intro hroom most hmost
    have hn := hroom _ most hmost rfl
    have hwithin := h.within most hmost
    omega
  · intro hroom left most hmost hleft
    have hn := hroom most hmost
    omega

/-- **One request more**: the ledger accounts for it exactly when it is granted. -/
theorem Accounts.next (h : Accounts limit past a) (r : Request) :
    Accounts limit (past ++ if r.isGranted a then [r] else []) (r.perform a).2 := by
  have houtcome := a.perform_outcome r
  have hgranted : r.isGranted a = (r.perform a).1.isOk := rfl
  rw [hgranted]
  generalize r.perform a = ends at houtcome
  cases houtcome with
  | sizeOverflow | capacityExceeded | reserveFailed => simpa [Except.isOk, Except.toBool] using h
  | granted hword hroom hreserved =>
    refine ⟨h.budget, ?_, ?_⟩
    · simp only [Except.isOk, Except.toBool, if_true, List.map_append, List.foldl_append, ← h.ledger]
      rfl
    · intro most hmost
      rw [total_append]
      simpa [Except.isOk, Except.toBool, total] using h.room_iff.1 hroom most hmost

/-- **The ledger accounts for the requests that were granted**, after any requests. -/
theorem Accounts.after (h : Accounts limit past a) (rs : List Request) :
    Accounts limit (past ++ a.granted rs) (a.after rs) := by
  induction rs generalizing past a with
  | nil => simpa [granted, Allocator.after] using h
  | cons r rs ih =>
    have hrest := ih (h.next r)
    rwa [List.append_assoc] at hrest

/-! ## From the start -/

/-- a fresh allocator of either kind -/
def fresh (kind : Storage) (limit : Option UInt64) (pooled : Bool) : Allocator :=
  match kind with
  | .host => heap ⟨limit.map UInt64.toNat⟩
  | .device => device ⟨limit.map UInt64.toNat⟩ pooled

theorem accounts_fresh (kind : Storage) (limit : Option UInt64) (pooled : Bool) :
    Accounts limit [] (fresh kind limit pooled) := by
  refine ⟨?_, ?_, ?_⟩
  · cases kind <;> rfl
  · cases kind <;> rfl
  · intro most _
    exact Nat.zero_le most.toNat

/-- **The ledger of an allocator.** After any requests, a fresh allocator of either kind has counted those that were
granted and added up their bytes, as far as a word counts; under a limit they never exceed it, and are counted in full.
The next request, if it is refused, changes nothing. It is refused as too large for a word exactly when its bytes are no
word; else as above the limit exactly when its bytes are more than the limit leaves, and with these two numbers; else
exactly when the system refuses them. Otherwise the buffer has the length that was asked for, and only fresh elements. -/
theorem ledger_spec (kind : Storage) (limit : Option UInt64) (pooled : Bool) (earlier : List Request) (r : Request) :
    let first := fresh kind limit pooled
    let a := first.after earlier
    let past := first.granted earlier
    let ends := r.perform a
    (past.Sublist earlier ∧ a.ledger.allocations = past.length ∧ a.ledger.bytes = min (total past) wordMax) ∧
    (∀ most, limit = some most → a.ledger.bytes = total past ∧ total past ≤ most.toNat) ∧
    (∀ e, ends.1 = .error e → ends.2 = a) ∧
    (∀ len size, ends.1 = .error (.sizeOverflow len size) ↔
      wordMax < r.bytes ∧ len = r.len ∧ size = r.elementSize) ∧
    (∀ requested left, ends.1 = .error (.capacityExceeded requested left) ↔ r.bytes ≤ wordMax ∧ requested = r.bytes ∧
      (∃ most, limit = some most ∧ left = most.toNat - total past) ∧ left < r.bytes) ∧
    (∀ requested, ends.1 = .error (.reserveFailed requested) ↔ r.bytes ≤ wordMax ∧ requested = r.bytes ∧
      (∀ most, limit = some most → total past + r.bytes ≤ most.toNat) ∧ r.system.reserves r.bytes = false) ∧
    ∀ data, ends.1 = .ok data ↔ r.bytes ≤ wordMax ∧ data = Array.replicate r.len r.zero ∧
      (∀ most, limit = some most → total past + r.bytes ≤ most.toNat) ∧ r.system.reserves r.bytes = true := by
  intro first a past ends
  have h : Accounts limit past a := (accounts_fresh kind limit pooled).after earlier
  refine ⟨⟨first.granted_sublist earlier, h.allocations_eq, h.bytes_eq⟩, ?_, ?_, ?_, ?_, ?_, ?_⟩
  · intro most hmost
    exact ⟨h.bytes_eq_total hmost, h.within most hmost⟩
  · intro e he
    exact perform_snd_of_error he
  · intro len size
    exact perform_eq_sizeOverflow_iff
  · intro requested left
    rw [perform_eq_capacityExceeded_iff, h.available_iff]
  · intro requested
    rw [perform_eq_reserveFailed_iff, h.room_iff]
  · intro data
    rw [perform_eq_ok_iff, h.room_iff]

/-- of a hundred bytes, ten words and two are granted, and the three asked for in between are refused -/
example : let ask (len : Nat) : Request := ⟨.granting 1000, 8, len, (0 : Int)⟩
    ((fresh .host (some 100) false).after [ask 10, ask 3, ask 2]).ledger = ⟨2, 96⟩ := by
  decide

end Allocator

end Stencil
