/-
Kernel bodies. The body of a pass is what one unit does: it moves handles freely, and touches the cells of a pass
only by loading and storing at an offset of a numbered member. Whether an access is granted is decided by the handle
that the unit was given for that member, so a body cannot reach what its handles do not admit.
-/
import Stencil.Sweep.Loop

namespace Stencil

/-- a body over cells of type `α` that ends with a result, or with a fault -/
inductive Kernel (α : Type) (ρ : Type) where
  | done (result : ρ)
  | fault (f : Fault)
  /-- loads the cell of a member at an offset; nothing if the access is not granted -/
  | load (member : Nat) (offset : Int64) (next : Option α → Kernel α ρ)
  /-- stores into the cell of a member at an offset; false if the access is not granted -/
  | store (member : Nat) (offset : Int64) (v : α) (next : Bool → Kernel α ρ)
  /-- reports a row of integers to whoever runs the pass -/
  | emit (row : List Int64) (next : Unit → Kernel α ρ)

namespace Kernel

variable {α ρ σ : Type}

/-- first one body, then another that depends on its result -/
def bind : Kernel α ρ → (ρ → Kernel α σ) → Kernel α σ
  | done r, f => f r
  | fault e, _ => fault e
  | load m o next, f => load m o fun v => (next v).bind f
  | store m o v next, f => store m o v fun granted => (next granted).bind f
  | emit row next, f => emit row fun u => (next u).bind f

instance : Monad (Kernel α) where
  pure := done
  bind := bind

theorem bind_done (k : Kernel α ρ) : k.bind done = k := by
  induction k with
  | done _ => rfl
  | fault _ => rfl
  | load m o next ih => exact congrArg (load m o) (funext ih)
  | store m o v next ih => exact congrArg (store m o v) (funext ih)
  | emit row next ih => exact congrArg (emit row) (funext ih)

theorem bind_assoc {τ : Type} (k : Kernel α ρ) (f : ρ → Kernel α σ) (g : σ → Kernel α τ) :
    (k.bind f).bind g = k.bind fun r => (f r).bind g := by
  induction k with
  | done _ => rfl
  | fault _ => rfl
  | load m o next ih => exact congrArg (load m o) (funext ih)
  | store m o v next ih => exact congrArg (store m o v) (funext ih)
  | emit row next ih => exact congrArg (emit row) (funext ih)

instance : LawfulMonad (Kernel α) :=
  LawfulMonad.mk' (Kernel α) (fun k => bind_done k) (fun _ _ => rfl) fun k f g => bind_assoc k f g

/-- a computation that may fault, as a body that touches no cell -/
def lift : Except Fault ρ → Kernel α ρ
  | .ok r => done r
  | .error f => fault f

/-- the value under a moved handle of a member -/
def get (member : Nat) (h : Handle) : Kernel α α :=
  load member h.offset fun
    | some v => done v
    | none => fault h.refusal

/-- the value under a moved handle of a member, if the access is granted -/
def get? (member : Nat) (h : Handle) : Kernel α (Option α) := load member h.offset done

/-- stores under a moved handle of a member -/
def set (member : Nat) (h : Handle) (v : α) : Kernel α Unit :=
  store member h.offset v fun
    | true => done ()
    | false => fault h.refusal

/-- stores under a moved handle of a member, and tells whether the access was granted -/
def set? (member : Nat) (h : Handle) (v : α) : Kernel α Bool := store member h.offset v done

/-- replaces the value under a moved handle of a member -/
def update (member : Nat) (h : Handle) (f : α → Kernel α α) : Kernel α Unit := do
  let old ← get member h
  set member h (← f old)

/-- reports a row of integers -/
def report (row : List Int64) : Kernel α Unit := emit row done

end Kernel

/-! ## Running a body -/

/-- the cells of a pass: one buffer for each member -/
abbrev Cells (α : Type) := Array (Array α)

namespace Cells

variable {α : Type}

/-- the cell of a member under a handle -/
def load (cells : Cells α) (member : Nat) (h : Handle) : Option α := (cells[member]?).bind h.read?

/-- the cells with one cell of a member replaced -/
def put (cells : Cells α) (member position : Nat) (v : α) : Cells α :=
  cells.modify member fun data => data.setIfInBounds position v

end Cells

/-- what running bodies has led to: the cells, and the rows reported so far with the latest first -/
structure RunState (α : Type) where
  cells : Cells α
  reported : List (List Int64)

namespace Kernel

variable {α ρ : Type}

/-- runs a body with the handles of one unit -/
def run (handles : List Handle) : Kernel α ρ → RunState α → Except Fault ρ × RunState α
  | done r, s => (.ok r, s)
  | fault f, s => (.error f, s)
  | load m o next, s => (next ((handles[m]?).bind fun h => s.cells.load m (h.moveTo o))).run handles s
  | store m o v next, ⟨cells, reported⟩ =>
    match (handles[m]?).bind fun h => (h.moveTo o).writeIndex? with
    | some i => (next true).run handles ⟨cells.put m i v, reported⟩
    | none => (next false).run handles ⟨cells, reported⟩
  | emit row next, ⟨cells, reported⟩ => (next ()).run handles ⟨cells, row :: reported⟩

end Kernel

end Stencil
