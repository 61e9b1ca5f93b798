/-
Orders of work. Workers share numbered pieces of work and take them in an order of their own; nothing is assumed of it
but that every piece is taken once.
-/
namespace Stencil

/-- the order in which workers take so many pieces of work: a piece at each turn, every piece at one turn -/
structure WorkOrder where
  /-- the piece that is taken at a turn, of so many pieces -/
  piece : Nat → Nat → Nat
  piece_lt : ∀ {pieces turn}, turn < pieces → piece pieces turn < pieces
  piece_inj : ∀ {pieces i j}, i < pieces → j < pieces → piece pieces i = piece pieces j → i = j

namespace WorkOrder

/-- the pieces in ascending order -/
def ascending : WorkOrder where
  piece _ turn := turn
  piece_lt h := h
  piece_inj _ _ h := h

/-- the places of a buffer of `len` elements after some turns: at each turn a worker puts a value into one place -/
def filled {α : Type} (order : WorkOrder) (len : Nat) (x : α) (turns : Nat) : Array (Option α) :=
  (List.range turns).foldl (fun places turn => places.setIfInBounds (order.piece len turn) (some x))
    (Array.replicate len none)

/-- the buffer that workers have filled with a value -/
def fill {α : Type} (order : WorkOrder) (len : Nat) (x : α) : Array α := (order.filled len x len).filterMap id

end WorkOrder

end Stencil
