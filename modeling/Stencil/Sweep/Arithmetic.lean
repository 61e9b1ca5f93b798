/-
Arithmetic of accumulators. Integers live in a range and an operation that leaves it is a fault; floating-point
numbers never fault. The least and greatest value are those a reduction by maximum and minimum starts from.
-/
import Stencil.Error

namespace Stencil

/-- the operations a reduction needs of its accumulator -/
structure Arithmetic (α : Type) where
  zero : α
  one : α
  ten : α
  least : α
  greatest : α
  add : α → α → Except Fault α
  sub : α → α → Except Fault α
  mul : α → α → Except Fault α
  less : α → α → Bool

/-- the values of a bounded integer type -/
structure IntRange where
  low : Int
  high : Int
deriving DecidableEq, Repr

namespace IntRange

/-- the integers that fit `bits` bits in two's complement -/
def signed (bits : Nat) : IntRange := ⟨-Int.pow 2 (bits - 1), Int.pow 2 (bits - 1) - 1⟩

/-- the integers that fit `bits` bits without a sign -/
def unsigned (bits : Nat) : IntRange := ⟨0, Int.pow 2 bits - 1⟩

/-- the result of an operation, unless it lies outside the range -/
def checked (r : IntRange) (operation : Operation) (n : Int) : Except Fault Int :=
  if r.low ≤ n ∧ n ≤ r.high then .ok n else .error (.overflow operation)

end IntRange

namespace Arithmetic

/-- exact arithmetic in a range -/
def integer (r : IntRange) : Arithmetic Int where
  zero := 0
  one := 1
  ten := 10
  least := r.low
  greatest := r.high
  add a b := r.checked .add (a + b)
  sub a b := r.checked .subtract (a - b)
  mul a b := r.checked .multiply (a * b)
  less a b := decide (a < b)

/-- the largest finite floating-point number -/
def floatMax : Float := Float.ofBits 0x7fefffffffffffff

/-- floating-point arithmetic; the least value is the largest negative finite number -/
def float : Arithmetic Float where
  zero := 0.0
  one := 1.0
  ten := 10.0
  least := -floatMax
  greatest := floatMax
  add a b := .ok (a + b)
  sub a b := .ok (a - b)
  mul a b := .ok (a * b)
  less a b := a < b

end Arithmetic

end Stencil
