/-
Element types of temporary fields outside any pass, with the size of one element, the value fresh elements have, and
the element that a value becomes.
-/
import Stencil.Error

namespace Stencil

/-- an element of a temporary field -/
inductive Element where
  | integer (n : Int)
  | real (x : Float)
  | unit
  | pair (x y : Float)

inductive ElementType where
  | uint8
  | uint16
  | int32
  | int64
  | float32
  | float64
  | unit
  | float64Pair
deriving DecidableEq, Repr

namespace ElementType

/-- the bytes of one element -/
def bytes : ElementType → Nat
  | uint8 => 1
  | uint16 => 2
  | int32 => 4
  | int64 => 8
  | float32 => 4
  | float64 => 8
  | unit => 0
  | float64Pair => 16

/-- the value fresh elements have -/
def zero : ElementType → Element
  | float32 => .real 0.0
  | float64 => .real 0.0
  | unit => .unit
  | float64Pair => .pair 0.0 0.0
  | _ => .integer 0

/-- the single-precision number nearest to a whole number -/
def single (n : Int) : Float32 := if n < 0 then (Int64.ofInt n).toFloat32 else (UInt64.ofInt n).toFloat32

/-- the double-precision number nearest to a whole number -/
def double (n : Int) : Float := if n < 0 then (Int64.ofInt n).toFloat else (UInt64.ofInt n).toFloat

/--
the element a value becomes: whole numbers keep the low bits that fit, and floating-point numbers round to the nearest
value of their precision, once
-/
def accept : ElementType → Element → Element
  | uint8, .integer n => .integer (n % UInt8.size)
  | uint16, .integer n => .integer (n % UInt16.size)
  | int32, .integer n => .integer (n.bmod UInt32.size)
  | int64, .integer n => .integer (n.bmod UInt64.size)
  | float32, .integer n => .real (single n).toFloat
  | float32, .real x => .real x.toFloat32.toFloat
  | float64, .integer n => .real (double n)
  | _, e => e

end ElementType

namespace Element

/-- whether an element has the value of fresh elements -/
def isZero : Element → Bool
  | integer n => n == 0
  | real x => x == 0.0
  | unit => true
  | pair x y => x == 0.0 && y == 0.0

end Element

end Stencil
