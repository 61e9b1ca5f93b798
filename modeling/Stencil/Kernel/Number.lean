/-
Numbers of kernel programs: whole numbers of a signed word and floating-point numbers. A field has an element type;
storing a number into it converts the number, or refuses it.
-/
import Stencil.Sweep.Arithmetic

namespace Stencil

/-- a number a kernel program works with -/
inductive Number where
  | int (n : Int64)
  | real (x : Float)

/-- the element type of a field -/
inductive NumberType where
  | int32
  | int64
  | float64
deriving DecidableEq, Repr

namespace Number

instance : Inhabited Number := ⟨int 0⟩

def toReal : Number → Float
  | int n => n.toFloat
  | real x => x

/-- the number as a whole number; floats are not rounded but refused -/
def toInt : Number → Except Fault Int64
  | int n => .ok n
  | real _ => .error .floatForInteger

/-- a whole number from an exact result, unless it lies outside the signed words -/
def ofExact (n : Int) : Except Fault Number :=
  if (IntRange.signed 64).low ≤ n ∧ n ≤ (IntRange.signed 64).high then .ok (int (Int64.ofInt n))
  else .error .programOverflow

/-- an operation on two numbers: exact on whole numbers, in floating point if either number is a float -/
def combine (exact : Int → Int → Int) (rounded : Float → Float → Float) : Number → Number → Except Fault Number
  | int a, int b => ofExact (exact a.toInt b.toInt)
  | a, b => .ok (real (rounded a.toReal b.toReal))

def add : Number → Number → Except Fault Number := combine (· + ·) (· + ·)

def sub : Number → Number → Except Fault Number := combine (· - ·) (· - ·)

def mul : Number → Number → Except Fault Number := combine (· * ·) (· * ·)

/-- division is always in floating point -/
def div (a b : Number) : Number := real (a.toReal / b.toReal)

end Number

namespace NumberType

/-- how many bytes one element takes -/
def bytes : NumberType → Nat
  | int32 => 4
  | int64 => 8
  | float64 => 8

/-- the value fresh elements have -/
def zero : NumberType → Number
  | int32 => .int 0
  | int64 => .int 0
  | float64 => .real 0.0

/-- the element that storing a number leaves: a narrow integer keeps the low bits, a float takes the nearest value -/
def accept : NumberType → Number → Except Fault Number
  | int32, n => do return .int (← n.toInt).toInt32.toInt64
  | int64, n => do return .int (← n.toInt)
  | float64, n => .ok (.real n.toReal)

/-- an operation on whole numbers that refuses floats -/
def onInts (f : Int → Int → Except Fault Int) : Number → Number → Except Fault Number
  | .int a, .int b => do return .int (Int64.ofInt (← f a.toInt b.toInt))
  | _, _ => .error .floatForInteger

/-- an arithmetic of words, read as an arithmetic of numbers -/
def wordArithmetic : Arithmetic Number :=
  let a := Arithmetic.integer (.signed 64)
  { zero := .int 0
    one := .int 1
    ten := .int 10
    least := .int (Int64.ofInt a.least)
    greatest := .int (Int64.ofInt a.greatest)
    add := onInts a.add
    sub := onInts a.sub
    mul := onInts a.mul
    less := fun
      | .int x, .int y => a.less x.toInt y.toInt
      | _, _ => false }

/-- floating-point arithmetic, read as an arithmetic of numbers -/
def floatArithmetic : Arithmetic Number :=
  let a := Arithmetic.float
  let on (f : Float → Float → Except Fault Float) (x y : Number) : Except Fault Number := do
    return .real (← f x.toReal y.toReal)
  { zero := .real a.zero
    one := .real a.one
    ten := .real a.ten
    least := .real a.least
    greatest := .real a.greatest
    add := on a.add
    sub := on a.sub
    mul := on a.mul
    less := fun x y => a.less x.toReal y.toReal }

/-- the arithmetic of accumulators over elements of a type -/
def arithmetic : NumberType → Arithmetic Number
  | float64 => floatArithmetic
  | _ => wordArithmetic

end NumberType

end Stencil
