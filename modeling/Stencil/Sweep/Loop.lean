/-
Loops along one axis. A loop calls its body once per offset, in ascending order, with the handles of a bundle
standing at that offset; the caller's handles stay where they are. The body may act in any monad.
-/
import Stencil.Access.Bundle

namespace Stencil

/-- how often a loop runs: a number given at run time, or one fixed when the loop was written -/
inductive Extent where
  | given (n : UInt64)
  | fixed (n : UInt64)
deriving DecidableEq, Repr

namespace Extent

def get : Extent → UInt64
  | given n => n
  | fixed n => n

def inspect : Extent → String
  | given n => toString n
  | fixed _ => "Const"

end Extent

/-- a loop along an axis -/
structure Loop where
  dim : Dim
  extent : Extent

/-- a loop whose steps are known; running it cannot fail -/
structure BoundLoop where
  step : Bundle Int64
  extent : Extent

/-- a loop with its body -/
structure LoopCall (m : Type → Type) where
  loop : Loop
  body : Bundle Handle → Bundle (DimMap Int64) → m Unit

section sweep

variable {m : Type → Type} [Monad m] {α : Type}

/-- `f` at `n` offsets in ascending order, from `p` on, each result handed to the next call -/
def sweep (step : Bundle Int64) (f : α → Bundle Handle → m α) : Nat → Bundle Handle → α → m α
  | 0, _, acc => pure acc
  | n + 1, p, acc => do
    let acc ← f acc p
    sweep step f n (p.shiftBy 1 step) acc

namespace BoundLoop

/-- folds over the offsets in ascending order -/
def fold (l : BoundLoop) (p : Bundle Handle) (init : α) (f : α → Bundle Handle → m α) : m α :=
  sweep l.step f l.extent.get.toNat p init

/-- calls the body at every offset -/
def forEach (l : BoundLoop) (p : Bundle Handle) (body : Bundle Handle → m Unit) : m Unit :=
  l.fold p () fun _ q => body q

def inspect (l : BoundLoop) : String :=
  Inspect.record "BoundLoop" [("step", l.step.inspect toString), ("extent", l.extent.inspect)]

end BoundLoop

namespace Loop

/-- the loop with the steps of a bundle, some member of which must carry the axis -/
def bind (l : Loop) (strides : Bundle (DimMap Int64)) : Except ContractViolation BoundLoop := do
  let step ← strides.steps l.dim
  return ⟨step, l.extent⟩

/-- calls the body at every offset, with the strides of the bundle -/
def run (l : Loop) (p : Bundle Handle) (strides : Bundle (DimMap Int64))
    (body : Bundle Handle → Bundle (DimMap Int64) → m Unit) : Except ContractViolation (m Unit) := do
  let bound ← l.bind strides
  return bound.forEach p fun q => body q strides

/-- the loop with a body attached -/
def apply (l : Loop) (body : Bundle Handle → Bundle (DimMap Int64) → m Unit) : LoopCall m := ⟨l, body⟩

def inspect (l : Loop) : String :=
  Inspect.record "Loop" [("dim", Quoted.quote l.dim.label), ("extent", l.extent.inspect)]

end Loop

namespace LoopCall

/-- runs the loop from the given handles -/
def call (c : LoopCall m) (p : Bundle Handle) (strides : Bundle (DimMap Int64)) : Except ContractViolation (m Unit) :=
  c.loop.run p strides c.body

def inspect (c : LoopCall m) : String := Inspect.record "LoopFn" [("lp", c.loop.inspect)]

end LoopCall

end sweep

end Stencil
