/-
Figures of one invocation: its passes in order with the time each took, and the temporaries it allocated. The engine
has no clock; whoever times a pass fills the time in.
-/
import Stencil.Error
import Stencil.Word

namespace Stencil

structure PassMetrics where
  op : String
  extent : UInt64
  /-- microseconds -/
  micros : Nat
deriving DecidableEq, Repr

structure InvocationMetrics where
  backend : String
  totalMicros : Nat
  passes : List PassMetrics
  tmpAllocations : Nat
  tmpBytes : Nat
deriving DecidableEq, Repr

namespace InvocationMetrics

/-- the figures of no invocation -/
def empty : InvocationMetrics := ⟨"", 0, [], 0, 0⟩

/-- the time of all passes, a fault if it does not fit a word -/
def passMicros (m : InvocationMetrics) : Except Fault Nat :=
  m.passes.foldlM (fun total p =>
    match fits (total + p.micros) with
    | some total => .ok total
    | none => .error (.overflow .add)) 0

end InvocationMetrics

end Stencil
