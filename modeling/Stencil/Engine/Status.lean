/-
How a launch ended, and what is done about a fatal failure.
-/
import Stencil.Engine.Config

namespace Stencil

inductive LaunchStatus where
  | success
  /-- a unit faulted; the pass may have written some elements -/
  | kernelFault (message : String)
  /-- the grid would have too many blocks; no unit ran -/
  | invalidGeometry (blocks : UInt64)
deriving DecidableEq, Repr

namespace LaunchStatus

def code : LaunchStatus → Nat
  | success => 0
  | kernelFault _ => 1
  | invalidGeometry _ => 2

def isSuccess : LaunchStatus → Bool
  | success => true
  | _ => false

/-- the status of a launch that a fault ended -/
def ofFault (f : Fault) : LaunchStatus := kernelFault (f.message?.getD "non-string panic payload")

def message : LaunchStatus → String
  | success => "success"
  | kernelFault message => "kernel fault: " ++ message
  | invalidGeometry blocks => s!"invalid launch geometry: {blocks} blocks"

def inspect : LaunchStatus → String
  | success => "Success"
  | kernelFault message => Inspect.record "KernelFault" [("message", Quoted.quote message)]
  | invalidGeometry blocks => Inspect.record "InvalidGeometry" [("blocks", toString blocks)]

end LaunchStatus

/-- how an operation of the engine ends early -/
inductive Failure where
  /-- the caller is given the error -/
  | error (e : EngineError)
  /-- the process ends because of the error -/
  | aborted (e : EngineError)
  /-- a fault outside any launch -/
  | fault (f : Fault)
deriving DecidableEq, Repr

namespace Failure

/-- what a policy makes of a fatal error -/
def escalate (e : EngineError) : FailurePolicy → Failure
  | .abort => aborted e
  | .propagate => error e

end Failure

/-- the outcome of a launch of the operation `op`, given its status -/
def checkLaunch (op : String) (status : LaunchStatus) (policy : FailurePolicy) : Except Failure Unit :=
  if status.isSuccess then .ok ()
  else .error (.escalate (.launchFailure op status.code status.message) policy)

end Stencil
