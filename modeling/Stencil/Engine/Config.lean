/-
Configuration of the engine: what happens on a fatal failure, how many workers a grid has, how much device memory one
invocation may take, and whether neighbour tables are checked.
-/
import Stencil.Memory.Allocator

namespace Stencil

/-- how many units a block has -/
def threadsPerBlock : UInt64 := 32

/-- the most workers a grid may be given -/
def maxWorkerThreads : UInt64 := 256

/-- what is done about a failed launch or a refused allocation -/
inductive FailurePolicy where
  /-- the process ends -/
  | abort
  /-- the error is returned -/
  | propagate
deriving DecidableEq, Repr, Inhabited

def FailurePolicy.inspect : FailurePolicy → String
  | .abort => "Abort"
  | .propagate => "Propagate"

/-- what is wrong with a configuration -/
inductive ConfigError where
  | zeroWorkers
  | zeroMemoryLimit
  /-- the workers could not be started -/
  | threadPool (reason : String)
deriving DecidableEq, Repr

/-- the name of what is wrong -/
def ConfigError.name : ConfigError → String
  | .zeroWorkers => "ZeroWorkers"
  | .zeroMemoryLimit => "ZeroMemoryLimit"
  | .threadPool _ => "ThreadPool"

def ConfigError.message : ConfigError → String
  | .zeroWorkers => "worker_threads must be at least 1"
  | .zeroMemoryLimit => "device_memory_limit must be at least 1 byte"
  | .threadPool reason => s!"worker pool build failed: {reason}"

structure EngineConfig where
  failurePolicy : FailurePolicy
  /-- workers of a grid; without a number it shares the workers of the process -/
  workerThreads : Option UInt64
  /-- bytes one invocation may take for temporaries on a grid -/
  deviceMemoryLimit : Option UInt64
  checkConnectivity : Bool
deriving DecidableEq, Repr

namespace EngineConfig

/-- failures end the process, tables are checked -/
def standard : EngineConfig := ⟨.abort, none, none, true⟩

/-- the standard configuration with failures returned -/
def propagating : EngineConfig := { standard with failurePolicy := .propagate }

/-- workers are looked at before memory -/
def validate (c : EngineConfig) : Except ConfigError Unit :=
  if c.workerThreads = some 0 then .error .zeroWorkers
  else if c.deviceMemoryLimit = some 0 then .error .zeroMemoryLimit
  else .ok ()

/-- the number of workers of a grid of its own, between one and the most allowed -/
def resolvedWorkerThreads (c : EngineConfig) : Option UInt64 :=
  c.workerThreads.map fun n => if n < 1 then 1 else if maxWorkerThreads < n then maxWorkerThreads else n

/-- the budget of temporaries on a grid -/
def deviceBudget (c : EngineConfig) : Budget := ⟨c.deviceMemoryLimit.map UInt64.toNat⟩

def inspect (c : EngineConfig) : String :=
  Inspect.record "EngineConfig"
    [("failure_policy", c.failurePolicy.inspect), ("worker_threads", Inspect.option (c.workerThreads.map toString)),
      ("device_memory_limit", Inspect.option (c.deviceMemoryLimit.map toString)),
      ("check_connectivity", toString c.checkConnectivity)]

end EngineConfig

end Stencil
