/-
The domain of a computation: how many elements of each kind a mesh has, and how many levels.
-/
import Stencil.Text.Inspect

namespace Stencil

/-- a kind of mesh element -/
inductive Location where
  | vertex
  | edge
  | cell
deriving DecidableEq, Repr

def Location.name : Location → String
  | .vertex => "vertex"
  | .edge => "edge"
  | .cell => "cell"

/-- element counts, fixed while an invocation runs -/
structure Domain where
  vertex : UInt64
  edge : UInt64
  cell : UInt64
  k : UInt64
deriving DecidableEq, Repr

namespace Domain

/-- a domain without cells -/
def ofCounts (vertex edge k : UInt64) : Domain := ⟨vertex, edge, 0, k⟩

def withCells (d : Domain) (cell : UInt64) : Domain := { d with cell }

def empty : Domain := ⟨0, 0, 0, 0⟩

/-- how many elements of a kind there are -/
def count (d : Domain) : Location → UInt64
  | .vertex => d.vertex
  | .edge => d.edge
  | .cell => d.cell

def inspect (d : Domain) : String :=
  Inspect.record "Domain"
    [("vertex", toString d.vertex), ("edge", toString d.edge), ("cell", toString d.cell), ("k", toString d.k)]

end Domain

end Stencil
