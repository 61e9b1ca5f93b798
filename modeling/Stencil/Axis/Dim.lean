/-
Axes of a field. An axis is told from another by its tag alone; its label is what messages and maps show, and two
axes may share one.
-/
namespace Stencil

/-- a logical axis of a field -/
structure Dim where
  /-- what the axis is; two axes with one tag are one axis -/
  tag : String
  /-- how messages call the axis -/
  label : String
deriving DecidableEq, Repr, Inhabited

namespace Dim

/-- an axis that is called by its tag -/
def plain (tag : String) : Dim := ⟨tag, tag⟩

/-- the element axis: vertices, edges or cells -/
def horizontal : Dim := ⟨"Horizontal", "h"⟩

/-- the level axis -/
def vertical : Dim := ⟨"Vertical", "k"⟩

/-- the slot axis of a neighbour table -/
def neighbor : Dim := ⟨"Neighbor", "n"⟩

/-- the key of an axis, as programmers see it -/
def inspectKey (d : Dim) : String := "DimKey(" ++ d.label ++ ")"

end Dim

end Stencil
