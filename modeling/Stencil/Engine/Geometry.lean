/-
Launch geometry: the blocks of a grid and the units of a block. Unit `t` of block `b` stands for the element
`b * threads + t`; units whose element is not below the extent do nothing.
-/
import Stencil.Engine.Config

namespace Stencil

/-- the most blocks a grid may have -/
def maxGridBlocks : UInt64 := 0x7FFFFFFF

structure Geometry where
  blocks : UInt64
  threads : UInt64
deriving DecidableEq, Repr

namespace Geometry

/-- the smallest grid that covers an extent -/
def forExtent (extent : UInt64) : Geometry where
  blocks := extent / threadsPerBlock + if extent % threadsPerBlock = 0 then 0 else 1
  threads := threadsPerBlock

/-- all units, at most what a word holds -/
def units (g : Geometry) : UInt64 := clamp (g.blocks.toNat * g.threads.toNat)

/-- the first element of a block, and the one after its last; both at most the extent -/
def activeRange (g : Geometry) (block extent : UInt64) : UInt64 × UInt64 :=
  let start := min (clamp (block.toNat * g.threads.toNat)) extent
  (start, min (clamp (start.toNat + g.threads.toNat)) extent)

/-- whether the grid has no more blocks than allowed, and has units at all -/
def isValid (g : Geometry) : Bool := g.blocks ≤ maxGridBlocks && 0 < g.threads

end Geometry

end Stencil
