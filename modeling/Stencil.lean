import Stencil.Access.Bundle
import Stencil.Access.Guard
import Stencil.Access.Handle
import Stencil.Access.View
import Stencil.Access.ViewPlan
import Stencil.Axis.Dim
import Stencil.Axis.DimMap
import Stencil.Axis.Layout
import Stencil.Engine.Backend
import Stencil.Engine.Config
import Stencil.Engine.Geometry
import Stencil.Engine.Invocation
import Stencil.Engine.Metrics
import Stencil.Engine.Session
import Stencil.Engine.Status
import Stencil.Error
import Stencil.Kernel.Basic
import Stencil.Kernel.Number
import Stencil.Kernel.Operand
import Stencil.Kernel.Program
import Stencil.Memory.Allocator
import Stencil.Memory.Buffer
import Stencil.Memory.Element
import Stencil.Memory.Temporary
import Stencil.Mesh.Basic
import Stencil.Mesh.Connectivity
import Stencil.Mesh.Domain
import Stencil.Mesh.Field
import Stencil.Mesh.Nabla
import Stencil.Mesh.Scalar
import Stencil.Mesh.VertexSum
import Stencil.Sweep.Arithmetic
import Stencil.Sweep.Combiner
import Stencil.Sweep.Loop
import Stencil.Sweep.Reduction
import Stencil.Text.Glyph
import Stencil.Text.Inspect
import Stencil.Text.Quoted
import Stencil.Word
import Stencil.WorkOrder
import Stencil.Proofs.WorkOrder
import Stencil.Proofs.Access.Isolation
import Stencil.Proofs.Engine.Units
import Stencil.Proofs.Engine.Agreement
import Stencil.Proofs.Axis.Resolution
import Stencil.Proofs.Access.Ownership
import Stencil.Proofs.Access.InRange
import Stencil.Proofs.Engine.Programs
import Stencil.Proofs.Kernel.Triples
import Stencil.Proofs.Mesh.Bodies
import Stencil.Proofs.Mesh.Conservation
import Stencil.Proofs.Mesh.Direct
import Stencil.Proofs.Mesh.Gradient
import Stencil.Proofs.Access.Nesting
import Stencil.Proofs.Engine.LaunchCheck
import Stencil.Proofs.Sweep.Folding
import Stencil.Proofs.Mesh.Rows
import Stencil.Proofs.Mesh.Validation
import Stencil.Proofs.Mesh.Checks
import Stencil.Proofs.Access.Capacity
import Stencil.Proofs.Axis.Counting
import Stencil.Proofs.Sweep.Coverage
import Stencil.Proofs.Access.TrueOffset
import Stencil.Proofs.Engine.Tiling
import Stencil.Proofs.Engine.Frame
import Stencil.Proofs.Engine.History
import Stencil.Proofs.Memory.Ledger
import Stencil.Proofs.Memory.Temporaries
import Stencil.Proofs.Engine.TemporaryLaunch
import Stencil.Proofs.Engine.Phases
import Stencil.Proofs.Access.Contracts
import Stencil.Proofs.Engine.Contracts
import Stencil.Proofs.Engine.Runs
import Stencil.Proofs.Engine.Sequential
import Stencil.Proofs.Sweep.IntegerReductions
import Stencil.Proofs.Axis.Maps
import Stencil.Proofs.Axis.Slots
import Stencil.Proofs.Axis.Operations
import Stencil.Proofs.Access.Renaming
import Stencil.Proofs.Mesh.RoundTrip
import Stencil.Proofs.Mesh.RowAccess
import Stencil.Proofs.Mesh.Incidence
import Stencil.Proofs.Mesh.Transpose
import Stencil.Proofs.Mesh.VertexSums
import Stencil.Proofs.Mesh.Uniform
import Stencil.Proofs.Mesh.Store
