/-
Operands of a program: buffers with plans of the views a program is given of them. Making the views of all operands
either fails with the first violation, targets before fields, or leaves all that a run of a program needs.
-/
import Stencil.Access.ViewPlan
import Stencil.Kernel.Program

namespace Stencil.Program

/-- a buffer, and the view of it that is to be made -/
structure Operand where
  type : NumberType
  data : Array Number
  access : Access
  plan : ViewPlan

namespace Operand

def view (o : Operand) (usual : Storage) : Except ContractViolation View := o.plan.build o.access o.data.size usual

/-- the operand as elements that are read besides the members -/
def target (o : Operand) (usual : Storage) : Except ContractViolation Target := do
  return ⟨o.type, ← (← o.view usual).neighbors, o.data⟩

end Operand

/-- what a program is run on -/
structure Setup where
  context : Context
  views : Bundle View
  cells : Cells Number

namespace Setup

/-- the views of all operands over storage of their own or, where they name none, over the usual one -/
def make (fields : Bundle Operand) (targets : List Operand) (usual : Storage) : Except ContractViolation Setup := do
  let targets ← targets.mapM fun o => o.target usual
  let views ← fields.traverse fun o => o.view usual
  return ⟨⟨fields.members.map Operand.type, targets⟩, views, (fields.members.map Operand.data).toArray⟩

/-- runs a program on handles of the members -/
def run (s : Setup) (handles : Bundle Handle) (program : List Instr) (cells : Cells Number) :
    Except Fault Unit × RunState Number :=
  (body s.context program handles s.views.strides).run handles.members ⟨cells, []⟩

/-- the cells of the members that can be written -/
def written (s : Setup) (cells : Cells Number) : List (Option (Array Number)) :=
  (s.views.members.zip cells.toList).map fun (v, data) =>
    match v.access with
    | .readOnly => none
    | .writable => some data

end Setup

end Stencil.Program
