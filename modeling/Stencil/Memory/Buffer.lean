/-
Buffers that are made outside any allocator. The system counts the bytes of a buffer in a signed word; a request for
more is a fault of the unit that makes it, found before any element exists.
-/
import Stencil.Error
import Stencil.Word

namespace Stencil.Buffer

variable {α : Type}

/-- refuses a buffer of `count` elements, each `elementSize` bytes large, that no system can count -/
def reserve (count elementSize : Nat) : Except Fault Unit :=
  if count * elementSize ≤ signedMax then .ok () else .error .capacity

/-- a buffer of `count` times one element -/
def replicate (count elementSize : Nat) (v : α) : Except Fault (Array α) := do
  reserve count elementSize
  return Array.replicate count v

end Stencil.Buffer
