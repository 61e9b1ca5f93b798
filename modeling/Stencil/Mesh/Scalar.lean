/-
Scalars of mesh computations: floating-point numbers, or exact rationals.
-/
namespace Stencil

/-- what a mesh computation needs of its scalars -/
class Scalar (ρ : Type) extends Add ρ, Sub ρ, Mul ρ, Div ρ where
  zero : ρ
  half : ρ
  ofInt : Int → ρ

instance : Scalar Float where
  zero := 0.0
  half := 0.5
  ofInt := Float.ofInt

instance : Scalar Rat where
  zero := 0
  half := 1 / 2
  ofInt n := n

end Stencil
