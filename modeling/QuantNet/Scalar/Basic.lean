/-!
# Scalars

The arithmetic that tensors, quantizers and evaluation are built from.  Everything above this
module is stated for any arithmetic: binary floating point when a model is run, exact rational
numbers when its meaning is discussed.
-/

namespace QuantNet

class Scalar (α : Type) extends Zero α, One α, Neg α, Add α, Sub α, Mul α, Div α where
  abs : α → α
  /-- The larger of two elements; one that is not a number loses against any other. -/
  max : α → α → α
  /-- The nearest integer, halves going away from zero. -/
  round : α → α
  pow2 : Int → α
  /-- The power of two whose exponent is the rounded binary logarithm of an element. -/
  roundPow2 : α → α
  lt : α → α → Bool
  le : α → α → Bool
  eq : α → α → Bool

namespace Scalar

variable {α : Type} [Scalar α]

def half : α :=
  pow2 (-1)

/-- The nearest end of a range for an element outside of it, otherwise the element. -/
def clamp (low high x : α) : α :=
  if lt x low then low else if lt high x then high else x

/-- One with the sign of a nonzero element. -/
def sign (x : α) : α :=
  if lt x 0 then -1 else if lt 0 x then 1 else x

/-- Equality that also holds between any two elements that are not numbers. -/
def same (x y : α) : Bool :=
  eq x y || (!eq x x && !eq y y)

end Scalar

end QuantNet
