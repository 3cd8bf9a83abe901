import Mathlib.Data.Rat.Floor
import QuantNet.Scalar.Basic

/-!
# Exact arithmetic

The arithmetic of rational numbers, in which no operation rounds.  The binary logarithm is the one
operation that rational numbers do not have; its rounded value is left open as a parameter.
-/

namespace QuantNet.Exact

/-- The nearest integer, halves going away from zero. -/
def round (x : ℚ) : ℤ :=
  if x < 0 then -⌊-x + 1 / 2⌋ else ⌊x + 1 / 2⌋

/-- Rational arithmetic, with `exponent` as the rounded binary logarithm. -/
@[reducible]
def scalar (exponent : ℚ → ℤ) : Scalar ℚ where
  abs x := |x|
  max x y := max x y
  round x := round x
  pow2 n := 2 ^ n
  roundPow2 x := 2 ^ exponent x
  lt x y := decide (x < y)
  le x y := decide (x ≤ y)
  eq x y := decide (x = y)

/-- The rational numbers with this arithmetic. -/
def Number (_exponent : ℚ → ℤ) : Type :=
  ℚ

instance (exponent : ℚ → ℤ) : DecidableEq (Number exponent) :=
  inferInstanceAs (DecidableEq ℚ)

instance (exponent : ℚ → ℤ) : Scalar (Number exponent) :=
  scalar exponent

end QuantNet.Exact
