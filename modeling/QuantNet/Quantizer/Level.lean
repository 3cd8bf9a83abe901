import QuantNet.Quantizer.Config

/-!
# Levels

The level onto which a quantizer maps a value at unit scale.  Fixed-point levels are the multiples
of a step between two bounds; the upper bound lies one step below a power of two.
-/

namespace QuantNet.Levels

variable {α : Type} [Scalar α]

/-- An unsigned word read as a two's complement number. -/
def word (n : UInt32) : Int :=
  n.toInt32.toInt

/-- The number of bits behind the point of a fixed-point level. -/
def fractionBits (bits integer : UInt32) (keepNegative : Bool) : Int :=
  word bits - word integer - if keepNegative then 1 else 0

/-- Whether the number of bits behind the point is computed, and negated, within 32 bits. -/
def isCountable : Levels → Bool
  | fixedPoint bits integer keepNegative =>
      word bits - word integer ≤ Int32.maxValue.toInt &&
        Int32.minValue.toInt < fractionBits bits integer keepNegative
  | _ => true

def step : Levels → α
  | fixedPoint bits integer keepNegative => Scalar.pow2 (-(fractionBits bits integer keepNegative))
  | _ => 1

def lowest : Levels → α
  | fixedPoint _ integer keepNegative =>
      if keepNegative then -(Scalar.pow2 (word integer)) else 0
  | _ => -1

def highest : Levels → α
  | fixedPoint bits integer keepNegative =>
      Scalar.pow2 (word integer) - step (.fixedPoint bits integer keepNegative)
  | _ => 1

/-- Whether the lowest level is not above the highest one, so that values can be kept between
them.  Levels beyond the reach of the arithmetic may fail this. -/
def ordered (levels : Levels) (α : Type) [Scalar α] : Bool :=
  Scalar.le (levels.lowest : α) levels.highest

/-- The level of a value at unit scale. -/
def level : Levels → α → α
  | fixedPoint bits integer keepNegative, x =>
      let levels := Levels.fixedPoint bits integer keepNegative
      Scalar.clamp levels.lowest levels.highest
        (Scalar.round (x / levels.step) * levels.step)
  | binary, x => if Scalar.le 0 x then 1 else -1
  | ternary, x => if Scalar.lt (Scalar.abs x) Scalar.half then 0 else Scalar.sign x

end QuantNet.Levels
