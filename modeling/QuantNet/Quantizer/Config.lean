import QuantNet.Scalar.Basic

/-!
# Quantizer configurations

A quantizer maps values onto a small set of levels after dividing them by a scale factor, its
alpha.  The configuration names the levels and how the scale factor is chosen.
-/

namespace QuantNet

/-- How a quantizer chooses its scale factor. -/
inductive Alpha (α : Type) where
  /-- The same scale factor for every element. -/
  | fixed (value : α)
  /-- A scale factor for every output channel that puts the largest magnitude of the channel on the
  largest level. -/
  | auto
  /-- Like `auto`, rounded to a power of two. -/
  | autoPowerOfTwo
deriving DecidableEq, Repr

namespace Alpha

variable {α : Type}

/-- Whether a scale factor is chosen for every output channel. -/
def IsAutomatic : Alpha α → Prop
  | .fixed _ => False
  | .auto | .autoPowerOfTwo => True

instance : DecidablePred (IsAutomatic : Alpha α → Prop)
  | .fixed _ => .isFalse id
  | .auto | .autoPowerOfTwo => .isTrue trivial

variable [Scalar α]

def one : Alpha α :=
  .fixed 1

def isOne : Alpha α → Bool
  | .fixed value => Scalar.eq value 1
  | _ => false

/-- Equality of choices; fixed scale factors are compared as numbers, and any two that are not
numbers are equal. -/
def same : Alpha α → Alpha α → Bool
  | .fixed x, .fixed y => Scalar.same x y
  | .auto, .auto => true
  | .autoPowerOfTwo, .autoPowerOfTwo => true
  | _, _ => false

end Alpha

inductive Levels where
  /-- Fixed-point levels of `bits` bits, `integer` of them in front of the point, not counting the
  sign bit. -/
  | fixedPoint (bits integer : UInt32) (keepNegative : Bool)
  | binary
  | ternary
deriving DecidableEq, Repr

/-- All that determines a quantizer.  Without an alpha the scale factor is one. -/
structure QuantizerConfig (α : Type) where
  levels : Levels
  alpha : Option (Alpha α)
deriving DecidableEq, Repr

namespace QuantizerConfig

variable {α : Type}

/-- The same levels with another choice of the scale factor. -/
def setAlpha (config : QuantizerConfig α) (alpha : Alpha α) : QuantizerConfig α :=
  { config with alpha := some alpha }

def dropAlpha (config : QuantizerConfig α) : QuantizerConfig α :=
  { config with alpha := none }

variable [Scalar α]

/-- The same levels with a scale factor of one, if there is a scale factor at all. -/
def resetAlpha (config : QuantizerConfig α) : QuantizerConfig α :=
  { config with alpha := config.alpha.map fun _ => .one }

def isUnit (config : QuantizerConfig α) : Bool :=
  match config.alpha with
  | none => true
  | some alpha => alpha.isOne

/-- Equality of configurations, see `Alpha.same`. -/
def same (left right : QuantizerConfig α) : Bool :=
  left.levels = right.levels &&
    match left.alpha, right.alpha with
    | none, none => true
    | some l, some r => l.same r
    | _, _ => false

end QuantizerConfig

end QuantNet
