import QuantNet.Scalar.Basic

/-!
# Binary floating point

The arithmetic of 32-bit binary floating point numbers, each operation rounded on its own.
-/

namespace QuantNet.Binary32

def infinity : Float32 :=
  Float32.ofBits 0x7F800000

/-- A power of two, infinite from `2 ^ 128` on.  Negative exponents go through the reciprocal, so
that `2 ^ -128` and everything below is zero. -/
def pow2 : Int → Float32
  | .ofNat n => ofExponent n
  | .negSucc n => 1 / ofExponent (n + 1)
where
  ofExponent (n : Nat) : Float32 :=
    if n < 128 then Float32.ofBits (UInt32.ofNat ((n + 127) <<< 23)) else infinity

/-- The larger number, or the only number among the two. -/
def max (x y : Float32) : Float32 :=
  if x.isNaN then y else if y.isNaN then x else if x < y then y else x

instance : Scalar Float32 where
  abs := Float32.abs
  max := max
  round := Float32.round
  pow2 := pow2
  roundPow2 x := Float32.pow 2 (Float32.round (Float32.log2 x))
  lt x y := x < y
  le x y := x ≤ y
  eq x y := x == y

end QuantNet.Binary32
