import QuantNet.Quantizer.Basic

/-!
# Hardware encodings

How quantized values are stored in the numeric type of the hardware.  A binary weight of one bit is
stored as zero or one and stands for minus one or one.
-/

namespace QuantNet

inductive Encoding where
  /-- As they are. -/
  | native
  /-- As minus one and one, or with one bit as zero and one. -/
  | binary (bits : UInt32)
  /-- As minus one, zero and one. -/
  | ternary
deriving DecidableEq, Repr

namespace Encoding

variable {α : Type} [Scalar α]

def encodeElement (encoding : Encoding) (x : α) : α :=
  match encoding with
  | native => x
  | binary bits => if Scalar.lt 0 x then 1 else if bits = 1 then 0 else -1
  | ternary => if Scalar.le Scalar.half x then 1 else if Scalar.le x (-Scalar.half) then -1 else 0

def decodeElement (encoding : Encoding) (x : α) : α :=
  match encoding with
  | binary bits => if bits = 1 then if Scalar.lt 0 x then 1 else -1 else x
  | _ => x

def encode (encoding : Encoding) (data : Tensor α) : Tensor α :=
  data.map encoding.encodeElement

def decode (encoding : Encoding) (data : Tensor α) : Tensor α :=
  data.map encoding.decodeElement

end Encoding

/-- The quantizer of a weight: the configuration that it was trained with and the encoding of its
output. -/
structure WeightQuantizer (α : Type) where
  config : QuantizerConfig α
  encoding : Encoding
deriving DecidableEq, Repr

end QuantNet
