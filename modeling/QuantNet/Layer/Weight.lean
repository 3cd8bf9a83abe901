import QuantNet.Quantizer.Encoding

/-!
# Weights

The weight tensors of a layer.  A quantized weight keeps the tensor it was made from, so that it can
be quantized again.
-/

namespace QuantNet

inductive Role where
  | weight
  | bias
  | scale
deriving DecidableEq, Repr

namespace Role

def all : List Role :=
  [weight, bias, scale]

def name : Role → String
  | weight => "weight"
  | bias => "bias"
  | scale => "scale"

end Role

/-- A weight of a layer.  If it has a quantizer, the data are quantized and encoded. -/
structure Weight (α : Type) where
  data : Tensor α
  unquantized : Option (Tensor α) := none
  quantizer : Option (WeightQuantizer α) := none
deriving DecidableEq

namespace Weight

variable {α : Type} [Scalar α]

/-- The weight that a quantizer makes from a tensor, which is kept. -/
def quantized? (unquantized : Tensor α) (quantizer : WeightQuantizer α) : Option (Weight α) :=
  (quantizer.config.quantize? unquantized).map fun outcome =>
    { data := quantizer.encoding.encode outcome.values
      unquantized := some unquantized
      quantizer := some quantizer }

/-- The values of the data, with the encoding undone. -/
def decoded (weight : Weight α) : Tensor α :=
  match weight.quantizer with
  | some quantizer => quantizer.encoding.decode weight.data
  | none => weight.data

end Weight

end QuantNet
