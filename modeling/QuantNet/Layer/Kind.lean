/-!
# Layer kinds

The closed set of layers that a model is built from.
-/

namespace QuantNet

inductive LayerKind where
  | input
  | dense
  | conv1D
  | conv2D
  | batchNormalization
  /-- Multiplies a scale factor back in that was taken out of the weights of the layer before. -/
  | applyAlpha
  | activation
deriving DecidableEq, Repr

namespace LayerKind

def all : List LayerKind :=
  [input, dense, conv1D, conv2D, batchNormalization, applyAlpha, activation]

/-- The class name, by which configurations select layers. -/
def name : LayerKind → String
  | input => "Input"
  | dense => "Dense"
  | conv1D => "Conv1D"
  | conv2D => "Conv2D"
  | batchNormalization => "BatchNormalization"
  | applyAlpha => "ApplyAlpha"
  | activation => "Activation"

/-- Whether the layer multiplies its input with a weight tensor. -/
def isWeighted : LayerKind → Bool
  | dense | conv1D | conv2D => true
  | _ => false

/-- Whether the layer computes a scale times its input plus a bias, channel by channel. -/
def isAffine : LayerKind → Bool
  | batchNormalization | applyAlpha => true
  | _ => false

variable {kind : LayerKind}

theorem ne_input_of_isAffine (affine : kind.isAffine = true) : kind ≠ .input := by
  rintro rfl
  cases affine

theorem ne_input_of_isWeighted (weighted : kind.isWeighted = true) : kind ≠ .input := by
  rintro rfl
  cases weighted

theorem isAffine_of_isWeighted (weighted : kind.isWeighted = true) : kind.isAffine = false := by
  cases kind <;> first | rfl | cases weighted

end LayerKind

end QuantNet
