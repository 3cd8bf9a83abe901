import QuantNet.Quantizer.Level
import QuantNet.Tensor.Basic

/-!
# Quantizers

A quantizer divides a tensor by its scale, maps every element onto a level and multiplies the scale
back in.  The scale has the rank of the tensor and size one on every axis but the last, whose
positions are the output channels.
-/

namespace QuantNet

structure Quantized (α : Type) where
  values : Tensor α
  scale : Tensor α
deriving DecidableEq

namespace QuantizerConfig

variable {α : Type} [Scalar α]

/-- The shape with one position for every output channel. -/
def channelShape (shape : Shape) : Shape :=
  match shape.getLast? with
  | none => []
  | some channels => List.replicate (shape.length - 1) 1 ++ [channels]

/-- The elements of an output channel.  A tensor of rank zero is one channel. -/
def channel (data : Tensor α) (c : Nat) : List α :=
  match data.shape with
  | [] => data.data.toList
  | shape => (Shape.indices shape.dropLast).map fun leading => data.get (leading ++ [c])

/-- The largest magnitude among some elements, zero if there are none. -/
def largestMagnitude (elements : List α) : α :=
  elements.foldl (fun largest x => Scalar.max largest (Scalar.abs x)) 0

/-- The scale factor of a channel with the given elements.  A channel of zeros keeps one. -/
def channelScale (levels : Levels) (adjust : α → α) (elements : List α) : α :=
  let largest := largestMagnitude elements
  if Scalar.lt 0 largest then adjust (largest / levels.highest) else 1

def channelScales (levels : Levels) (adjust : α → α) (data : Tensor α) : Tensor α :=
  Tensor.ofFn (channelShape data.shape) fun index =>
    channelScale levels adjust (channel data (index.getLastD 0))

/-- The scale by which a tensor is divided. -/
def scale (config : QuantizerConfig α) (data : Tensor α) : Tensor α :=
  match config.alpha.getD Alpha.one with
  | .fixed value => Tensor.fill (List.replicate data.rank 1) value
  | .auto => channelScales config.levels id data
  | .autoPowerOfTwo => channelScales config.levels Scalar.roundPow2 data

/-- The tensor on the levels that belong to a scale. -/
def scaledLevels (levels : Levels) (scale data : Tensor α) : Tensor α :=
  Tensor.ofFn data.shape fun index =>
    let s := scale.stretched index
    s * levels.level (data.get index / s)

def scaleShape (config : QuantizerConfig α) (data : Tensor α) : Shape :=
  match config.alpha.getD Alpha.one with
  | .fixed _ => List.replicate data.rank 1
  | .auto | .autoPowerOfTwo => channelShape data.shape

/-- Whether the levels that a tensor asks for exist.  Its elements, and automatic scale factors
even if there are no elements, need a step that can be computed; its elements also need ordered
bounds. -/
def hasLevels (config : QuantizerConfig α) (data : Tensor α) : Bool :=
  match config.levels with
  | .fixedPoint .. =>
      let empty := data.data.isEmpty
      let automatic := decide (config.alpha.getD Alpha.one).IsAutomatic
      (config.levels.isCountable || empty && !automatic) && (config.levels.ordered α || empty)
  | _ => true

/-- Quantizes a tensor.  There is no outcome if the levels that it asks for do not exist, or if
there are more output channels than can be stored. -/
def quantize? (config : QuantizerConfig α) (data : Tensor α) : Option (Quantized α) :=
  if (config.scaleShape data).isStorable && config.hasLevels data then
    let scale := config.scale data
    some ⟨scaledLevels config.levels scale data, scale⟩
  else
    none

end QuantizerConfig

end QuantNet
