import QuantNet.Tensor.Basic

/-!
# Affine maps of tensors

A scale followed by a bias, each stretched to the tensor that it meets.
-/

namespace QuantNet

/-- The map that multiplies a tensor by `scale` and then adds `bias`. -/
structure Affine (α : Type) where
  scale : Tensor α
  bias : Tensor α
deriving DecidableEq

namespace Affine

variable {α : Type} [Scalar α]

/-- The value of the map, if scale and bias stretch with the tensor. -/
def value? (map : Affine α) (x : Tensor α) : Option (Tensor α) := do
  let scaled ← Tensor.zipWith? (fun s x => s * x) map.scale x
  Tensor.zipWith? (fun x b => x + b) scaled map.bias

/-- Combines two tensors, or gives the two shapes that do not fit. -/
def combine (f : α → α → α) (left right : Tensor α) : Except (Shape × Shape) (Tensor α) :=
  match Tensor.zipWith? f left right with
  | some result => .ok result
  | none => .error (left.shape, right.shape)

/-- The one map that does the work of two, `first` before `second`:
`s₁ (s₀ x + b₀) + b₁ = (s₀ s₁) x + (s₁ b₀ + b₁)`. -/
def andThen (first second : Affine α) : Except (Shape × Shape) (Affine α) := do
  let scale ← combine (fun s₀ s₁ => s₀ * s₁) first.scale second.scale
  let scaled ← combine (fun s₁ b₀ => s₁ * b₀) second.scale first.bias
  let bias ← combine (fun b₀ b₁ => b₀ + b₁) scaled second.bias
  return { scale, bias }

end Affine

end QuantNet
