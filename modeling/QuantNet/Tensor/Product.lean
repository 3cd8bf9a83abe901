import QuantNet.Scalar.Total
import QuantNet.Tensor.Basic

/-!
# Products and convolutions

How a layer combines its input with its weight tensor.  Every element of the outcome is a sum of
products in index order, the last index running fastest.  Matrix products are summed by blocks,
convolutions term after term.
-/

namespace QuantNet

/-- Why a tensor and a weight tensor do not fit together. -/
inductive ProductError where
  /-- A tensor has another rank than the operation needs. -/
  | rank
  /-- The features of the input are not the rows of the weight. -/
  | matrix (input weight : Shape)
  /-- The kernel has another depth than the input, or is larger. -/
  | kernel (input weight : Shape)
deriving DecidableEq, Repr

def ProductError.message : ProductError → String
  | rank => "ShapeError/IncompatibleShape: incompatible shapes"
  | matrix input weight => s!"input {input.text} vs weight {weight.text}"
  | kernel input weight => s!"input {input.text} vs kernel {weight.text}"

/-- A way to combine an input with a weight tensor. -/
structure Product (α : Type) where
  /-- The shape of the outcome for the shapes of input and weight tensor. -/
  shape : Shape → Shape → Except ProductError Shape
  /-- The element of the outcome at an index. -/
  element : Tensor α → Tensor α → List Nat → α

namespace Product

variable {α : Type} [Scalar α]

/-- The number of terms in a block of the sums of a matrix product. -/
def blockSize : Nat :=
  256

def matrix : Product α where
  shape
    | [batch, features], [rows, columns] =>
        if features = rows then
          .ok [batch, columns]
        else
          .error (.matrix [batch, features] [rows, columns])
    | _, _ => .error .rank
  element x weight index :=
    match weight.shape, index with
    | [rows, _], [b, c] => Scalar.blockTotal blockSize <| (List.range rows).map fun i =>
        x.get [b, i] * weight.get [i, c]
    | _, _ => 0

/-- The convolution along one axis, at the places where the kernel lies inside the input. -/
def convolution1D : Product α where
  shape
    | [batch, width, channels], [k, depth, filters] =>
        if channels = depth ∧ k ≤ width then
          .ok [batch, width - k + 1, filters]
        else
          .error (.kernel [batch, width, channels] [k, depth, filters])
    | _, _ => .error .rank
  element x kernel index :=
    match kernel.shape, index with
    | [k, depth, _], [b, i, f] => Scalar.total <| (List.range k).flatMap fun dk =>
        (List.range depth).map fun c =>
          x.get [b, i + dk, c] * kernel.get [dk, c, f]
    | _, _ => 0

/-- The convolution along two axes, at the places where the kernel lies inside the input. -/
def convolution2D : Product α where
  shape
    | [batch, height, width, channels], [kh, kw, depth, filters] =>
        if channels = depth ∧ kh ≤ height ∧ kw ≤ width then
          .ok [batch, height - kh + 1, width - kw + 1, filters]
        else
          .error (.kernel [batch, height, width, channels] [kh, kw, depth, filters])
    | _, _ => .error .rank
  element x kernel index :=
    match kernel.shape, index with
    | [kh, kw, depth, _], [b, i, j, f] => Scalar.total <| (List.range kh).flatMap fun di =>
        (List.range kw).flatMap fun dj =>
          (List.range depth).map fun c =>
            x.get [b, i + di, j + dj, c] * kernel.get [di, dj, c, f]
    | _, _ => 0

end Product

end QuantNet
