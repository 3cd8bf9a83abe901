import QuantNet.Scalar.Basic
import QuantNet.Tensor.Shape

/-!
# Tensors

Dense arrays of any rank.  A tensor of rank zero has one element.  Two tensors are combined element
by element after both are stretched to their common shape, which has to be addressable.
-/

namespace QuantNet

/-- Elements in row-major order, as many as the shape asks for. -/
structure Tensor (α : Type) where
  shape : Shape
  data : Array α
  size_data : data.size = shape.size
deriving DecidableEq

namespace Tensor

variable {α : Type}

def rank (tensor : Tensor α) : Nat :=
  tensor.shape.length

/-- The elements, if there are as many as the shape asks for. -/
def ofArray? (shape : Shape) (data : Array α) : Option (Tensor α) :=
  if h : data.size = shape.size then some ⟨shape, data, h⟩ else none

def ofFn (shape : Shape) (element : List Nat → α) : Tensor α where
  shape := shape
  data := (shape.indices.map element).toArray
  size_data := by simp [Shape.length_indices]

def fill (shape : Shape) (x : α) : Tensor α :=
  ofFn shape fun _ => x

def ofList (elements : List α) : Tensor α where
  shape := [elements.length]
  data := elements.toArray
  size_data := by simp [Shape.size]

def empty : Tensor α :=
  ofList []

instance : Inhabited (Tensor α) :=
  ⟨empty⟩

def map (f : α → α) (tensor : Tensor α) : Tensor α where
  shape := tensor.shape
  data := tensor.data.map f
  size_data := by simp [tensor.size_data]

/-- The elements in row-major order, as a tensor of rank one. -/
def flatten (tensor : Tensor α) : Tensor α :=
  ofList tensor.data.toList

/-- The element at an index, zero if there is none. -/
def get [Zero α] (tensor : Tensor α) (index : List Nat) : α :=
  tensor.data.getD (tensor.shape.offset index) 0

/-- The element that the tensor shows at an index of a shape that it is stretched to. -/
def stretched [Zero α] (tensor : Tensor α) (index : List Nat) : α :=
  tensor.get (tensor.shape.pull index)

/-- Combines two tensors on their common shape, element by element. -/
def zipWith? [Zero α] (f : α → α → α) (left right : Tensor α) : Option (Tensor α) :=
  ((Shape.join? left.shape right.shape).filter Shape.isAddressable).map fun shape =>
    ofFn shape fun index => f (left.stretched index) (right.stretched index)

/-- A tensor that was made from a function shows it at every index. -/
theorem get_ofFn [Zero α] {shape : Shape} (element : List Nat → α)
    {index : List Nat} (inside : shape.InBounds index) :
    (ofFn shape element).get index = element index := by
  simp [get, ofFn, Array.getD_eq_getD_getElem?, Shape.getElem?_indices_offset inside]

end Tensor

end QuantNet
