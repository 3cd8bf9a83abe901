import QuantNet.Graph.Handle
import QuantNet.Layer.Kind
import QuantNet.Precision.Basic
import QuantNet.Table
import QuantNet.Layer.Weight

/-!
# Nodes

A node is a layer of the model: its kind and name, the tensors it reads, the outputs it produces,
its weights and its attributes.
-/

namespace QuantNet

inductive Attr (α : Type) where
  | int (value : Int64)
  | float (value : α)
  | str (value : String)
  | precision (value : Precision)
  | quantizer (value : QuantizerConfig α)
deriving DecidableEq

namespace Attr

variable {α : Type}

def int? : Attr α → Option Int64
  | int value => some value
  | _ => none

def str? : Attr α → Option String
  | str value => some value
  | _ => none

def precision? : Attr α → Option Precision
  | precision value => some value
  | _ => none

def quantizer? : Attr α → Option (QuantizerConfig α)
  | quantizer value => some value
  | _ => none

/-- Equality of values; numbers are compared as numbers, and any two that are not numbers are
equal. -/
def same [Scalar α] : Attr α → Attr α → Bool
  | int x, int y => x = y
  | float x, float y => Scalar.same x y
  | str x, str y => x = y
  | precision x, precision y => x = y
  | quantizer x, quantizer y => x.same y
  | _, _ => false

end Attr

structure Output where
  name : String
  shape : Shape
  precision : Precision
deriving DecidableEq, Repr

structure Node (α : Type) where
  kind : LayerKind
  name : String
  inputs : List TensorRef := []
  outputs : List Output := []
  weights : Table Role (Weight α) := .empty
  attrs : Table String (Attr α) := .empty
deriving DecidableEq

namespace Node

variable {α : Type}

/-- A node with one output, which has the name of the node. -/
def single (kind : LayerKind) (name : String) (attrs : Table String (Attr α))
    (inputs : List TensorRef) (shape : Shape) (precision : Precision) : Node α where
  kind := kind
  name := name
  inputs := inputs
  outputs := [{ name, shape, precision }]
  attrs := attrs

def onlyInput? (node : Node α) : Option TensorRef :=
  match node.inputs with
  | [input] => some input
  | _ => none

def redirect (old new : TensorRef) (node : Node α) : Node α :=
  { node with inputs := node.inputs.map fun input => if input = old then new else input }

def withWeight (node : Node α) (role : Role) (weight : Weight α) : Node α :=
  { node with weights := node.weights.insert role weight }

def withAttr (node : Node α) (key : String) (value : Attr α) : Node α :=
  { node with attrs := node.attrs.insert key value }

end Node

end QuantNet
