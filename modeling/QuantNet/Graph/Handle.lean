import QuantNet.Tensor.Shape

/-!
# Handles

A node is named by a handle: the tag of its graph and the number under which the graph issued it.
A tensor is named by the node that produces it and the place among the outputs of that node.
-/

namespace QuantNet

structure NodeId where
  graph : Nat
  index : Nat
deriving DecidableEq, Repr

structure TensorRef where
  node : NodeId
  output : Nat
deriving DecidableEq, Repr

/-- The text of a node handle, which leaves the graph out. -/
def NodeId.text (id : NodeId) : String :=
  s!"NodeId({id.index})"

def TensorRef.text (ref : TensorRef) : String :=
  "TensorRef \x7b node: " ++ ref.node.text ++ s!", output: {ref.output} \x7d"

/-- A handle that its user had no right to use, or another broken promise of a caller.  Unlike an
error, a fault is not an answer about the graph. -/
inductive Fault where
  | foreignNode (id : NodeId)
  | removedNode (id : NodeId)
  | unorderedNode (id : NodeId)
  /-- There is no such tensor to be made an output of the graph. -/
  | absentTensor (ref : TensorRef)
  | absentOutput (ref : TensorRef)
  /-- A value is asked for that no node has computed. -/
  | missingValue (id : NodeId)
  /-- A pass removed a node without saying that the topology changed. -/
  | staleScan (id : NodeId)
  | unquantizable
  | oversized (shape : Shape)
deriving DecidableEq, Repr

def Fault.message? : Fault → Option String
  | removedNode id => some s!"Node {id.text} has been removed from the graph"
  | unorderedNode id => some s!"Node {id.text} is missing from the graph order"
  | absentTensor ref => some s!"Tensor {ref.text} does not exist"
  | _ => none

inductive Failure (ε : Type) where
  | error (cause : ε)
  | fault (fault : Fault)
deriving DecidableEq, Repr

/-- Reading through a bad handle is a fault of every operation that reads. -/
instance {ε : Type} : MonadLift (Except Fault) (Except (Failure ε)) where
  monadLift reading := reading.mapError .fault

end QuantNet
