import QuantNet.Graph.Node

/-!
# Graphs

A graph keeps its nodes in slots, and beside them an order in which every node should stand behind
the nodes that it reads from.  Handles count up from zero and are never issued twice, so that a
handle stays with its node whatever happens around it, and names nothing once the node is removed.
-/

namespace QuantNet

structure Graph (α : Type) where
  /-- Tells the handles of this graph and its copies from those of other graphs. -/
  tag : Nat
  /-- The nodes under their numbers.  The slot of a node that was removed stays, empty. -/
  slots : List (Option (Node α)) := []
  /-- The handles of the nodes in graph order. -/
  order : List NodeId := []
  /-- The tensors that the graph computes. -/
  outputs : List TensorRef := []
deriving DecidableEq

inductive GraphError where
  | unknownNode (id : NodeId)
  | detachedInput (node : String) (input : TensorRef)
  | notSingleInput (node : String) (count : Nat)
  | missingOutput (node : String)
  | stillConsumed (node : String)
  | duplicateWeight (node : String) (role : Role)
  | missingWeight (node : String) (role : Role)
deriving DecidableEq, Repr

def GraphError.message : GraphError → String
  | unknownNode id => s!"node {id.text} is not part of the graph"
  | detachedInput node input =>
      s!"input {input.text} of node `{node}` does not refer to an existing output"
  | notSingleInput node count => s!"node `{node}` has {count} inputs, expected exactly one"
  | missingOutput node => s!"node `{node}` has no output"
  | stillConsumed node =>
      s!"node `{node}` cannot be removed without rewiring, its outputs are still used"
  | duplicateWeight node role => s!"node `{node}` already has a `{role.name}` weight"
  | missingWeight node role => s!"node `{node}` has no `{role.name}` weight"

namespace Graph

variable {α : Type}

def empty (tag : Nat) : Graph α :=
  { tag }

def handle (graph : Graph α) (index : Nat) : NodeId :=
  ⟨graph.tag, index⟩

def issued (graph : Graph α) : Nat :=
  graph.slots.length

def find? (graph : Graph α) (index : Nat) : Option (Node α) :=
  graph.slots[index]?.join

def knows (graph : Graph α) (id : NodeId) : Bool :=
  id.graph = graph.tag && id.index < graph.issued

/-- The node of a handle, if it has not been removed. -/
def get? (graph : Graph α) (id : NodeId) : Except Fault (Option (Node α)) :=
  if graph.knows id then .ok (graph.find? id.index) else .error (.foreignNode id)

/-- The node of a handle that must not have been removed. -/
def get (graph : Graph α) (id : NodeId) : Except Fault (Node α) := do
  match ← graph.get? id with
  | some node => return node
  | none => throw (.removedNode id)

/-- The node of a handle, as an operation asks for it. -/
def node (graph : Graph α) (id : NodeId) : Except (Failure GraphError) (Node α) := do
  match ← graph.get? id with
  | some node => return node
  | none => throw (.error (.unknownNode id))

def contains (graph : Graph α) (id : NodeId) : Except Fault Bool :=
  return (← graph.get? id).isSome

/-- The nodes under their numbers, in graph order. -/
def nodes (graph : Graph α) : List (Nat × Node α) :=
  graph.order.filterMap fun id => (graph.find? id.index).map fun node => (id.index, node)

def select (graph : Graph α) (property : Node α → Bool) : List NodeId :=
  (graph.nodes.filter fun entry => property entry.2).map fun entry => graph.handle entry.1

def findName? (graph : Graph α) (name : String) : Option NodeId :=
  (graph.select fun node => node.name = name).head?

def inputs (graph : Graph α) : List NodeId :=
  graph.select fun node => node.kind = .input

def hasTensor (graph : Graph α) (ref : TensorRef) : Bool :=
  graph.knows ref.node &&
    match graph.find? ref.node.index with
    | some node => ref.output < node.outputs.length
    | none => false

def tensor (graph : Graph α) (ref : TensorRef) : Except Fault Output := do
  match (← graph.get ref.node).outputs[ref.output]? with
  | some output => return output
  | none => throw (.absentOutput ref)

def isOutput (graph : Graph α) (ref : TensorRef) : Bool :=
  graph.outputs.contains ref

def readers (graph : Graph α) (ref : TensorRef) : List NodeId :=
  graph.select fun node => node.inputs.contains ref

/-- The producer of the only input of a node, if the node is there and has only one input. -/
def source? (graph : Graph α) (id : NodeId) : Except Fault (Option NodeId) :=
  return (← graph.get? id).bind fun node => node.onlyInput?.map TensorRef.node

def outputPrecision (graph : Graph α) (id : NodeId) : Except (Failure GraphError) Precision := do
  let node ← graph.node id
  match node.outputs.head? with
  | some output => return output.precision
  | none => throw (.error (.missingOutput node.name))

def attr? (graph : Graph α) (id : NodeId) (key : String) : Except Fault (Option (Attr α)) :=
  return (← graph.get? id).bind fun node => node.attrs.get? key

def weight (graph : Graph α) (id : NodeId) (role : Role) :
    Except (Failure GraphError) (Weight α) := do
  let node ← graph.node id
  match node.weights.get? role with
  | some weight => return weight
  | none => throw (.error (.missingWeight node.name role))

end Graph

end QuantNet
