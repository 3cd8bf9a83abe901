import QuantNet.Graph.Basic

/-!
# Editing a graph

Nodes are added at the end or behind a producer, removed with or without giving their users another
tensor, and changed in place.  An operation that is refused yields no graph, so the graph that it
was given stays as it is.
-/

namespace QuantNet.Graph

variable {α : Type}

/-! ## Steps of an edit -/

/-- Puts a node in the next slot.  The order does not have it yet. -/
def alloc (graph : Graph α) (node : Node α) : NodeId × Graph α :=
  (graph.handle graph.issued, { graph with slots := graph.slots ++ [some node] })

def position (graph : Graph α) (id : NodeId) : Except Fault Nat :=
  match graph.order.idxOf? id with
  | some position => .ok position
  | none => .error (.unorderedNode id)

def replaceInput (graph : Graph α) (reader : NodeId) (old new : TensorRef) : Graph α :=
  { graph with slots := graph.slots.modify reader.index (Option.map (Node.redirect old new)) }

def replaceOutput (graph : Graph α) (old new : TensorRef) : Graph α :=
  { graph with outputs := graph.outputs.map fun output => if output = old then new else output }

/-- Gives another tensor to the readers of a tensor, and to the graph in place of an output. -/
def redirect (graph : Graph α) (readers : List NodeId) (old new : TensorRef) : Graph α :=
  let rewired := readers.foldl (fun graph reader => graph.replaceInput reader old new) graph
  rewired.replaceOutput old new

/-- Empties the slot of a node and takes it out of the order. -/
def drop (graph : Graph α) (id : NodeId) : Except Fault (Graph α) := do
  let position ← graph.position id
  return { graph with
    slots := graph.slots.set id.index none
    order := graph.order.eraseIdx position }

/-! ## Adding nodes -/

def append (graph : Graph α) (node : Node α) : NodeId × Graph α :=
  let (id, changed) := graph.alloc node
  (id, { changed with order := changed.order ++ [id] })

def addInput (graph : Graph α) (name : String) (shape : Shape) (precision : Precision) :
    NodeId × Graph α :=
  graph.append (.single .input name .empty [] shape precision)

/-- A new node needs an output, and its inputs must exist. -/
def checkNew (graph : Graph α) (node : Node α) : Except (Failure GraphError) Unit :=
  if node.outputs.isEmpty then
    .error (.error (.missingOutput node.name))
  else
    match node.inputs.find? fun input => !graph.hasTensor input with
    | some input => .error (.error (.detachedInput node.name input))
    | none => .ok ()

def push (graph : Graph α) (node : Node α) : Except (Failure GraphError) (NodeId × Graph α) := do
  graph.checkNew node
  return graph.append node

/-- Adds a node directly behind the producer of its first input.  All that used that input, outputs
of the graph included, then uses the first output of the new node instead. -/
def insert (graph : Graph α) (node : Node α) :
    Except (Failure GraphError) (NodeId × Graph α) := do
  graph.checkNew node
  match node.inputs with
  | [] => throw (.error (.notSingleInput node.name 0))
  | anchor :: _ =>
      let readers := graph.readers anchor
      let (id, changed) := graph.alloc node
      let position ← changed.position anchor.node
      let ordered := { changed with order := changed.order.insertIdx (position + 1) id }
      return (id, ordered.redirect readers anchor ⟨id, 0⟩)

/-! ## Removing nodes -/

def tensorsOf (id : NodeId) (node : Node α) : List TensorRef :=
  (List.range node.outputs.length).map fun output => ⟨id, output⟩

def isUsed (graph : Graph α) (ref : TensorRef) : Bool :=
  graph.isOutput ref || !(graph.readers ref).isEmpty

/-- Removes a node.  With `rewire` the node must have one input, which takes the place of all its
outputs; without it, none of its outputs may be used. -/
def remove (graph : Graph α) (id : NodeId) (rewire : Bool) :
    Except (Failure GraphError) (Graph α) := do
  let node ← graph.node id
  if rewire then
    match node.onlyInput? with
    | none => throw (.error (.notSingleInput node.name node.inputs.length))
    | some input =>
        let rewired := (tensorsOf id node).foldl
          (fun graph old => graph.redirect (graph.readers old) old input) graph
        rewired.drop id
  else if (tensorsOf id node).any graph.isUsed then
    throw (.error (.stillConsumed node.name))
  else
    graph.drop id

/-! ## Changing nodes and outputs -/

def addOutput (graph : Graph α) (ref : TensorRef) : Except Fault (Graph α) :=
  if graph.hasTensor ref then
    .ok { graph with outputs := graph.outputs ++ [ref] }
  else
    .error (.absentTensor ref)

def replace (graph : Graph α) (index : Nat) (node : Node α) : Graph α :=
  { graph with slots := graph.slots.set index (some node) }

/-- Changes a node in any way, without a check of what comes out. -/
def modify (graph : Graph α) (id : NodeId) (change : Node α → Node α) :
    Except (Failure GraphError) (Graph α) := do
  return graph.replace id.index (change (← graph.node id))

def setOutputPrecision (graph : Graph α) (id : NodeId) (precision : Precision) :
    Except (Failure GraphError) (Graph α) := do
  let node ← graph.node id
  match node.outputs with
  | [] => throw (.error (.missingOutput node.name))
  | output :: others =>
      let outputs := { output with precision } :: others
      return graph.replace id.index { node with outputs }

def setAttr (graph : Graph α) (id : NodeId) (key : String) (value : Attr α) :
    Except (Failure GraphError) (Graph α) :=
  graph.modify id fun node => node.withAttr key value

/-- Changes a weight that a node has, in any way. -/
def modifyWeight (graph : Graph α) (id : NodeId) (role : Role) (change : Weight α → Weight α) :
    Except (Failure GraphError) (Graph α) := do
  let weight ← graph.weight id role
  graph.modify id fun node => node.withWeight role (change weight)

/-- Replaces the data of a weight and keeps all else about it. -/
def setWeight (graph : Graph α) (id : NodeId) (role : Role) (data : Tensor α) :
    Except (Failure GraphError) (Graph α) :=
  graph.modifyWeight id role fun weight => { weight with data }

def addWeight (graph : Graph α) (id : NodeId) (role : Role) (weight : Weight α) :
    Except (Failure GraphError) (Graph α) := do
  let node ← graph.node id
  if node.weights.contains role then
    throw (.error (.duplicateWeight node.name role))
  else
    return graph.replace id.index (node.withWeight role weight)

end QuantNet.Graph
