import QuantNet.Graph.Edit

/-!
# Operations

The operations that build a graph and change it under the checks of the library.  An operation that
fails leaves the graph as it was.  A history is a list of operations, failed ones included.
-/

namespace QuantNet

inductive Operation (α : Type) where
  | addInput (name : String) (shape : Shape) (precision : Precision)
  | push (node : Node α)
  | insert (node : Node α)
  | remove (id : NodeId) (rewire : Bool)
  | addOutput (ref : TensorRef)
  | setOutputPrecision (id : NodeId) (precision : Precision)
  | setAttr (id : NodeId) (key : String) (value : Attr α)
  | replaceWeight (id : NodeId) (role : Role) (weight : Weight α)
  | setWeight (id : NodeId) (role : Role) (data : Tensor α)
  | addWeight (id : NodeId) (role : Role) (weight : Weight α)
deriving DecidableEq

namespace Operation

variable {α : Type}

/-- The answer to an operation: the handle of the node that it adds, if it adds one. -/
abbrev Answer :=
  Except (Failure GraphError) (Option NodeId)

/-- The changed graph, or the old one if the change failed. -/
def settle (graph : Graph α) (change : Except (Failure GraphError) (Option NodeId × Graph α)) :
    Graph α × Answer :=
  match change with
  | .ok (id, changed) => (changed, .ok id)
  | .error failure => (graph, .error failure)

def adding (added : NodeId × Graph α) : Option NodeId × Graph α :=
  (some added.1, added.2)

def change (operation : Operation α) (graph : Graph α) :
    Except (Failure GraphError) (Option NodeId × Graph α) :=
  match operation with
  | addInput name shape precision => return adding (graph.addInput name shape precision)
  | push node => return adding (← graph.push node)
  | insert node => return adding (← graph.insert node)
  | remove id rewire => return (none, ← graph.remove id rewire)
  | addOutput ref => return (none, ← graph.addOutput ref)
  | setOutputPrecision id precision => return (none, ← graph.setOutputPrecision id precision)
  | setAttr id key value => return (none, ← graph.setAttr id key value)
  | replaceWeight id role weight => return (none, ← graph.modifyWeight id role fun _ => weight)
  | setWeight id role data => return (none, ← graph.setWeight id role data)
  | addWeight id role weight => return (none, ← graph.addWeight id role weight)

/-- The graph after an operation, and the answer. -/
def perform (operation : Operation α) (graph : Graph α) : Graph α × Answer :=
  settle graph (operation.change graph)

end Operation

def Graph.replay {α : Type} (graph : Graph α) (history : List (Operation α)) : Graph α :=
  history.foldl (fun graph operation => (operation.perform graph).1) graph

end QuantNet
