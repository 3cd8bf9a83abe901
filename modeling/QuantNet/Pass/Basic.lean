import QuantNet.Graph.Edit

/-!
# Passes

A patch changes a graph step by step.  When it fails, the graph stays as the steps before the
failure have left it.  A pass is a patch for each of the nodes that it applies to.
-/

namespace QuantNet

inductive PassError where
  | precisionMismatch (node : String) (source : PrecisionError)
  | missingQuantizerData (node what : String)
  | shapeMismatch (node : String) (left right : Shape)
  | graph (cause : GraphError)
deriving DecidableEq, Repr

def PassError.message : PassError → String
  | precisionMismatch node source =>
      s!"node `{node}` has an output precision that cannot be rewritten: {source.message}"
  | missingQuantizerData node what =>
      s!"node `{node}` is missing the {what} needed to factorize its scale"
  | shapeMismatch node left right =>
      s!"node `{node}`: cannot broadcast {left.text} with {right.text}"
  | graph cause => cause.message

/-- A failed operation on the graph fails the patch that called it. -/
def Failure.ofGraph : Failure GraphError → Failure PassError
  | error cause => .error (.graph cause)
  | fault broken => .fault broken

/-- A computation that changes a graph and may fail on the way. -/
abbrev Patch (α : Type) :=
  EStateM (Failure PassError) (Graph α)

namespace Patch

variable {α β : Type}

def fail (error : PassError) : Patch α β :=
  throw (.error error)

/-- Takes the value of a computation beside the graph, or fails with it. -/
def demand (value : Except (Failure PassError) β) : Patch α β := fun graph =>
  match value with
  | .ok answer => .ok answer graph
  | .error failure => .error failure graph

def look (query : Graph α → Except Fault β) : Patch α β := fun graph =>
  match query graph with
  | .ok answer => .ok answer graph
  | .error fault => .error (.fault fault) graph

/-- Asks the graph for something that it may refuse. -/
def ask (query : Graph α → Except (Failure GraphError) β) : Patch α β := fun graph =>
  match query graph with
  | .ok answer => .ok answer graph
  | .error failure => .error failure.ofGraph graph

/-- Replaces the graph by an edited one, unless the edit is refused. -/
def edit (change : Graph α → Except (Failure GraphError) (Graph α)) : Patch α Unit :=
  fun graph =>
    match change graph with
    | .ok changed => .ok () changed
    | .error failure => .error failure.ofGraph graph

end Patch

/-- A rule by which a graph is patched, node by node. -/
structure Pass (α : Type) where
  name : String
  applies : Graph α → NodeId → Except Fault Bool
  /-- Patches the graph at a node, and tells whether nodes or edges have changed. -/
  patch : NodeId → Patch α Bool

end QuantNet
