import QuantNet.Graph.Basic
import QuantNet.Text.Listing

/-!
# Printed graphs

Three texts of a graph: a full one with a line for every node, a short one, and the short one
spread over several lines.
-/

namespace QuantNet

/-- The line of a node: its handle, kind and name, what it reads, the shapes and precisions of what
it produces, and the roles of its weights. -/
def Node.line {α : Type} (id : NodeId) (node : Node α) : String :=
  let inputs := node.inputs.map fun input => s!"{input.node.text}.{input.output}"
  let outputs := node.outputs.map fun output =>
    s!"{output.shape.text}: {output.precision.display}"
  let weights := node.weights.keys.map Role.name
  s!"    {id.text} = {node.kind.name} `{node.name}` ({Text.commaSeparated inputs}) -> " ++
    s!"{Text.listing outputs} weights: {Text.listing weights},\n"

namespace Graph

variable {α : Type}

def outputsText (graph : Graph α) : String :=
  Text.listing (graph.outputs.map TensorRef.text)

def display (graph : Graph α) : String :=
  "Graph \x7b\n" ++
    s!"  check: {graph.tag},\n  outputs: {graph.outputsText},\n  nodes: [\n" ++
    String.join (graph.nodes.map fun entry => entry.2.line (graph.handle entry.1)) ++
    "  ],\n\x7d\n"

def summary (graph : Graph α) : String :=
  s!"Graph \x7b check: {graph.tag}, nodes: {graph.order.length}, " ++
    s!"outputs: {graph.outputsText} \x7d"

def outputLines (ref : TensorRef) : String :=
  "        TensorRef \x7b\n" ++
    s!"            node: NodeId \x7b index: {ref.node.index}, check: {ref.node.graph} \x7d,\n" ++
    s!"            output: {ref.output},\n        \x7d,\n"

def summaryLines (graph : Graph α) : String :=
  let outputs :=
    if graph.outputs.isEmpty then "[]"
    else "[\n" ++ String.join (graph.outputs.map outputLines) ++ "    ]"
  s!"Graph \x7b\n    check: {graph.tag},\n    nodes: {graph.order.length},\n" ++
    s!"    outputs: {outputs},\n\x7d"

end Graph

end QuantNet
