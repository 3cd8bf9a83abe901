import QuantNet.Graph.Basic
import QuantNet.Tensor.Product

/-!
# Evaluation

The real-valued function that a graph describes.  Nodes are evaluated in graph order, with the
encoding of their weights undone and without regard to precisions.  Input tensors go to the input
nodes by position.
-/

namespace QuantNet

inductive Misfit where
  /-- The layer does not read the first output of exactly one node. -/
  | operand (inputs : List TensorRef)
  /-- The input does not fit to the weight tensor. -/
  | product (error : ProductError)
  /-- The bias does not stretch with the output. -/
  | bias
  /-- The scale does not stretch with the input. -/
  | scale
deriving DecidableEq, Repr

def Misfit.message : Misfit → String
  | operand inputs => s!"expected a single input, got {Text.listing (inputs.map TensorRef.text)}"
  | product error => error.message
  | bias => "bias does not broadcast to the output"
  | scale => "scale does not broadcast"

inductive EvaluationError where
  | inputCount (expected actual : Nat)
  | misfit (node : String) (reason : Misfit)
  | missingWeight (node : String) (role : Role)
  | unsupportedActivation (node activation : String)
deriving DecidableEq, Repr

def EvaluationError.message : EvaluationError → String
  | inputCount expected actual => s!"expected {expected} inputs, got {actual}"
  | misfit node reason => s!"node `{node}`: {reason.message}"
  | missingWeight node role => s!"node `{node}` is missing its `{role.name}` weight"
  | unsupportedActivation node activation =>
      s!"node `{node}` has unsupported activation `{activation}`"

namespace Node

variable {α : Type} [Scalar α]

def neededWeight (node : Node α) (role : Role) : Except EvaluationError (Tensor α) :=
  match node.weights.get? role with
  | some weight => .ok weight.decoded
  | none => .error (.missingWeight node.name role)

def addBias (node : Node α) (x : Tensor α) : Except EvaluationError (Tensor α) :=
  match node.weights.get? .bias with
  | none => .ok x
  | some bias =>
      match Tensor.zipWith? (fun x b => x + b) x bias.decoded with
      | some sum => .ok sum
      | none => .error (.misfit node.name .bias)

/-- A layer that combines its input with its weight tensor and adds the bias. -/
def applyWeight (node : Node α) (product : Product α) (x : Tensor α) :
    Except (Failure EvaluationError) (Tensor α) := do
  let weight ← (node.neededWeight .weight).mapError .error
  match product.shape x.shape weight.shape with
  | .ok shape =>
      if shape.isStorable then
        (node.addBias (.ofFn shape (product.element x weight))).mapError .error
      else
        throw (.fault (.oversized shape))
  | .error error => throw (.error (.misfit node.name (.product error)))

/-- A layer that multiplies its input with its scale and adds the bias. -/
def applyScale (node : Node α) (x : Tensor α) : Except EvaluationError (Tensor α) := do
  let scale ← node.neededWeight .scale
  match Tensor.zipWith? (fun x s => s * x) x scale with
  | some scaled => node.addBias scaled
  | none => throw (.misfit node.name .scale)

/-- The activation of a layer, linear unless an attribute says otherwise. -/
def activation (node : Node α) : String :=
  ((node.attrs.get? "activation").bind Attr.str?).getD "linear"

def evaluate (node : Node α) (x : Tensor α) : Except (Failure EvaluationError) (Tensor α) :=
  match node.kind with
  | .input => .ok x
  | .dense => node.applyWeight .matrix x
  | .conv1D => node.applyWeight .convolution1D x
  | .conv2D => node.applyWeight .convolution2D x
  | .batchNormalization | .applyAlpha => (node.applyScale x).mapError .error
  | .activation =>
      if node.activation = "linear" then
        .ok x
      else if node.activation = "relu" then
        .ok (x.map fun x => Scalar.max x 0)
      else
        .error (.error (.unsupportedActivation node.name node.activation))

end Node

namespace Graph

variable {α : Type}

def valueOf (values : List (NodeId × Tensor α)) (id : NodeId) :
    Except (Failure EvaluationError) (Tensor α) :=
  match values.lookup id with
  | some value => .ok value
  | none => .error (.fault (.missingValue id))

/-- The value that a node reads: the first output of its only input. -/
def operand (values : List (NodeId × Tensor α)) (node : Node α) :
    Except (Failure EvaluationError) (Tensor α) :=
  match node.inputs with
  | [⟨producer, 0⟩] => valueOf values producer
  | inputs => .error (.error (.misfit node.name (.operand inputs)))

variable [Scalar α]

/-- The values of nodes in graph order, given the inputs that are left and the values so far. -/
def evaluateNodes (tag : Nat) : List (Nat × Node α) → List (Tensor α) →
    List (NodeId × Tensor α) → Except (Failure EvaluationError) (List (NodeId × Tensor α))
  | [], _, values => .ok values
  | (index, node) :: rest, inputs, values =>
      if node.kind = .input then
        evaluateNodes tag rest inputs.tail ((⟨tag, index⟩, inputs.headD .empty) :: values)
      else do
        let x ← operand values node
        let value ← node.evaluate x
        evaluateNodes tag rest inputs ((⟨tag, index⟩, value) :: values)

/-- The outputs of a graph for tensors at its inputs. -/
def evaluate (graph : Graph α) (inputs : List (Tensor α)) :
    Except (Failure EvaluationError) (List (Tensor α)) := do
  if graph.inputs.length = inputs.length then
    let values ← evaluateNodes graph.tag graph.nodes inputs []
    graph.outputs.mapM fun output => valueOf values output.node
  else
    throw (.error (.inputCount graph.inputs.length inputs.length))

end Graph

end QuantNet
