import QuantNet.Pass.Basic

/-!
# Scale factorization

Moves the scale factor of a quantized layer out of its weights.  The weights are stored at unit
scale, the bias is divided by the scale, and a node behind the layer multiplies the scale back in.
-/

namespace QuantNet.ScaleFactorization

variable {α : Type}

def weightKey : String :=
  "weight_quantizer"

def biasKey : String :=
  "bias_quantizer"

/-- What is put behind the name of a layer to name the node with its scale. -/
def suffix : String :=
  "_alpha"

/-- The declared precision of scale and bias of an inserted node: a guess that does not look at
their values. -/
def placeholder : Precision :=
  .fixed 16 6 true .unset

def missing {β : Type} (node : Node α) (what : String) : Except (Failure PassError) β :=
  .error (.error (.missingQuantizerData node.name what))

def store (id : NodeId) (role : Role) (weight : Weight α) : Patch α Unit :=
  Patch.edit fun graph => graph.modify id fun node => node.withWeight role weight

variable [Scalar α]

/-- Whether an attribute holds a quantizer with another scale factor than one. -/
def hasScale (node : Node α) (key : String) : Bool :=
  match (node.attrs.get? key).bind Attr.quantizer? with
  | some config => !config.isUnit
  | none => false

def isScaled (node : Node α) : Bool :=
  node.kind.isWeighted && (hasScale node weightKey || hasScale node biasKey)

/-- Takes a scale out of quantized values. -/
def unscaled (outcome : Quantized α) : Tensor α :=
  Tensor.ofFn outcome.values.shape fun index =>
    outcome.values.get index * (1 / outcome.scale.stretched index)

/-- A weight at unit scale, given the outcome of quantizing its unquantized values. -/
def unitWeight (weight : Weight α) (quantizer : WeightQuantizer α) (outcome : Quantized α) :
    Weight α :=
  let unit := { quantizer with config := quantizer.config.setAlpha .one }
  { weight with
    data := unit.encoding.encode (unscaled outcome)
    quantizer := some unit }

/-- Quantizes the unquantized weights of a layer again; the stored ones have been quantized before.
The answer is the weight at unit scale and the scale, a factor for every output channel. -/
def factorized (node : Node α) : Except (Failure PassError) (Weight α × Tensor α) :=
  match node.weights.get? .weight with
  | none => missing node "weight tensor"
  | some weight =>
      match weight.unquantized, weight.quantizer with
      | none, _ => missing node "unquantized weights"
      | some _, none => missing node "weight quantizer"
      | some unquantized, some quantizer =>
          match quantizer.config.quantize? unquantized with
          | none => .error (.fault .unquantizable)
          | some outcome => .ok (unitWeight weight quantizer outcome, outcome.scale.flatten)

/-- Divides a tensor by a scale, which must not widen it. -/
def divided (node : Node α) (scale data : Tensor α) : Except (Failure PassError) (Tensor α) :=
  match Tensor.zipWith? (fun b s => b / s) data scale with
  | some quotient =>
      if quotient.shape = data.shape then .ok quotient
      else .error (.error (.shapeMismatch node.name data.shape scale.shape))
  | none => .error (.error (.shapeMismatch node.name data.shape scale.shape))

/-- Divides the bias of a layer by the scale, so that the product with the scale gives the old
output: `s (w x + b / s) = s w x + b`. -/
def rescaleBias (id : NodeId) (node : Node α) (scale : Tensor α) : Patch α Unit := do
  match node.weights.get? .bias with
  | none => return ()
  | some bias =>
      let data ← Patch.demand (divided node scale bias.data)
      store id .bias { bias with data }
      match bias.unquantized with
      | none => return ()
      | some unquantized =>
          let quotient ← Patch.demand (divided node scale unquantized)
          store id .bias { bias with data, unquantized := some quotient }

def resetAttr : Attr α → Attr α
  | .quantizer config => .quantizer config.resetAlpha
  | value => value

def resetAttrs (node : Node α) : Node α :=
  { node with attrs := (node.attrs.modify weightKey resetAttr).modify biasKey resetAttr }

/-- The attributes of the node that multiplies the scale of a layer back in. -/
def alphaAttrs (node : Node α) (shape : Shape) : Table String (Attr α) :=
  let int? (key : String) : Option Int64 := (node.attrs.get? key).bind Attr.int?
  let size := (int? "n_out").getD (Int64.ofNat (shape.getLastD 1))
  let filters := (int? "n_filt").getD (-1)
  let reuse := ((node.attrs.get? "reuse_factor").map fun value => ("reuse_factor", value)).toList
  .ofList ([("n_in", .int size), ("n_filt", .int filters)] ++ reuse ++
    [("bias_t", .precision placeholder), ("scale_t", .precision placeholder)])

/-- The node that multiplies the scale of a layer back in. -/
def alphaNode (id : NodeId) (node : Node α) (output : Output) (scale : Tensor α) : Node α :=
  (Node.single .applyAlpha (node.name ++ suffix) (alphaAttrs node output.shape) [⟨id, 0⟩]
      output.shape output.precision)
    |>.withWeight .scale { data := scale }
    |>.withWeight .bias { data := .fill scale.shape 0 }

def insertAlpha (id : NodeId) (scale : Tensor α) : Patch α Unit := do
  let node ← Patch.ask fun graph => graph.node id
  match node.outputs with
  | [] => Patch.fail (.graph (.missingOutput node.name))
  | output :: _ =>
      Patch.edit fun graph => return (← graph.insert (alphaNode id node output scale)).2

/-- Takes the scale of a layer out of its weights. -/
def patch (id : NodeId) : Patch α Bool := do
  let node ← Patch.look fun graph => graph.get id
  let (weight, scale) ← Patch.demand (factorized node)
  store id .weight weight
  rescaleBias id node scale
  Patch.edit fun graph => graph.modify id resetAttrs
  insertAlpha id scale
  return true

def pass : Pass α where
  name := "scale_factorization"
  applies graph id := return isScaled (← graph.get id)
  patch := patch

end QuantNet.ScaleFactorization
