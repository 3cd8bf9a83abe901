import QuantNet.Pass.Basic
import QuantNet.Tensor.Affine

/-!
# Affine fusion

Merges two affine nodes, one of which is the only reader of the other, into the first one.
-/

namespace QuantNet.AffineFusion

variable {α : Type}

def affineOf (graph : Graph α) (id : NodeId) : Except (Failure GraphError) (Affine α) := do
  let scale ← graph.weight id .scale
  let bias ← graph.weight id .bias
  return ⟨scale.data, bias.data⟩

/-- Whether an affine node reads the first output of an affine node that nothing else uses. -/
def applies (graph : Graph α) (id : NodeId) : Except Fault Bool := do
  let node ← graph.get id
  match node.onlyInput? with
  | none => return false
  | some input =>
      if node.kind.isAffine then
        let producer ← graph.get input.node
        return producer.kind.isAffine && input.output = 0 && !graph.isOutput input &&
          graph.readers input = [id]
      else
        return false

variable [Scalar α]

/-- Stores the joint map in the first of two nodes and removes the second. -/
def patch (id : NodeId) : Patch α Bool := do
  match ← Patch.look fun graph => graph.source? id with
  | none =>
      let node ← Patch.look fun graph => graph.get id
      Patch.fail (.graph (.notSingleInput node.name node.inputs.length))
  | some producer =>
      let first ← Patch.ask fun graph => affineOf graph producer
      let second ← Patch.ask fun graph => affineOf graph id
      match first.andThen second with
      | .error (left, right) =>
          let node ← Patch.look fun graph => graph.get id
          Patch.fail (.shapeMismatch node.name left right)
      | .ok fused =>
          Patch.edit fun graph => graph.setWeight producer .scale fused.scale
          Patch.edit fun graph => graph.setWeight producer .bias fused.bias
          Patch.edit fun graph => graph.remove id true
          return true

def pass : Pass α where
  name := "affine_fusion"
  applies := applies
  patch := patch

end QuantNet.AffineFusion
