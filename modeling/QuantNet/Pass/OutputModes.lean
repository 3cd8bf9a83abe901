import QuantNet.Pass.Basic

/-!
# Output modes

Sets the rounding and saturation of the first output of selected layers, and of their accumulator
if they have one.  Modes that are not configured, and all else about the precision, stay.
-/

namespace QuantNet

/-- Which layers get which modes.  A layer is selected by its class name or by its own name. -/
structure ModeSelection where
  layers : List String := []
  modes : Modes := .unset
deriving DecidableEq, Repr

namespace OutputModes

variable {α : Type}

def accumulatorKey : String :=
  "accum_t"

def selects (selection : ModeSelection) (node : Node α) : Bool :=
  selection.layers.contains node.kind.name || selection.layers.contains node.name

def lacksModes (selection : ModeSelection) (node : Node α) : Bool :=
  selects selection node && !selection.modes.isEmpty &&
    match node.outputs with
    | [] => false
    | output :: _ => !output.precision.covers selection.modes

def patch (selection : ModeSelection) (id : NodeId) : Patch α Bool := do
  let old ← Patch.ask fun graph => graph.outputPrecision id
  match old.setModes selection.modes with
  | .error source =>
      let node ← Patch.look fun graph => graph.get id
      Patch.fail (.precisionMismatch node.name source)
  | .ok precision =>
      if (← Patch.look fun graph => graph.attr? id accumulatorKey).isSome then
        Patch.edit fun graph => graph.setAttr id accumulatorKey (.precision precision)
      Patch.edit fun graph => graph.setOutputPrecision id precision
      return false

def pass (selection : ModeSelection) : Pass α where
  name := "output_rounding_saturation_mode"
  applies graph id := return lacksModes selection (← graph.get id)
  patch := patch selection

end OutputModes

end QuantNet
