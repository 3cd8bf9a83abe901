import QuantNet.Pass.AffineFusion
import QuantNet.Pass.OutputModes
import QuantNet.Pass.Run
import QuantNet.Pass.ScaleFactorization

/-!
# The standard pipeline

Scale factorization, affine fusion and output modes, tried on every node in this order.
-/

namespace QuantNet

def standardPasses (α : Type) [Scalar α] (selection : ModeSelection) : List (Pass α) :=
  [ScaleFactorization.pass, AffineFusion.pass, OutputModes.pass selection]

structure Settings where
  enabled : Bool := true
  limit : Option Nat := some 1000
  selection : ModeSelection := {}
deriving DecidableEq, Repr

namespace Settings

variable {α : Type} [Scalar α]

def optimizer (settings : Settings) : Optimizer α where
  limit := settings.limit
  passes := standardPasses α settings.selection

def optimize? (settings : Settings) (graph : Graph α) : Option (Run α) :=
  if settings.enabled then
    settings.optimizer.run graph
  else
    some ⟨graph, [], .ok ⟨0, 0, true⟩⟩

end Settings

end QuantNet
