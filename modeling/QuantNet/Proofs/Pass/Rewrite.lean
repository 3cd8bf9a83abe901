import QuantNet.Proofs.Pass.Effects
import QuantNet.Proofs.Pass.Scanning

/-!
# Rewrites of the standard passes

What the standard passes can do to a well-formed graph at a node of its order: nothing, when none of
them applies; fail for a reason that is no fault of the graph; or make one of three rewrites.
-/

namespace QuantNet

open QuantNet.Graph

/-- The passes that change nodes or edges. -/
def topologyPasses (α : Type) [Scalar α] : List (Pass α) :=
  [ScaleFactorization.pass, AffineFusion.pass]

variable {α : Type} [Scalar α]

theorem standardPasses_eq (selection : ModeSelection) :
    standardPasses α selection = topologyPasses α ++ [OutputModes.pass selection] :=
  rfl

theorem mem_standardPasses {pass : Pass α} (selection : ModeSelection)
    (member : pass ∈ topologyPasses α) :
    pass ∈ standardPasses α selection := by
  rw [standardPasses_eq]
  exact List.mem_append_left _ member

/-- A rewrite of a graph at a node: the pass that makes it, whether nodes or edges change, and the
graph that it leaves. -/
inductive Rewrite (selection : ModeSelection) (graph : Graph α) (id : NodeId) (node : Node α) :
    Pass α → Bool → Graph α → Prop
  | factor {weight : Weight α} {scale : Tensor α} {bias : Option (Weight α)} {output : Output}
      {others : List Output}
      (scaled : ScaleFactorization.isScaled node = true)
      (unit : ScaleFactorization.factorized node = .ok (weight, scale))
      (divided : ScaleFactorization.rescaledBias node scale = .ok bias)
      (outputs : node.outputs = output :: others) :
      Rewrite selection graph id node ScaleFactorization.pass true
        (ScaleFactorization.factored graph id (ScaleFactorization.unitNode node weight bias)
          output scale)
  | fuse {input : TensorRef} {first : Node α} {scale bias nextScale nextBias : Weight α}
      {fused : Affine α}
      (reads : node.inputs = [input]) (affine : node.kind.isAffine = true)
      (source : graph.get input.node = .ok first) (sourceAffine : first.kind.isAffine = true)
      (zero : input.output = 0) (unexported : graph.isOutput input = false)
      (alone : graph.readers input = [id])
      (hasScale : first.weights.get? .scale = some scale)
      (hasBias : first.weights.get? .bias = some bias)
      (hasNextScale : node.weights.get? .scale = some nextScale)
      (hasNextBias : node.weights.get? .bias = some nextBias)
      (joint : Affine.andThen ⟨scale.data, bias.data⟩ ⟨nextScale.data, nextBias.data⟩ =
        .ok fused) :
      Rewrite selection graph id node AffineFusion.pass true
        ((graph.replace input.node.index
          (AffineFusion.fusedNode first scale bias fused)).bypassed id input)
  | setModes {output : Output} {others : List Output} {precision : Precision}
      (lacks : OutputModes.lacksModes selection node = true)
      (outputs : node.outputs = output :: others)
      (set : output.precision.setModes selection.modes = .ok precision) :
      Rewrite selection graph id node (OutputModes.pass selection) false
        (graph.replace id.index (OutputModes.withPrecision node output others precision))

variable {selection : ModeSelection} {graph changed : Graph α} {id : NodeId} {node : Node α}
  {pass : Pass α}

/-! ## Whether a pass applies -/

theorem ScaleFactorization.applies_eq_ok (found : graph.get id = .ok node) :
    (ScaleFactorization.pass : Pass α).applies graph id = .ok (isScaled node) := by
  simp only [ScaleFactorization.pass, found]
  rfl

omit [Scalar α] in
theorem OutputModes.applies_eq_ok (found : graph.get id = .ok node) :
    (OutputModes.pass selection).applies graph id = .ok (lacksModes selection node) := by
  simp only [OutputModes.pass, found]
  rfl

theorem AffineFusion.applies_eq_ok (wf : graph.WellFormed) (found : graph.get id = .ok node) :
    ∃ answer, (AffineFusion.pass : Pass α).applies graph id = .ok answer := by
  simp only [AffineFusion.pass, applies, except_ok_bind, found]
  cases only : node.onlyInput? with
  | none => exact ⟨false, rfl⟩
  | some input =>
      by_cases affine : node.kind.isAffine = true
      · have reads := onlyInput?_eq_some_iff.mp only
        have exist := wf.reads (listed_of_get found).2 input (reads ▸ List.mem_singleton_self input)
        obtain ⟨first, source, _⟩ := hasTensor_iff_get.mp exist
        simp only [affine, if_true, source]
        exact ⟨_, rfl⟩
      · simp only [affine]
        exact ⟨false, rfl⟩

/-- Whether a standard pass applies to a node that is there always has an answer. -/
theorem applies_of_mem_standard
    (wf : graph.WellFormed) (found : graph.get id = .ok node)
    (member : pass ∈ standardPasses α selection) :
    ∃ answer, pass.applies graph id = .ok answer := by
  simp only [standardPasses, List.mem_cons, List.not_mem_nil, or_false] at member
  rcases member with rfl | rfl | rfl
  · exact ⟨_, ScaleFactorization.applies_eq_ok found⟩
  · exact AffineFusion.applies_eq_ok wf found
  · exact ⟨_, OutputModes.applies_eq_ok found⟩

theorem Optimizer.choose_standard
    (selection : ModeSelection) (wf : graph.WellFormed) (found : graph.get id = .ok node) :
    ∃ choice, Optimizer.choose (standardPasses α selection) graph id = .ok choice :=
  Optimizer.choose_eq_ok found fun _ member => applies_of_mem_standard wf found member

/-! ## What a pass does where it applies -/

/-- A standard pass makes a rewrite where it applies, unless it fails with an error, or cannot
quantize the weights of a layer and leaves the graph as it was. -/
theorem patch_cases_of_applies
    (wf : graph.WellFormed) (found : graph.get id = .ok node)
    (member : pass ∈ standardPasses α selection) (applies : pass.applies graph id = .ok true) :
    (∃ topologyChanged changed, Rewrite selection graph id node pass topologyChanged changed ∧
        pass.patch id graph = .ok topologyChanged changed) ∨
      (∃ cause left, pass.patch id graph = .error (.error cause) left) ∨
      ScaleFactorization.isScaled node = true ∧
        ScaleFactorization.factorized node = .error (.fault .unquantizable) ∧
          pass.patch id graph = .error (.fault .unquantizable) graph := by
  simp only [standardPasses, List.mem_cons, List.not_mem_nil, or_false] at member
  rcases member with rfl | rfl | rfl
  · have scaled := Except.ok.inj ((ScaleFactorization.applies_eq_ok found).symm.trans applies)
    rcases ScaleFactorization.patch_cases wf found with
      ⟨failure, unit, failed⟩ | ⟨cause, left, failed⟩ |
        ⟨weight, scale, bias, output, others, unit, divided, outputs, done⟩
    · rcases ScaleFactorization.factorized_error_cases unit with rfl | ⟨cause, rfl⟩
      · exact Or.inr (Or.inr ⟨scaled, unit, failed⟩)
      · exact Or.inr (Or.inl ⟨cause, graph, failed⟩)
    · exact Or.inr (Or.inl ⟨cause, left, failed⟩)
    · exact Or.inl ⟨true, _, .factor scaled unit divided outputs, done⟩
  · obtain ⟨same, input, first, there, reads, affine, source, sourceAffine, zero, unexported,
      alone⟩ := AffineFusion.applies_eq_ok_true_iff.mp applies
    obtain rfl := Except.ok.inj (found.symm.trans there)
    rcases AffineFusion.patch_cases found reads wf source with
      ⟨cause, failed⟩ |
        ⟨scale, bias, nextScale, nextBias, fused, hasScale, hasBias, hasNextScale, hasNextBias,
          joint, done⟩
    · exact Or.inr (Or.inl ⟨cause, graph, failed⟩)
    · exact Or.inl ⟨true, _, .fuse reads affine source sourceAffine zero unexported alone hasScale
        hasBias hasNextScale hasNextBias joint, done⟩
  · have lacks := Except.ok.inj ((OutputModes.applies_eq_ok found).symm.trans applies)
    obtain ⟨_, _, output, others, outputs, _⟩ := OutputModes.lacksModes_eq_true_iff.mp lacks
    rcases OutputModes.patch_cases selection found outputs with
      ⟨_, _, failed⟩ | ⟨precision, set, done⟩
    · exact Or.inr (Or.inl ⟨_, graph, failed⟩)
    · exact Or.inl ⟨false, _, .setModes lacks outputs set, done⟩

/-- Why a run of the standard passes fails: an error, or the quantizer of a scaled layer that cannot
be applied to the weights of the layer. -/
def Breakdown (graph : Graph α) (failure : Failure PassError) : Prop :=
  (∃ cause, failure = .error cause) ∨
    failure = .fault .unquantizable ∧
      ∃ id node, graph.get id = .ok node ∧ ScaleFactorization.isScaled node = true ∧
        ScaleFactorization.factorized node = .error (.fault .unquantizable)

/-- A standard pass that fails where it applies breaks down. -/
theorem breakdown_of_applies {failure : Failure PassError} {left : Graph α}
    (wf : graph.WellFormed) (found : graph.get id = .ok node)
    (member : pass ∈ standardPasses α selection) (applies : pass.applies graph id = .ok true)
    (failed : pass.patch id graph = .error failure left) :
    Breakdown left failure := by
  rcases patch_cases_of_applies wf found member applies with
    ⟨_, _, _, done⟩ | ⟨cause, _, same⟩ | ⟨scaled, unit, same⟩
  · rw [failed] at done
    cases done
  · obtain ⟨rfl, rfl⟩ := EStateM.Result.error.inj (same.symm.trans failed)
    exact Or.inl ⟨cause, rfl⟩
  · obtain ⟨rfl, rfl⟩ := EStateM.Result.error.inj (same.symm.trans failed)
    exact Or.inr ⟨rfl, id, node, found, scaled, unit⟩

end QuantNet
