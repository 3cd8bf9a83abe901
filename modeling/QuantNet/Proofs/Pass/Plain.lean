import QuantNet.Proofs.Graph.Revaluation
import QuantNet.Proofs.Layer.Rewriting

/-!
# Graphs that keep their meaning

Rewriting keeps the meaning of a graph that uses first outputs only, stores its weights as they
are, and has the weights of its scaled layers quantized already.  It leaves such a graph as well.
-/

namespace QuantNet

open QuantNet.Graph

variable {α : Type} [Scalar α] {graph changed : Graph α} {id : NodeId} {node : Node α}

/-- A node that reads first outputs only, stores its weights as they are, and has them quantized
already if it is a scaled layer. -/
structure Node.Plain (node : Node α) : Prop where
  reads : ∀ input ∈ node.inputs, input.output = 0
  native : node.Native
  requantizes : node.Requantizes

/-- A graph in which every tensor in use is the first output of its producer, and every layer has
native weights, quantized ones if it is scaled. -/
structure Graph.Plain (graph : Graph α) : Prop where
  nodes : ∀ ⦃index node⦄, graph.find? index = some node → node.Plain
  outputs : ∀ ref ∈ graph.outputs, ref.output = 0

theorem Graph.Plain.namesFirsts (plain : graph.Plain) : graph.NamesFirsts :=
  ⟨fun _ _ listed => (plain.nodes listed).reads, plain.outputs⟩

theorem Node.Plain.rename {f : TensorRef → TensorRef} (plain : node.Plain)
    (first : ∀ ref, ref.output = 0 → (f ref).output = 0) :
    (node.rename f).Plain := by
  refine ⟨fun input member => ?_, plain.native, plain.requantizes⟩
  obtain ⟨ref, used, rfl⟩ := List.mem_map.mp member
  exact first ref (plain.reads ref used)

/-- A node that is not scaled need not have its weights quantized. -/
theorem Node.plain_of_unscaled
    (reads : ∀ input ∈ node.inputs, input.output = 0) (native : node.Native)
    (unscaled : ScaleFactorization.isScaled node = false) :
    node.Plain := by
  refine ⟨reads, native, fun scaled => ?_⟩
  rw [unscaled] at scaled
  cases scaled

namespace Graph.Plain

theorem replace {index : Nat} {new : Node α} (plain : graph.Plain)
    (listed : graph.find? index = some node) (newPlain : new.Plain) :
    (graph.replace index new).Plain := by
  refine ⟨fun other found there => ?_, plain.outputs⟩
  rw [find?_replace listed] at there
  by_cases here : other = index
  · rw [if_pos here, Option.some.injEq] at there
    exact there ▸ newPlain
  · rw [if_neg here] at there
    exact plain.nodes there

theorem rename {f : TensorRef → TensorRef} (plain : graph.Plain)
    (first : ∀ ref, ref.output = 0 → (f ref).output = 0) :
    (graph.rename f).Plain := by
  constructor
  · intro index found there
    obtain ⟨old, older, rfl⟩ := find?_rename_eq_some_iff.mp there
    exact (plain.nodes older).rename first
  · intro ref member
    obtain ⟨before, used, rfl⟩ := List.mem_map.mp member
    exact first before (plain.outputs before used)

theorem placed {anchor : TensorRef} (plain : graph.Plain) (newPlain : node.Plain) :
    (graph.placed anchor node).Plain := by
  have renamed : (graph.rename (anchor.instead ⟨graph.handle graph.issued, 0⟩)).Plain :=
    plain.rename fun _ => TensorRef.output_instead rfl
  refine ⟨fun index found there => ?_, renamed.outputs⟩
  rcases find?_placed_eq_some_iff.mp there with ⟨_, rfl⟩ | ⟨old, older, rfl⟩
  · exact newPlain
  · exact renamed.nodes (find?_rename_eq_some_iff.mpr ⟨old, older, rfl⟩)

theorem bypassed {input : TensorRef} (plain : graph.Plain) (zero : input.output = 0) :
    (graph.bypassed id input).Plain := by
  have renamed : (graph.rename (TensorRef.past id input)).Plain :=
    plain.rename fun _ => TensorRef.output_past zero
  refine ⟨fun index found there => ?_, renamed.outputs⟩
  exact renamed.nodes (find?_dropped_eq_some_iff.mp there).1

end Graph.Plain

theorem Rewrite.plain
    {selection : ModeSelection} {pass : Pass α} {topologyChanged : Bool}
    (unit : Scalar.eq (1 : α) 1 = true)
    (rewrite : Rewrite selection graph id node pass topologyChanged changed)
    (found : graph.get id = .ok node) (plain : graph.Plain) :
    changed.Plain := by
  have listed := (listed_of_get found).2
  have old := plain.nodes listed
  cases rewrite with
  | @factor weight scale bias output others scaled factor divided outputs =>
      have reads : ∀ input ∈ (ScaleFactorization.unitNode node weight bias).inputs,
          input.output = 0 := by
        rw [(ScaleFactorization.unitNode_resembles node weight bias).inputs]
        exact old.reads
      have layer := Node.plain_of_unscaled reads
        (ScaleFactorization.native_unitNode old.native factor divided)
        (ScaleFactorization.isScaled_unitNode unit weight bias)
      refine (plain.replace listed layer).placed ?_
      refine Node.plain_of_unscaled ?_ (ScaleFactorization.native_alphaNode id _ output scale)
        (ScaleFactorization.isScaled_of_affine rfl)
      intro input member
      rw [List.mem_singleton.mp member]
  | @fuse input first scale bias _ _ fused reads affine source sourceAffine zero unexported alone
      hasScale hasBias =>
      have sourceListed := (listed_of_get source).2
      have before := plain.nodes sourceListed
      have joint : (AffineFusion.fusedNode first scale bias fused).Plain :=
        Node.plain_of_unscaled before.reads
          (AffineFusion.native_fusedNode before.native hasScale hasBias fused)
          (ScaleFactorization.isScaled_of_affine sourceAffine)
      exact (plain.replace sourceListed joint).bypassed zero
  | @setModes output others precision lacks outputs set =>
      have weights : (OutputModes.withPrecision node output others precision).weights =
          node.weights :=
        OutputModes.weights_withPrecision
      refine plain.replace listed ⟨?_, ?_, ?_⟩
      · rw [(OutputModes.withPrecision_resembles precision outputs).inputs]
        exact old.reads
      · rw [Node.Native, weights]
        exact old.native
      · rw [Node.Requantizes, weights, ScaleFactorization.isScaled_withPrecision]
        exact old.requantizes

end QuantNet
