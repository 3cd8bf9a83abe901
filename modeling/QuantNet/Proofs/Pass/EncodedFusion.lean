import QuantNet.Proofs.Graph.Sorted
import QuantNet.Proofs.Pass.Inversion
import QuantNet.Proofs.Pass.Meaning

/-!
# Fusing encoded weights

A fusion reads the data of four weights, stores two joint ones in their place and leaves the
quantizers beside them, while the evaluation of a graph undoes the encodings that the quantizers
name.  The graph keeps its values if the stored joint map stands for the joint map of what the
weights stand for, and otherwise two affine nodes in a row lose theirs.
-/

namespace QuantNet

open QuantNet.Graph

theorem Graph.Sorted.evaluate_eq_ok_iff_valuation {α : Type} [Scalar α] {graph : Graph α}
    (sorted : graph.Sorted) {inputs outs : List (Tensor α)} :
    graph.evaluate inputs = .ok outs ↔ ∃ value, graph.Valuation inputs outs value :=
  sorted.toLinked.evaluate_eq_ok_iff_valuation fun _ _ listed _ => sorted.ordered listed trivial

namespace AffineFusion

/-! ## A fusion that succeeds -/

section Transforms

variable {α : Type} {graph changed : Graph α} {id : NodeId} {node first : Node α}
  {input : TensorRef} {scale bias nextScale nextBias : Weight α}

private theorem weight_of_get {role : Role} {weight : Weight α} (found : graph.get id = .ok node)
    (read : graph.weight id role = .ok weight) :
    node.weights.get? role = some weight := by
  obtain ⟨there, again, stored⟩ := weight_eq_ok_iff.mp read
  obtain rfl := Except.ok.inj ((node_of_get found).symm.trans again)
  exact stored

variable [Scalar α]

/-- A fusion that applies to a node and succeeds, in a sorted graph whose references name first
outputs, and the scales and biases of the two nodes. -/
structure Transforms (graph changed : Graph α) (id : NodeId)
    (scale bias nextScale nextBias : Weight α) : Prop where
  sorted : graph.Sorted
  firsts : graph.NamesFirsts
  applies : applies graph id = .ok true
  patched : ∃ topologyChanged, patch id graph = .ok topologyChanged changed
  weights : ∃ producer, graph.source? id = .ok (some producer) ∧
    graph.weight producer .scale = .ok scale ∧ graph.weight producer .bias = .ok bias
  nextScale : graph.weight id .scale = .ok nextScale
  nextBias : graph.weight id .bias = .ok nextBias

namespace Transforms

variable (transforms : Transforms graph changed id scale bias nextScale nextBias)

include transforms

section

variable (found : graph.get id = .ok node) (reads : node.inputs = [input])
  (source : graph.get input.node = .ok first)

include found reads source

theorem weights_eq :
    (first.weights.get? .scale = some scale ∧ first.weights.get? .bias = some bias) ∧
      node.weights.get? .scale = some nextScale ∧ node.weights.get? .bias = some nextBias := by
  obtain ⟨producer, named, readScale, readBias⟩ := transforms.weights
  obtain rfl := Option.some.inj (Except.ok.inj ((source?_eq_ok found reads).symm.trans named))
  exact ⟨⟨weight_of_get source readScale, weight_of_get source readBias⟩,
    weight_of_get found transforms.nextScale, weight_of_get found transforms.nextBias⟩

theorem removed :
    ∃ fused, Affine.andThen ⟨scale.data, bias.data⟩ ⟨nextScale.data, nextBias.data⟩ = .ok fused ∧
      (graph.replace input.node.index (fusedNode first scale bias fused)).remove id true =
        .ok changed := by
  obtain ⟨_, done⟩ := transforms.patched
  obtain ⟨there, only, producer, _, _, _, _, fused, again, shape, origin, hasScale, hasBias,
    hasNextScale, hasNextBias, joint, removed⟩ := exists_of_patch_eq_ok done
  obtain rfl := Except.ok.inj (found.symm.trans again)
  obtain rfl := List.singleton_inj.mp (reads.symm.trans shape)
  obtain rfl := Except.ok.inj (source.symm.trans origin)
  obtain ⟨⟨storedScale, storedBias⟩, storedNextScale, storedNextBias⟩ :=
    transforms.weights_eq found reads source
  obtain rfl := Option.some.inj (storedScale.symm.trans hasScale)
  obtain rfl := Option.some.inj (storedBias.symm.trans hasBias)
  obtain rfl := Option.some.inj (storedNextScale.symm.trans hasNextScale)
  obtain rfl := Option.some.inj (storedNextBias.symm.trans hasNextBias)
  exact ⟨fused, joint, removed⟩

/-- The graph after the fusion, which is sorted again and has the same inputs. -/
theorem exists_bypassed (affine : node.kind.isAffine = true) :
    ∃ fused, Affine.andThen ⟨scale.data, bias.data⟩ ⟨nextScale.data, nextBias.data⟩ = .ok fused ∧
      changed = (graph.replace input.node.index (fusedNode first scale bias fused)).bypassed id
          input ∧
        changed.Sorted ∧ changed.inputs = graph.inputs := by
  obtain ⟨fused, joint, removed⟩ := transforms.removed found reads source
  have resembles := fusedNode_resembles first scale bias fused
  obtain ⟨named, listed⟩ := listed_of_get found
  have apart : input.node ≠ id :=
    fun same => transforms.sorted.source_ne listed reads (same.trans named)
  have bypass :=
    remove_of_replaced transforms.sorted.toLinked found reads source apart resembles
  have kind : ∀ ⦃now⦄, (graph.replace input.node.index
      (fusedNode first scale bias fused)).get id = .ok now → now.kind ≠ .input := by
    intro now there
    rcases (get_replace_iff source).mp there with ⟨same, _⟩ | ⟨_, before⟩
    · exact absurd same.symm apart
    · obtain rfl := Except.ok.inj (found.symm.trans before)
      exact LayerKind.ne_input_of_isAffine affine
  obtain ⟨replaced, continues⟩ := transforms.sorted.replace source resembles
  obtain ⟨sorted, continued⟩ := replaced.remove kind removed
  exact ⟨fused, joint, Except.ok.inj (removed.symm.trans bypass), sorted,
    continued.inputs.trans continues.inputs⟩

end

theorem sorted_changed : changed.Sorted := by
  obtain ⟨node, input, first, found, reads, affine, source, _⟩ :=
    applies_eq_ok_true_iff.mp transforms.applies
  obtain ⟨_, _, _, sorted, _⟩ := transforms.exists_bypassed found reads source affine
  exact sorted

/-- What the graph computed before the fusion it computes after it. -/
theorem evaluate {inputs outs : List (Tensor α)} (laws : Scalar.Lawful α)
    (decodes : DecodesJointly scale bias nextScale nextBias)
    (evaluated : graph.evaluate inputs = .ok outs) :
    changed.evaluate inputs = .ok outs := by
  obtain ⟨node, input, first, found, reads, affine, source, sourceAffine, zero, unexported,
    alone⟩ := applies_eq_ok_true_iff.mp transforms.applies
  obtain ⟨⟨hasScale, hasBias⟩, hasNextScale, hasNextBias⟩ :=
    transforms.weights_eq found reads source
  obtain ⟨fused, joint, rfl, sorted, given⟩ :=
    transforms.exists_bypassed found reads source affine
  obtain ⟨value, valuation⟩ := transforms.sorted.evaluate_eq_ok_iff_valuation.mp evaluated
  exact sorted.evaluate_eq_ok_iff_valuation.mpr (valuation_fused found reads affine source
    sourceAffine
    (fun _ _ _ => decodes.evaluate_fusedNode laws sourceAffine affine hasScale hasBias
      hasNextScale hasNextBias joint)
    transforms.sorted.toLinked transforms.firsts given zero unexported alone valuation)

end Transforms

end Transforms

end AffineFusion

/-! ## Two affine nodes in a row -/

section Pair

variable {α : Type} (scale bias nextScale nextBias : Weight α)

/-- An affine node with given weights. -/
def affineNode (name : String) (source : NodeId) : Node α :=
  (Node.single .batchNormalization name .empty [⟨source, 0⟩] [] (.fixed 16 6 true .unset))
    |>.withWeight .scale scale |>.withWeight .bias bias

/-- A model of two affine nodes in a row. -/
def affinePair : Graph α where
  tag := 0
  slots := [some (.single .input "x" .empty [] [] (.fixed 16 6 true .unset)),
    some (affineNode scale bias "first" ⟨0, 0⟩),
    some (affineNode nextScale nextBias "second" ⟨0, 1⟩)]
  order := [⟨0, 0⟩, ⟨0, 1⟩, ⟨0, 2⟩]
  outputs := [⟨⟨0, 2⟩, 0⟩]

/-- The operations that build the model. -/
def affinePairOperations : List (Operation α) :=
  [.addInput "x" [] (.fixed 16 6 true .unset), .push (affineNode scale bias "first" ⟨0, 0⟩),
    .push (affineNode nextScale nextBias "second" ⟨0, 1⟩), .addOutput ⟨⟨0, 2⟩, 0⟩]

private theorem replay_affinePairOperations :
    (Graph.empty 0).replay (affinePairOperations scale bias nextScale nextBias) =
      affinePair scale bias nextScale nextBias :=
  rfl

private theorem sorted_affinePair : (affinePair scale bias nextScale nextBias).Sorted := by
  rw [← replay_affinePairOperations]
  refine Sorted.replay 0 _ fun node member => ?_
  simp [affinePairOperations] at member

private theorem wellFormed_affinePair : (affinePair scale bias nextScale nextBias).WellFormed := by
  rw [← replay_affinePairOperations]
  exact (WellFormed.empty 0).replay _

private theorem namesFirsts_affinePair :
    (affinePair scale bias nextScale nextBias).NamesFirsts := by
  constructor
  · intro index node listed
    match index with
    | 0 | 1 | 2 =>
        obtain rfl := Option.some.inj listed
        simp [affineNode, Node.withWeight, Node.single]
    | _ + 3 => cases listed
  · simp [affinePair]

variable {scale bias nextScale nextBias} {name : String} {source : NodeId}

private theorem scale_affineNode :
    (affineNode scale bias name source).weights.get? .scale = some scale :=
  rfl

private theorem bias_affineNode :
    (affineNode scale bias name source).weights.get? .bias = some bias :=
  rfl

variable [Scalar α] {x y z : Tensor α} {fused : Affine α}

private theorem evaluate_affineNode :
    (affineNode scale bias name source).evaluate x = .ok y ↔
      (Affine.decode scale bias).value? x = some y :=
  Node.evaluate_affine_eq_ok_iff rfl scale_affineNode bias_affineNode

theorem evaluate_affinePair
    (value : (Affine.decode scale bias).value? x = some y)
    (nextValue : (Affine.decode nextScale nextBias).value? y = some z) :
    (affinePair scale bias nextScale nextBias).evaluate [x] = .ok [z] := by
  refine (sorted_affinePair ..).evaluate_eq_ok_iff_valuation.mpr
    ⟨fun id => if id.index = 0 then x else if id.index = 1 then y else z, rfl, ?_, rfl⟩
  intro index node listed kind
  match index with
  | 0 =>
      obtain rfl := Option.some.inj listed
      exact absurd rfl kind
  | 1 =>
      obtain rfl := Option.some.inj listed
      exact ⟨⟨0, 0⟩, rfl, evaluate_affineNode.mpr value⟩
  | 2 =>
      obtain rfl := Option.some.inj listed
      exact ⟨⟨0, 1⟩, rfl, evaluate_affineNode.mpr nextValue⟩
  | _ + 3 => cases listed

/-- What a fusion makes of the model. -/
def fusedPair (scale bias nextScale nextBias : Weight α) (fused : Affine α) : Graph α :=
  ((affinePair scale bias nextScale nextBias).replace 1
    (AffineFusion.fusedNode (affineNode scale bias "first" ⟨0, 0⟩) scale bias fused)).bypassed
      ⟨0, 2⟩ ⟨⟨0, 1⟩, 0⟩

theorem transforms_affinePair
    (joint : Affine.andThen ⟨scale.data, bias.data⟩ ⟨nextScale.data, nextBias.data⟩ =
      .ok fused) :
    AffineFusion.Transforms (affinePair scale bias nextScale nextBias)
      (fusedPair scale bias nextScale nextBias fused) ⟨0, 2⟩ scale bias nextScale nextBias where
  sorted := sorted_affinePair scale bias nextScale nextBias
  firsts := namesFirsts_affinePair scale bias nextScale nextBias
  applies := rfl
  patched := by
    have reads : (affineNode nextScale nextBias "second" ⟨0, 1⟩).inputs = [⟨⟨0, 1⟩, 0⟩] := rfl
    exact ⟨true, AffineFusion.patch_eq_ok rfl reads
      (wellFormed_affinePair scale bias nextScale nextBias) rfl scale_affineNode bias_affineNode
      scale_affineNode bias_affineNode joint⟩
  weights := ⟨⟨0, 1⟩, rfl, rfl, rfl⟩
  nextScale := rfl
  nextBias := rfl

private theorem value_of_evaluate_fusedPair
    (sorted : (fusedPair scale bias nextScale nextBias fused).Sorted)
    (evaluated : (fusedPair scale bias nextScale nextBias fused).evaluate [x] = .ok [y]) :
    (Affine.decode { scale with data := fused.scale } { bias with data := fused.bias }).value? x =
      some y := by
  obtain ⟨value, valuation⟩ := sorted.evaluate_eq_ok_iff_valuation.mp evaluated
  let new := AffineFusion.fusedNode (affineNode scale bias "first" ⟨0, 0⟩) scale bias fused
  have listed : (fusedPair scale bias nextScale nextBias fused).find? 1 =
      some (new.rename (TensorRef.past ⟨0, 2⟩ ⟨⟨0, 1⟩, 0⟩)) :=
    rfl
  obtain ⟨producer, reads, computed⟩ := valuation.nodes listed nofun
  obtain rfl : (⟨0, 0⟩ : NodeId) = producer := congrArg TensorRef.node (List.singleton_inj.mp reads)
  have given : value ⟨0, 0⟩ = x := List.singleton_inj.mp valuation.inputs
  have exported : value ⟨0, 1⟩ = y := List.singleton_inj.mp valuation.outputs
  have stored : new.evaluate x = .ok y := by
    rw [← given, ← exported]
    exact computed
  exact (Node.evaluate_affine_eq_ok_iff rfl (AffineFusion.scale_fusedNode fused)
    (AffineFusion.bias_fusedNode fused)).mp stored

end Pair

/-! ## Which weights can be fused -/

/-- In exact arithmetic, fusions of nodes with given scales and biases keep all outputs that graphs
had before exactly if the joint map of the stored weights stands for the joint map of what they
stand for.  It does if none of the weights is stored in one bit. -/
theorem fusion_keeps_values_iff (exponent : ℚ → ℤ)
    (scale bias nextScale nextBias : Weight (Exact.Number exponent)) :
    ((∀ ⦃graph changed : Graph (Exact.Number exponent)⦄ ⦃id : NodeId⦄,
        AffineFusion.Transforms graph changed id scale bias nextScale nextBias →
          ∀ inputs outs, graph.evaluate inputs = .ok outs → changed.evaluate inputs = .ok outs) ↔
      DecodesJointly scale bias nextScale nextBias) ∧
    ((∀ weight ∈ [scale, bias, nextScale, nextBias], ¬ weight.IsSingleBit) →
      DecodesJointly scale bias nextScale nextBias) := by
  refine ⟨⟨fun keeps => ?_, fun decodes graph changed id transforms inputs outs => ?_⟩,
    DecodesJointly.of_not_isSingleBit⟩
  · -- With nothing else in the graph, its output shows every value of the stored map.
    refine DecodesJointly.of_value? fun fused x middle y joint value nextValue => ?_
    have transforms := transforms_affinePair joint
    have evaluated := keeps transforms [x] [y] (evaluate_affinePair value nextValue)
    exact value_of_evaluate_fusedPair transforms.sorted_changed evaluated
  · exact transforms.evaluate (Exact.lawful exponent) decodes

/-- A tensor of a single number. -/
def singleNumber (x : ℚ) : Tensor (Exact.Number fun _ => 0) :=
  .fill [1] x

/-- A scale of minus one, which is stored as the bit zero. -/
def negativeBit : Weight (Exact.Number fun _ => 0) :=
  { data := singleNumber 0
    unquantized := some (singleNumber (-1))
    quantizer := some ⟨⟨.binary, none⟩, .binary 1⟩ }

/-- A number that is stored as it is. -/
def plainWeight (x : ℚ) : Weight (Exact.Number fun _ => 0) :=
  { data := singleNumber x }

/-- A scale of minus one that is stored as zero is fused with a scale of two to a stored zero, which
stands for minus one again. -/
theorem fusion_loses_factor :
    ¬ ∀ (graph changed : Graph (Exact.Number fun _ => 0)) (id : NodeId) (topologyChanged : Bool)
      (inputs outs : List (Tensor (Exact.Number fun _ => 0))),
        graph.Sorted → graph.NamesFirsts → AffineFusion.applies graph id = .ok true →
          AffineFusion.patch id graph = .ok topologyChanged changed →
            graph.evaluate inputs = .ok outs → changed.evaluate inputs = .ok outs := by
  intro all
  have joint : Affine.andThen ⟨negativeBit.data, (plainWeight 0).data⟩
      ⟨(plainWeight 2).data, (plainWeight 0).data⟩ = .ok ⟨singleNumber 0, singleNumber 0⟩ := by
    decide +kernel
  have transforms := transforms_affinePair joint
  obtain ⟨_, patched⟩ := transforms.patched
  have before : (affinePair negativeBit (plainWeight 0) (plainWeight 2) (plainWeight 0)).evaluate
      [singleNumber 1] = .ok [singleNumber (-2)] := by
    decide +kernel
  have after : (fusedPair negativeBit (plainWeight 0) (plainWeight 2) (plainWeight 0)
      ⟨singleNumber 0, singleNumber 0⟩).evaluate [singleNumber 1] = .ok [singleNumber (-1)] := by
    decide +kernel
  have kept := all _ _ _ _ _ _ transforms.sorted transforms.firsts transforms.applies patched before
  have different : singleNumber (-1) ≠ singleNumber (-2) := by
    decide +kernel
  exact different (List.singleton_inj.mp (Except.ok.inj (after.symm.trans kept)))

end QuantNet
