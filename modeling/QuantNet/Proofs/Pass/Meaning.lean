import QuantNet.Proofs.Layer.Decoding
import QuantNet.Proofs.Pass.Descent
import QuantNet.Proofs.Pass.Plain
import QuantNet.Proofs.Pass.Trace

/-!
# The meaning of a graph under rewriting

In exact arithmetic the nodes of a rewritten graph have values again, and its outputs have the same
ones.  A factorization gives the old value of the layer to the new node behind it, and a fusion
gives the value of the second node to the first.
-/

namespace QuantNet

open QuantNet.Graph

variable {α : Type} [Scalar α] {graph : Graph α} {id : NodeId} {node : Node α}
  {inputs outs : List (Tensor α)} {value : NodeId → Tensor α}

namespace ScaleFactorization

variable {unit : Weight α} {scale : Tensor α} {bias : Option (Weight α)} {output : Output}
  {others : List Output}

private theorem inputs_factored
    (wf : graph.WellFormed) (found : graph.get id = .ok node)
    (outputs : node.outputs = output :: others)
    (factoredWf : (factored graph id (unitNode node unit bias) output scale).WellFormed) :
    (factored graph id (unitNode node unit bias) output scale).inputs = graph.inputs := by
  have listed := (listed_of_get found).2
  have resembles := unitNode_resembles node unit bias
  have layerWf := wf.replace listed resembles
  have exist := hasTensor_replace found ((unitNode_outputs node unit bias).trans outputs)
  have placed : (factored graph id (unitNode node unit bias) output scale).inputs =
      (graph.replace id.index (unitNode node unit bias)).inputs :=
    layerWf.linked.inputs_placed exist factoredWf.linked nofun
  exact placed.trans (wf.linked.inputs_replace listed resembles)

/-- The layer at unit scale computes a part of its old value, and the node with the scale the whole
value from it. -/
private theorem value_factored
    (laws : Scalar.Lawful α) (plain : graph.Plain) (found : graph.get id = .ok node)
    (scaled : isScaled node = true) (factor : factorized node = .ok (unit, scale))
    (done : rescaledBias node scale = .ok bias) (nonzero : ∀ s ∈ scale.data, s ≠ 0)
    (output : Output) (valuation : graph.Valuation inputs outs value) :
    ∃ producer part, node.inputs = [⟨producer, 0⟩] ∧
      (unitNode node unit bias).evaluate (value producer) = .ok part ∧
        (alphaNode id (unitNode node unit bias) output scale).evaluate part = .ok (value id) := by
  obtain ⟨named, listed⟩ := listed_of_get found
  have old := plain.nodes listed
  obtain ⟨producer, reads, computed⟩ :=
    valuation.nodes listed (LayerKind.ne_input_of_isWeighted (isWeighted_of_scaled scaled))
  rw [← named] at computed
  obtain ⟨part, partly, product, multiplied, added⟩ :=
    evaluate_unitNode laws old.native old.requantizes scaled factor done nonzero computed
  exact ⟨producer, part, reads, partly, evaluate_alphaNode id output multiplied added⟩

/-- The layer at unit scale has a new value, and the node behind it the old one. -/
theorem valuation_factored
    (laws : Scalar.Lawful α) (wf : graph.WellFormed) (plain : graph.Plain)
    (found : graph.get id = .ok node) (scaled : isScaled node = true)
    (factor : factorized node = .ok (unit, scale)) (done : rescaledBias node scale = .ok bias)
    (nonzero : ∀ s ∈ scale.data, s ≠ 0) (outputs : node.outputs = output :: others)
    (factoredWf : (factored graph id (unitNode node unit bias) output scale).WellFormed)
    (valuation : graph.Valuation inputs outs value) :
    ∃ after, (factored graph id (unitNode node unit bias) output scale).Valuation
      inputs outs after := by
  obtain ⟨named, listed⟩ := listed_of_get found
  have isLayer := LayerKind.ne_input_of_isWeighted (isWeighted_of_scaled scaled)
  obtain ⟨producer, part, reads, partly, whole⟩ :=
    value_factored laws plain found scaled factor done nonzero output valuation
  let layer := unitNode node unit bias
  let produced := (graph.replace id.index layer).handle (graph.replace id.index layer).issued
  let after : NodeId → Tensor α := fun other =>
    if other = id then part else if other = produced then value id else value other
  have fresh : ∀ other ∈ graph.order, other ≠ produced := by
    have next : produced = graph.handle graph.issued :=
      congrArg graph.handle (issued_replace graph id.index layer)
    rintro other member same
    rw [same, next] at member
    exact wf.linked.fresh_not_mem member
  have here : after id = part := if_pos rfl
  have moved : after produced = value id :=
    (if_neg (fresh id (wf.mem_order_iff.mpr ⟨node, found⟩)).symm).trans (if_pos rfl)
  have kept : ∀ other ∈ graph.order, other ≠ id → after other = value other :=
    fun other member different => (if_neg different).trans (if_neg (fresh other member))
  have carried : ∀ ref : TensorRef, graph.hasTensor ref = true → ref.output = 0 →
      after (TensorRef.instead ⟨id, 0⟩ ⟨produced, 0⟩ ref).node = value ref.node := by
    intro ref exist zero
    by_cases used : ref = ⟨id, 0⟩
    · rw [used, TensorRef.instead_self]
      exact moved
    · have elsewhere : ref.node ≠ id := fun same => used (same ▸ TensorRef.eq_first zero)
      rw [TensorRef.instead_of_ne used]
      exact kept ref.node (wf.linked.producer_mem exist) elsewhere
  refine ⟨after, valuation.rename (inputs_factored wf found outputs factoredWf) rfl
    (fun _ => TensorRef.output_instead rfl) ?_ ?_ ?_⟩
  · intro other member
    exact kept other (wf.linked.mem_inputs member).1
      (wf.linked.ne_of_mem_inputs found isLayer member)
  · intro ref member
    exact carried ref (wf.exports ref member) (plain.outputs ref member)
  · intro index new there kind
    rcases find?_placed_eq_some_iff.mp there with ⟨rfl, rfl⟩ | ⟨before, older, rfl⟩
    · refine Or.inl ⟨id, rfl, ?_⟩
      rw [here]
      exact whole.trans (congrArg Except.ok moved.symm)
    · rw [find?_replace listed] at older
      by_cases same : index = id.index
      · subst same
        rw [if_pos rfl, Option.some.injEq] at older
        subst older
        have layerReads : layer.inputs = [⟨producer, 0⟩] :=
          (unitNode_resembles node unit bias).inputs.trans reads
        have exist := wf.reads listed ⟨producer, 0⟩ (reads ▸ List.mem_singleton_self _)
        have itself : (factored graph id layer output scale).handle id.index = id := named.symm
        rw [itself, here]
        exact Or.inl (computed_rename layerReads (TensorRef.output_instead rfl rfl)
          (carried ⟨producer, 0⟩ exist rfl) partly)
      · rw [if_neg same] at older
        have stays := kept (graph.handle index) (wf.linked.handle_mem_order older) fun other =>
          same (congrArg NodeId.index other)
        exact Or.inr ⟨before, older, rfl, stays, fun ref used =>
          carried ref (wf.reads older ref used) ((plain.nodes older).reads ref used)⟩

end ScaleFactorization

namespace AffineFusion

variable {input : TensorRef} {first : Node α} {scale bias : Weight α} {fused : Affine α}

omit [Scalar α] in
private theorem inputs_fused
    (wf : graph.WellFormed) (found : graph.get id = .ok node) (reads : node.inputs = [input])
    (affine : node.kind.isAffine = true) (source : graph.get input.node = .ok first) :
    ((graph.replace input.node.index (fusedNode first scale bias fused)).bypassed id
      input).inputs = graph.inputs := by
  obtain ⟨named, listed⟩ := listed_of_get found
  have sourceListed := (listed_of_get source).2
  have resembles := fusedNode_resembles first scale bias fused
  have fusedWf := wf.replace sourceListed resembles
  have relisted := (find?_replace_of_ne (wf.source_index_ne found reads source)
    (fusedNode first scale bias fused)).trans listed
  have exist := fusedWf.reads relisted input (reads ▸ List.mem_singleton_self input)
  have bypassed := fusedWf.linked.inputs_bypassed exist (fusedWf.source_ne relisted reads) relisted
    (LayerKind.ne_input_of_isAffine affine)
  have same : (graph.replace input.node.index (fusedNode first scale bias fused)).handle id.index =
      id := named.symm
  rw [same] at bypassed
  exact bypassed.trans (wf.linked.inputs_replace sourceListed resembles)

section

variable (found : graph.get id = .ok node) (reads : node.inputs = [input])
  (affine : node.kind.isAffine = true) (source : graph.get input.node = .ok first)
  (sourceAffine : first.kind.isAffine = true)
  (faithful : ∀ x middle y, first.evaluate x = .ok middle → node.evaluate middle = .ok y →
    (fusedNode first scale bias fused).evaluate x = .ok y)

include found reads affine source sourceAffine faithful

/-- The joint node computes the value of the second node from what the first one reads. -/
private theorem value_fused (valuation : graph.Valuation inputs outs value) :
    ∃ producer, first.inputs = [⟨producer, 0⟩] ∧
      (fusedNode first scale bias fused).evaluate (value producer) = .ok (value id) := by
  obtain ⟨named, listed⟩ := listed_of_get found
  obtain ⟨sourceNamed, sourceListed⟩ := listed_of_get source
  obtain ⟨producer, firstReads, firstValue⟩ :=
    valuation.nodes sourceListed (LayerKind.ne_input_of_isAffine sourceAffine)
  obtain ⟨middle, nextReads, nextValue⟩ :=
    valuation.nodes listed (LayerKind.ne_input_of_isAffine affine)
  have between : middle = input.node := by
    rw [reads, List.singleton_inj] at nextReads
    exact (congrArg TensorRef.node nextReads).symm
  rw [← sourceNamed] at firstValue
  rw [← named, between] at nextValue
  exact ⟨producer, firstReads, faithful _ _ _ firstValue nextValue⟩

/-- The first node has the value of the second one, which alone has read it. -/
theorem valuation_fused
    (linked : graph.Linked) (firsts : graph.NamesFirsts)
    (given : ((graph.replace input.node.index (fusedNode first scale bias fused)).bypassed id
      input).inputs = graph.inputs)
    (zero : input.output = 0) (unexported : graph.isOutput input = false)
    (alone : graph.readers input = [id]) (valuation : graph.Valuation inputs outs value) :
    ∃ after, ((graph.replace input.node.index (fusedNode first scale bias fused)).bypassed id
      input).Valuation inputs outs after := by
  obtain ⟨named, listed⟩ := listed_of_get found
  obtain ⟨sourceNamed, sourceListed⟩ := listed_of_get source
  have isLayer := LayerKind.ne_input_of_isAffine sourceAffine
  let after : NodeId → Tensor α := fun other => if other = input.node then value id else value other
  have here : after input.node = value id := if_pos rfl
  have kept : ∀ other, other ≠ input.node → after other = value other :=
    fun other different => if_neg different
  have carried : ∀ ref : TensorRef, ref ≠ input → ref.output = 0 →
      after (TensorRef.past id input ref).node = value ref.node := by
    intro ref unused first
    by_cases own : ref.node = id
    · rw [TensorRef.past_of_eq own, own]
      exact here
    · rw [TensorRef.past_of_ne own]
      refine kept ref.node fun same => unused ?_
      rw [TensorRef.eq_first first, same, ← TensorRef.eq_first zero]
  have unread : ∀ {index : Nat} {reader : Node α}, graph.find? index = some reader →
      index ≠ id.index → ∀ ref ∈ reader.inputs, ref ≠ input := by
    rintro index reader there different ref used rfl
    have among := linked.lists.mem_readers_iff.mpr ⟨reader, there, used⟩
    rw [alone, List.mem_singleton] at among
    exact different (congrArg NodeId.index among)
  refine ⟨after, valuation.rename given rfl (fun _ => TensorRef.output_past zero) ?_ ?_ ?_⟩
  · intro other member
    exact kept other (linked.ne_of_mem_inputs source isLayer member)
  · intro ref member
    refine carried ref ?_ (firsts.outputs ref member)
    rintro rfl
    rw [isOutput, List.contains_iff_mem.mpr member] at unexported
    cases unexported
  · intro index new there kind
    obtain ⟨⟨old, older, rfl⟩, different⟩ := find?_bypassed_eq_some_iff.mp there
    rw [find?_replace sourceListed] at older
    by_cases same : index = input.node.index
    · subst same
      rw [if_pos rfl, Option.some.injEq] at older
      subst older
      obtain ⟨producer, firstReads, computed⟩ :=
        value_fused found reads affine source sourceAffine faithful valuation
      have apart := unread sourceListed different ⟨producer, 0⟩
        (firstReads ▸ List.mem_singleton_self _)
      have jointReads : (fusedNode first scale bias fused).inputs = [⟨producer, 0⟩] := firstReads
      have itself : ((graph.replace input.node.index (fusedNode first scale bias fused)).bypassed id
          input).handle input.node.index = input.node := sourceNamed.symm
      rw [itself, here]
      exact Or.inl (computed_rename jointReads (TensorRef.output_past zero rfl)
        (carried ⟨producer, 0⟩ apart rfl) computed)
    · rw [if_neg same] at older
      have stays := kept (graph.handle index) fun other => same (congrArg NodeId.index other)
      exact Or.inr ⟨old, older, rfl, stays, fun ref used =>
        carried ref (unread older different ref used) (firsts.reads older ref used)⟩

end

end AffineFusion

namespace OutputModes

variable {output : Output} {others : List Output} {precision : Precision}

theorem valuation_withPrecision
    (wf : graph.WellFormed) (found : graph.get id = .ok node)
    (outputs : node.outputs = output :: others) (valuation : graph.Valuation inputs outs value) :
    (graph.replace id.index (withPrecision node output others precision)).Valuation
      inputs outs value := by
  have listed := (listed_of_get found).2
  have resembles := withPrecision_resembles precision outputs
  refine ⟨?_, ?_, valuation.outputs⟩
  · have same : (graph.replace id.index (withPrecision node output others precision)).inputs =
        graph.inputs :=
      wf.linked.inputs_replace listed resembles
    rw [same]
    exact valuation.inputs
  · intro index new there kind
    rw [find?_replace listed] at there
    by_cases here : index = id.index
    · subst here
      rw [if_pos rfl, Option.some.injEq] at there
      subst there
      obtain ⟨producer, reads, computed⟩ := valuation.nodes listed (resembles.kind ▸ kind)
      exact ⟨producer, resembles.inputs.trans reads, evaluate_withPrecision.trans computed⟩
    · rw [if_neg here] at there
      exact valuation.nodes there kind

end OutputModes

/-! ## Any rewrite -/

/-- A well-formed plain graph gives certain outputs for certain inputs. -/
structure Graph.Computes (graph : Graph α) (inputs outs : List (Tensor α)) : Prop where
  wf : graph.WellFormed
  plain : graph.Plain
  valued : ∃ value, graph.Valuation inputs outs value

/-- A rewrite keeps the outputs of a graph, unless it extracts a scale with a zero. -/
theorem Rewrite.computes
    {selection : ModeSelection} {pass : Pass α} {topologyChanged : Bool} {changed : Graph α}
    (laws : Scalar.Lawful α) (unit : Scalar.eq (1 : α) 1 = true)
    (rewrite : Rewrite selection graph id node pass topologyChanged changed)
    (found : graph.get id = .ok node)
    (nonzero : ∀ scale, pass.extracts? node = some scale → ∀ s ∈ scale.data, s ≠ 0)
    (computes : graph.Computes inputs outs) :
    changed.Computes inputs outs := by
  obtain ⟨wf, plain, value, valuation⟩ := computes
  have changedWf := rewrite.wellFormed wf found
  refine ⟨changedWf, rewrite.plain unit found plain, ?_⟩
  cases rewrite with
  | @factor weight scale bias output others scaled factor divided outputs =>
      have extracted : (ScaleFactorization.pass : Pass α).extracts? node = some scale := by
        simp [Pass.extracts?, ScaleFactorization.pass, factor, Except.toOption]
      exact ScaleFactorization.valuation_factored laws wf plain found scaled factor divided
        (nonzero scale extracted) outputs changedWf valuation
  | fuse reads affine source sourceAffine zero unexported alone hasScale hasBias hasNextScale
      hasNextBias joint =>
      have native := (plain.nodes (listed_of_get source).2).native
      have nextNative := (plain.nodes (listed_of_get found).2).native
      have decodes := DecodesJointly.of_native native nextNative hasScale hasBias hasNextScale
        hasNextBias
      exact AffineFusion.valuation_fused found reads affine source sourceAffine
        (fun _ _ _ => decodes.evaluate_fusedNode laws sourceAffine affine hasScale hasBias
          hasNextScale hasNextBias joint)
        wf.linked plain.namesFirsts (AffineFusion.inputs_fused wf found reads affine source) zero
        unexported alone valuation
  | setModes lacks outputs set =>
      exact ⟨value, OutputModes.valuation_withPrecision wf found outputs valuation⟩

end QuantNet
