import QuantNet.Proofs.Pass.Fusing
import QuantNet.Proofs.Pass.Settling

/-!
# What a change of the topology carries along

A factorization or a fusion at one node takes the other nodes along: their inputs may be renamed,
and the node that a fusion merges into gets another map, but nothing depends on their precisions.
Nodes in front that need no such change need none after it.
-/

namespace QuantNet

open QuantNet.Graph OutputModes

variable {α : Type} [Scalar α] {selection : ModeSelection} {graph changed : Graph α}
  {id other : NodeId} {node old new : Node α} {pass : Pass α}

/-- A change of a node that leaves alone what it is and what it produces. -/
structure Carries (carry : Node α → Node α) : Prop where
  kind : ∀ node, (carry node).kind = node.kind
  name : ∀ node, (carry node).name = node.name
  attrs : ∀ node, (carry node).attrs = node.attrs
  outputs : ∀ node, (carry node).outputs = node.outputs
  inputs : ∀ node, (carry node).inputs.length = node.inputs.length
  withPrecision : ∀ node output others precision,
    carry (withPrecision node output others precision) =
      withPrecision (carry node) output others precision

omit [Scalar α] in
private theorem carries_rename (f : TensorRef → TensorRef) : Carries (Node.rename (α := α) f) where
  kind _ := rfl
  name _ := rfl
  attrs _ := rfl
  outputs _ := rfl
  inputs _ := List.length_map _
  withPrecision node output others precision := by
    unfold withPrecision
    have attrs : (node.rename f).attrs = node.attrs := rfl
    rw [attrs]
    split <;> rfl

omit [Scalar α] in
private theorem carries_fusedNode (scale bias : Weight α) (fused : Affine α)
    (f : TensorRef → TensorRef) :
    Carries fun node => (AffineFusion.fusedNode node scale bias fused).rename f where
  kind _ := rfl
  name _ := rfl
  attrs _ := rfl
  outputs _ := rfl
  inputs _ := List.length_map _
  withPrecision node output others precision := by
    unfold withPrecision
    have attrs : ((AffineFusion.fusedNode node scale bias fused).rename f).attrs = node.attrs := rfl
    rw [attrs]
    split <;> rfl

namespace Rewrite

/-- A change of the topology at a node carries every other node along, whatever stands in its place
with the same weights. -/
theorem carries
    (rewrite : Rewrite selection graph id node pass true changed) (wf : graph.WellFormed)
    (found : graph.get id = .ok node) (there : graph.get other = .ok old) (apart : other ≠ id) :
    ∃ carry, Carries carry ∧ changed.get other = .ok (carry old) ∧
      ∀ new : Node α, new.Resembles old → new.weights = old.weights →
        Rewrite selection (graph.replace other.index new) id node pass true
          (changed.replace other.index (carry new)) := by
  have elsewhere := index_ne_of_get found there apart
  have listed := (listed_of_get there).2
  cases rewrite with
  | @factor weight scale bias output others scaled unit divided outputs =>
      let layer := ScaleFactorization.unitNode node weight bias
      have kept : (graph.replace id.index layer).get other = .ok old :=
        (get_replace_iff found).mpr (Or.inr ⟨apart, there⟩)
      refine ⟨_, carries_rename _, get_placed_of_get kept _ _, fun new _ _ => ?_⟩
      have again : Rewrite selection (graph.replace other.index new) id node
          ScaleFactorization.pass true
          (ScaleFactorization.factored (graph.replace other.index new) id layer output scale) :=
        .factor scaled unit divided outputs
      rw [ScaleFactorization.factored, replace_comm elsewhere,
        placed_replace (listed_of_get kept).2] at again
      exact again
  | @fuse input first scale bias nextScale nextBias fused reads affine source sourceAffine zero
      unexported alone hasScale hasBias hasNextScale hasNextBias joint =>
      let head := AffineFusion.fusedNode first scale bias fused
      have foundNow : (graph.replace input.node.index head).get id = .ok node := by
        have distinct := wf.source_index_ne found reads source
        exact (get_replace_of_ne distinct head).mpr found
      by_cases here : other = input.node
      · subst here
        obtain rfl := Except.ok.inj (there.symm.trans source)
        refine ⟨_, carries_fusedNode scale bias fused _,
          get_bypassed_of_get foundNow (get_replace there head) apart input, ?_⟩
        intro new resembles weights
        have again : Rewrite selection (graph.replace input.node.index new) id node
            AffineFusion.pass true
            (((graph.replace input.node.index new).replace input.node.index
              (AffineFusion.fusedNode new scale bias fused)).bypassed id input) :=
          .fuse reads affine (get_replace there new) (resembles.kind ▸ sourceAffine) zero unexported
            (wf.linked.readers_replace listed resembles input ▸ alone) (weights ▸ hasScale)
            (weights ▸ hasBias) hasNextScale hasNextBias joint
        rw [replace_replace] at again
        rwa [← bypassed_replace elsewhere, replace_replace]
      · have kept : (graph.replace input.node.index head).get other = .ok old :=
          (get_replace_iff source).mpr (Or.inr ⟨here, there⟩)
        refine ⟨_, carries_rename _, get_bypassed_of_get foundNow kept apart input, ?_⟩
        intro new resembles _
        have sourceNow : (graph.replace other.index new).get input.node = .ok first :=
          (get_replace_iff there).mpr (Or.inr ⟨Ne.symm here, source⟩)
        have again : Rewrite selection (graph.replace other.index new) id node
            AffineFusion.pass true
            (((graph.replace other.index new).replace input.node.index head).bypassed id input) :=
          .fuse reads affine sourceNow sourceAffine zero unexported
            (wf.linked.readers_replace listed resembles input ▸ alone) hasScale hasBias hasNextScale
            hasNextBias joint
        rwa [replace_comm (index_ne_of_get source there here), bypassed_replace elsewhere] at again

end Rewrite

/-! ## The nodes in front -/

namespace Graph

omit [Scalar α] in
/-- A node with one input does not read from a node that stands behind it. -/
theorem WellFormed.input_ne_of_front
    (wf : graph.WellFormed) {front back : List NodeId} (order : graph.order = front ++ id :: back)
    (member : other ∈ front) (there : graph.get other = .ok old) (single : old.inputs.length = 1) :
    ∀ input ∈ old.inputs, input.node ≠ id := by
  intro input among own
  obtain ⟨named, listed⟩ := listed_of_get there
  have before := wf.single listed single input among
  rw [own, ← named, Before, order, pair_sublist_iff (order ▸ wf.nodup)] at before
  have disjoint := (List.nodup_append.mp (order ▸ wf.nodup)).2.2
  exact disjoint other member other (List.mem_cons_of_mem id before) rfl

omit [Scalar α] in
theorem WellFormed.front_not_mem
    (wf : graph.WellFormed) {front back : List NodeId}
    (order : graph.order = front ++ id :: back) :
    id ∉ front := fun member =>
  (List.nodup_append.mp (order ▸ wf.nodup)).2.2 id member id List.mem_cons_self rfl

end Graph

theorem Carries.isScaled_eq {carry : Node α → Node α} (carries : Carries carry)
    (node : Node α) :
    ScaleFactorization.isScaled (carry node) = ScaleFactorization.isScaled node := by
  simp only [ScaleFactorization.isScaled, ScaleFactorization.hasScale, carries.kind, carries.attrs]

omit [Scalar α] in
theorem Carries.lacksModes_eq {carry : Node α → Node α} (carries : Carries carry) (node : Node α) :
    lacksModes selection (carry node) = lacksModes selection node := by
  simp only [lacksModes, selects, carries.kind, carries.name, carries.outputs]

namespace Rewrite

section Front

variable (rewrite : Rewrite selection graph id node pass true changed) (wf : graph.WellFormed)
  (found : graph.get id = .ok node) {front back : List NodeId}
  (order : graph.order = front ++ id :: back)

include rewrite wf found order

/-- The nodes in front stay where they are. -/
theorem order_front : ∃ rest, changed.order = front ++ rest := by
  have absent := wf.front_not_mem order
  cases rewrite with
  | @factor weight scale bias output others scaled unit divided outputs =>
      let layer := ScaleFactorization.unitNode node weight bias
      have layerWf := wf.replace (listed_of_get found).2
        (ScaleFactorization.unitNode_resembles node weight bias)
      have exist := hasTensor_replace found
        ((ScaleFactorization.unitNode_outputs node weight bias).trans outputs)
      obtain ⟨first, last, before, after⟩ := order_placed layerWf.linked exist
        (ScaleFactorization.alphaNode id layer output scale)
      have same : first ++ id :: last = front ++ id :: back := before.symm.trans order
      have firstAbsent : id ∉ first := layerWf.front_not_mem before
      obtain ⟨rfl, _⟩ := (List.append_cons_inj_of_notMem firstAbsent
        (List.nodup_cons.mp (List.nodup_append.mp (before ▸ layerWf.nodup)).2.1).1).mp same
      exact ⟨_, after⟩
  | @fuse input first scale bias _ _ fused reads _ source =>
      have fusedWf := wf.replace (listed_of_get source).2
        (AffineFusion.fusedNode_resembles first scale bias fused)
      have dropped := order_dropped fusedWf.nodup id
      have shape : (front ++ id :: back).filter (fun other => other != id) =
          front ++ (id :: back).filter fun other => other != id := by
        rw [List.filter_append]
        congr 1
        rw [List.filter_eq_self]
        intro other member
        rw [bne_iff_ne]
        rintro rfl
        exact absent member
      exact ⟨_, dropped.trans ((congrArg (List.filter _) order).trans shape)⟩

/-- A node in front that is fused after the change was fused before. -/
theorem fuses_front (member : other ∈ front) (there : graph.get other = .ok old)
    {producer : NodeId} (fuses : changed.Fuses producer other) :
    graph.Fuses producer other := by
  have apart : other ≠ id := by
    rintro rfl
    exact wf.front_not_mem order member
  obtain ⟨carry, carries, carried, _⟩ := rewrite.carries wf found there apart
  have single : old.inputs.length = 1 := by
    obtain ⟨now, relisted, reads, _⟩ := fuses.reader
    obtain rfl := Except.ok.inj (carried.symm.trans relisted)
    rw [← carries.inputs old, reads, List.length_singleton]
  have elsewhere := wf.input_ne_of_front order member there single
  cases rewrite with
  | @factor weight scale bias output others scaled unit divided outputs =>
      have resembles := ScaleFactorization.unitNode_resembles node weight bias
      let layer := ScaleFactorization.unitNode node weight bias
      have kept : (graph.replace id.index layer).get other = .ok old :=
        (get_replace_iff found).mpr (Or.inr ⟨apart, there⟩)
      refine (Fuses.replace_iff found resembles).mp
        (fuses.of_placed (wf.replace (listed_of_get found).2 resembles) kept ?_)
      exact fun reads => elsewhere _ reads rfl
  | @fuse input first scale bias _ _ fused reads affine source sourceAffine zero unexported alone =>
      have resembles := AffineFusion.fusedNode_resembles first scale bias fused
      obtain ⟨producer, output⟩ := input
      obtain rfl : output = 0 := zero
      have onto : graph.Fuses producer id :=
        ⟨⟨node, found, reads, affine⟩, ⟨first, source, sourceAffine⟩,
          by simpa [isOutput] using unexported, (wf.readers_eq_singleton_iff.mp alone).2⟩
      obtain ⟨now, kept, similar⟩ : ∃ now, (graph.replace producer.index
          (AffineFusion.fusedNode first scale bias fused)).get other = .ok now ∧
            now.inputs = old.inputs := by
        by_cases here : other = producer
        · subst here
          obtain rfl := Except.ok.inj (there.symm.trans source)
          exact ⟨_, get_replace source _, rfl⟩
        · exact ⟨old, (get_replace_iff source).mpr (Or.inr ⟨here, there⟩), rfl⟩
      exact (Fuses.replace_iff source resembles).mp
        ((onto.replace source resembles).of_bypassed fuses kept (similar ▸ elsewhere))

theorem steady_front (member : other ∈ front) (steady : graph.Steady other) :
    changed.Steady other := by
  have apart : other ≠ id := by
    rintro rfl
    exact wf.front_not_mem order member
  obtain ⟨old, there⟩ := wf.mem_order_iff.mp (order ▸ List.mem_append_left _ member)
  obtain ⟨carry, carries, carried, _⟩ := rewrite.carries wf found there apart
  obtain ⟨unscaled, free⟩ := (wf.steady_iff there).mp steady
  refine ((rewrite.wellFormed wf found).steady_iff carried).mpr ⟨?_, fun producer fuses => ?_⟩
  · rw [carries.isScaled_eq, unscaled]
  · exact free producer (rewrite.fuses_front wf found order member there fuses)

end Front

end Rewrite

end QuantNet
