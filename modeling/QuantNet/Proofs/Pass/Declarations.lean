import QuantNet.Proofs.Graph.Sorted
import QuantNet.Proofs.Pass.Editing
import QuantNet.Proofs.Pass.Fusing
import QuantNet.Proofs.Pass.Inversion
import QuantNet.Scalar.Binary32

/-!
# Declared types of the tensors in use

Every output of a node is declared with a shape and a precision.  A pass that changes the topology
leaves the declarations of the nodes that stay as they are, but it gives other tensors to the users
of its node.  Scale factorization declares the tensor that it puts in front of them like the one
that they had.  Affine fusion hands them the tensor that its node reads, whatever that is declared
to be.
-/

namespace QuantNet

open QuantNet.Graph

variable {α : Type} {graph changed : Graph α} {id : NodeId} {node : Node α} {input ref : TensorRef}

namespace Graph

theorem tensor_eq_ok_iff {output : Output} :
    graph.tensor ref = .ok output ↔
      ∃ node, graph.get ref.node = .ok node ∧ node.outputs[ref.output]? = some output := by
  simp only [tensor, except_bind_eq_ok]
  refine exists_congr fun node => and_congr_right fun _ => ?_
  cases node.outputs[ref.output]? <;> simp

/-- A tensor of one graph and a tensor of another are declared with the same shape and the same
precision. -/
def SameType (graph changed : Graph α) (old new : TensorRef) : Prop :=
  ∃ before after, graph.tensor old = .ok before ∧ changed.tensor new = .ok after ∧
    after.shape = before.shape ∧ after.precision = before.precision

/-- Wherever a node that stays, or an output of the graph, was given another tensor, that tensor is
declared like the old one. -/
structure KeepsTypes (graph changed : Graph α) : Prop where
  reads : ∀ ⦃id old new⦄, graph.get id = .ok old → changed.get id = .ok new →
    List.Forall₂ (fun was is => was ≠ is → graph.SameType changed was is) old.inputs new.inputs
  exports :
    List.Forall₂ (fun was is => was ≠ is → graph.SameType changed was is)
      graph.outputs changed.outputs

/-- A node that reads one tensor produces, as far as it is used, tensors that are declared like the
one that it reads. -/
def Transparent (graph : Graph α) (id : NodeId) : Prop :=
  ∀ ⦃node input ref⦄, graph.get id = .ok node → node.inputs = [input] → ref.node = id →
    graph.isUsed ref = true → graph.SameType graph ref input

/-- A node with a single output is transparent if this output is declared like its source. -/
theorem Sorted.transparent_of_single (sorted : graph.Sorted) {output : Output}
    (found : graph.get id = .ok node) (outputs : node.outputs = [output])
    (same : ∀ input, node.inputs = [input] → graph.SameType graph ⟨id, 0⟩ input) :
    graph.Transparent id := by
  intro other input ref again reads own used
  obtain rfl := Except.ok.inj (found.symm.trans again)
  have exist : graph.hasTensor ref = true := by
    rcases (isUsed_iff sorted.toLinked.lists).mp used with exported | ⟨reader, node, there, read⟩
    · exact sorted.exports ref exported
    · exact sorted.reads (listed_of_get there).2 ref read
  obtain ⟨_, there, below⟩ := hasTensor_iff_get.mp exist
  rw [own] at there
  obtain rfl := Except.ok.inj (found.symm.trans there)
  rw [outputs, List.length_singleton, Nat.lt_one_iff] at below
  have first : ref = ⟨id, 0⟩ := by
    cases ref
    cases own
    cases below
    rfl
  rw [first]
  exact same input reads

/-! ## Uses that are renamed -/

/-- What a change of the topology does to the nodes that stay: their uses of tensors are renamed,
and their declarations are the same. -/
structure Rewires (graph changed : Graph α) (f : TensorRef → TensorRef) : Prop where
  inputs : ∀ ⦃id old new⦄, graph.get id = .ok old → changed.get id = .ok new →
    new.inputs = old.inputs.map f
  outputs : ∀ ⦃id old new⦄, graph.get id = .ok old → changed.get id = .ok new →
    new.outputs = old.outputs
  exports : changed.outputs = graph.outputs.map f

namespace Rewires

variable {f : TensorRef → TensorRef}

/-- A tensor of a node that stays is declared as it was. -/
theorem tensor_eq (rewires : graph.Rewires changed f) {old new : Node α}
    (found : graph.get ref.node = .ok old) (there : changed.get ref.node = .ok new) :
    changed.tensor ref = graph.tensor ref := by
  simp only [tensor, except_ok_bind, found, there, rewires.outputs found there]

theorem keepsTypes_iff (rewires : graph.Rewires changed f) :
    graph.KeepsTypes changed ↔
      (∀ ⦃id old new⦄, graph.get id = .ok old → changed.get id = .ok new → ∀ ref ∈ old.inputs,
        ref ≠ f ref → graph.SameType changed ref (f ref)) ∧
        ∀ ref ∈ graph.outputs, ref ≠ f ref → graph.SameType changed ref (f ref) := by
  have pairs : ∀ refs : List TensorRef,
      List.Forall₂ (fun was is => was ≠ is → graph.SameType changed was is) refs (refs.map f) ↔
        ∀ ref ∈ refs, ref ≠ f ref → graph.SameType changed ref (f ref) := by
    intro refs
    rw [List.forall₂_map_right_iff, List.forall₂_same]
  constructor
  · rintro ⟨reads, exports⟩
    refine ⟨fun id old new found there => ?_, (pairs _).mp (rewires.exports ▸ exports)⟩
    have each := reads found there
    rw [rewires.inputs found there] at each
    exact (pairs _).mp each
  · rintro ⟨reads, exports⟩
    refine ⟨fun id old new found there => ?_, ?_⟩
    · rw [rewires.inputs found there]
      exact (pairs _).mpr (reads found there)
    · rw [rewires.exports]
      exact (pairs _).mpr exports

end Rewires

theorem Linked.get_fresh (linked : graph.Linked) :
    graph.get (graph.handle graph.issued) ≠ .ok node :=
  fun found => linked.fresh_not_mem (linked.mem_order_iff.mpr ⟨node, found⟩)

/-- Where a node was replaced by one with the same declarations, all nodes are declared as
before. -/
theorem declared_of_replace {old new was is : Node α} {other : NodeId}
    (found : graph.get id = .ok old) (inputs : new.inputs = old.inputs)
    (outputs : new.outputs = old.outputs) (before : graph.get other = .ok was)
    (after : (graph.replace id.index new).get other = .ok is) :
    is.inputs = was.inputs ∧ is.outputs = was.outputs := by
  rcases (get_replace_iff found).mp after with ⟨rfl, rfl⟩ | ⟨_, same⟩
  · obtain rfl := Except.ok.inj (before.symm.trans found)
    exact ⟨inputs, outputs⟩
  · obtain rfl := Except.ok.inj (before.symm.trans same)
    exact ⟨rfl, rfl⟩

/-- A node is put behind a node that was replaced by one with the same declarations. -/
theorem rewires_placed (linked : graph.Linked) {old new : Node α} (found : graph.get id = .ok old)
    (inputs : new.inputs = old.inputs) (outputs : new.outputs = old.outputs) (anchor : TensorRef)
    (placedNode : Node α) :
    graph.Rewires ((graph.replace id.index new).placed anchor placedNode)
      (anchor.instead ⟨graph.handle graph.issued, 0⟩) := by
  have fresh : (graph.replace id.index new).handle (graph.replace id.index new).issued =
      graph.handle graph.issued := by
    rw [issued_replace]
    rfl
  have stays : ∀ {other : NodeId} {was is : Node α}, graph.get other = .ok was →
      ((graph.replace id.index new).placed anchor placedNode).get other = .ok is →
        is.inputs = was.inputs.map (anchor.instead ⟨graph.handle graph.issued, 0⟩) ∧
          is.outputs = was.outputs := by
    intro other was is before after
    rw [get_placed_iff, fresh] at after
    rcases after with ⟨rfl, _⟩ | ⟨middle, there, rfl⟩
    · exact absurd before linked.get_fresh
    · obtain ⟨sameInputs, sameOutputs⟩ := declared_of_replace found inputs outputs before there
      exact ⟨congrArg (List.map _) sameInputs, sameOutputs⟩
  refine ⟨fun _ _ _ before after => (stays before after).1,
    fun _ _ _ before after => (stays before after).2, ?_⟩
  rw [← fresh]
  rfl

/-- A node is bypassed behind a node that was replaced by one with the same declarations. -/
theorem rewires_bypassed {first new : Node α} (found : graph.get id = .ok node)
    (source : graph.get input.node = .ok first) (apart : input.node ≠ id)
    (inputs : new.inputs = first.inputs) (outputs : new.outputs = first.outputs) :
    graph.Rewires ((graph.replace input.node.index new).bypassed id input)
      (TensorRef.past id input) := by
  have there : (graph.replace input.node.index new).get id = .ok node :=
    (get_replace_iff source).mpr (Or.inr ⟨apart.symm, found⟩)
  have stays : ∀ {other : NodeId} {was is : Node α}, graph.get other = .ok was →
      ((graph.replace input.node.index new).bypassed id input).get other = .ok is →
        is.inputs = was.inputs.map (TensorRef.past id input) ∧ is.outputs = was.outputs := by
    intro other was is before after
    obtain ⟨_, middle, within, rfl⟩ := (get_bypassed_iff there).mp after
    obtain ⟨sameInputs, sameOutputs⟩ := declared_of_replace source inputs outputs before within
    exact ⟨congrArg (List.map _) sameInputs, sameOutputs⟩
  exact ⟨fun _ _ _ before after => (stays before after).1,
    fun _ _ _ before after => (stays before after).2, rfl⟩

end Graph

/-! ## The two passes -/

variable [Scalar α] {topologyChanged : Bool}

namespace ScaleFactorization

/-- The tensor that a layer's users get is declared like the one that they had. -/
private theorem sameType_factored (found : graph.get id = .ok node) {output : Output}
    {others : List Output} (outputs : node.outputs = output :: others) (layer : Node α)
    (scale : Tensor α) :
    graph.SameType (factored graph id layer output scale) ⟨id, 0⟩
      ⟨graph.handle graph.issued, 0⟩ := by
  have fresh : (graph.replace id.index layer).handle (graph.replace id.index layer).issued =
      graph.handle graph.issued := by
    rw [issued_replace]
    rfl
  have behind : (factored graph id layer output scale).get (graph.handle graph.issued) =
      .ok (alphaNode id layer output scale) :=
    get_placed_iff.mpr (Or.inl ⟨fresh.symm, rfl⟩)
  refine ⟨output, { output with name := layer.name ++ suffix }, ?_, ?_, rfl, rfl⟩
  · exact tensor_eq_ok_iff.mpr ⟨node, found, by rw [outputs]; rfl⟩
  · exact tensor_eq_ok_iff.mpr ⟨_, behind, rfl⟩

theorem keepsTypes_of_patch (sorted : graph.Sorted)
    (done : patch id graph = .ok topologyChanged changed) :
    (∃ layer, changed.get id = .ok layer) ∧ graph.KeepsTypes changed := by
  obtain ⟨node, weight, scale, bias, output, others, found, outputs, rfl⟩ :=
    exists_factored_of_patch_eq_ok sorted.toLinked done
  have rewires := rewires_placed sorted.toLinked found (unitNode_resembles node weight bias).inputs
    (unitNode_outputs node weight bias) ⟨id, 0⟩
    (alphaNode id (unitNode node weight bias) output scale)
  have same := sameType_factored found outputs (unitNode node weight bias) scale
  have renamed : ∀ ref, ref ≠ TensorRef.instead ⟨id, 0⟩ ⟨graph.handle graph.issued, 0⟩ ref →
      graph.SameType (factored graph id (unitNode node weight bias) output scale) ref
        (TensorRef.instead ⟨id, 0⟩ ⟨graph.handle graph.issued, 0⟩ ref) := by
    intro ref moved
    by_cases own : ref = ⟨id, 0⟩
    · rw [own, TensorRef.instead_self]
      exact same
    · exact absurd (TensorRef.instead_of_ne own).symm moved
  exact ⟨⟨_, get_placed_of_get (get_replace found _) _ _⟩,
    rewires.keepsTypes_iff.mpr ⟨fun _ _ _ _ _ ref _ => renamed ref, fun ref _ => renamed ref⟩⟩

end ScaleFactorization

namespace AffineFusion

/-- The users of the second of two nodes get the tensor that it reads, with the declaration that
this tensor had. -/
theorem keepsTypes_iff_of_patch (sorted : graph.Sorted)
    (done : patch id graph = .ok topologyChanged changed) :
    (∀ node, changed.get id ≠ .ok node) ∧ (graph.KeepsTypes changed ↔ graph.Transparent id) := by
  have apart : ∀ ⦃node input⦄, graph.get id = .ok node → node.inputs = [input] →
      input.node ≠ id := by
    intro node input found reads
    obtain ⟨named, listed⟩ := listed_of_get found
    exact fun same => sorted.source_ne listed reads (same.trans named)
  obtain ⟨node, input, first, scale, bias, fused, found, reads, source, bypass⟩ :=
    exists_bypassed_of_patch_eq_ok sorted.toLinked apart done
  have different := apart found reads
  have there :
      (graph.replace input.node.index (fusedNode first scale bias fused)).get id = .ok node :=
    (get_replace_iff source).mpr (Or.inr ⟨different.symm, found⟩)
  have gone : ∀ other, changed.get id ≠ .ok other := by
    rw [bypass]
    exact fun other late => ((get_bypassed_iff there).mp late).1 rfl
  have stays : ∀ ⦃other old⦄, graph.get other = .ok old → other ≠ id →
      ∃ new, changed.get other = .ok new := by
    rw [bypass]
    exact fun other old before alive =>
      ⟨_, get_bypassed_of_get there (get_replace_eq source before _) alive input⟩
  have rewires : graph.Rewires changed (TensorRef.past id input) := by
    rw [bypass]
    exact rewires_bypassed found source different
      (fusedNode_resembles first scale bias fused).inputs rfl
  -- The producer has new weights and the old declarations.
  have same : ∀ ref, graph.SameType changed ref input ↔ graph.SameType graph ref input := by
    obtain ⟨new, after⟩ := stays source different
    simp only [SameType, rewires.tensor_eq source after, implies_true]
  refine ⟨gone, rewires.keepsTypes_iff.trans ⟨?_, ?_⟩⟩
  · rintro ⟨readers, exports⟩ other place ref again only own used
    obtain rfl := Except.ok.inj (found.symm.trans again)
    obtain rfl := List.singleton_inj.mp (reads.symm.trans only)
    have renamed : TensorRef.past id input ref = input := TensorRef.past_of_eq own
    have moved : ref ≠ TensorRef.past id input ref := by
      rw [renamed]
      exact fun equal => different (equal ▸ own)
    have kept : graph.SameType changed ref (TensorRef.past id input ref) := by
      rcases (isUsed_iff sorted.toLinked.lists).mp used with exported | ⟨reader, old, before, read⟩
      · exact exports ref exported moved
      · have alive : reader ≠ id := by
          rintro rfl
          obtain rfl := Except.ok.inj (found.symm.trans before)
          rw [reads] at read
          exact moved ((List.mem_singleton.mp read).trans renamed.symm)
        obtain ⟨new, after⟩ := stays before alive
        exact readers before after ref read moved
    rw [renamed] at kept
    exact (same ref).mp kept
  · intro transparent
    have lists := sorted.toLinked.lists
    have kept : ∀ ref, graph.isUsed ref = true → ref ≠ TensorRef.past id input ref →
        graph.SameType changed ref (TensorRef.past id input ref) := by
      intro ref used moved
      by_cases own : ref.node = id
      · rw [TensorRef.past_of_eq own]
        exact (same ref).mpr (transparent found reads own used)
      · exact absurd (TensorRef.past_of_ne own).symm moved
    exact ⟨fun reader old _ before _ ref read => kept ref
        ((isUsed_iff lists).mpr (Or.inr ⟨reader, old, before, read⟩)),
      fun ref exported => kept ref ((isUsed_iff lists).mpr (Or.inl exported))⟩

end AffineFusion

/-- A pass that changes the topology keeps the declared types of all that it rewires exactly if the
node that it is applied to stays, or is declared like the tensor that it reads. -/
theorem topology_passes_keep_types_iff (sorted : graph.Sorted) {pass : Pass α}
    (member : pass ∈ topologyPasses α)
    (done : pass.patch id graph = .ok topologyChanged changed) :
    graph.KeepsTypes changed ↔ (∃ node, changed.get id = .ok node) ∨ graph.Transparent id := by
  simp only [topologyPasses, List.mem_cons, List.not_mem_nil, or_false] at member
  rcases member with rfl | rfl
  · obtain ⟨stays, keeps⟩ := ScaleFactorization.keepsTypes_of_patch sorted done
    exact iff_of_true keeps (Or.inl stays)
  · obtain ⟨gone, keeps⟩ := AffineFusion.keepsTypes_iff_of_patch sorted done
    rw [keeps, or_iff_right (not_exists.mpr gone)]

/-- A model that normalizes its input twice, the second time to another precision. -/
def normalizedTo (precision : Precision) : List (Operation Float32) :=
  let weight (x : Float32) : Weight Float32 := { data := .fill [1] x }
  let affine (name : String) (source : Nat) (precision : Precision) : Node Float32 :=
    (Node.single .batchNormalization name .empty [⟨⟨0, source⟩, 0⟩] [1, 1] precision)
      |>.withWeight .scale (weight 2) |>.withWeight .bias (weight 1)
  [.addInput "x" [1, 1] (.fixed 16 6 true .unset),
    .push (affine "first" 0 (.fixed 16 6 true .unset)), .push (affine "second" 1 precision),
    .addOutput ⟨⟨0, 2⟩, 0⟩]

private theorem sorted_normalizedTo (precision : Precision) :
    ((Graph.empty 0).replay (normalizedTo precision)).Sorted :=
  .replay 0 _ fun node member => by
    simp [normalizedTo] at member

theorem topology_passes_keep_types_normalizedTo :
    let graph := (Graph.empty 0).replay (normalizedTo (.fixed 16 6 true .unset))
    graph.Sorted ∧ (AffineFusion.pass : Pass Float32).applies graph ⟨0, 2⟩ = .ok true ∧
      ∃ changed, (AffineFusion.pass : Pass Float32).patch ⟨0, 2⟩ graph = .ok true changed ∧
        graph.KeepsTypes changed := by
  intro graph
  have sorted : graph.Sorted := sorted_normalizedTo _
  have applies : (AffineFusion.pass : Pass Float32).applies graph ⟨0, 2⟩ = .ok true := by
    decide +kernel
  have succeeded : ((AffineFusion.pass : Pass Float32).patch ⟨0, 2⟩).run' graph = some true := by
    decide +kernel
  have done := Patch.eq_ok_of_run' succeeded
  obtain ⟨node, found, inputs, outputs⟩ : ∃ node, graph.get ⟨0, 2⟩ = .ok node ∧
      node.inputs = [⟨⟨0, 1⟩, 0⟩] ∧
        node.outputs = [⟨"second", [1, 1], .fixed 16 6 true .unset⟩] :=
    ⟨_, rfl, rfl, rfl⟩
  have transparent : graph.Transparent ⟨0, 2⟩ := by
    refine sorted.transparent_of_single found outputs fun input reads => ?_
    obtain rfl := List.singleton_inj.mp (inputs.symm.trans reads)
    exact ⟨_, _, rfl, rfl, rfl, rfl⟩
  have member : AffineFusion.pass ∈ topologyPasses Float32 := by
    simp [topologyPasses]
  have keeps := (topology_passes_keep_types_iff sorted member done).mpr (Or.inr transparent)
  exact ⟨sorted, applies, _, done, keeps⟩

/-- The output of the model, of eight bits, is handed over to a tensor of sixteen. -/
theorem fusion_changes_declared_type :
    ¬ ∀ (graph changed : Graph Float32) (id : NodeId) (pass : Pass Float32)
      (topologyChanged : Bool), graph.Sorted → pass ∈ topologyPasses Float32 →
        pass.applies graph id = .ok true →
          pass.patch id graph = .ok topologyChanged changed → graph.KeepsTypes changed := by
  intro claim
  let graph := (Graph.empty 0).replay (normalizedTo (.fixed 8 3 true .unset))
  have applies : (AffineFusion.pass : Pass Float32).applies graph ⟨0, 2⟩ = .ok true := by
    decide +kernel
  have succeeded : ((AffineFusion.pass : Pass Float32).patch ⟨0, 2⟩).run' graph = some true := by
    decide +kernel
  have done := Patch.eq_ok_of_run' succeeded
  have member : AffineFusion.pass ∈ topologyPasses Float32 := by
    simp [topologyPasses]
  have exports :=
    (claim graph _ ⟨0, 2⟩ _ true (sorted_normalizedTo _) member applies done).exports
  have before : graph.outputs = [⟨⟨0, 2⟩, 0⟩] := by
    decide +kernel
  have after : (((AffineFusion.pass : Pass Float32).patch ⟨0, 2⟩).leaves graph).outputs =
      [⟨⟨0, 1⟩, 0⟩] := by
    decide +kernel
  rw [before, after, List.forall₂_cons] at exports
  obtain ⟨was, is, declared, redeclared, _, precision⟩ := exports.1 (by decide)
  have eight : graph.tensor ⟨⟨0, 2⟩, 0⟩ = .ok ⟨"second", [1, 1], .fixed 8 3 true .unset⟩ := by
    decide +kernel
  have sixteen : (((AffineFusion.pass : Pass Float32).patch ⟨0, 2⟩).leaves graph).tensor
      ⟨⟨0, 1⟩, 0⟩ = .ok ⟨"first", [1, 1], .fixed 16 6 true .unset⟩ := by
    decide +kernel
  obtain rfl := Except.ok.inj (eight.symm.trans declared)
  obtain rfl := Except.ok.inj (sixteen.symm.trans redeclared)
  cases precision

end QuantNet
