import QuantNet.Proofs.Graph.Acceptance
import QuantNet.Proofs.Graph.Insertion
import QuantNet.Proofs.Graph.Revaluation
import QuantNet.Proofs.Pass.Consistency
import QuantNet.Scalar.Binary32
import QuantNet.Scalar.Exact

/-!
# Surgery on graphs

On every graph that operations and standard passes build, an insertion rewires the uses of one
tensor and nothing else, and the removal of the new node with rewiring takes it back.  A node that
forwards what it reads, or that nothing uses, makes no difference to the evaluation, whatever its
neighbours compute.
-/

namespace QuantNet

open QuantNet.Graph

variable {α : Type}

/-! ## What an insertion does -/

/-- A node that differs from another one in its inputs only, in that a tensor has taken the place
of another one there. -/
def Node.Rewired (old new : TensorRef) (before after : Node α) : Prop :=
  ∃ inputs, old.Replaced new before.inputs inputs ∧ after = { before with inputs }

/-- In the second graph a new node stands directly behind the producer of a tensor, and between
that tensor and all its users.  Nothing else differs. -/
structure Graph.Interposed (graph : Graph α) (anchor : TensorRef) (id : NodeId) (node : Node α)
    (changed : Graph α) : Prop where
  fresh : id ∉ graph.order
  order : ∃ front back, graph.order = front ++ anchor.node :: back ∧
    changed.order = front ++ anchor.node :: id :: back
  reader : changed.readers anchor = [id]
  heirs : changed.readers ⟨id, 0⟩ = graph.readers anchor
  outputs : anchor.Replaced ⟨id, 0⟩ graph.outputs changed.outputs
  itself : changed.get id = .ok node
  kept : ∀ ⦃other old⦄, graph.get other = .ok old →
    ∃ now, changed.get other = .ok now ∧ Node.Rewired anchor ⟨id, 0⟩ old now
  others : ∀ ⦃other now⦄, changed.get other = .ok now → other ≠ id →
    ∃ old, graph.get other = .ok old

namespace Graph

variable {graph : Graph α} {node : Node α} {anchor : TensorRef}

theorem WellFormed.interposed_placed (wf : graph.WellFormed) (produces : node.outputs ≠ [])
    (attached : ∀ ref ∈ node.inputs, graph.hasTensor ref = true)
    {rest : List TensorRef} (reads : node.inputs = anchor :: rest) :
    graph.Interposed anchor (graph.handle graph.issued) node (graph.placed anchor node) := by
  have anchored : anchor ∈ node.inputs := reads ▸ List.mem_cons_self
  have exist := attached anchor anchored
  have placedLinked := wf.linked.placed produces attached reads
  exact {
    fresh := wf.linked.fresh_not_mem
    order := order_placed wf.linked exist node
    reader := wf.linked.readers_placed exist placedLinked anchored
    heirs := wf.linked.readers_placed_fresh exist placedLinked attached
    outputs := wf.linked.replaced_outputs anchor
    itself := get_placed_iff.mpr (Or.inl ⟨rfl, rfl⟩)
    kept := by
      intro other old found
      have rewired := wf.linked.replaced_inputs (listed_of_get found).2 anchor
      exact ⟨_, get_placed_of_get found anchor node, _, rewired, rfl⟩
    others := by
      intro other now found apart
      rcases get_placed_iff.mp found with ⟨same, _⟩ | ⟨old, older, _⟩
      · exact absurd same apart
      · exact ⟨old, older⟩ }

end Graph

section

variable [Scalar α]

/-- An insertion that is accepted puts the node between its first input and all users of that. -/
theorem insert_interposes (tag : Nat) (actions : List (Action α)) {node : Node α} {id : NodeId}
    {changed : Graph α}
    (added : (actions.foldl Graph.after (Graph.empty tag)).insert node = .ok (id, changed)) :
    ∃ anchor, node.inputs.head? = some anchor ∧
      (actions.foldl Graph.after (Graph.empty tag)).Interposed anchor id node changed := by
  have wf := wellFormed_throughout tag actions
  obtain ⟨checked, anchor, rest, reads, _, rfl, rfl⟩ := wf.lists.insert_eq_ok_iff.mp added
  obtain ⟨produces, attached⟩ := checkNew_eq_ok_iff.mp checked
  refine ⟨anchor, ?_, wf.interposed_placed produces attached reads⟩
  rw [reads]
  rfl

end

/-- A node with two outputs.  Another node reads the first one twice and the second one in between,
and both are outputs of the graph. -/
def branching : List (Action Float32) :=
  [.operate (.addInput "x" [4] (.fixed 16 6 true .unset)),
    .operate (.push {
      kind := .activation
      name := "split"
      inputs := [⟨⟨0, 0⟩, 0⟩]
      outputs :=
        [⟨"split", [4], .fixed 16 6 true .unset⟩, ⟨"rest", [4], .fixed 8 3 true .unset⟩] }),
    .operate (.push (.single .dense "join" .empty [⟨⟨0, 1⟩, 0⟩, ⟨⟨0, 1⟩, 1⟩, ⟨⟨0, 1⟩, 0⟩] [4]
      (.fixed 16 6 true .unset))),
    .operate (.push (.single .activation "relu" .empty [⟨⟨0, 1⟩, 1⟩] [4]
      (.fixed 16 6 true .unset))),
    .operate (.addOutput ⟨⟨0, 1⟩, 1⟩), .operate (.addOutput ⟨⟨0, 1⟩, 0⟩),
    .operate (.addOutput ⟨⟨0, 3⟩, 0⟩)]

/-- A node that reads the first of the two outputs twice itself. -/
def twofold : Node Float32 :=
  .single .dense "twofold" .empty [⟨⟨0, 1⟩, 0⟩, ⟨⟨0, 1⟩, 0⟩] [4] (.fixed 16 6 true .unset)

theorem insert_interposes_twofold :
    let graph : Graph Float32 := branching.foldl Graph.after (Graph.empty 0)
    ∃ changed, graph.insert twofold = .ok (⟨0, 4⟩, changed) ∧
      changed.order = [⟨0, 0⟩, ⟨0, 1⟩, ⟨0, 4⟩, ⟨0, 2⟩, ⟨0, 3⟩] ∧
      changed.outputs = [⟨⟨0, 1⟩, 1⟩, ⟨⟨0, 4⟩, 0⟩, ⟨⟨0, 3⟩, 0⟩] ∧
      ∃ anchor, twofold.inputs.head? = some anchor ∧
        graph.Interposed anchor ⟨0, 4⟩ twofold changed :=
  ⟨_, rfl, rfl, rfl, insert_interposes 0 branching rfl⟩

/-! ## Taking an insertion back -/

/-- Nothing is left of a change but a number that is used up. -/
structure Graph.Restored (graph restored : Graph α) : Prop where
  tag : restored.tag = graph.tag
  order : restored.order = graph.order
  outputs : restored.outputs = graph.outputs
  nodes : ∀ index, restored.find? index = graph.find? index
  issued : restored.issued = graph.issued + 1

theorem Graph.restored_spent (graph : Graph α) : graph.Restored graph.spent where
  tag := rfl
  order := rfl
  outputs := rfl
  nodes := find?_spent graph
  issued := List.length_append

section

variable [Scalar α]

/-- After an insertion, and whatever is set about the new node afterwards, a removal with rewiring
restores the graph. -/
theorem remove_undoes_insert (tag : Nat) (actions : List (Action α)) {node : Node α}
    {input : TensorRef} {id : NodeId} {changed : Graph α} (reads : node.inputs = [input])
    (added : (actions.foldl Graph.after (Graph.empty tag)).insert node = .ok (id, changed))
    {settings : List (Operation α)} (adjusts : ∀ operation ∈ settings, operation.Adjusts id) :
    ∃ restored, (changed.replay settings).remove id true = .ok restored ∧
      (actions.foldl Graph.after (Graph.empty tag)).Restored restored := by
  have wf := wellFormed_throughout tag actions
  generalize actions.foldl Graph.after (Graph.empty tag) = graph at wf added ⊢
  obtain ⟨checked, anchor, rest, first, _, rfl, rfl⟩ := wf.lists.insert_eq_ok_iff.mp added
  obtain ⟨rfl, rfl⟩ := List.cons_eq_cons.mp (reads.symm.trans first)
  obtain ⟨produces, attached⟩ := checkNew_eq_ok_iff.mp checked
  obtain ⟨now, resembles, replayed⟩ := replay_placed_of_adjusts adjusts input node
  have exist := attached input (reads ▸ List.mem_singleton_self input)
  have placed : (graph.placed input now).WellFormed := by
    rw [← replayed]
    exact (wf.placed produces attached reads).replay settings
  refine ⟨graph.spent, ?_, graph.restored_spent⟩
  rw [replayed]
  exact wf.linked.remove_placed placed.linked exist (resembles.inputs.trans reads)

end

/-- Settings of the node that is inserted.  The last one fails, as it has no weights. -/
def tuning : List (Operation Float32) :=
  [.setOutputPrecision ⟨0, 4⟩ (.fixed 8 2 true .unset),
    .setAttr ⟨0, 4⟩ "activation" (.str "relu"),
    .setWeight ⟨0, 4⟩ .weight .empty]

theorem remove_undoes_insert_tuning :
    let graph : Graph Float32 := branching.foldl Graph.after (Graph.empty 0)
    let node : Node Float32 :=
      { kind := .activation
        name := "fork"
        inputs := [⟨⟨0, 1⟩, 0⟩]
        outputs :=
          [⟨"fork", [4], .fixed 16 6 true .unset⟩, ⟨"spare", [4], .fixed 8 3 true .unset⟩] }
    node.inputs = [⟨⟨0, 1⟩, 0⟩] ∧
      (∀ operation ∈ tuning, operation.Adjusts ⟨0, 4⟩) ∧
      ∃ changed, graph.insert node = .ok (⟨0, 4⟩, changed) ∧
        ∃ restored, (changed.replay tuning).remove ⟨0, 4⟩ true = .ok restored ∧
          graph.Restored restored := by
  intro graph node
  have adjusts : ∀ operation ∈ tuning, operation.Adjusts ⟨0, 4⟩ :=
    List.forall_mem_cons.mpr ⟨.setOutputPrecision, List.forall_mem_cons.mpr ⟨.setAttr,
      List.forall_mem_singleton.mpr .setWeight⟩⟩
  have reads : node.inputs = [⟨⟨0, 1⟩, 0⟩] := rfl
  obtain ⟨changed, added⟩ : ∃ changed, graph.insert node = .ok (⟨0, 4⟩, changed) := ⟨_, rfl⟩
  exact ⟨reads, adjusts, changed, added, remove_undoes_insert 0 branching reads added adjusts⟩

/-! ## Surgery that does not matter -/

section

variable [Scalar α]

/-- Two graphs have the same outputs wherever one of them has any. -/
def Graph.SameValues (graph changed : Graph α) : Prop :=
  ∀ inputs outs, graph.evaluate inputs = .ok outs ↔ changed.evaluate inputs = .ok outs

/-- Nodes that forward come and go, and unused ones go, without a difference to the outputs.  An
unused node may be the only one that does not evaluate. -/
structure Graph.Robust (graph : Graph α) : Prop where
  insert : ∀ ⦃producer first node⦄, graph.get producer = .ok first → Node.Forwards node →
    node.inputs = [⟨producer, 0⟩] → node.outputs ≠ [] →
      ∃ id changed, graph.insert node = .ok (id, changed) ∧ graph.SameValues changed
  bypass : ∀ ⦃id node input⦄, graph.get id = .ok node → node.Forwards → node.inputs = [input] →
    ∃ changed, graph.remove id true = .ok changed ∧ graph.SameValues changed
  drop : ∀ ⦃id node⦄, graph.get id = .ok node → node.kind ≠ .input → Operation.Unused graph id →
    ∃ changed, graph.remove id false = .ok changed ∧
      ∀ inputs outs, graph.evaluate inputs = .ok outs → changed.evaluate inputs = .ok outs

namespace Graph

variable {graph : Graph α} {id producer : NodeId} {node first : Node α} {input : TensorRef}

theorem WellFormed.insert_sameValues (wf : graph.WellFormed) (firsts : graph.NamesFirsts)
    (found : graph.get producer = .ok first) (forwards : node.Forwards)
    (reads : node.inputs = [⟨producer, 0⟩]) (produces : node.outputs ≠ []) :
    ∃ id changed, graph.insert node = .ok (id, changed) ∧ graph.SameValues changed := by
  have nonempty := wf.produces (listed_of_get found).2
  have exist : graph.hasTensor ⟨producer, 0⟩ = true :=
    hasTensor_iff_get.mpr ⟨first, found, List.length_pos_iff.mpr nonempty⟩
  have attached : ∀ ref ∈ node.inputs, graph.hasTensor ref = true := by
    rw [reads]
    exact List.forall_mem_singleton.mpr exist
  refine ⟨graph.handle graph.issued, graph.placed ⟨producer, 0⟩ node, ?_, fun inputs outs => ?_⟩
  · have checked := checkNew_eq_ok_iff.mpr ⟨produces, attached⟩
    have anchored := wf.linked.producer_mem exist
    exact wf.lists.insert_eq_ok_iff.mpr ⟨checked, _, [], reads, anchored, rfl, rfl⟩
  · exact wf.evaluate_placed_iff firsts forwards produces reads exist rfl

theorem WellFormed.bypass_sameValues (wf : graph.WellFormed) (firsts : graph.NamesFirsts)
    (found : graph.get id = .ok node) (forwards : node.Forwards) (reads : node.inputs = [input]) :
    ∃ changed, graph.remove id true = .ok changed ∧ graph.SameValues changed := by
  obtain ⟨named, listed⟩ := listed_of_get found
  have apart : input.node ≠ id := named ▸ wf.source_ne listed reads
  refine ⟨_, wf.linked.remove_of_node (node_of_get found) reads apart, fun inputs outs => ?_⟩
  rw [named]
  exact wf.evaluate_bypassed_iff forwards listed reads firsts

theorem WellFormed.drop_keeps_values (wf : graph.WellFormed) (found : graph.get id = .ok node)
    (kind : node.kind ≠ .input) (unused : Operation.Unused graph id) :
    ∃ changed, graph.remove id false = .ok changed ∧
      ∀ inputs outs, graph.evaluate inputs = .ok outs → changed.evaluate inputs = .ok outs := by
  have decided := wf.decided_remove_unused (get_eq_ok_iff.mp found).1
  obtain ⟨changed, removed⟩ := decided.exists_ok ⟨node, found, unused⟩
  obtain ⟨unread, unexported, named, rfl⟩ := wf.remove_unused removed
  refine ⟨_, removed, fun inputs outs done => ?_⟩
  rw [named] at unread unexported ⊢
  exact wf.evaluate_dropped (listed_of_get found).2 kind unread unexported done

end Graph

/-- Surgery that should not matter does not matter, on every graph in which all tensors in use are
first outputs. -/
theorem surgery_keeps_values (tag : Nat) (actions : List (Action α))
    (firsts : (actions.foldl Graph.after (Graph.empty tag)).NamesFirsts) :
    (actions.foldl Graph.after (Graph.empty tag)).Robust := by
  have wf := wellFormed_throughout tag actions
  exact {
    insert := fun _ _ _ => wf.insert_sameValues firsts
    bypass := fun _ _ _ => wf.bypass_sameValues firsts
    drop := fun _ _ => wf.drop_keeps_values }

end

/-- A linear activation between an activation and the output, and an activation that nothing
uses. -/
def relay : List (Action (Exact.Number fun _ => 0)) :=
  [.operate (.addInput "x" [1] (.fixed 16 6 true .unset)),
    .operate (.push (.single .activation "relu" (.ofList [("activation", .str "relu")])
      [⟨⟨0, 0⟩, 0⟩] [1] (.fixed 16 6 true .unset))),
    .operate (.push (.single .activation "linear" .empty [⟨⟨0, 1⟩, 0⟩] [1]
      (.fixed 16 6 true .unset))),
    .operate (.push (.single .activation "spare" .empty [⟨⟨0, 1⟩, 0⟩] [1]
      (.fixed 16 6 true .unset))),
    .operate (.addOutput ⟨⟨0, 2⟩, 0⟩)]

theorem surgery_keeps_values_relay :
    let graph : Graph (Exact.Number fun _ => 0) := relay.foldl Graph.after (Graph.empty 0)
    let number (x : ℚ) : Tensor (Exact.Number fun _ => 0) := .fill [1] x
    graph.NamesFirsts ∧ graph.Robust ∧
      ∃ changed, graph.remove ⟨0, 2⟩ true = .ok changed ∧
        changed.evaluate [number 3] = .ok [number 3] := by
  intro graph number
  have firsts : graph.NamesFirsts := by
    constructor
    · intro index node listed
      match index with
      | 0 | 1 | 2 | 3 =>
          obtain rfl := Option.some.inj listed
          simp [Node.single]
      | _ + 4 => cases listed
    · exact List.forall_mem_singleton.mpr rfl
  have robust := surgery_keeps_values 0 relay firsts
  have found : graph.get ⟨0, 2⟩ = .ok (.single .activation "linear" .empty [⟨⟨0, 1⟩, 0⟩] [1]
      (.fixed 16 6 true .unset)) :=
    rfl
  have before : graph.evaluate [number 3] = .ok [number 3] := by
    decide +kernel
  obtain ⟨changed, removed, same⟩ := robust.bypass found ⟨rfl, rfl⟩ rfl
  exact ⟨firsts, robust, changed, removed, (same _ _).mp before⟩

end QuantNet
