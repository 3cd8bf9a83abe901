import QuantNet.Proofs.Pass.Editing

/-!
# Consistency of slots, order and references

A graph keeps the same facts in three places: in the slots of its nodes, in its order, and in the
references of inputs and outputs.  They agree after every history of operations and runs of the
standard passes, runs that fail included.
-/

namespace QuantNet

/-- Slots, order and references of a graph agree. -/
structure Graph.Consistent {α : Type} (graph : Graph α) : Prop where
  once : graph.order.Nodup
  live : ∀ id, id ∈ graph.order ↔ graph.contains id = .ok true
  slots : ∀ index node, graph.slots[index]? = some (some node) ↔
    graph.handle index ∈ graph.order ∧ graph.get (graph.handle index) = .ok node
  reads : ∀ id node, graph.get id = .ok node → ∀ input ∈ node.inputs,
    ∃ producer, graph.get input.node = .ok producer ∧ input.output < producer.outputs.length
  exports : ∀ ref ∈ graph.outputs,
    ∃ producer, graph.get ref.node = .ok producer ∧ ref.output < producer.outputs.length

/-- The standard passes, in any selection. -/
inductive StandardPass where
  | scaleFactorization
  | affineFusion
  | outputModes (selection : ModeSelection)
deriving DecidableEq, Repr

/-- A step in the life of a graph: an operation, or a run of standard passes that ends within some
number of scans. -/
inductive Action (α : Type) where
  | operate (operation : Operation α)
  | optimize (limit : Option Nat) (passes : List StandardPass) (fuel : Nat)

namespace Graph

variable {α : Type} {graph changed : Graph α}

theorem WellFormed.insert (wf : graph.WellFormed) {node : Node α} {inserted : NodeId}
    (added : graph.insert node = .ok (inserted, changed)) : changed.WellFormed := by
  obtain ⟨checked, anchor, rest, reads, _, _, rfl⟩ := wf.lists.insert_eq_ok_iff.mp added
  obtain ⟨produces, exist⟩ := checkNew_eq_ok_iff.mp checked
  exact wf.placed produces exist reads

theorem WellFormed.remove (wf : graph.WellFormed) {id : NodeId}
    (removed : graph.remove id true = .ok changed) : changed.WellFormed := by
  obtain ⟨node, input, named, listed, reads, rfl⟩ :=
    wf.linked.remove_rewire (fun _ _ => wf.source_ne) removed
  rw [named]
  exact wf.bypassed listed reads

theorem WellFormed.consistent (wf : graph.WellFormed) : graph.Consistent where
  once := wf.nodup
  live := fun _ => wf.mem_order_iff.trans contains_eq_ok_true_iff.symm
  slots := by
    intro index node
    rw [get_handle_eq_ok_iff, ← find?_eq_some_iff]
    exact ⟨fun listed => ⟨wf.linked.handle_mem_order listed, listed⟩, And.right⟩
  reads := by
    intro id node found input member
    exact hasTensor_iff_get.mp (wf.reads (listed_of_get found).2 input member)
  exports := fun ref member => hasTensor_iff_get.mp (wf.exports ref member)

end Graph

section Passes

variable {α : Type} [Scalar α] {graph : Graph α}

def StandardPass.pass : StandardPass → Pass α
  | scaleFactorization => ScaleFactorization.pass
  | affineFusion => AffineFusion.pass
  | outputModes selection => OutputModes.pass selection

/-- The graph after a step in its life.  A run that does not end in time has no result. -/
def Graph.after (graph : Graph α) : Action α → Graph α
  | .operate operation => (operation.perform graph).1
  | .optimize limit passes fuel =>
      match Optimizer.runWithin ⟨limit, passes.map StandardPass.pass⟩ fuel graph with
      | some run => run.graph
      | none => graph

theorem StandardPass.keeps_wellFormed (kind : StandardPass) :
    (kind.pass : Pass α).Keeps Graph.WellFormed := by
  have tolerant : Graph.Tolerant (Graph.WellFormed (α := α)) :=
    fun _ _ _ _ wf found resembles => wf.replace (Graph.listed_of_get found).2 resembles
  intro graph id wf _
  cases kind with
  | scaleFactorization =>
      refine ScaleFactorization.keeps_patch tolerant id ?_ wf
      exact fun _ _ _ _ _ _ wf added => wf.insert added
  | affineFusion =>
      refine AffineFusion.keeps_patch tolerant id ?_ wf
      exact fun _ _ wf removed => wf.remove removed
  | outputModes selection => exact OutputModes.keeps_patch tolerant selection id wf

theorem Graph.WellFormed.after (wf : graph.WellFormed) (action : Action α) :
    (graph.after action).WellFormed := by
  cases action with
  | operate operation => exact wf.perform operation
  | optimize limit passes fuel =>
      have keeps : ∀ pass ∈ passes.map (StandardPass.pass (α := α)),
          pass.Keeps Graph.WellFormed := by
        intro pass member
        obtain ⟨kind, _, rfl⟩ := List.mem_map.mp member
        exact kind.keeps_wellFormed
      simp only [Graph.after]
      split
      · next run ended => exact Optimizer.kept_of_runWithin _ keeps wf ended
      · exact wf

theorem Graph.WellFormed.foldl_after (wf : graph.WellFormed) (actions : List (Action α)) :
    (actions.foldl Graph.after graph).WellFormed := by
  induction actions generalizing graph with
  | nil => exact wf
  | cons action rest inductionHypothesis => exact inductionHypothesis (wf.after action)

theorem Graph.wellFormed_throughout (tag : Nat) (actions : List (Action α)) :
    (actions.foldl Graph.after (Graph.empty tag)).WellFormed :=
  (WellFormed.empty tag).foldl_after actions

/-- Slots, order and references agree after every sequence of operations and runs. -/
theorem Graph.consistent_throughout (tag : Nat) (actions : List (Action α)) :
    (actions.foldl Graph.after (Graph.empty tag)).Consistent :=
  (wellFormed_throughout tag actions).consistent

end Passes

end QuantNet
