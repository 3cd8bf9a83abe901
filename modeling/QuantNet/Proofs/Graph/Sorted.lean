import QuantNet.Proofs.Graph.Counting
import QuantNet.Proofs.Graph.Replacement
import QuantNet.Proofs.Graph.Topological

/-!
# Sorted graphs

A graph is sorted if slots, order and references agree and every node stands behind the producers of
all that it reads.  Nodes without outputs are allowed.  A graph stays sorted when a node is
replaced, placed behind the only node that it reads, or bypassed; and it goes on where it was: its
input nodes are the same, and the nodes that are still there stand in their old order.
-/

namespace QuantNet

/-- Without repetitions, a part of a list in its order is found by membership. -/
private theorem filter_mem_eq_of_sublist {β : Type} [DecidableEq β] {part items : List β}
    (nodup : items.Nodup) (sublist : part.Sublist items) :
    items.filter (fun item => decide (item ∈ part)) = part := by
  have all : part.filter (fun item => decide (item ∈ part)) = part :=
    List.filter_eq_self.mpr fun item member => decide_eq_true member
  have inner := sublist.filter fun item => decide (item ∈ part)
  rw [all] at inner
  have same : part.Perm (items.filter fun item => decide (item ∈ part)) := by
    apply (List.perm_ext_iff_of_nodup (sublist.nodup nodup) (nodup.filter _)).mpr
    intro item
    rw [List.mem_filter, decide_eq_true_eq]
    exact ⟨fun member => ⟨sublist.subset member, member⟩, And.right⟩
  exact (inner.eq_of_length same.length_eq).symm

namespace Graph

variable {α : Type} {graph middle changed : Graph α} {id : NodeId} {index : Nat} {node : Node α}
  {input : TensorRef}

/-- Slots, order and uses of tensors fit together, and the order is topological. -/
structure Sorted (graph : Graph α) : Prop extends graph.Linked where
  ordered : graph.Ordered

/-- A graph that comes from another one with the same input nodes.  The old nodes that it still has
stand in their old order; new nodes have new handles. -/
structure Continues (graph changed : Graph α) : Prop where
  issued : graph.issued ≤ changed.issued
  inputs : changed.inputs = graph.inputs
  order : (changed.order.filter fun id => decide (id.index < graph.issued)).Sublist graph.order

namespace Continues

theorem refl (graph : Graph α) : graph.Continues graph :=
  ⟨Nat.le_refl _, rfl, List.filter_sublist⟩

theorem trans (first : graph.Continues middle) (second : middle.Continues changed) :
    graph.Continues changed where
  issued := Nat.le_trans first.issued second.issued
  inputs := second.inputs.trans first.inputs
  order := by
    have late := second.order.filter fun id => decide (id.index < graph.issued)
    rw [List.filter_filter] at late
    have early : (changed.order.filter fun id => decide (id.index < graph.issued)) =
        changed.order.filter fun id =>
          decide (id.index < graph.issued) && decide (id.index < middle.issued) := by
      apply List.filter_congr
      intro id _
      have reach := first.issued
      by_cases old : id.index < graph.issued
      · simp [old, Nat.lt_of_lt_of_le old reach]
      · simp [old]
    rw [early]
    exact late.trans first.order

/-- The nodes that both graphs have stand in the same order in both. -/
theorem filter_order (continues : graph.Continues changed) (linked : graph.Linked) :
    changed.order.filter (fun id => decide (id ∈ graph.order)) =
      graph.order.filter fun id => decide (id ∈ changed.order) := by
  have old : (changed.order.filter fun id => decide (id ∈ graph.order)) =
      changed.order.filter fun id => decide (id.index < graph.issued) := by
    apply List.filter_congr
    intro id member
    apply decide_eq_decide.mpr
    constructor
    · intro live
      obtain ⟨_, node, listed⟩ := linked.mem_order.mp live
      exact issued_of_find? listed
    · intro early
      exact continues.order.subset (List.mem_filter.mpr ⟨member, decide_eq_true early⟩)
  have kept := filter_mem_eq_of_sublist linked.nodup (old ▸ continues.order)
  rw [← kept]
  apply List.filter_congr
  intro id live
  simp [List.mem_filter, live]

end Continues

namespace Sorted

theorem source (sorted : graph.Sorted) (listed : graph.find? index = some node)
    (reads : node.inputs = [input]) : graph.Before input.node (graph.handle index) :=
  sorted.ordered listed trivial input (reads ▸ List.mem_singleton_self input)

/-- A node with a single input does not read a tensor of its own. -/
theorem source_ne (sorted : graph.Sorted) (listed : graph.find? index = some node)
    (reads : node.inputs = [input]) : input.node ≠ graph.handle index :=
  (sorted.source listed reads).ne sorted.nodup

theorem exist (sorted : graph.Sorted) (listed : graph.find? index = some node)
    (reads : node.inputs = [input]) : graph.hasTensor input = true :=
  sorted.reads listed input (reads ▸ List.mem_singleton_self input)

/-! ## Edits -/

theorem replace (sorted : graph.Sorted) {new : Node α} (found : graph.get id = .ok node)
    (resembles : new.Resembles node) :
    (graph.replace id.index new).Sorted ∧ graph.Continues (graph.replace id.index new) := by
  have listed := (listed_of_get found).2
  refine ⟨⟨sorted.toLinked.replace listed resembles, sorted.ordered.replace listed resembles⟩,
    ?_, sorted.toLinked.inputs_replace listed resembles, List.filter_sublist⟩
  exact Nat.le_of_eq (issued_replace graph id.index new).symm

theorem placed (sorted : graph.Sorted) (produces : node.outputs ≠ [])
    (reads : node.inputs = [input]) (exist : graph.hasTensor input = true)
    (kind : node.kind ≠ .input) :
    (graph.placed input node).Sorted ∧ graph.Continues (graph.placed input node) := by
  have onlyInput : ∀ other ∈ node.inputs, other = input := fun other member =>
    List.mem_singleton.mp (reads ▸ member)
  have linked := sorted.toLinked.placed produces
    (fun other member => onlyInput other member ▸ exist) reads
  have ordered : (graph.placed input node).Ordered :=
    sorted.ordered.placed sorted.toLinked exist fun _ other member =>
      Or.inl (congrArg TensorRef.node (onlyInput other member))
  refine ⟨⟨linked, ordered⟩, ?_, sorted.toLinked.inputs_placed exist linked kind, ?_⟩
  · have issued : (graph.placed input node).issued = graph.issued + 1 := by
      simp [Graph.issued, Graph.placed, rename]
    omega
  · obtain ⟨front, back, oldOrder, newOrder⟩ := order_placed sorted.toLinked exist node
    have same : ((graph.placed input node).order.filter fun id =>
          decide (id.index < graph.issued)) =
        graph.order.filter fun id => decide (id.index < graph.issued) := by
      rw [newOrder, oldOrder]
      simp [List.filter_cons, handle]
    rw [same]
    exact List.filter_sublist

theorem bypassed (sorted : graph.Sorted) (listed : graph.find? index = some node)
    (reads : node.inputs = [input]) (kind : node.kind ≠ .input) :
    (graph.bypassed (graph.handle index) input).Sorted ∧
      graph.Continues (graph.bypassed (graph.handle index) input) := by
  have exist := sorted.exist listed reads
  have apart := sorted.source_ne listed reads
  refine ⟨⟨sorted.toLinked.bypassed exist apart,
    sorted.ordered.bypassed sorted.nodup (sorted.source listed reads)⟩, ?_,
    sorted.toLinked.inputs_bypassed exist apart listed kind, ?_⟩
  · exact Nat.le_of_eq (by simp [Graph.issued, Graph.bypassed, dropped, rename])
  · have order : (graph.bypassed (graph.handle index) input).order =
        graph.order.filter fun other => other != graph.handle index :=
      order_dropped sorted.nodup _
    rw [order]
    exact List.filter_sublist.trans List.filter_sublist

/-- A node that reads one tensor is inserted behind the producer of that tensor. -/
theorem insert (sorted : graph.Sorted) (reads : node.inputs = [input]) (kind : node.kind ≠ .input)
    (added : graph.insert node = .ok (id, changed)) :
    changed.Sorted ∧ graph.Continues changed := by
  obtain ⟨checked, anchor, rest, shape, _, _, rfl⟩ :=
    sorted.toLinked.lists.insert_eq_ok_iff.mp added
  obtain ⟨rfl, rfl⟩ := List.cons_eq_cons.mp (reads.symm.trans shape)
  obtain ⟨produces, exist⟩ := checkNew_eq_ok_iff.mp checked
  exact sorted.placed produces reads (exist input (reads ▸ List.mem_singleton_self input)) kind

theorem remove (sorted : graph.Sorted)
    (kind : ∀ ⦃node⦄, graph.get id = .ok node → node.kind ≠ .input)
    (removed : graph.remove id true = .ok changed) :
    changed.Sorted ∧ graph.Continues changed := by
  obtain ⟨node, input, named, listed, reads, rfl⟩ :=
    sorted.toLinked.remove_rewire (fun _ _ => sorted.source_ne) removed
  have found : graph.get id = .ok node := named ▸ get_handle_eq_ok_iff.mpr listed
  rw [named]
  exact sorted.bypassed listed reads (kind found)

/-- A history without insertions builds a sorted graph. -/
theorem replay (tag : Nat) (history : List (Operation α))
    (plain : ∀ node, .insert node ∉ history) : ((empty tag).replay history).Sorted := by
  have wf : ∀ earlier : List (Operation α), ((empty tag).replay earlier).WellFormed :=
    (WellFormed.empty tag).replay
  refine ⟨(wf history).linked, ?_⟩
  induction history using List.reverseRecOn with
  | nil => exact fun _ _ listed => by simp [Graph.replay] at listed
  | append_singleton earlier operation inductionHypothesis =>
      have ordered := inductionHypothesis fun node member =>
        plain node (List.mem_append_left _ member)
      rw [replay_append]
      refine (ordered.perform_iff (wf earlier) operation).mpr ?_
      cases operation with
      | insert node => exact absurd (List.mem_append_right _ List.mem_cons_self) (plain node)
      | _ => trivial

end Sorted

end Graph

end QuantNet
