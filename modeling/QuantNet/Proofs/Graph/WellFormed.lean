import QuantNet.Proofs.Graph.Rename

/-!
# Well-formed graphs

In a well-formed graph the order has the handle of every live node once and nothing else, every
tensor in use exists, and a node with a single input stands behind the producer of that input.  The
last condition is what keeps a removal from giving the users of a node a tensor of that same node.
It says nothing about nodes with several inputs, which may stand anywhere.

Every operation and every step of a rewriting pass is one of six edits.  All six keep a graph well
formed.
-/

namespace QuantNet

/-- Another node with the same place in a graph: what it is, what it reads and how many tensors it
produces. -/
structure Node.Resembles {α : Type} (new old : Node α) : Prop where
  kind : new.kind = old.kind
  name : new.name = old.name
  inputs : new.inputs = old.inputs
  outputs : new.outputs.length = old.outputs.length

namespace Graph

variable {α : Type}

/-- Nodes with certain numbers of inputs stand behind the producers of these. -/
def OrderedAt (graph : Graph α) (counts : Nat → Prop) : Prop :=
  ∀ ⦃index node⦄, graph.find? index = some node → counts node.inputs.length →
    ∀ input ∈ node.inputs, graph.Before input.node (graph.handle index)

/-- The conditions under which slots, order and uses of tensors fit together, wherever the nodes
stand and whether or not they produce anything. -/
structure Linked (graph : Graph α) : Prop where
  nodup : graph.order.Nodup
  mem_order : ∀ ⦃id⦄, id ∈ graph.order ↔
    id.graph = graph.tag ∧ ∃ node, graph.find? id.index = some node
  reads : ∀ ⦃index node⦄, graph.find? index = some node →
    ∀ input ∈ node.inputs, graph.hasTensor input = true
  exports : ∀ ref ∈ graph.outputs, graph.hasTensor ref = true

/-- The conditions under which slots, order and uses of tensors fit together. -/
structure WellFormed (graph : Graph α) : Prop where
  nodup : graph.order.Nodup
  mem_order : ∀ ⦃id⦄, id ∈ graph.order ↔
    id.graph = graph.tag ∧ ∃ node, graph.find? id.index = some node
  produces : ∀ ⦃index node⦄, graph.find? index = some node → node.outputs ≠ []
  reads : ∀ ⦃index node⦄, graph.find? index = some node →
    ∀ input ∈ node.inputs, graph.hasTensor input = true
  exports : ∀ ref ∈ graph.outputs, graph.hasTensor ref = true
  single : graph.OrderedAt (· = 1)

/-- An edit that puts no node in front of another. -/
inductive PlainEdit (graph : Graph α) : Graph α → Prop
  | append {node : Node α} (produces : node.outputs ≠ [])
      (exist : ∀ input ∈ node.inputs, graph.hasTensor input = true) :
      PlainEdit graph (graph.append node).2
  | bypass {index : Nat} {node : Node α} {input : TensorRef}
      (listed : graph.find? index = some node) (reads : node.inputs = [input]) :
      PlainEdit graph (graph.bypassed (graph.handle index) input)
  | drop {index : Nat}
      (unread : ∀ ⦃other node⦄, graph.find? other = some node →
        ∀ input ∈ node.inputs, input.node ≠ graph.handle index)
      (unexported : ∀ ref ∈ graph.outputs, ref.node ≠ graph.handle index) :
      PlainEdit graph (graph.dropped (graph.handle index))
  | rewrite {index : Nat} {old new : Node α} (listed : graph.find? index = some old)
      (resembles : new.Resembles old) :
      PlainEdit graph (graph.replace index new)
  | expose {ref : TensorRef} (exist : graph.hasTensor ref = true) :
      PlainEdit graph { graph with outputs := graph.outputs ++ [ref] }

/-- What a single step can do to a graph. -/
inductive Edit (graph : Graph α) : Graph α → Prop
  | plain {changed : Graph α} (edit : PlainEdit graph changed) : Edit graph changed
  | place {node : Node α} {anchor : TensorRef} {rest : List TensorRef}
      (produces : node.outputs ≠ [])
      (exist : ∀ input ∈ node.inputs, graph.hasTensor input = true)
      (reads : node.inputs = anchor :: rest) :
      Edit graph (graph.placed anchor node)

variable {graph : Graph α} {index : Nat} {node : Node α} {ref : TensorRef}

@[simp]
theorem find?_empty {tag : Nat} : (empty tag : Graph α).find? index = none :=
  rfl

theorem WellFormed.empty (tag : Nat) : (Graph.empty tag : Graph α).WellFormed where
  nodup := List.nodup_nil
  mem_order := fun _ => ⟨fun member => absurd member List.not_mem_nil,
    fun ⟨_, _, found⟩ => by simp at found⟩
  produces := fun _ _ found => by simp at found
  reads := fun _ _ found => by simp at found
  exports := fun _ member => absurd member List.not_mem_nil
  single := fun _ _ found => by simp at found

/-- A tensor still exists in another graph that has its producer with as many outputs. -/
theorem hasTensor_of_find?
    {changed : Graph α} (exist : graph.hasTensor ref = true) (tagged : changed.tag = graph.tag)
    (kept : ∀ old, graph.find? ref.node.index = some old →
      ∃ new, changed.find? ref.node.index = some new ∧ new.outputs.length = old.outputs.length) :
    changed.hasTensor ref = true := by
  obtain ⟨same, old, listed, below⟩ := hasTensor_iff.mp exist
  obtain ⟨new, relisted, size⟩ := kept old listed
  exact hasTensor_iff.mpr ⟨same.trans tagged.symm, new, relisted, size ▸ below⟩

namespace Linked

theorem handle_mem_order (linked : graph.Linked) (listed : graph.find? index = some node) :
    graph.handle index ∈ graph.order :=
  linked.mem_order.mpr ⟨rfl, node, listed⟩

theorem mem_order_iff (linked : graph.Linked) {id : NodeId} :
    id ∈ graph.order ↔ ∃ node, graph.get id = .ok node := by
  rw [linked.mem_order]
  constructor
  · rintro ⟨tagged, node, listed⟩
    have named : id = graph.handle id.index := by
      rw [handle, ← tagged]
    exact ⟨node, named ▸ get_handle_eq_ok_iff.mpr listed⟩
  · rintro ⟨node, found⟩
    obtain ⟨named, listed⟩ := listed_of_get found
    exact ⟨congrArg NodeId.graph named, node, listed⟩

theorem lists (linked : graph.Linked) : graph.Lists :=
  fun _ _ listed => linked.handle_mem_order listed

/-- The producer of a tensor that exists is in the order. -/
theorem producer_mem (linked : graph.Linked) (exist : graph.hasTensor ref = true) :
    ref.node ∈ graph.order := by
  obtain ⟨tagged, node, listed, _⟩ := hasTensor_iff.mp exist
  exact linked.mem_order.mpr ⟨tagged, node, listed⟩

theorem fresh_not_mem (linked : graph.Linked) : graph.handle graph.issued ∉ graph.order := by
  intro member
  obtain ⟨_, node, listed⟩ := linked.mem_order.mp member
  exact absurd (issued_of_find? listed) (Nat.lt_irrefl _)

theorem wellFormed (linked : graph.Linked)
    (produces : ∀ ⦃index node⦄, graph.find? index = some node → node.outputs ≠ [])
    (single : graph.OrderedAt (· = 1)) : graph.WellFormed :=
  ⟨linked.nodup, linked.mem_order, produces, linked.reads, linked.exports, single⟩

end Linked

namespace WellFormed

theorem linked (wf : graph.WellFormed) : graph.Linked :=
  ⟨wf.nodup, wf.mem_order, wf.reads, wf.exports⟩

theorem mem_order_iff (wf : graph.WellFormed) {id : NodeId} :
    id ∈ graph.order ↔ ∃ node, graph.get id = .ok node :=
  wf.linked.mem_order_iff

theorem lists (wf : graph.WellFormed) : graph.Lists :=
  wf.linked.lists

/-- A node with a single input stands behind the producer of that input. -/
theorem sources (wf : graph.WellFormed) {input : TensorRef}
    (listed : graph.find? index = some node) (reads : node.inputs = [input]) :
    graph.Before input.node (graph.handle index) :=
  wf.single listed (congrArg List.length reads) input (reads ▸ List.mem_singleton_self input)

/-- A node with a single input does not read a tensor of its own. -/
theorem source_ne (wf : graph.WellFormed) {input : TensorRef}
    (listed : graph.find? index = some node) (reads : node.inputs = [input]) :
    input.node ≠ graph.handle index :=
  (wf.sources listed reads).ne wf.nodup

end WellFormed

end Graph

end QuantNet
