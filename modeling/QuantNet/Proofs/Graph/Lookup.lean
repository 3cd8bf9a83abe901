import QuantNet.Proofs.Computation
import QuantNet.Proofs.Graph.Order

/-!
# What a handle finds

A lookup succeeds exactly for a handle that the graph has issued and whose node is still there.
-/

namespace QuantNet

namespace Graph

variable {α : Type} {graph : Graph α} {id : NodeId} {node : Node α} {ref : TensorRef}

/-! ## Lookups -/

theorem get?_eq_ok_iff {found : Option (Node α)} :
    graph.get? id = .ok found ↔ graph.knows id = true ∧ graph.find? id.index = found := by
  unfold get?
  by_cases known : graph.knows id = true <;> simp [known]

theorem get_eq_ok_iff :
    graph.get id = .ok node ↔
      graph.knows id = true ∧ graph.find? id.index = some node := by
  simp only [get, except_bind_eq_ok, get?_eq_ok_iff]
  constructor
  · rintro ⟨found, ⟨known, rfl⟩, result⟩
    split at result
    · next other listed =>
        exact ⟨known, listed.trans (congrArg some (except_pure_eq_ok.mp result))⟩
    · exact absurd result except_throw_ne_ok
  · rintro ⟨known, listed⟩
    exact ⟨some node, ⟨known, listed⟩, rfl⟩

theorem node_eq_ok_iff :
    graph.node id = .ok node ↔
      graph.knows id = true ∧ graph.find? id.index = some node := by
  simp only [Graph.node, except_bind_eq_ok, lift_eq_ok, get?_eq_ok_iff]
  constructor
  · rintro ⟨found, ⟨known, rfl⟩, result⟩
    split at result
    · next other listed =>
        exact ⟨known, listed.trans (congrArg some (except_pure_eq_ok.mp result))⟩
    · exact absurd result except_throw_ne_ok
  · rintro ⟨known, listed⟩
    exact ⟨some node, ⟨known, listed⟩, rfl⟩

theorem eq_handle_of_knows (known : graph.knows id = true) : id = graph.handle id.index := by
  simp only [knows, Bool.and_eq_true, decide_eq_true_eq] at known
  cases id
  simp only at known
  rw [known.1, handle]

/-- A node that is found is in the slot with the number of its handle. -/
theorem listed_of_get (found : graph.get id = .ok node) :
    id = graph.handle id.index ∧ graph.find? id.index = some node := by
  obtain ⟨known, listed⟩ := get_eq_ok_iff.mp found
  exact ⟨eq_handle_of_knows known, listed⟩

private theorem knows_handle {index : Nat} (listed : graph.find? index = some node) :
    graph.knows (graph.handle index) = true := by
  simp [knows, handle, issued_of_find? listed]

@[simp]
theorem get_handle_eq_ok_iff {index : Nat} :
    graph.get (graph.handle index) = .ok node ↔ graph.find? index = some node :=
  get_eq_ok_iff.trans ⟨And.right, fun listed => ⟨knows_handle listed, listed⟩⟩

theorem get_eq_ok_of_node (found : graph.node id = .ok node) : graph.get id = .ok node :=
  get_eq_ok_iff.mpr (node_eq_ok_iff.mp found)

theorem contains_eq_ok_true_iff :
    graph.contains id = .ok true ↔ ∃ node, graph.get id = .ok node := by
  simp only [contains, except_bind_eq_ok, get?_eq_ok_iff, except_pure_eq_ok, get_eq_ok_iff,
    Option.isSome_iff_exists]
  constructor
  · rintro ⟨found, ⟨known, rfl⟩, node, listed⟩
    exact ⟨node, known, listed⟩
  · rintro ⟨node, known, listed⟩
    exact ⟨some node, ⟨known, listed⟩, node, rfl⟩

/-! ## Tensors -/

theorem hasTensor_iff :
    graph.hasTensor ref = true ↔
      ref.node.graph = graph.tag ∧
        ∃ node, graph.find? ref.node.index = some node ∧ ref.output < node.outputs.length := by
  simp only [hasTensor, knows, Bool.and_eq_true, decide_eq_true_eq]
  constructor
  · rintro ⟨⟨tagged, _⟩, holds⟩
    split at holds
    · next node found =>
        exact ⟨tagged, node, found, by simpa using holds⟩
    · simp at holds
  · rintro ⟨tagged, node, listed, below⟩
    refine ⟨⟨tagged, issued_of_find? listed⟩, ?_⟩
    rw [listed]
    simpa using below

/-- A tensor exists if its producer is found and has that many outputs. -/
theorem hasTensor_iff_get :
    graph.hasTensor ref = true ↔
      ∃ node, graph.get ref.node = .ok node ∧ ref.output < node.outputs.length := by
  rw [hasTensor_iff]
  constructor
  · rintro ⟨tagged, node, listed, below⟩
    have named : ref.node = graph.handle ref.node.index := by
      rw [handle, ← tagged]
    exact ⟨node, named ▸ get_handle_eq_ok_iff.mpr listed, below⟩
  · rintro ⟨node, found, below⟩
    obtain ⟨named, listed⟩ := listed_of_get found
    exact ⟨congrArg NodeId.graph named, node, listed, below⟩

end Graph

end QuantNet
