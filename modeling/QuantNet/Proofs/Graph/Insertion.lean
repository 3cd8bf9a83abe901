import QuantNet.Proofs.Graph.Counting
import QuantNet.Proofs.Graph.Replacement

/-!
# What an insertion rewires

An insertion gives the users of one tensor another one and leaves everything else as it was.  The
new node alone reads the tensor afterwards, and its first output has the readers that the tensor
had.

Nothing records what was rewired, yet bypassing the new node takes it all back: a tensor of a node
that is new is used exactly where the insertion put it.
-/

namespace QuantNet

namespace TensorRef

/-- In the second list a tensor has taken the place of another one, wherever the first list has
that one.  All else is the same in both. -/
structure Replaced (old new : TensorRef) (before after : List TensorRef) : Prop where
  length : after.length = before.length
  moved : ∀ place : Nat, after[place]? = some new ↔ before[place]? = some old
  kept : ∀ (place : Nat) (ref : TensorRef), ref ≠ old → before[place]? = some ref →
    after[place]? = some ref

variable {old new : TensorRef} {refs : List TensorRef}

private theorem replaced_map_instead (fresh : new ∉ refs) :
    Replaced old new refs (refs.map (old.instead new)) where
  length := List.length_map _
  moved := by
    intro place
    rw [List.getElem?_map, Option.map_eq_some_iff]
    constructor
    · rintro ⟨ref, there, same⟩
      by_cases here : ref = old
      · rwa [here] at there
      · rw [instead_of_ne here] at same
        exact absurd (List.mem_of_getElem? (same ▸ there)) fresh
    · exact fun there => ⟨old, there, instead_self old new⟩
  kept := by
    intro place ref different there
    rw [List.getElem?_map, there, Option.map_some, instead_of_ne different]

theorem Replaced.mem_iff
    {before after : List TensorRef} (replaced : Replaced old new before after) :
    new ∈ after ↔ old ∈ before := by
  simp only [List.mem_iff_getElem?, replaced.moved]

/-- A tensor that was replaced by another one is not there any more. -/
private theorem not_mem_map_instead (different : new ≠ old) : old ∉ refs.map (old.instead new) := by
  rw [List.mem_map]
  rintro ⟨ref, _, same⟩
  by_cases here : ref = old
  · rw [here, instead_self] at same
    exact different same
  · rw [instead_of_ne here] at same
    exact here same

end TensorRef

namespace Graph

variable {α : Type} {graph : Graph α} {index : Nat} {node : Node α} {anchor : TensorRef}

/-- The next node of a graph has no tensors yet. -/
theorem not_hasTensor_fresh (graph : Graph α) (output : Nat) :
    graph.hasTensor ⟨graph.handle graph.issued, output⟩ ≠ true := by
  intro exist
  obtain ⟨_, node, listed, _⟩ := hasTensor_iff.mp exist
  exact absurd (issued_of_find? listed) (Nat.lt_irrefl _)

private theorem fresh_ne_of_hasTensor (exist : graph.hasTensor anchor = true) :
    (⟨graph.handle graph.issued, 0⟩ : TensorRef) ≠ anchor :=
  fun same => graph.not_hasTensor_fresh 0 (same ▸ exist)

section Users

variable (linked : graph.Linked)

include linked

theorem Linked.replaced_inputs (listed : graph.find? index = some node) (anchor : TensorRef) :
    anchor.Replaced ⟨graph.handle graph.issued, 0⟩ node.inputs
      (node.inputs.map (anchor.instead ⟨graph.handle graph.issued, 0⟩)) :=
  TensorRef.replaced_map_instead fun member =>
    graph.not_hasTensor_fresh 0 (linked.reads listed _ member)

theorem Linked.replaced_outputs (anchor : TensorRef) :
    anchor.Replaced ⟨graph.handle graph.issued, 0⟩ graph.outputs
      (graph.outputs.map (anchor.instead ⟨graph.handle graph.issued, 0⟩)) :=
  TensorRef.replaced_map_instead fun member => graph.not_hasTensor_fresh 0 (linked.exports _ member)

/-- Nobody but the new node reads its first input any more. -/
theorem Linked.readers_placed (exist : graph.hasTensor anchor = true)
    (placedLinked : (graph.placed anchor node).Linked) (reads : anchor ∈ node.inputs) :
    (graph.placed anchor node).readers anchor = [graph.handle graph.issued] := by
  let reading := (graph.placed anchor node).satisfies fun reader => reader.inputs.contains anchor
  have new : reading (graph.handle graph.issued) = true := by
    simp [reading, satisfies, handle, find?_placed, reads]
  have others : graph.order.filter reading = [] := by
    apply List.filter_eq_nil_iff.mpr
    intro id member
    obtain ⟨_, old, listed⟩ := linked.mem_order.mp member
    have early : id.index ≠ graph.issued := Nat.ne_of_lt (issued_of_find? listed)
    have unread : anchor ∉ old.inputs.map (anchor.instead ⟨graph.handle graph.issued, 0⟩) :=
      TensorRef.not_mem_map_instead (fresh_ne_of_hasTensor exist)
    simp [reading, satisfies, find?_placed, early, listed, Node.rename, unread]
  have permuted := (linked.order_placed_perm exist node).filter reading
  rw [List.filter_cons_of_pos new, others] at permuted
  rw [readers, placedLinked.select_eq_filter]
  exact List.perm_singleton.mp permuted

/-- The first output of the new node has the readers that its first input had. -/
theorem Linked.readers_placed_fresh (exist : graph.hasTensor anchor = true)
    (placedLinked : (graph.placed anchor node).Linked)
    (attached : ∀ input ∈ node.inputs, graph.hasTensor input = true) :
    (graph.placed anchor node).readers ⟨graph.handle graph.issued, 0⟩ = graph.readers anchor := by
  apply linked.select_placed exist placedLinked
  · rw [← Bool.not_eq_true, List.contains_iff_mem]
    exact fun member => graph.not_hasTensor_fresh 0 (attached _ member)
  · intro index old listed
    rw [Bool.eq_iff_iff, List.contains_iff_mem, List.contains_iff_mem]
    exact (linked.replaced_inputs listed anchor).mem_iff

end Users

/-! ## Undoing an insertion -/

/-- The graph after its next number was used up for a node that is gone. -/
def spent (graph : Graph α) : Graph α :=
  { graph with slots := graph.slots ++ [none] }

theorem find?_spent (graph : Graph α) (index : Nat) :
    graph.spent.find? index = graph.find? index := by
  rw [find?, find?, spent, List.getElem?_append]
  split
  · rfl
  · next beyond =>
      rw [List.getElem?_eq_none (Nat.le_of_not_lt beyond)]
      cases there : ([none] : List (Option (Node α)))[index - graph.slots.length]? with
      | none => rfl
      | some slot =>
          rw [List.mem_singleton.mp (List.mem_of_getElem? there)]
          rfl

@[simp]
theorem replace_placed (graph : Graph α) (anchor : TensorRef) (node new : Node α) :
    (graph.placed anchor node).replace graph.issued new = graph.placed anchor new := by
  simp [replace, placed, rename, issued]

/-- What the users of a tensor are given in its place, they give back. -/
private theorem Linked.rename_past_instead (linked : graph.Linked) (input : TensorRef) :
    (graph.rename (input.instead ⟨graph.handle graph.issued, 0⟩)).rename
      (TensorRef.past (graph.handle graph.issued) input) = graph := by
  have back : ∀ ref : TensorRef, graph.hasTensor ref = true →
      TensorRef.past (graph.handle graph.issued) input
        (input.instead ⟨graph.handle graph.issued, 0⟩ ref) = ref := by
    intro ref exist
    by_cases here : ref = input
    · rw [here, TensorRef.instead_self]
      exact TensorRef.past_of_eq rfl
    · have old : ref.node ≠ graph.handle graph.issued := by
        intro new
        exact graph.not_hasTensor_fresh ref.output (new ▸ exist)
      rw [TensorRef.instead_of_ne here, TensorRef.past_of_ne old]
  rw [rename_rename]
  refine Eq.trans (rename_congr ?_ ?_) (rename_id graph)
  · exact fun _ _ listed ref used => back ref (linked.reads listed ref used)
  · exact fun ref used => back ref (linked.exports ref used)

/-- Bypassing the node that was inserted last restores the graph. -/
theorem Linked.bypassed_placed (linked : graph.Linked) {input : TensorRef}
    (exist : graph.hasTensor input = true) (node : Node α) :
    (graph.placed input node).bypassed (graph.handle graph.issued) input = graph.spent := by
  let fresh := graph.handle graph.issued
  let renamed := (graph.rename (input.instead ⟨fresh, 0⟩)).rename (TensorRef.past fresh input)
  have restored : renamed = graph := linked.rename_past_instead input
  have slots : ((graph.placed input node).rename (TensorRef.past fresh input)).slots =
      renamed.slots ++ [some (node.rename (TensorRef.past fresh input))] :=
    List.map_append
  have order : (graph.placed input node).order.erase fresh = graph.order := by
    obtain ⟨front, back, oldOrder, newOrder⟩ := order_placed linked exist node
    have absent : fresh ∉ graph.order := linked.fresh_not_mem
    rw [oldOrder] at absent ⊢
    rw [newOrder]
    grind
  have shape : (graph.placed input node).bypassed fresh input =
      { renamed with
        slots := ((graph.placed input node).rename
          (TensorRef.past fresh input)).slots.set graph.issued none
        order := (graph.placed input node).order.erase fresh } :=
    rfl
  rw [shape, slots, order, restored]
  simp [spent, issued]

theorem Linked.remove_placed (linked : graph.Linked) {input : TensorRef}
    (placedLinked : (graph.placed input node).Linked) (exist : graph.hasTensor input = true)
    (reads : node.inputs = [input]) :
    (graph.placed input node).remove (graph.handle graph.issued) true = .ok graph.spent := by
  have there : (graph.placed input node).get (graph.handle graph.issued) = .ok node :=
    get_placed_iff.mpr (Or.inl ⟨rfl, rfl⟩)
  have apart : input.node ≠ graph.handle graph.issued := fun new =>
    graph.not_hasTensor_fresh input.output (new ▸ exist)
  rw [← linked.bypassed_placed exist node]
  exact placedLinked.remove_of_node (node_of_get there) reads apart

/-- Setting something about the node that was inserted last is like inserting another node. -/
theorem perform_placed_of_adjusts {operation : Operation α}
    (adjusts : operation.Adjusts (graph.handle graph.issued)) (anchor : TensorRef)
    (node : Node α) :
    ∃ new : Node α, new.Resembles node ∧
      (operation.perform (graph.placed anchor node)).1 = graph.placed anchor new := by
  cases done : operation.change (graph.placed anchor node) with
  | error failure => exact ⟨node, Node.Resembles.refl node, perform_of_failure done⟩
  | ok result =>
      obtain ⟨_, old, new, found, resembles, changed⟩ := replaces_of_adjusts adjusts done
      have listed := (listed_of_node found).2
      have there : (graph.placed anchor node).find? graph.issued = some node := by
        rw [find?_placed, if_pos rfl]
      obtain rfl := Option.some.inj (there.symm.trans listed)
      refine ⟨new, resembles, ?_⟩
      rw [perform_of_change done, changed]
      exact replace_placed graph anchor node new

theorem replay_placed_of_adjusts {history : List (Operation α)}
    (adjusts : ∀ operation ∈ history, operation.Adjusts (graph.handle graph.issued))
    (anchor : TensorRef) (node : Node α) :
    ∃ new : Node α, new.Resembles node ∧
      (graph.placed anchor node).replay history = graph.placed anchor new := by
  induction history generalizing node with
  | nil => exact ⟨node, Node.Resembles.refl node, rfl⟩
  | cons operation rest inductionHypothesis =>
      obtain ⟨here, later⟩ := List.forall_mem_cons.mp adjusts
      obtain ⟨first, resembles, changed⟩ := perform_placed_of_adjusts here anchor node
      obtain ⟨last, similar, ended⟩ := inductionHypothesis later first
      refine ⟨last, similar.trans resembles, ?_⟩
      rw [← ended, ← changed]
      rfl

end Graph

end QuantNet
