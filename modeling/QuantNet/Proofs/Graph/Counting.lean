import QuantNet.Proofs.Graph.Preservation

/-!
# Counting nodes

How the number of nodes with a property changes under an edit.  Only properties that do not depend
on the inputs of a node are counted.
-/

namespace QuantNet

private theorem countP_eq_erase_add {β : Type} [DecidableEq β] {items : List β} {item : β}
    (member : item ∈ items) (test : β → Bool) :
    items.countP test = (items.erase item).countP test + (test item).toNat := by
  rw [(List.perm_cons_erase member).countP_eq test, List.countP_cons]
  cases test item <;> rfl

namespace Graph

variable {α : Type} {graph : Graph α} {index : Nat} {node : Node α} {property : Node α → Bool}

def count (graph : Graph α) (property : Node α → Bool) : Nat :=
  (graph.select property).length

/-- Whether the node of a handle is there and has a property. -/
def satisfies (graph : Graph α) (property : Node α → Bool) (id : NodeId) : Bool :=
  (graph.find? id.index).any property

private theorem count_eq_countP (graph : Graph α) (property : Node α → Bool) :
    graph.count property = graph.order.countP (graph.satisfies property) := by
  rw [count, select, List.length_map, ← List.countP_eq_length_filter, nodes, List.countP_filterMap]
  apply List.countP_congr
  intro id _
  rw [satisfies]
  cases graph.find? id.index <;> simp

/-- The nodes with a property are those in the order that satisfy it. -/
theorem Linked.select_eq_filter (linked : graph.Linked) (property : Node α → Bool) :
    graph.select property = graph.order.filter (graph.satisfies property) := by
  have part : ∀ ids : List NodeId, (∀ id ∈ ids, id ∈ graph.order) →
      ((ids.filterMap fun id => (graph.find? id.index).map fun node => (id.index, node)).filter
          (fun entry => property entry.2)).map (fun entry => graph.handle entry.1) =
        ids.filter (graph.satisfies property) := by
    intro ids
    induction ids with
    | nil =>
        intro _
        rfl
    | cons id rest inductionHypothesis =>
        intro live
        obtain ⟨here, others⟩ := List.forall_mem_cons.mp live
        obtain ⟨tagged, node, listed⟩ := linked.mem_order.mp here
        have named : graph.handle id.index = id := by
          rw [handle, ← tagged]
        have later := inductionHypothesis others
        by_cases has : property node = true
        · simp [listed, satisfies, has, named, later]
        · simp [listed, satisfies, has, later]
  exact part graph.order fun _ member => member

/-- A rewritten node that has a property just as before leaves the nodes with the property as they
were. -/
theorem Linked.select_replace
    (linked : graph.Linked) {new : Node α} (listed : graph.find? index = some node)
    (resembles : new.Resembles node) (same : property new = property node) :
    (graph.replace index new).select property = graph.select property := by
  have order : (graph.replace index new).order = graph.order := rfl
  rw [(linked.replace listed resembles).select_eq_filter, linked.select_eq_filter, order]
  apply List.filter_congr
  intro id _
  rw [satisfies, satisfies, find?_replace listed]
  by_cases here : id.index = index
  · rw [if_pos here, here, listed, Option.any_some, Option.any_some, same]
  · rw [if_neg here]

/-- A rewritten node that reads what it read before leaves the readers of all tensors as they
were. -/
theorem Linked.readers_replace
    (linked : graph.Linked) {new : Node α} (listed : graph.find? index = some node)
    (resembles : new.Resembles node) (ref : TensorRef) :
    (graph.replace index new).readers ref = graph.readers ref :=
  linked.select_replace listed resembles (by rw [resembles.inputs])

theorem count_le_length (graph : Graph α) (property : Node α → Bool) :
    graph.count property ≤ graph.order.length := by
  rw [count_eq_countP]
  exact List.countP_le_length

/-- Nodes are there with a property if their number is positive. -/
theorem Linked.count_pos_iff (linked : graph.Linked) :
    0 < graph.count property ↔
      ∃ index node, graph.find? index = some node ∧ property node = true := by
  rw [count_eq_countP, List.countP_pos_iff]
  constructor
  · rintro ⟨id, _, holds⟩
    obtain ⟨node, listed, has⟩ := (Option.any_eq_true _ _).mp holds
    exact ⟨id.index, node, listed, has⟩
  · rintro ⟨index, node, listed, has⟩
    exact ⟨graph.handle index, linked.handle_mem_order listed,
      by simp [satisfies, handle, listed, has]⟩

/-- A property that does not depend on the inputs of a node. -/
def Stable (property : Node α → Bool) : Prop :=
  ∀ (node : Node α) (f : TensorRef → TensorRef), property (node.rename f) = property node

/-- An insertion leaves the selected nodes as they were, if the new node is not selected and every
old one is selected as before, with its inputs renamed. -/
theorem Linked.select_placed
    (linked : graph.Linked) {anchor : TensorRef} (exist : graph.hasTensor anchor = true)
    (placedLinked : (graph.placed anchor node).Linked) {after : Node α → Bool}
    (unselected : after node = false)
    (carried : ∀ ⦃index old⦄, graph.find? index = some old →
      after (old.rename (anchor.instead ⟨graph.handle graph.issued, 0⟩)) = property old) :
    (graph.placed anchor node).select after = graph.select property := by
  obtain ⟨front, back, oldOrder, newOrder⟩ := order_placed linked exist node
  have fresh : (graph.placed anchor node).satisfies after (graph.handle graph.issued) = false := by
    simp [satisfies, handle, find?_placed, unselected]
  have filtered : (graph.placed anchor node).order.filter
        ((graph.placed anchor node).satisfies after) =
      graph.order.filter ((graph.placed anchor node).satisfies after) := by
    rw [newOrder, oldOrder, List.filter_append, List.filter_append]
    simp [List.filter_cons, fresh]
  rw [placedLinked.select_eq_filter, linked.select_eq_filter, filtered]
  apply List.filter_congr
  intro id member
  obtain ⟨_, old, listed⟩ := linked.mem_order.mp member
  have early : id.index ≠ graph.issued := Nat.ne_of_lt (issued_of_find? listed)
  rw [satisfies, satisfies, find?_placed, if_neg early, listed]
  simp [carried listed]

/-- Dropping a node that is not selected leaves the selected nodes as they were. -/
private theorem Linked.select_dropped
    (linked : graph.Linked) (droppedLinked : (graph.dropped (graph.handle index)).Linked)
    (listed : graph.find? index = some node) (unselected : property node = false) :
    (graph.dropped (graph.handle index)).select property = graph.select property := by
  have order : (graph.dropped (graph.handle index)).order =
      graph.order.filter fun other => other != graph.handle index :=
    order_dropped linked.nodup (graph.handle index)
  rw [droppedLinked.select_eq_filter, linked.select_eq_filter, order, List.filter_filter]
  apply List.filter_congr
  intro id member
  obtain ⟨tagged, _⟩ := linked.mem_order.mp member
  have gone : (graph.dropped (graph.handle index)).find? id.index =
      if id.index = index then none else graph.find? id.index :=
    find?_dropped _ _ _
  by_cases here : id.index = index
  · have unsatisfied : graph.satisfies property id = false := by
      rw [satisfies, here, listed, Option.any_some, unselected]
    rw [satisfies, gone, if_pos here, unsatisfied]
    rfl
  · have different : id ≠ graph.handle index := fun same => here (congrArg NodeId.index same)
    rw [satisfies, satisfies, gone, if_neg here, bne_iff_ne.mpr different, Bool.and_true]

private theorem Linked.select_rename
    (linked : graph.Linked) {f : TensorRef → TensorRef} (renamed : (graph.rename f).Linked)
    (stable : Stable property) :
    (graph.rename f).select property = graph.select property := by
  rw [renamed.select_eq_filter, linked.select_eq_filter]
  apply List.filter_congr
  intro id _
  rw [satisfies, satisfies, find?_rename]
  cases graph.find? id.index with
  | none => rfl
  | some old => simp [stable old]

theorem Linked.select_bypassed
    (linked : graph.Linked) (stable : Stable property) {input : TensorRef}
    (exist : graph.hasTensor input = true) (apart : input.node ≠ graph.handle index)
    (listed : graph.find? index = some node) (unselected : property node = false) :
    (graph.bypassed (graph.handle index) input).select property = graph.select property := by
  have renamed : (graph.rename (TensorRef.past (graph.handle index) input)).Linked :=
    linked.rename_past exist
  have relisted : (graph.rename (TensorRef.past (graph.handle index) input)).find? index =
      some (node.rename (TensorRef.past (graph.handle index) input)) :=
    find?_rename_eq_some_iff.mpr ⟨node, listed, rfl⟩
  have dropped : (graph.bypassed (graph.handle index) input).select property =
      (graph.rename (TensorRef.past (graph.handle index) input)).select property :=
    renamed.select_dropped (linked.bypassed exist apart) relisted
      ((stable node _).trans unselected)
  exact dropped.trans (linked.select_rename renamed stable)

/-! ## Input nodes -/

private theorem stable_isInput : Stable fun node : Node α => decide (node.kind = .input) :=
  fun _ _ => rfl

theorem Linked.inputs_replace
    (linked : graph.Linked) {new : Node α} (listed : graph.find? index = some node)
    (resembles : new.Resembles node) :
    (graph.replace index new).inputs = graph.inputs :=
  linked.select_replace listed resembles (by rw [resembles.kind])

theorem Linked.inputs_placed
    (linked : graph.Linked) {anchor : TensorRef} (exist : graph.hasTensor anchor = true)
    (placedLinked : (graph.placed anchor node).Linked) (kind : node.kind ≠ .input) :
    (graph.placed anchor node).inputs = graph.inputs :=
  linked.select_placed exist placedLinked (decide_eq_false kind) fun _ old _ =>
    stable_isInput old _

theorem Linked.inputs_dropped
    (linked : graph.Linked) (droppedLinked : (graph.dropped (graph.handle index)).Linked)
    (listed : graph.find? index = some node) (kind : node.kind ≠ .input) :
    (graph.dropped (graph.handle index)).inputs = graph.inputs :=
  linked.select_dropped droppedLinked listed (decide_eq_false kind)

theorem Linked.inputs_bypassed
    (linked : graph.Linked) {input : TensorRef} (exist : graph.hasTensor input = true)
    (apart : input.node ≠ graph.handle index) (listed : graph.find? index = some node)
    (kind : node.kind ≠ .input) :
    (graph.bypassed (graph.handle index) input).inputs = graph.inputs :=
  linked.select_bypassed stable_isInput exist apart listed (decide_eq_false kind)

/-! ## Numbers of nodes -/

theorem count_rename (stable : Stable property) (f : TensorRef → TensorRef) :
    (graph.rename f).count property = graph.count property := by
  rw [count_eq_countP, count_eq_countP]
  apply List.countP_congr
  intro id _
  rw [satisfies, satisfies, find?_rename]
  cases graph.find? id.index with
  | none => rfl
  | some node => simp [stable node f]

theorem Linked.count_replace
    (linked : graph.Linked) (listed : graph.find? index = some node) (new : Node α)
    (property : Node α → Bool) :
    (graph.replace index new).count property + (property node).toNat =
      graph.count property + (property new).toNat := by
  have member := linked.handle_mem_order listed
  have before : graph.satisfies property (graph.handle index) = property node := by
    simp [satisfies, handle, listed]
  have after : (graph.replace index new).satisfies property (graph.handle index) =
      property new := by
    simp [satisfies, handle, find?_replace listed]
  have others :
      (graph.order.erase (graph.handle index)).countP
          ((graph.replace index new).satisfies property) =
        (graph.order.erase (graph.handle index)).countP (graph.satisfies property) := by
    apply List.countP_congr
    intro id rest
    obtain ⟨different, there⟩ := linked.nodup.mem_erase_iff.mp rest
    have apart : id.index ≠ index := by
      intro same
      obtain ⟨tagged, _⟩ := linked.mem_order.mp there
      exact different (by rw [handle, ← same, ← tagged])
    rw [satisfies, satisfies, find?_replace listed, if_neg apart]
  have order : (graph.replace index new).order = graph.order := rfl
  rw [count_eq_countP, count_eq_countP, order, countP_eq_erase_add member,
    countP_eq_erase_add member (graph.satisfies property), before, after, others]
  omega

/-- A node that counts as the one did whose place it takes leaves the count. -/
theorem Linked.count_replace_of_eq
    (linked : graph.Linked) (listed : graph.find? index = some node) (new : Node α)
    (property : Node α → Bool) (same : property new = property node) :
    (graph.replace index new).count property = graph.count property := by
  have replaced := linked.count_replace listed new property
  rw [same] at replaced
  exact Nat.add_right_cancel replaced

theorem Linked.count_placed
    (linked : graph.Linked) {anchor : TensorRef} (exist : graph.hasTensor anchor = true)
    (stable : Stable property) (node : Node α) :
    (graph.placed anchor node).count property =
      graph.count property + (property node).toNat := by
  have fresh : (graph.placed anchor node).satisfies property (graph.handle graph.issued) =
      property node := by
    simp [satisfies, handle, find?_placed]
  have others :
      graph.order.countP ((graph.placed anchor node).satisfies property) =
        graph.order.countP (graph.satisfies property) := by
    apply List.countP_congr
    intro id member
    obtain ⟨_, old, listed⟩ := linked.mem_order.mp member
    have early : id.index ≠ graph.issued := Nat.ne_of_lt (issued_of_find? listed)
    rw [satisfies, satisfies, find?_placed, if_neg early, listed]
    simp [stable old]
  rw [count_eq_countP, count_eq_countP, (linked.order_placed_perm exist node).countP_eq,
    List.countP_cons, others, fresh]
  cases property node <;> rfl

theorem Linked.count_dropped
    (linked : graph.Linked) (listed : graph.find? index = some node) :
    (graph.dropped (graph.handle index)).count property + (property node).toNat =
      graph.count property := by
  have member := linked.handle_mem_order listed
  have gone : graph.satisfies property (graph.handle index) = property node := by
    simp [satisfies, handle, listed]
  have others :
      (graph.order.erase (graph.handle index)).countP
          ((graph.dropped (graph.handle index)).satisfies property) =
        (graph.order.erase (graph.handle index)).countP (graph.satisfies property) := by
    apply List.countP_congr
    intro id rest
    obtain ⟨different, there⟩ := linked.nodup.mem_erase_iff.mp rest
    have apart : id.index ≠ (graph.handle index).index := by
      intro same
      obtain ⟨tagged, _⟩ := linked.mem_order.mp there
      exact different (by rw [handle, ← show id.index = index from same, ← tagged])
    rw [satisfies, satisfies, find?_dropped, if_neg apart]
  have order : (graph.dropped (graph.handle index)).order =
      graph.order.erase (graph.handle index) :=
    rfl
  rw [count_eq_countP, count_eq_countP, order, others, countP_eq_erase_add member, gone]

theorem Linked.count_bypassed
    (linked : graph.Linked) (stable : Stable property) {input : TensorRef}
    (exist : graph.hasTensor input = true) (listed : graph.find? index = some node) :
    (graph.bypassed (graph.handle index) input).count property + (property node).toNat =
      graph.count property := by
  have renamed : (graph.rename (TensorRef.past (graph.handle index) input)).Linked :=
    linked.rename_past exist
  have relisted : (graph.rename (TensorRef.past (graph.handle index) input)).find? index =
      some (node.rename (TensorRef.past (graph.handle index) input)) := by
    rw [find?_rename, listed, Option.map_some]
  have dropped :
      (graph.bypassed (graph.handle index) input).count property +
          (property (node.rename (TensorRef.past (graph.handle index) input))).toNat =
        (graph.rename (TensorRef.past (graph.handle index) input)).count property :=
    renamed.count_dropped relisted
  rwa [stable, count_rename stable] at dropped

end Graph

end QuantNet
