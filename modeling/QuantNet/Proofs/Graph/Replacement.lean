import QuantNet.Proofs.Graph.History

/-!
# Nodes that are replaced

What is found after a node was replaced by another one, or after another edit.  A replacement goes
together with the other edits: it can be made before or after them, up to the renaming that they
bring.
-/

namespace QuantNet.Graph

variable {α : Type} {graph : Graph α} {id : NodeId} {node : Node α}

/-! ## One replacement -/

@[simp]
theorem issued_replace (graph : Graph α) (index : Nat) (new : Node α) :
    (graph.replace index new).issued = graph.issued :=
  List.length_set

@[simp]
theorem replace_replace (graph : Graph α) (index : Nat) (first second : Node α) :
    (graph.replace index first).replace index second = graph.replace index second := by
  simp [replace]

theorem replace_self (found : graph.get id = .ok node) : graph.replace id.index node = graph := by
  have slot := find?_eq_some_iff.mp (listed_of_get found).2
  obtain ⟨below, same⟩ := List.getElem?_eq_some_iff.mp slot
  rw [replace, ← same, List.set_getElem_self]

theorem node_of_get (found : graph.get id = .ok node) : graph.node id = .ok node :=
  node_eq_ok_iff.mpr (get_eq_ok_iff.mp found)

/-- The new node is found where a node was replaced. -/
theorem get_replace (found : graph.get id = .ok node) (new : Node α) :
    (graph.replace id.index new).get id = .ok new := by
  obtain ⟨named, listed⟩ := listed_of_get found
  have there : (graph.replace id.index new).find? id.index = some new := by
    rw [find?_replace listed, if_pos rfl]
  have result := get_handle_eq_ok_iff.mpr there
  rwa [show (graph.replace id.index new).handle id.index = id from named.symm] at result

/-- The first output is there where a node was replaced by one that has outputs. -/
theorem hasTensor_replace
    (found : graph.get id = .ok node) {new : Node α} {output : Output} {others : List Output}
    (outputs : new.outputs = output :: others) :
    (graph.replace id.index new).hasTensor ⟨id, 0⟩ = true :=
  hasTensor_iff_get.mpr ⟨new, get_replace found new, by simp [outputs]⟩

/-- A node with a single input is in another slot than the producer of that input. -/
theorem WellFormed.source_index_ne
    (wf : graph.WellFormed) {first : Node α} {input : TensorRef} (found : graph.get id = .ok node)
    (reads : node.inputs = [input]) (source : graph.get input.node = .ok first) :
    id.index ≠ input.node.index := by
  intro same
  have named := (listed_of_get source).1
  rw [← same] at named
  exact wf.source_ne (listed_of_get found).2 reads named

theorem find?_replace_of_ne {index other : Nat} (different : other ≠ index) (new : Node α) :
    (graph.replace index new).find? other = graph.find? other := by
  simp [find?, replace, List.getElem?_set_ne (Ne.symm different)]

theorem get_replace_of_ne {index : Nat} (different : id.index ≠ index) (new : Node α) :
    (graph.replace index new).get id = .ok node ↔ graph.get id = .ok node := by
  simp only [get_eq_ok_iff, knows, find?_replace_of_ne different, issued_replace]
  rfl

/-- Two handles of live nodes with the same number are the same. -/
theorem index_ne_of_get {other : NodeId} {old : Node α} (found : graph.get id = .ok node)
    (there : graph.get other = .ok old) (apart : other ≠ id) :
    other.index ≠ id.index := by
  intro same
  refine apart ?_
  rw [(listed_of_get there).1, (listed_of_get found).1, same]

theorem get_replace_eq {other : NodeId} {old : Node α} (found : graph.get id = .ok node)
    (there : graph.get other = .ok old) (new : Node α) :
    (graph.replace id.index new).get other = .ok (if other = id then new else old) := by
  by_cases here : other = id
  · subst here
    rw [if_pos rfl, get_replace found]
  · rw [if_neg here]
    exact (get_replace_of_ne (index_ne_of_get found there here) new).mpr there

theorem modify_of_get (found : graph.get id = .ok node) (change : Node α → Node α) :
    graph.modify id change = .ok (graph.replace id.index (change node)) :=
  modify_eq_ok_iff.mpr ⟨node, node_of_get found, rfl⟩

/-! ## What is found after an edit -/

theorem get_replace_iff {other : NodeId} {new now : Node α} (found : graph.get id = .ok node) :
    (graph.replace id.index new).get other = .ok now ↔
      other = id ∧ now = new ∨ other ≠ id ∧ graph.get other = .ok now := by
  by_cases here : other = id
  · subst here
    rw [get_replace found, Except.ok.injEq]
    simp [eq_comm]
  · have rewritten : (graph.replace id.index new).get id = .ok new := get_replace found new
    simp only [here, false_and, false_or]
    constructor
    · intro there
      exact ⟨here, (get_replace_of_ne (index_ne_of_get rewritten there here) new).mp there⟩
    · rintro ⟨_, there⟩
      exact (get_replace_of_ne (index_ne_of_get found there here) new).mpr there

theorem get_placed_iff {anchor : TensorRef} {now : Node α} :
    (graph.placed anchor node).get id = .ok now ↔
      id = graph.handle graph.issued ∧ now = node ∨
        ∃ old, graph.get id = .ok old ∧
          now = old.rename (anchor.instead ⟨graph.handle graph.issued, 0⟩) := by
  constructor
  · intro found
    obtain ⟨named, listed⟩ := listed_of_get found
    have here : id = graph.handle id.index := named
    rcases find?_placed_eq_some_iff.mp listed with ⟨fresh, rfl⟩ | ⟨old, older, rfl⟩
    · exact Or.inl ⟨here.trans (congrArg graph.handle fresh), rfl⟩
    · exact Or.inr ⟨old, here ▸ get_handle_eq_ok_iff.mpr older, rfl⟩
  · have relisted : ∀ index, (graph.placed anchor node).find? index = some now →
        (graph.placed anchor node).get (graph.handle index) = .ok now :=
      fun index listed => get_handle_eq_ok_iff.mpr listed
    rintro (⟨rfl, rfl⟩ | ⟨old, there, rfl⟩)
    · exact relisted _ (find?_placed_eq_some_iff.mpr (Or.inl ⟨rfl, rfl⟩))
    · obtain ⟨named, older⟩ := listed_of_get there
      rw [named]
      exact relisted _ (find?_placed_eq_some_iff.mpr (Or.inr ⟨old, older, rfl⟩))

theorem get_placed_of_get (found : graph.get id = .ok node) (anchor : TensorRef) (new : Node α) :
    (graph.placed anchor new).get id =
      .ok (node.rename (anchor.instead ⟨graph.handle graph.issued, 0⟩)) :=
  get_placed_iff.mpr (Or.inr ⟨node, found, rfl⟩)

theorem get_bypassed_iff {other : NodeId} {input : TensorRef} {now : Node α}
    (found : graph.get id = .ok node) :
    (graph.bypassed id input).get other = .ok now ↔
      other ≠ id ∧
        ∃ old, graph.get other = .ok old ∧ now = old.rename (TensorRef.past id input) := by
  constructor
  · intro there
    obtain ⟨named, listed⟩ := listed_of_get there
    obtain ⟨⟨old, older, rfl⟩, apart⟩ := find?_bypassed_eq_some_iff.mp listed
    have here : other = graph.handle other.index := named
    exact ⟨fun same => apart (congrArg NodeId.index same), old,
      here ▸ get_handle_eq_ok_iff.mpr older, rfl⟩
  · rintro ⟨apart, old, there, rfl⟩
    obtain ⟨named, older⟩ := listed_of_get there
    have different := index_ne_of_get found there apart
    have relisted : (graph.bypassed id input).find? other.index =
        some (old.rename (TensorRef.past id input)) :=
      find?_bypassed_eq_some_iff.mpr ⟨⟨old, older, rfl⟩, different⟩
    rw [named]
    exact get_handle_eq_ok_iff.mpr relisted

theorem get_bypassed_of_get {other : NodeId} {old : Node α} (found : graph.get id = .ok node)
    (there : graph.get other = .ok old) (apart : other ≠ id) (input : TensorRef) :
    (graph.bypassed id input).get other = .ok (old.rename (TensorRef.past id input)) :=
  (get_bypassed_iff found).mpr ⟨apart, old, there, rfl⟩

/-! ## Replacements before and after other edits -/

variable {index : Nat} {new : Node α}

theorem replace_comm {other : Nat} (apart : index ≠ other) (graph : Graph α)
    (first second : Node α) :
    (graph.replace index first).replace other second =
      (graph.replace other second).replace index first := by
  simp only [replace, List.set_comm _ _ apart]

theorem rename_replace (graph : Graph α) (f : TensorRef → TensorRef) :
    (graph.replace index new).rename f = (graph.rename f).replace index (new.rename f) := by
  simp only [replace, rename, List.map_set, Option.map_some]

theorem placed_replace (listed : graph.find? index = some node) (anchor : TensorRef)
    (placedNode : Node α) :
    (graph.replace index new).placed anchor placedNode =
      (graph.placed anchor placedNode).replace index
        (new.rename (anchor.instead ⟨graph.handle graph.issued, 0⟩)) := by
  have below : index < (graph.rename
      (anchor.instead ⟨graph.handle graph.issued, 0⟩)).slots.length := by
    rw [rename, List.length_map]
    exact issued_of_find? listed
  have same : (graph.replace index new).handle (graph.replace index new).issued =
      graph.handle graph.issued := by
    rw [issued_replace]
    rfl
  simp only [placed, same, rename_replace]
  simp only [replace, List.set_append_left _ _ below]

theorem bypassed_replace (apart : index ≠ id.index) (graph : Graph α) (input : TensorRef) :
    (graph.replace index new).bypassed id input =
      (graph.bypassed id input).replace index (new.rename (TensorRef.past id input)) := by
  simp only [bypassed, rename_replace]
  simp only [dropped, replace, List.set_comm _ _ apart]

end QuantNet.Graph
