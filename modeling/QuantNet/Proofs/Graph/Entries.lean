import QuantNet.Proofs.Graph.Handles

/-!
# The nodes of a graph and their weights

Where the nodes of a graph and their weights are after an edit.  Giving other tensors to the users
of a tensor touches the inputs of nodes and nothing else, so that an insertion adds one node and a
removal takes one away, on any graph, well formed or not.
-/

namespace QuantNet.Graph

variable {α : Type} {graph changed : Graph α} {id : NodeId} {node : Node α} {index : Nat}
  {role : Role}

/-- The weight with a role of the node with a number. -/
def weightAt? (graph : Graph α) (index : Nat) (role : Role) : Option (Weight α) :=
  (graph.find? index).bind fun node => node.weights.get? role

theorem weightAt?_of_find? (listed : graph.find? index = some node) (role : Role) :
    graph.weightAt? index role = node.weights.get? role := by
  rw [weightAt?, listed, Option.bind_some]

theorem weightAt?_replace (listed : graph.find? index = some node) (new : Node α) (other : Nat)
    (role : Role) :
    (graph.replace index new).weightAt? other role =
      if other = index then new.weights.get? role else graph.weightAt? other role := by
  rw [weightAt?, find?_replace listed]
  split <;> rfl

/-! ## What redirecting leaves of a node -/

section

variable {β : Type} {reading : Node α → β}
  (free : ∀ old new (node : Node α), reading (node.redirect old new) = reading node)

include free

/-- What does not look at the inputs of a node stays as it is when they are redirected. -/
private theorem map_find?_replaceInput (graph : Graph α) (reader : NodeId) (old new : TensorRef)
    (index : Nat) :
    ((graph.replaceInput reader old new).find? index).map reading =
      (graph.find? index).map reading := by
  unfold find? replaceInput
  rw [List.getElem?_modify]
  by_cases here : reader.index = index
  · rw [here]
    cases graph.slots[index]? with
    | none => rfl
    | some slot => cases slot <;> simp [free]
  · simp [here]

private theorem map_find?_redirect (readers : List NodeId) (old new : TensorRef) (index : Nat) :
    ∀ graph : Graph α,
      ((graph.redirect readers old new).find? index).map reading =
        (graph.find? index).map reading := by
  unfold redirect
  induction readers with
  | nil => exact fun _ => rfl
  | cons reader rest inductionHypothesis =>
      intro graph
      exact (inductionHypothesis (graph.replaceInput reader old new)).trans
        (map_find?_replaceInput free graph reader old new index)

/-- An insertion adds the new node, and of the others redirects at most the inputs. -/
theorem map_find?_insert (added : graph.insert node = .ok (id, changed)) (index : Nat) :
    (changed.find? index).map reading =
      if index = graph.issued then some (reading node) else (graph.find? index).map reading := by
  obtain ⟨_, _, rest⟩ := except_bind_eq_ok.mp added
  split at rest
  · exact absurd rest except_throw_ne_ok
  · next anchor others reads =>
      obtain ⟨place, _, result⟩ := except_bind_eq_ok.mp rest
      obtain ⟨rfl, rfl⟩ := Prod.mk.inj (except_pure_eq_ok.mp result)
      rw [map_find?_redirect free]
      have appended : ((graph.append node).2.find? index).map reading =
          if index = graph.issued then some (reading node)
          else (graph.find? index).map reading := by
        rw [find?_append]
        split <;> rfl
      exact appended

/-- A removal that rewires takes the node away, and of the others redirects at most the inputs. -/
theorem map_find?_remove (removed : graph.remove id true = .ok changed) (index : Nat) :
    (changed.find? index).map reading =
      if index = id.index then none else (graph.find? index).map reading := by
  obtain ⟨node, found, rest⟩ := except_bind_eq_ok.mp removed
  simp only [if_true] at rest
  split at rest
  · exact absurd rest except_throw_ne_ok
  · next input only =>
      have rewired : ∀ (tensors : List TensorRef) (graph : Graph α),
          ((tensors.foldl (fun graph old => graph.redirect (graph.readers old) old input)
            graph).find? index).map reading = (graph.find? index).map reading := by
        intro tensors
        induction tensors with
        | nil => exact fun _ => rfl
        | cons old others inductionHypothesis =>
            intro graph
            rw [List.foldl_cons, inductionHypothesis, map_find?_redirect free]
      obtain ⟨_, rfl⟩ := drop_eq_ok_iff.mp (lift_eq_ok.mp rest)
      rw [find?_dropped]
      split
      · rfl
      · exact rewired (tensorsOf id node) graph

end

private theorem tag_redirect (readers : List NodeId) (old new : TensorRef) :
    ∀ graph : Graph α, (graph.redirect readers old new).tag = graph.tag := by
  unfold redirect
  induction readers with
  | nil => exact fun _ => rfl
  | cons reader rest inductionHypothesis =>
      exact fun graph => inductionHypothesis (graph.replaceInput reader old new)

/-- An insertion issues the next handle of the graph. -/
theorem handle_of_insert (added : graph.insert node = .ok (id, changed)) :
    id = graph.handle graph.issued ∧ changed.tag = graph.tag ∧
      changed.issued = graph.issued + 1 := by
  obtain ⟨_, _, rest⟩ := except_bind_eq_ok.mp added
  split at rest
  · exact absurd rest except_throw_ne_ok
  · next anchor others reads =>
      obtain ⟨place, _, result⟩ := except_bind_eq_ok.mp rest
      obtain ⟨rfl, rfl⟩ := Prod.mk.inj (except_pure_eq_ok.mp result)
      exact ⟨rfl, tag_redirect _ _ _ _, (redirect_frame _ _ _ _).2.trans List.length_append⟩

/-- A graph with one handle more knows the others as before. -/
theorem knows_of_grown {other : NodeId} (tag : changed.tag = graph.tag)
    (issued : changed.issued = graph.issued + 1) (older : other ≠ graph.handle graph.issued) :
    changed.knows other = graph.knows other := by
  simp only [knows, tag, issued]
  by_cases tagged : other.graph = graph.tag
  · have early : other.index ≠ graph.issued := by
      intro last
      refine older ?_
      cases other
      simp_all [handle]
    have same : other.index < graph.issued + 1 ↔ other.index < graph.issued := by
      omega
    simp only [same]
  · simp only [tagged, decide_false, Bool.false_and]

/-! ## Weights -/

theorem weightAt?_eq_map (graph : Graph α) (index : Nat) (role : Role) :
    graph.weightAt? index role =
      ((graph.find? index).map Node.weights).bind fun weights => weights.get? role := by
  rw [Option.bind_map]
  rfl

/-- A removal that rewires takes the weights of the node away. -/
theorem weightAt?_remove (removed : graph.remove id true = .ok changed) (index : Nat)
    (role : Role) :
    changed.weightAt? index role =
      if index = id.index then none else graph.weightAt? index role := by
  rw [weightAt?_eq_map, map_find?_remove (fun _ _ _ => rfl) removed, weightAt?_eq_map]
  split <;> rfl

end QuantNet.Graph
