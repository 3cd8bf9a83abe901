import QuantNet.Proofs.Graph.Replacement

/-!
# Handles in the order

No graph has a handle twice in its order, in whatever way it was made: by operations, failed ones
included, and by changes of its nodes that nobody checks.  Such changes can break the references
between the nodes, so that the graph need not be well formed.
-/

namespace QuantNet.Graph

variable {α : Type}

/-- A graph that comes from an empty one by operations and by changes of single nodes. -/
inductive Made : Graph α → Prop
  | empty (tag : Nat) : Made (.empty tag)
  | operation {graph : Graph α} (operation : Operation α) (made : Made graph) :
      Made (operation.perform graph).1
  | modify {graph changed : Graph α} {id : NodeId} {change : Node α → Node α} (made : Made graph)
      (done : graph.modify id change = .ok changed) : Made changed

/-- The handles in the order were issued, each stands there once. -/
structure Registers (graph : Graph α) : Prop where
  once : graph.order.Nodup
  issued : ∀ id ∈ graph.order, id.index < graph.issued

variable {graph changed : Graph α} {id : NodeId} {node : Node α}

theorem Registers.empty (tag : Nat) : (Graph.empty tag : Graph α).Registers where
  once := List.nodup_nil
  issued := fun _ member => absurd member List.not_mem_nil

/-- An edit that issues no handle at most takes handles out of the order. -/
private theorem Registers.kept (registers : graph.Registers)
    (order : changed.order.Sublist graph.order) (issued : changed.issued = graph.issued) :
    changed.Registers where
  once := order.nodup registers.once
  issued := fun id member => issued ▸ registers.issued id (order.subset member)

/-- An edit that issues a handle puts it somewhere in the order. -/
private theorem Registers.grown (registers : graph.Registers)
    (order : changed.order.Perm (graph.handle graph.issued :: graph.order))
    (issued : changed.issued = graph.issued + 1) : changed.Registers where
  once := by
    refine order.nodup_iff.mpr (List.nodup_cons.mpr ⟨fun member => ?_, registers.once⟩)
    exact Nat.lt_irrefl _ (registers.issued _ member)
  issued := by
    intro id member
    rw [issued]
    rcases List.mem_cons.mp (order.mem_iff.mp member) with rfl | older
    · exact Nat.lt_succ_self graph.issued
    · exact Nat.lt_succ_of_lt (registers.issued id older)

/-! ## The steps of the operations -/

@[simp]
private theorem issued_replaceInput (graph : Graph α) (reader : NodeId) (old new : TensorRef) :
    (graph.replaceInput reader old new).issued = graph.issued :=
  List.length_modify _ _ _

/-- Redirecting readers touches neither the order nor the handles. -/
theorem redirect_frame (graph : Graph α) (readers : List NodeId) (old new : TensorRef) :
    (graph.redirect readers old new).order = graph.order ∧
      (graph.redirect readers old new).issued = graph.issued := by
  unfold redirect
  induction readers generalizing graph with
  | nil => exact ⟨rfl, rfl⟩
  | cons reader rest inductionHypothesis =>
      obtain ⟨order, issued⟩ := inductionHypothesis (graph.replaceInput reader old new)
      exact ⟨order, issued.trans (issued_replaceInput graph reader old new)⟩

private theorem foldl_redirect_frame (olds : List TensorRef) (new : TensorRef) (graph : Graph α) :
    let rewired := olds.foldl (fun graph old => graph.redirect (graph.readers old) old new) graph
    rewired.order = graph.order ∧ rewired.issued = graph.issued := by
  induction olds generalizing graph with
  | nil => exact ⟨rfl, rfl⟩
  | cons old rest inductionHypothesis =>
      obtain ⟨order, issued⟩ := inductionHypothesis (graph.redirect (graph.readers old) old new)
      obtain ⟨sameOrder, sameIssued⟩ := redirect_frame graph (graph.readers old) old new
      exact ⟨order.trans sameOrder, issued.trans sameIssued⟩

theorem Registers.append (registers : graph.Registers) (node : Node α) :
    (graph.append node).2.Registers :=
  registers.grown (List.perm_append_singleton _ _) List.length_append

theorem Registers.replace (registers : graph.Registers) (index : Nat) (node : Node α) :
    (graph.replace index node).Registers :=
  registers.kept (List.Sublist.refl _) (issued_replace graph index node)

theorem Registers.insert (registers : graph.Registers)
    (inserted : graph.insert node = .ok (id, changed)) : changed.Registers := by
  simp only [Graph.insert, except_bind_eq_ok] at inserted
  obtain ⟨_, _, placed⟩ := inserted
  split at placed
  · exact absurd placed except_throw_ne_ok
  · next anchor others reads =>
      obtain ⟨place, found, shape⟩ := except_bind_eq_ok.mp placed
      obtain ⟨listed, rfl⟩ := position_eq_ok_iff.mp (lift_eq_ok.mp found)
      obtain rfl := congrArg Prod.snd (except_pure_eq_ok.mp shape)
      obtain ⟨order, issued⟩ := redirect_frame
        { (graph.alloc node).2 with
          order := behind anchor.node (graph.handle graph.issued) graph.order }
        (graph.readers anchor) anchor ⟨graph.handle graph.issued, 0⟩
      refine registers.grown ?_ (issued.trans List.length_append)
      exact (List.Perm.of_eq order).trans
        (List.perm_insertIdx _ _ (Nat.succ_le_of_lt (List.idxOf_lt_length_of_mem listed)))

theorem Registers.drop (registers : graph.Registers) (dropped : graph.drop id = .ok changed) :
    changed.Registers := by
  obtain ⟨_, rfl⟩ := drop_eq_ok_iff.mp dropped
  exact registers.kept List.erase_sublist List.length_set

theorem Registers.remove (registers : graph.Registers) {rewire : Bool}
    (removed : graph.remove id rewire = .ok changed) : changed.Registers := by
  obtain ⟨node, _, rest⟩ := except_bind_eq_ok.mp removed
  split at rest
  · split at rest
    · exact absurd rest except_throw_ne_ok
    · next input _ =>
        obtain ⟨order, issued⟩ := foldl_redirect_frame (tensorsOf id node) input graph
        exact (registers.kept (order ▸ List.Sublist.refl _) issued).drop (lift_eq_ok.mp rest)
  · split at rest
    · exact absurd rest except_throw_ne_ok
    · exact registers.drop (lift_eq_ok.mp rest)

theorem Registers.change (registers : graph.Registers) {operation : Operation α}
    {answer : Option NodeId} (done : operation.change graph = .ok (answer, changed)) :
    changed.Registers := by
  cases performs_of_change done with
  | append => exact registers.append _
  | insert added => exact registers.insert added
  | remove removed => exact registers.remove removed
  | replace => exact registers.replace _ _
  | expose => exact registers.kept (List.Sublist.refl _) rfl

theorem Registers.perform (registers : graph.Registers) (operation : Operation α) :
    (operation.perform graph).1.Registers := by
  cases done : operation.change graph with
  | ok result =>
      rw [perform_of_change done]
      exact registers.change done
  | error failure =>
      rw [perform_of_failure done]
      exact registers

theorem Made.replay (made : graph.Made) (history : List (Operation α)) :
    (graph.replay history).Made := by
  induction history generalizing graph with
  | nil => exact made
  | cons operation rest inductionHypothesis => exact inductionHypothesis (made.operation operation)

theorem Made.registers (made : graph.Made) : graph.Registers := by
  induction made with
  | empty tag => exact .empty tag
  | operation operation _ inductionHypothesis => exact inductionHypothesis.perform operation
  | modify _ done inductionHypothesis =>
      obtain ⟨node, _, rfl⟩ := modify_eq_ok_iff.mp done
      exact inductionHypothesis.replace _ _

end QuantNet.Graph
