import Mathlib.Data.List.Induction
import Mathlib.Logic.Relation
import QuantNet.Proofs.Graph.History

/-!
# Topological order

Whether every node stands behind the producers of all of its inputs.  A new node is put behind the
producer of its first input, wherever its other inputs are produced, so that an insertion can
break the order, and can even close a cycle.  Nothing else can break it: the order is topological
throughout a history exactly if every node that was inserted found its inputs produced no later
than its first one.
-/

namespace QuantNet

namespace Graph

variable {α : Type} {graph : Graph α}

/-- Every node stands behind the producers of all of its inputs. -/
def Ordered (graph : Graph α) : Prop :=
  graph.OrderedAt fun _ => True

/-- One node reads a tensor that another one produces. -/
def Feeds (graph : Graph α) (producer reader : NodeId) : Prop :=
  ∃ index node, graph.find? index = some node ∧ reader = graph.handle index ∧
    ∃ input ∈ node.inputs, input.node = producer

/-- No node reads, through whichever nodes, what it produces itself. -/
def Acyclic (graph : Graph α) : Prop :=
  ∀ id, ¬ Relation.TransGen graph.Feeds id id

theorem Ordered.before_of_feeds
    (ordered : graph.Ordered) {producer reader : NodeId} (feeds : graph.Feeds producer reader) :
    graph.Before producer reader := by
  obtain ⟨index, node, listed, rfl, input, member, rfl⟩ := feeds
  exact ordered listed trivial input member

/-- What feeds a node through others stands before it as well. -/
theorem Ordered.before_of_path
    (ordered : graph.Ordered) (nodup : graph.order.Nodup) {producer reader : NodeId}
    (path : Relation.TransGen graph.Feeds producer reader) :
    graph.Before producer reader := by
  induction path with
  | single feeds =>
      exact ordered.before_of_feeds feeds
  | tail _ feeds inductionHypothesis =>
      exact pair_trans nodup inductionHypothesis (ordered.before_of_feeds feeds)

theorem Ordered.acyclic (ordered : graph.Ordered) (nodup : graph.order.Nodup) :
    graph.Acyclic := by
  intro id path
  exact (ordered.before_of_path nodup path).ne nodup rfl

end Graph

namespace Operation

variable {α : Type} {graph changed : Graph α}

/-- The operation is no accepted insertion of a node that reads a tensor from behind the producer
of its first input. -/
def Respects (graph : Graph α) : Operation α → Prop
  | insert node =>
      ∀ anchor rest, node.inputs = anchor :: rest → graph.checkNew node = .ok () →
        ∀ input ∈ rest, input.node = anchor.node ∨ graph.Before input.node anchor.node
  | _ => True

end Operation

namespace Graph

variable {α : Type} {graph changed : Graph α}

/-- A node that was inserted in front of the producer of one of its inputs stands before it. -/
theorem WellFormed.fits_of_ordered_placed
    (wf : graph.WellFormed) {node : Node α} {anchor : TensorRef} {rest : List TensorRef}
    (exist : ∀ input ∈ node.inputs, graph.hasTensor input = true)
    (reads : node.inputs = anchor :: rest) (ordered : (graph.placed anchor node).Ordered) :
    ∀ input ∈ rest, input.node = anchor.node ∨ graph.Before input.node anchor.node := by
  intro input member
  have anchored : graph.hasTensor anchor = true := exist anchor (reads ▸ List.mem_cons_self)
  have used : input ∈ node.inputs := reads ▸ List.mem_cons_of_mem anchor member
  obtain ⟨front, back, oldOrder, newOrder⟩ := order_placed wf.linked anchored node
  have listed : (graph.placed anchor node).find? graph.issued = some node :=
    find?_placed_eq_some_iff.mpr (Or.inl ⟨rfl, rfl⟩)
  have behind := ordered listed trivial input used
  have nodup := wf.linked.nodup_placed anchored node
  have split : front ++ anchor.node :: graph.handle graph.issued :: back =
      (front ++ [anchor.node]) ++ graph.handle graph.issued :: back := by
    simp
  rw [newOrder, split] at nodup
  rw [Before, newOrder, split] at behind
  rcases List.mem_append.mp (mem_front_of_pair nodup behind) with earlier | here
  · refine Or.inr ?_
    rw [Before, oldOrder]
    exact (List.singleton_sublist.mpr earlier).append
      (List.Sublist.cons_cons anchor.node (List.nil_sublist back))
  · exact Or.inl (List.mem_singleton.mp here)

/-- An operation on an ordered graph leaves an ordered graph exactly if it respects the order. -/
theorem Ordered.perform_iff
    (ordered : graph.Ordered) (wf : graph.WellFormed) (operation : Operation α) :
    (operation.perform graph).1.Ordered ↔ operation.Respects graph := by
  constructor
  · intro kept
    cases operation with
    | insert node =>
        intro anchor rest reads checked
        obtain ⟨produces, exist⟩ := checkNew_eq_ok_iff.mp checked
        have anchored := wf.linked.producer_mem (exist anchor (reads ▸ List.mem_cons_self))
        have inserted := wf.lists.insert_eq_ok_iff.mpr
          ⟨checked, anchor, rest, reads, anchored, rfl, rfl⟩
        have done : (Operation.insert node).change graph =
            .ok (some (graph.handle graph.issued), graph.placed anchor node) := by
          rw [Operation.change, inserted]
          rfl
        rw [perform_of_change done] at kept
        exact wf.fits_of_ordered_placed exist reads kept
    | _ => trivial
  · intro respects
    cases done : operation.change graph with
    | error failure =>
        rw [perform_of_failure done]
        exact ordered
    | ok result =>
        rw [perform_of_change done]
        by_cases insertion : ∃ node, operation = .insert node
        · obtain ⟨node, rfl⟩ := insertion
          obtain ⟨checked, anchor, rest, reads, shape⟩ := wf.placed_of_change done
          obtain ⟨_, exist⟩ := checkNew_eq_ok_iff.mp checked
          rw [shape]
          refine OrderedAt.placed ordered wf.linked (exist anchor (reads ▸ List.mem_cons_self)) ?_
          intro _ input member
          rcases List.mem_cons.mp (reads ▸ member) with rfl | other
          · exact Or.inl rfl
          · exact respects anchor rest reads checked input other
        · exact OrderedAt.plain ordered wf
            (wf.plainEdit_of_change (fun node same => insertion ⟨node, same⟩) done)

/-- The graphs that a history passes through are ordered, and free of cycles, exactly if all of its
operations respect the order of the graph that they find. -/
theorem ordered_throughout_iff (tag : Nat) (history : List (Operation α)) :
    (∀ earlier, earlier <+: history →
        ((empty tag).replay earlier).Ordered ∧ ((empty tag).replay earlier).Acyclic) ↔
      ∀ earlier operation, earlier ++ [operation] <+: history →
        operation.Respects ((empty tag).replay earlier) := by
  have wf : ∀ earlier : List (Operation α), ((empty tag).replay earlier).WellFormed :=
    fun earlier => (WellFormed.empty tag).replay earlier
  have step : ∀ (earlier : List (Operation α)) (operation : Operation α),
      (empty tag).replay (earlier ++ [operation]) =
        (operation.perform ((empty tag).replay earlier)).1 :=
    fun earlier operation => replay_append _ earlier [operation]
  constructor
  · intro ordered earlier operation within
    have before := (ordered earlier ((List.prefix_append earlier [operation]).trans within)).1
    have after := (ordered (earlier ++ [operation]) within).1
    rw [step] at after
    exact (before.perform_iff (wf earlier) operation).mp after
  · intro respects earlier within
    have ordered : ((empty tag).replay earlier).Ordered := by
      induction earlier using List.reverseRecOn with
      | nil =>
          exact fun _ _ listed => by simp [replay] at listed
      | append_singleton start operation inductionHypothesis =>
          have before :=
            inductionHypothesis ((List.prefix_append start [operation]).trans within)
          rw [step]
          exact (before.perform_iff (wf start) operation).mpr (respects start operation within)
    exact ⟨ordered, ordered.acyclic (wf earlier).nodup⟩

/-! ## Insertions that break the order -/

/-- An activation that reads the first outputs of the nodes with these numbers. -/
def activationOf (name : String) (producers : List Nat) : Node Float32 :=
  Node.single .activation name .empty (producers.map fun index => ⟨⟨0, index⟩, 0⟩) [1, 4]
    (.fixed 16 6 true .unset)

/-- Two inputs and a node that is inserted to read both. -/
def joinedInputs : List (Operation Float32) :=
  [.addInput "x" [1, 4] (.fixed 16 6 true .unset), .addInput "y" [1, 4] (.fixed 16 6 true .unset),
    .insert (activationOf "join" [0, 1])]

/-- A chain of two nodes behind an input, and a node that is inserted behind the input to read the
end of the chain. -/
def closedChain : List (Operation Float32) :=
  [.addInput "x" [1, 4] (.fixed 16 6 true .unset), .push (activationOf "first" [0]),
    .push (activationOf "second" [1]), .insert (activationOf "join" [0, 2])]

/-- The inserted node stands in front of its second input, and it reads what it feeds. -/
theorem insertion_breaks_order :
    ¬ ((empty 0).replay joinedInputs).Ordered ∧ ¬ ((empty 0).replay closedChain).Acyclic := by
  constructor
  · intro ordered
    have listed : ((empty 0).replay joinedInputs).find? 2 = some (activationOf "join" [0, 1]) := by
      decide
    have behind := ordered listed trivial ⟨⟨0, 1⟩, 0⟩ (by decide)
    have order : ((empty 0).replay joinedInputs).order = [⟨0, 0⟩, ⟨0, 2⟩, ⟨0, 1⟩] := by
      decide
    rw [Before, order] at behind
    revert behind
    decide
  · intro acyclic
    have first : ((empty 0).replay closedChain).Feeds ⟨0, 3⟩ ⟨0, 1⟩ :=
      ⟨1, activationOf "first" [3], by decide, rfl, ⟨⟨0, 3⟩, 0⟩, by decide, rfl⟩
    have second : ((empty 0).replay closedChain).Feeds ⟨0, 1⟩ ⟨0, 2⟩ :=
      ⟨2, activationOf "second" [1], by decide, rfl, ⟨⟨0, 1⟩, 0⟩, by decide, rfl⟩
    have join : ((empty 0).replay closedChain).Feeds ⟨0, 2⟩ ⟨0, 3⟩ :=
      ⟨3, activationOf "join" [0, 2], by decide, rfl, ⟨⟨0, 2⟩, 0⟩, by decide, rfl⟩
    exact acyclic ⟨0, 3⟩
      (((Relation.TransGen.single first).tail second).tail join)

end Graph

end QuantNet
