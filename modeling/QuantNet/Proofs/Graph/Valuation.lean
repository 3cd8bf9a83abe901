import QuantNet.Graph.Evaluation
import QuantNet.Proofs.Graph.Counting

/-!
# Valuations

A valuation gives every node a value at once, in no order.  Where slots, order and uses fit together
and nodes with a single input stand behind the producer of it, the evaluation of a graph succeeds
exactly if the graph has a valuation, and gives the values of its outputs.
-/

namespace QuantNet.Graph

variable {α : Type} [Scalar α] {graph : Graph α} {inputs outs : List (Tensor α)}
  {value : NodeId → Tensor α}

/-- Values of the nodes of a graph: those of the input nodes are given, and every other node has the
value that it computes from the value of its producer. -/
structure Valuation (graph : Graph α) (inputs outs : List (Tensor α))
    (value : NodeId → Tensor α) : Prop where
  inputs : graph.inputs.map value = inputs
  nodes : ∀ ⦃index node⦄, graph.find? index = some node → node.kind ≠ .input →
    ∃ producer, node.inputs = [⟨producer, 0⟩] ∧
      node.evaluate (value producer) = .ok (value (graph.handle index))
  outputs : graph.outputs.map (fun ref => value ref.node) = outs

/-! ## Nodes in graph order -/

omit [Scalar α] in
theorem Linked.order_eq_map (linked : graph.Linked) :
    graph.order = graph.nodes.map fun entry => graph.handle entry.1 := by
  have all : graph.select (fun _ => true) = graph.nodes.map fun entry => graph.handle entry.1 := by
    rw [select, List.filter_true]
  rw [← all, linked.select_eq_filter]
  refine (List.filter_eq_self.mpr fun id member => ?_).symm
  obtain ⟨_, node, listed⟩ := linked.mem_order.mp member
  rw [satisfies, listed]
  rfl

omit [Scalar α] in
/-- The producer of the single input of a node is among the nodes in front of it. -/
theorem Linked.source_in_front (linked : graph.Linked) (single : graph.OrderedAt (· = 1))
    {front rest : List (Nat × Node α)} {index : Nat} {node : Node α} {input : TensorRef}
    (split : graph.nodes = front ++ (index, node) :: rest) (reads : node.inputs = [input]) :
    ∃ entry ∈ front, graph.handle entry.1 = input.node := by
  have listed : graph.find? index = some node := by
    have member : (index, node) ∈ graph.nodes :=
      split ▸ List.mem_append_right front List.mem_cons_self
    exact linked.lists.mem_nodes_iff.mp member
  have before := single listed (congrArg List.length reads) input
    (reads ▸ List.mem_singleton_self input)
  have order : graph.order = front.map (fun entry => graph.handle entry.1) ++
      graph.handle index :: rest.map (fun entry => graph.handle entry.1) := by
    rw [linked.order_eq_map, split, List.map_append, List.map_cons]
  rw [Before, order] at before
  exact List.mem_map.mp (mem_front_of_pair (order ▸ linked.nodup) before)

/-- The handles of the input nodes among some nodes. -/
def inputsAmong (tag : Nat) (entries : List (Nat × Node α)) : List NodeId :=
  (entries.filter fun entry => entry.2.kind = .input).map fun entry => ⟨tag, entry.1⟩

omit [Scalar α] in
theorem operand_eq_ok_iff {values : List (NodeId × Tensor α)} {node : Node α} {x : Tensor α} :
    operand values node = .ok x ↔
      ∃ producer, node.inputs = [⟨producer, 0⟩] ∧ values.lookup producer = some x := by
  unfold operand valueOf
  constructor
  · intro read
    split at read
    · next producer reads =>
        refine ⟨producer, reads, ?_⟩
        split at read
        · next value found => exact found.trans (congrArg some (Except.ok.inj read))
        · cases read
    · cases read
  · rintro ⟨producer, reads, found⟩
    simp only [reads, found]

/-! ## From an evaluation to a valuation -/

/-- What the evaluation of some nodes adds to the values so far: it keeps them, gives the inputs to
the input nodes, and a value to every other node. -/
structure Extends (tag : Nat) (entries : List (Nat × Node α)) (inputs : List (Tensor α))
    (values final : List (NodeId × Tensor α)) : Prop where
  kept : ∀ id x, values.lookup id = some x → final.lookup id = some x
  given : (inputsAmong tag entries).length = inputs.length →
    (inputsAmong tag entries).map (fun id => final.lookup id) = inputs.map some
  computed : ∀ entry ∈ entries, entry.2.kind ≠ .input →
    ∃ producer x y, entry.2.inputs = [⟨producer, 0⟩] ∧ final.lookup producer = some x ∧
      entry.2.evaluate x = .ok y ∧ final.lookup ⟨tag, entry.1⟩ = some y

section Steps

variable {tag index : Nat} {node : Node α} {rest : List (Nat × Node α)} {x y : Tensor α}
  {values final : List (NodeId × Tensor α)}

omit [Scalar α] in
private theorem lookup_cons_of_fresh {id other : NodeId}
    (fresh : values.lookup id = none) (found : values.lookup other = some x) :
    List.lookup other ((id, y) :: values) = some x := by
  have different : other ≠ id := by
    rintro rfl
    rw [fresh] at found
    cases found
  rw [List.lookup_cons, beq_eq_false_iff_ne.mpr different]
  exact found

omit [Scalar α] in
@[simp]
theorem lookup_cons_self {id : NodeId} : List.lookup id ((id, y) :: values) = some y := by
  rw [List.lookup_cons, beq_self_eq_true]

private theorem Extends.input
    (others : Extends tag rest inputs.tail ((⟨tag, index⟩, inputs.headD .empty) :: values) final)
    (fresh : values.lookup ⟨tag, index⟩ = none) (kind : node.kind = .input) :
    Extends tag ((index, node) :: rest) inputs values final where
  kept := fun id x found => others.kept id x (lookup_cons_of_fresh fresh found)
  given := by
    have among : inputsAmong tag ((index, node) :: rest) =
        ⟨tag, index⟩ :: inputsAmong tag rest := by
      simp [inputsAmong, kind]
    intro same
    rw [among] at same ⊢
    cases inputs with
    | nil => cases same
    | cons first left =>
        rw [List.map_cons, List.map_cons, others.kept _ _ lookup_cons_self]
        exact congrArg (some first :: ·) (others.given (Nat.succ.inj same))
  computed := by
    intro entry member other
    rcases List.mem_cons.mp member with rfl | later
    · exact absurd kind other
    · exact others.computed entry later other

private theorem Extends.layer
    (others : Extends tag rest inputs ((⟨tag, index⟩, y) :: values) final)
    (fresh : values.lookup ⟨tag, index⟩ = none) (kind : node.kind ≠ .input)
    (read : operand values node = .ok x) (value : node.evaluate x = .ok y) :
    Extends tag ((index, node) :: rest) inputs values final where
  kept := fun id x found => others.kept id x (lookup_cons_of_fresh fresh found)
  given := by
    have among : inputsAmong tag ((index, node) :: rest) = inputsAmong tag rest := by
      simp [inputsAmong, kind]
    rw [among]
    exact others.given
  computed := by
    intro entry member other
    rcases List.mem_cons.mp member with rfl | later
    · obtain ⟨producer, reads, found⟩ := operand_eq_ok_iff.mp read
      exact ⟨producer, x, y, reads, others.kept _ _ (lookup_cons_of_fresh fresh found), value,
        others.kept _ _ lookup_cons_self⟩
    · exact others.computed entry later other

end Steps

theorem extends_of_evaluateNodes (tag : Nat) {final : List (NodeId × Tensor α)} :
    ∀ (entries : List (Nat × Node α)) (inputs : List (Tensor α))
      (values : List (NodeId × Tensor α)),
      (entries.map fun entry => (⟨tag, entry.1⟩ : NodeId)).Nodup →
        (∀ entry ∈ entries, values.lookup ⟨tag, entry.1⟩ = none) →
          evaluateNodes tag entries inputs values = .ok final →
            Extends tag entries inputs values final := by
  intro entries
  induction entries with
  | nil =>
      intro inputs values _ _ done
      obtain rfl := Except.ok.inj done
      refine ⟨fun _ _ found => found, fun same => ?_, fun _ member => ?_⟩
      · rw [List.eq_nil_of_length_eq_zero same.symm]
        rfl
      · exact absurd member List.not_mem_nil
  | cons entry rest inductionHypothesis =>
      obtain ⟨index, node⟩ := entry
      intro inputs values nodup fresh done
      obtain ⟨apart, nodup⟩ := List.nodup_cons.mp nodup
      have stillFresh : ∀ (y : Tensor α), ∀ other ∈ rest,
          List.lookup ⟨tag, other.1⟩ ((⟨tag, index⟩, y) :: values) = none := by
        intro y other member
        have different : (⟨tag, other.1⟩ : NodeId) ≠ ⟨tag, index⟩ := fun same =>
          apart (List.mem_map.mpr ⟨other, member, same⟩)
        rw [List.lookup_cons, beq_eq_false_iff_ne.mpr different]
        exact fresh other (List.mem_cons_of_mem _ member)
      have freshHere := fresh _ List.mem_cons_self
      rw [evaluateNodes] at done
      split at done
      · next kind =>
          have others := inductionHypothesis _ _ nodup (stillFresh _) done
          exact others.input freshHere kind
      · next kind =>
          obtain ⟨x, read, more⟩ := except_bind_eq_ok.mp done
          obtain ⟨y, value, most⟩ := except_bind_eq_ok.mp more
          have others := inductionHypothesis _ _ nodup (stillFresh y) most
          exact others.layer freshHere kind read value

/-! ## From a valuation to an evaluation -/

/-- The evaluation of the last nodes of a graph, when the nodes before them have their values. -/
theorem Valuation.evaluateNodes_eq_ok
    (valuation : graph.Valuation inputs outs value) (linked : graph.Linked)
    (single : graph.OrderedAt (· = 1)) :
    ∀ (rest front : List (Nat × Node α)) (values : List (NodeId × Tensor α)),
      graph.nodes = front ++ rest →
        (∀ entry ∈ front, values.lookup (graph.handle entry.1) =
          some (value (graph.handle entry.1))) →
          ∃ final,
            evaluateNodes graph.tag rest ((inputsAmong graph.tag rest).map value) values =
              .ok final ∧
              ∀ id ∈ graph.order, final.lookup id = some (value id) := by
  intro rest
  induction rest with
  | nil =>
      intro front values split known
      refine ⟨values, rfl, fun id member => ?_⟩
      rw [linked.order_eq_map, split, List.append_nil] at member
      obtain ⟨entry, among, rfl⟩ := List.mem_map.mp member
      exact known entry among
  | cons entry rest inductionHypothesis =>
      obtain ⟨index, node⟩ := entry
      intro front values split known
      have listed : graph.find? index = some node := by
        have member : (index, node) ∈ graph.nodes :=
          split ▸ List.mem_append_right front List.mem_cons_self
        exact linked.lists.mem_nodes_iff.mp member
      have resplit : graph.nodes = (front ++ [(index, node)]) ++ rest := by
        rw [split, List.append_assoc, List.singleton_append]
      have extend : ∀ entry ∈ front ++ [(index, node)],
          List.lookup (graph.handle entry.1)
              ((graph.handle index, value (graph.handle index)) :: values) =
            some (value (graph.handle entry.1)) := by
        intro entry member
        rw [List.lookup_cons]
        by_cases same : graph.handle entry.1 = graph.handle index
        · rw [same, beq_self_eq_true]
        · rw [beq_eq_false_iff_ne.mpr same]
          rcases List.mem_append.mp member with before | last
          · exact known entry before
          · exact absurd (by rw [List.mem_singleton.mp last]) same
      obtain ⟨final, done, all⟩ := inductionHypothesis _ _ resplit extend
      refine ⟨final, ?_, all⟩
      rw [evaluateNodes]
      by_cases kind : node.kind = .input
      · have among : inputsAmong graph.tag ((index, node) :: rest) =
            graph.handle index :: inputsAmong graph.tag rest := by
          simp [inputsAmong, kind, handle]
        rw [if_pos kind, among]
        exact done
      · have among : inputsAmong graph.tag ((index, node) :: rest) =
            inputsAmong graph.tag rest := by
          simp [inputsAmong, kind]
        obtain ⟨producer, reads, computed⟩ := valuation.nodes listed kind
        obtain ⟨entry, earlier, rfl⟩ := linked.source_in_front single split reads
        rw [if_neg kind, among]
        refine except_bind_eq_ok.mpr ⟨_, ?_, except_bind_eq_ok.mpr ⟨_, computed, done⟩⟩
        exact operand_eq_ok_iff.mpr ⟨_, reads, known entry earlier⟩

/-! ## Evaluation and valuations -/

omit [Scalar α] in
@[simp]
theorem valueOf_eq_ok_iff {values : List (NodeId × Tensor α)} {id : NodeId} {x : Tensor α} :
    valueOf values id = .ok x ↔ values.lookup id = some x := by
  unfold valueOf
  cases values.lookup id <;> simp

omit [Scalar α] in
theorem mapM_valueOf_eq_ok_iff {values : List (NodeId × Tensor α)} (refs : List TensorRef) :
    ∀ outs : List (Tensor α),
      refs.mapM (fun ref => valueOf values ref.node) = .ok outs ↔
        refs.map (fun ref => values.lookup ref.node) = outs.map some := by
  induction refs with
  | nil =>
      intro outs
      rw [List.mapM_nil, except_pure_eq_ok, List.map_nil]
      cases outs <;> simp
  | cons ref rest inductionHypothesis =>
      intro outs
      simp only [List.mapM_cons, except_bind_eq_ok, except_pure_eq_ok, valueOf_eq_ok_iff,
        inductionHypothesis]
      cases outs with
      | nil => simp
      | cons first others => simp [and_comm]

theorem evaluate_eq_ok_iff :
    graph.evaluate inputs = .ok outs ↔
      graph.inputs.length = inputs.length ∧
        ∃ final, evaluateNodes graph.tag graph.nodes inputs [] = .ok final ∧
          graph.outputs.map (fun ref => final.lookup ref.node) = outs.map some := by
  unfold evaluate
  by_cases same : graph.inputs.length = inputs.length
  · simp only [same, if_true, except_bind_eq_ok, true_and, mapM_valueOf_eq_ok_iff]
  · simp only [same, if_false, false_and, iff_false]
    exact except_throw_ne_ok

omit [Scalar α] in
private theorem map_getD_of_map_eq {β γ : Type} {items : List β} {look : β → Option γ}
    {found : List γ} (all : items.map look = found.map some) (other : γ) :
    items.map (fun item => (look item).getD other) = found := by
  have same := congrArg (List.map fun entry => entry.getD other) all
  simpa only [List.map_map, Function.comp_def, Option.getD_some, List.map_id'] using same

/-- The evaluation of a graph gives what a valuation of the graph has at its outputs. -/
theorem Linked.evaluate_eq_ok_iff_valuation (linked : graph.Linked)
    (single : graph.OrderedAt (· = 1)) :
    graph.evaluate inputs = .ok outs ↔ ∃ value, graph.Valuation inputs outs value := by
  have ids : graph.nodes.map (fun entry => (⟨graph.tag, entry.1⟩ : NodeId)) = graph.order :=
    linked.order_eq_map.symm
  have given : inputsAmong graph.tag graph.nodes = graph.inputs := rfl
  rw [evaluate_eq_ok_iff]
  constructor
  · rintro ⟨size, final, done, exported⟩
    have extension := extends_of_evaluateNodes graph.tag graph.nodes inputs []
      (ids ▸ linked.nodup) (fun _ _ => rfl) done
    refine ⟨fun id => (final.lookup id).getD .empty, ?_, ?_, ?_⟩
    · exact map_getD_of_map_eq (extension.given size) .empty
    · intro index node listed kind
      obtain ⟨producer, x, y, reads, read, computed, found⟩ :=
        extension.computed (index, node) (linked.lists.mem_nodes_iff.mpr listed) kind
      refine ⟨producer, reads, ?_⟩
      have here : final.lookup (graph.handle index) = some y := found
      rw [read, here]
      exact computed
    · exact map_getD_of_map_eq exported .empty
  · rintro ⟨value, valuation⟩
    obtain ⟨final, done, all⟩ :=
      valuation.evaluateNodes_eq_ok linked single graph.nodes [] [] rfl
        fun _ member => absurd member List.not_mem_nil
    rw [given, valuation.inputs] at done
    refine ⟨?_, final, done, ?_⟩
    · rw [← valuation.inputs, List.length_map]
    · rw [← valuation.outputs, List.map_map]
      apply List.map_congr_left
      intro ref member
      exact all ref.node (linked.producer_mem (linked.exports ref member))

theorem WellFormed.evaluate_eq_ok_iff_valuation (wf : graph.WellFormed) :
    graph.evaluate inputs = .ok outs ↔ ∃ value, graph.Valuation inputs outs value :=
  wf.linked.evaluate_eq_ok_iff_valuation wf.single

end QuantNet.Graph
