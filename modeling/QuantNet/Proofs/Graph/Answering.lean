import QuantNet.Proofs.Graph.Valuation

/-!
# Evaluations that answer

The evaluation of a well-formed graph ends with a value for every output of the graph, with an
error, or because the outcome of a layer is too large to be stored.  It never asks for a value that
is not there: nodes with a single input stand behind the producer of that input, and the others are
refused before they read.
-/

namespace QuantNet

/-- An outcome that is no fault, unless it is one of those that are allowed. -/
def Answers {ε β : Type} (allowed : Fault → Prop) (outcome : Except (Failure ε) β) : Prop :=
  ∀ fault, outcome = .error (.fault fault) → allowed fault

/-- A tensor of some shape would not fit into memory. -/
def Fault.OutOfMemory (fault : Fault) : Prop :=
  ∃ shape : Shape, fault = .oversized shape ∧ shape.isStorable = false

section Outcomes

variable {ε β γ : Type} {allowed : Fault → Prop}

theorem answers_ok (value : β) : Answers allowed (.ok value : Except (Failure ε) β) :=
  fun _ same => nomatch same

theorem answers_error (cause : ε) : Answers allowed (.error (.error cause) : Except _ β) :=
  fun _ same => nomatch same

private theorem answers_mapError (outcome : Except ε β) :
    Answers allowed (outcome.mapError .error) := by
  cases outcome with
  | error cause => exact answers_error cause
  | ok value => exact answers_ok value

theorem Answers.bind {first : Except (Failure ε) β} {next : β → Except (Failure ε) γ}
    (start : Answers allowed first)
    (rest : ∀ value, first = .ok value → Answers allowed (next value)) :
    Answers allowed (first >>= next) := by
  cases first with
  | error failure =>
      intro fault same
      apply start fault
      rw [← Except.error.inj same]
  | ok value => exact rest value rfl

end Outcomes

variable {α : Type} [Scalar α]

namespace Node

theorem answers_applyWeight (node : Node α) (product : Product α) (x : Tensor α) :
    Answers Fault.OutOfMemory (node.applyWeight product x) := by
  unfold applyWeight
  refine (answers_mapError _).bind fun weight _ => ?_
  split
  · next shape _ =>
      split
      · exact answers_mapError _
      · next large =>
          intro fault same
          rw [← Failure.fault.inj (Except.error.inj same)]
          exact ⟨shape, rfl, eq_false_of_ne_true large⟩
  · exact answers_error _

theorem answers_evaluate (node : Node α) (x : Tensor α) :
    Answers Fault.OutOfMemory (node.evaluate x) := by
  unfold evaluate
  split
  · exact answers_ok x
  · exact node.answers_applyWeight _ x
  · exact node.answers_applyWeight _ x
  · exact node.answers_applyWeight _ x
  · exact answers_mapError _
  · exact answers_mapError _
  · split
    · exact answers_ok x
    · split
      · exact answers_ok _
      · exact answers_error _

end Node

namespace Graph

variable {graph : Graph α} {inputs outs : List (Tensor α)} {values : List (NodeId × Tensor α)}

omit [Scalar α] in
private theorem lookup_cons_of_known {id other : NodeId} {x y : Tensor α}
    (known : values.lookup other = some x) :
    ∃ value, List.lookup other ((id, y) :: values) = some value := by
  rw [List.lookup_cons]
  cases other == id with
  | true => exact ⟨y, rfl⟩
  | false => exact ⟨x, known⟩

/-- Some nodes have their values. -/
def Known (graph : Graph α) (values : List (NodeId × Tensor α)) (entries : List (Nat × Node α)) :
    Prop :=
  ∀ entry ∈ entries, ∃ value, values.lookup (graph.handle entry.1) = some value

omit [Scalar α] in
theorem Known.concat {front : List (Nat × Node α)} (known : graph.Known values front)
    (entry : Nat × Node α) (y : Tensor α) :
    graph.Known ((graph.handle entry.1, y) :: values) (front ++ [entry]) := by
  intro other member
  rcases List.mem_append.mp member with before | last
  · obtain ⟨value, found⟩ := known other before
    exact lookup_cons_of_known found
  · rw [List.mem_singleton.mp last]
    exact ⟨y, lookup_cons_self⟩

omit [Scalar α] in
theorem answers_valueOf {x : Tensor α} {id : NodeId} (found : values.lookup id = some x)
    (allowed : Fault → Prop) : Answers allowed (valueOf values id) := by
  rw [valueOf_eq_ok_iff.mpr found]
  exact answers_ok x

omit [Scalar α] in
/-- A node finds what it reads among the nodes in front of it. -/
theorem WellFormed.answers_operand (wf : graph.WellFormed) {front rest : List (Nat × Node α)}
    {index : Nat} {node : Node α} (split : graph.nodes = front ++ (index, node) :: rest)
    (known : graph.Known values front) (allowed : Fault → Prop) :
    Answers allowed (operand values node) := by
  unfold operand
  split
  · next producer reads =>
      obtain ⟨entry, earlier, here⟩ := wf.linked.source_in_front wf.single split reads
      obtain ⟨x, found⟩ := known entry earlier
      exact answers_valueOf (here ▸ found) allowed
  · exact answers_error _

/-- The evaluation of the last nodes of a graph, when the nodes in front of them have values, gives
values to all nodes. -/
theorem WellFormed.answers_evaluateNodes (wf : graph.WellFormed) :
    ∀ (rest front : List (Nat × Node α)) (inputs : List (Tensor α))
      (values : List (NodeId × Tensor α)),
      graph.nodes = front ++ rest → graph.Known values front →
        Answers Fault.OutOfMemory (evaluateNodes graph.tag rest inputs values) ∧
          ∀ final, evaluateNodes graph.tag rest inputs values = .ok final →
            graph.Known final graph.nodes := by
  intro rest
  induction rest with
  | nil =>
      intro front inputs values split known
      refine ⟨answers_ok values, fun final done => ?_⟩
      rw [← Except.ok.inj done, split, List.append_nil]
      exact known
  | cons entry rest inductionHypothesis =>
      intro front inputs values split known
      have resplit : graph.nodes = (front ++ [entry]) ++ rest := by
        rw [split, List.append_assoc, List.singleton_append]
      -- Whatever value the node is given, the nodes behind it find it among those in front.
      have later := fun (left : List (Tensor α)) (y : Tensor α) =>
        inductionHypothesis (front ++ [entry]) left _ resplit (known.concat entry y)
      obtain ⟨index, node⟩ := entry
      rw [evaluateNodes]
      split
      · exact later _ _
      · constructor
        · refine (wf.answers_operand split known _).bind fun x _ => ?_
          exact (node.answers_evaluate x).bind fun y _ => (later inputs y).1
        · intro final done
          obtain ⟨x, _, more⟩ := except_bind_eq_ok.mp done
          obtain ⟨y, _, most⟩ := except_bind_eq_ok.mp more
          exact (later inputs y).2 final most

omit [Scalar α] in
/-- All outputs of a graph have values once its nodes have. -/
theorem WellFormed.exists_outputs (wf : graph.WellFormed) (known : graph.Known values graph.nodes) :
    ∃ outs, graph.outputs.mapM (fun ref => valueOf values ref.node) = .ok outs := by
  refine ⟨graph.outputs.map fun ref => (values.lookup ref.node).getD .empty, ?_⟩
  apply (mapM_valueOf_eq_ok_iff graph.outputs _).mpr
  rw [List.map_map]
  apply List.map_congr_left
  intro ref member
  have live := wf.linked.producer_mem (wf.exports ref member)
  rw [wf.linked.order_eq_map] at live
  obtain ⟨entry, among, here⟩ := List.mem_map.mp live
  obtain ⟨x, found⟩ := known entry among
  rw [here] at found
  simp [found]

theorem WellFormed.answers_evaluate (wf : graph.WellFormed) (inputs : List (Tensor α)) :
    Answers Fault.OutOfMemory (graph.evaluate inputs) := by
  obtain ⟨answers, known⟩ := wf.answers_evaluateNodes graph.nodes [] inputs [] rfl
    fun _ member => absurd member List.not_mem_nil
  unfold evaluate
  split
  · refine answers.bind fun final done => ?_
    obtain ⟨outs, found⟩ := wf.exists_outputs (known final done)
    rw [found]
    exact answers_ok outs
  · exact answers_error _

/-- An evaluation that succeeds has one tensor for every output. -/
theorem length_of_evaluate (done : graph.evaluate inputs = .ok outs) :
    outs.length = graph.outputs.length := by
  obtain ⟨_, final, _, values⟩ := evaluate_eq_ok_iff.mp done
  have sizes := congrArg List.length values
  rw [List.length_map, List.length_map] at sizes
  exact sizes.symm

end Graph

end QuantNet
