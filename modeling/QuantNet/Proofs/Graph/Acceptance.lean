import QuantNet.Proofs.Graph.Execution
import QuantNet.Proofs.Graph.Replacement

/-!
# What operations ask for

When an operation is accepted, and when it is refused, on the graphs that operations build.  There
is no third way as long as the operation is given handles of the graph: it does not break, whatever
else it is given.
-/

namespace QuantNet

open QuantNet.Graph

variable {α β γ : Type}

/-! ## Conditions -/

namespace Operation

/-- The handles that an operation is given are handles of the graph, and an output that it declares
is there.  A new node may read whatever it likes. -/
def Owned (graph : Graph α) : Operation α → Prop
  | addInput _ _ _ | push _ | insert _ => True
  | addOutput ref => graph.hasTensor ref = true
  | remove id _ | setOutputPrecision id _ | setAttr id _ _ | replaceWeight id _ _
  | setWeight id _ _ | addWeight id _ _ => graph.knows id = true

/-- A new node produces something and reads only what is produced. -/
def Attached (graph : Graph α) (node : Node α) : Prop :=
  node.outputs ≠ [] ∧ ∀ input ∈ node.inputs,
    ∃ producer, graph.get input.node = .ok producer ∧ input.output < producer.outputs.length

/-- No output of a node is an output of the graph or is read by any node. -/
def Unused (graph : Graph α) (id : NodeId) : Prop :=
  ∀ output, ⟨id, output⟩ ∉ graph.outputs ∧
    ∀ reader node, graph.get reader = .ok node → ⟨id, output⟩ ∉ node.inputs

/-- What has to be the case for an operation to succeed. -/
def Accepted (graph : Graph α) : Operation α → Prop
  | addInput _ _ _ | addOutput _ => True
  | push node => Attached graph node
  | insert node => Attached graph node ∧ node.inputs ≠ []
  | remove id true => ∃ node, graph.get id = .ok node ∧ ∃ input, node.inputs = [input]
  | remove id false => ∃ node, graph.get id = .ok node ∧ Unused graph id
  | setOutputPrecision id _ | setAttr id _ _ => ∃ node, graph.get id = .ok node
  | replaceWeight id role _ | setWeight id role _ =>
      ∃ node, graph.get id = .ok node ∧ ∃ weight, node.weights.get? role = some weight
  | addWeight id role _ => ∃ node, graph.get id = .ok node ∧ node.weights.get? role = none

end Operation

/-! ## Outcomes that a condition decides -/

/-- The outcome is a success where the condition holds, and a refusal where it does not. -/
inductive Decided (condition : Prop) : Except (Failure GraphError) β → Prop
  | accepted (holds : condition) (result : β) : Decided condition (.ok result)
  | refused (fails : ¬ condition) (cause : GraphError) : Decided condition (.error (.error cause))

namespace Decided

variable {condition asked : Prop} {outcome : Except (Failure GraphError) β}

private theorem of_ok {result : β} (holds : condition) (done : outcome = .ok result) :
    Decided condition outcome :=
  done ▸ .accepted holds result

private theorem of_error {cause : GraphError} (fails : ¬ condition)
    (failed : outcome = .error (.error cause)) : Decided condition outcome :=
  failed ▸ .refused fails cause

theorem exists_ok (decided : Decided condition outcome) (holds : condition) :
    ∃ result, outcome = .ok result := by
  cases decided with
  | accepted _ result => exact ⟨result, rfl⟩
  | refused fails cause => exact absurd holds fails

private theorem bind {next : β → Except (Failure GraphError) γ} (start : Decided asked outcome)
    (needs : condition → asked)
    (rest : ∀ answer, outcome = .ok answer → Decided condition (next answer)) :
    Decided condition (outcome >>= next) := by
  cases start with
  | accepted _ result => exact rest result rfl
  | refused fails cause => exact .refused (fun holds => fails (needs holds)) cause

private theorem map (decided : Decided condition outcome) (f : β → γ) :
    Decided condition (do return f (← outcome)) :=
  decided.bind (fun holds => holds) fun answer done => by
    cases decided with
    | accepted holds result => exact .accepted holds (f answer)
    | refused fails cause => cases done

end Decided

/-! ## The operations -/

namespace Graph

variable {graph : Graph α} {id : NodeId}

theorem decided_node (known : graph.knows id = true) :
    Decided (∃ node, graph.get id = .ok node) (graph.node id) := by
  have there : graph.get? id = .ok (graph.find? id.index) := if_pos known
  cases listed : graph.find? id.index with
  | some node =>
      have found := get_eq_ok_iff.mpr ⟨known, listed⟩
      exact .of_ok ⟨node, found⟩ (node_of_get found)
  | none =>
      have missing : ¬ ∃ node, graph.get id = .ok node := by
        intro exist
        obtain ⟨node, found⟩ := exist
        rw [(listed_of_get found).2] at listed
        cases listed
      have unknown : graph.node id = .error (.error (.unknownNode id)) := by
        rw [node, there, listed]
        rfl
      exact .of_error missing unknown

/-- What a node that is found decides, the handle of the node decides. -/
private theorem decided_of_node {condition : Node α → Prop}
    {next : Node α → Except (Failure GraphError) β} (known : graph.knows id = true)
    (rest : ∀ node, graph.get id = .ok node → Decided (condition node) (next node)) :
    Decided (∃ node, graph.get id = .ok node ∧ condition node) (graph.node id >>= next) := by
  have needs : (∃ node, graph.get id = .ok node ∧ condition node) →
      ∃ node, graph.get id = .ok node := by
    intro exist
    obtain ⟨node, found, _⟩ := exist
    exact ⟨node, found⟩
  apply (decided_node known).bind needs
  intro node there
  have found := get_eq_ok_of_node there
  have same : (∃ other, graph.get id = .ok other ∧ condition other) ↔ condition node := by
    simp only [found, Except.ok.injEq, exists_eq_left']
  rw [same]
  exact rest node found

/-- What cannot be refused for a node that is there can be refused only for its absence. -/
private theorem decided_of_live {next : Node α → Except (Failure GraphError) β}
    (known : graph.knows id = true)
    (rest : ∀ node, graph.get id = .ok node → ∃ result, next node = .ok result) :
    Decided (∃ node, graph.get id = .ok node) (graph.node id >>= next) := by
  apply (decided_node known).bind fun exist => exist
  intro node there
  have found := get_eq_ok_of_node there
  obtain ⟨result, done⟩ := rest node found
  exact .of_ok ⟨node, found⟩ done

private theorem attached_iff {node : Node α} :
    Operation.Attached graph node ↔ graph.checkNew node = .ok () := by
  rw [checkNew_eq_ok_iff, Operation.Attached]
  simp only [hasTensor_iff_get]

theorem decided_checkNew (graph : Graph α) (node : Node α) :
    Decided (Operation.Attached graph node) (graph.checkNew node) := by
  rw [attached_iff]
  cases result : graph.checkNew node with
  | ok answer => exact .accepted rfl answer
  | error failure =>
      unfold checkNew at result
      split at result
      · cases result
        exact .refused nofun _
      · split at result
        · cases result
          exact .refused nofun _
        · cases result

theorem decided_push (graph : Graph α) (node : Node α) :
    Decided (Operation.Attached graph node) (graph.push node) :=
  (decided_checkNew graph node).map fun _ => graph.append node

theorem WellFormed.decided_insert (wf : graph.WellFormed) (node : Node α) :
    Decided (Operation.Attached graph node ∧ node.inputs ≠ []) (graph.insert node) := by
  apply (decided_checkNew graph node).bind And.left
  intro _ checked
  cases inputs : node.inputs with
  | nil => exact .refused (fun accepted => accepted.2 rfl) _
  | cons anchor others =>
      have attached := attached_iff.mpr checked
      obtain ⟨_, exist⟩ := checkNew_eq_ok_iff.mp checked
      have anchored := wf.linked.producer_mem (exist anchor (inputs ▸ List.mem_cons_self))
      have place : (graph.alloc node).2.position anchor.node =
          .ok (graph.order.idxOf anchor.node) :=
        position_eq_ok_iff.mpr ⟨anchored, rfl⟩
      apply Decided.of_ok ⟨attached, List.cons_ne_nil anchor others⟩
      exact except_bind_eq_ok.mpr ⟨_, lift_eq_ok.mpr place, rfl⟩

/-- A removal with rewiring asks for a single input. -/
theorem WellFormed.decided_remove_rewire (wf : graph.WellFormed) (known : graph.knows id = true) :
    Decided (∃ node, graph.get id = .ok node ∧ ∃ input, node.inputs = [input])
      (graph.remove id true) := by
  apply decided_of_node known
  intro node found
  cases only : node.onlyInput? with
  | none =>
      apply Decided.refused
      intro exist
      obtain ⟨input, reads⟩ := exist
      rw [onlyInput?_eq_some_iff.mpr reads] at only
      cases only
  | some input =>
      have reads := onlyInput?_eq_some_iff.mp only
      obtain ⟨named, listed⟩ := listed_of_get found
      have apart : input.node ≠ id := fun same => wf.source_ne listed reads (same.trans named)
      have removed := wf.linked.remove_of_node (node_of_get found) reads apart
      obtain ⟨other, again, dropped⟩ := except_bind_eq_ok.mp removed
      rw [Except.ok.inj (again.symm.trans (node_of_get found)), if_pos rfl, only] at dropped
      exact .of_ok ⟨input, reads⟩ dropped

/-- A node is unused if none of its tensors is. -/
theorem WellFormed.unused_iff {node : Node α} (wf : graph.WellFormed)
    (found : graph.get id = .ok node) :
    Operation.Unused graph id ↔ (tensorsOf id node).any graph.isUsed = false := by
  have listed := (listed_of_get found).2
  constructor
  · intro unused
    apply List.any_eq_false.mpr
    intro ref own uses
    obtain ⟨unexported, unread⟩ := unused ref.output
    rw [← (mem_tensorsOf.mp own).1] at unexported unread
    cases (isUsed_iff wf.lists).mp uses with
    | inl exported => exact unexported exported
    | inr read =>
        obtain ⟨reader, other, there, reads⟩ := read
        exact unread reader other there reads
  · intro none output
    have free : graph.hasTensor ⟨id, output⟩ = true → graph.isUsed ⟨id, output⟩ ≠ true :=
      fun exist => List.any_eq_false.mp none _ ((mem_tensorsOf_iff listed exist).mpr rfl)
    constructor
    · intro exported
      exact free (wf.exports _ exported) ((isUsed_iff wf.lists).mpr (Or.inl exported))
    · intro reader other there reads
      exact free (wf.reads (listed_of_get there).2 _ reads)
        ((isUsed_iff wf.lists).mpr (Or.inr ⟨reader, other, there, reads⟩))

/-- A removal without rewiring asks that nothing uses the node. -/
theorem WellFormed.decided_remove_unused (wf : graph.WellFormed) (known : graph.knows id = true) :
    Decided (∃ node, graph.get id = .ok node ∧ Operation.Unused graph id)
      (graph.remove id false) := by
  apply decided_of_node known
  intro node found
  rw [wf.unused_iff found]
  cases (tensorsOf id node).any graph.isUsed with
  | true => exact .refused nofun _
  | false =>
      have dropped := drop_eq_ok_iff.mpr ⟨wf.mem_order_iff.mpr ⟨node, found⟩, rfl⟩
      exact .of_ok rfl (lift_eq_ok.mpr dropped)

/-- Nodes of a well-formed graph have a first output. -/
theorem WellFormed.decided_setOutputPrecision (wf : graph.WellFormed)
    (known : graph.knows id = true) (precision : Precision) :
    Decided (∃ node, graph.get id = .ok node) (graph.setOutputPrecision id precision) := by
  apply decided_of_live known
  intro node found
  cases outputs : node.outputs with
  | nil => exact absurd outputs (wf.produces (listed_of_get found).2)
  | cons output others => exact ⟨_, rfl⟩

theorem decided_setAttr (known : graph.knows id = true) (key : String) (value : Attr α) :
    Decided (∃ node, graph.get id = .ok node) (graph.setAttr id key value) := by
  apply decided_of_live known
  intro node _
  exact ⟨_, rfl⟩

theorem decided_weight (known : graph.knows id = true) (role : Role) :
    Decided (∃ node, graph.get id = .ok node ∧ ∃ weight, node.weights.get? role = some weight)
      (graph.weight id role) := by
  apply decided_of_node known
  intro node _
  cases node.weights.get? role with
  | none => exact .refused nofun _
  | some weight => exact .accepted ⟨weight, rfl⟩ weight

theorem decided_modifyWeight (known : graph.knows id = true) (role : Role)
    (change : Weight α → Weight α) :
    Decided (∃ node, graph.get id = .ok node ∧ ∃ weight, node.weights.get? role = some weight)
      (graph.modifyWeight id role change) := by
  apply (decided_weight known role).bind fun exist => exist
  intro weight read
  obtain ⟨node, there, stored⟩ := weight_eq_ok_iff.mp read
  have found := get_eq_ok_of_node there
  exact .of_ok ⟨node, found, weight, stored⟩ (modify_of_get found _)

theorem decided_addWeight (known : graph.knows id = true) (role : Role) (weight : Weight α) :
    Decided (∃ node, graph.get id = .ok node ∧ node.weights.get? role = none)
      (graph.addWeight id role weight) := by
  apply decided_of_node known
  intro node _
  unfold Table.contains
  cases node.weights.get? role with
  | none => exact .accepted rfl _
  | some old => exact .refused nofun _

/-- On a well-formed graph every operation is accepted or refused, by what it asks for. -/
theorem WellFormed.decided (wf : graph.WellFormed) {operation : Operation α}
    (owned : operation.Owned graph) :
    Decided (operation.Accepted graph) (operation.change graph) := by
  cases operation with
  | addInput name shape precision => exact .accepted trivial _
  | push node => exact (decided_push graph node).map Operation.adding
  | insert node => exact (wf.decided_insert node).map Operation.adding
  | remove id rewire =>
      cases rewire with
      | true => exact (wf.decided_remove_rewire owned).map _
      | false => exact (wf.decided_remove_unused owned).map _
  | addOutput ref =>
      have added : graph.addOutput ref = .ok { graph with outputs := graph.outputs ++ [ref] } :=
        if_pos owned
      exact .of_ok trivial (except_bind_eq_ok.mpr ⟨_, lift_eq_ok.mpr added, rfl⟩)
  | setOutputPrecision id precision =>
      exact (wf.decided_setOutputPrecision owned precision).map _
  | setAttr id key value => exact (decided_setAttr owned key value).map _
  | replaceWeight id role weight => exact (decided_modifyWeight owned role _).map _
  | setWeight id role data => exact (decided_modifyWeight owned role _).map _
  | addWeight id role weight => exact (decided_addWeight owned role weight).map _

end Graph

/-- On every graph that operations build, an operation on handles of the graph succeeds exactly
where it should: executed in place, it answers and ends as the operation does.  Everywhere else it
is refused, and leaves slots, order and outputs as they were. -/
theorem operations_refused_exactly (tag : Nat) (history : List (Operation α))
    (operation : Operation α) (owned : operation.Owned ((Graph.empty tag).replay history)) :
    ((∃ answer changed,
        operation.perform ((Graph.empty tag).replay history) = (changed, .ok answer) ∧
        operation.execute ((Graph.empty tag).replay history) = .ok answer changed) ↔
      operation.Accepted ((Graph.empty tag).replay history)) ∧
    (¬ operation.Accepted ((Graph.empty tag).replay history) → ∃ cause,
      operation.perform ((Graph.empty tag).replay history) =
        ((Graph.empty tag).replay history, .error (.error cause)) ∧
      operation.execute ((Graph.empty tag).replay history) =
        .error (.error cause) ((Graph.empty tag).replay history)) := by
  have wf := (WellFormed.empty (α := α) tag).replay history
  generalize (Graph.empty tag).replay history = graph at wf owned ⊢
  have executed := operation.execute_realizes graph
  have decided := wf.decided owned
  unfold Operation.perform
  generalize operation.change graph = outcome at executed decided
  cases decided with
  | accepted holds result =>
      exact ⟨⟨fun _ => holds, fun _ => ⟨result.1, result.2, rfl, executed⟩⟩,
        fun fails => absurd holds fails⟩
  | refused fails cause =>
      refine ⟨⟨?_, fun holds => absurd holds fails⟩, fun _ => ⟨cause, rfl, executed⟩⟩
      intro success
      obtain ⟨answer, changed, answered, _⟩ := success
      cases answered

/-- An input and a layer whose output is the output of the graph. -/
def exported : List (Operation Float32) :=
  [.addInput "x" [4] (.fixed 16 6 true .unset),
    .push (.single .dense "fc" .empty [⟨⟨0, 0⟩, 0⟩] [4] (.fixed 16 6 true .unset)),
    .addOutput ⟨⟨0, 1⟩, 0⟩]

/-- The layer can be removed if its input takes its place, and not otherwise. -/
theorem operations_refused_exactly_exported :
    let graph := (Graph.empty 0).replay exported
    (Operation.remove ⟨0, 1⟩ true : Operation Float32).Owned graph ∧
      (Operation.remove ⟨0, 1⟩ true : Operation Float32).Accepted graph ∧
      (∃ answer changed, (Operation.remove ⟨0, 1⟩ true).perform graph = (changed, .ok answer) ∧
        (Operation.remove ⟨0, 1⟩ true).execute graph = .ok answer changed) ∧
      ¬ (Operation.remove ⟨0, 1⟩ false : Operation Float32).Accepted graph ∧
      ∃ cause,
        (Operation.remove ⟨0, 1⟩ false).perform graph = (graph, .error (.error cause)) ∧
        (Operation.remove ⟨0, 1⟩ false).execute graph = .error (.error cause) graph := by
  intro graph
  have owned : graph.knows ⟨0, 1⟩ = true := by
    rfl
  have accepted : (Operation.remove ⟨0, 1⟩ true : Operation Float32).Accepted graph :=
    ⟨_, rfl, ⟨⟨0, 0⟩, 0⟩, rfl⟩
  have refused : ¬ (Operation.remove ⟨0, 1⟩ false : Operation Float32).Accepted graph := by
    intro accepted
    obtain ⟨_, _, unused⟩ := accepted
    exact (unused 0).1 (List.mem_singleton_self _)
  have removed := operations_refused_exactly 0 exported (.remove ⟨0, 1⟩ true) owned
  have kept := operations_refused_exactly 0 exported (.remove ⟨0, 1⟩ false) owned
  exact ⟨owned, accepted, removed.1.mpr accepted, refused, kept.2 refused⟩

end QuantNet
