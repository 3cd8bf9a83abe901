import QuantNet.Graph.Operation
import QuantNet.Proofs.Graph.Preservation

/-!
# Histories

On a well-formed graph an operation that succeeds is an edit, and one that fails changes nothing.
Hence every graph that a history of operations builds is well formed.
-/

namespace QuantNet

namespace Node

variable {α : Type} (node : Node α)

@[simp]
theorem Resembles.refl : node.Resembles node :=
  ⟨rfl, rfl, rfl, rfl⟩

theorem Resembles.trans {first second third : Node α} (later : third.Resembles second)
    (earlier : second.Resembles first) : third.Resembles first :=
  ⟨later.kind.trans earlier.kind, later.name.trans earlier.name, later.inputs.trans earlier.inputs,
    later.outputs.trans earlier.outputs⟩

@[simp]
theorem resembles_withWeight (role : Role) (weight : Weight α) :
    (node.withWeight role weight).Resembles node :=
  ⟨rfl, rfl, rfl, rfl⟩

@[simp]
theorem resembles_withAttr (key : String) (value : Attr α) :
    (node.withAttr key value).Resembles node :=
  ⟨rfl, rfl, rfl, rfl⟩

end Node

/-- The operation sets something about the node of a handle: its first precision, an attribute or a
weight. -/
inductive Operation.Adjusts {α : Type} (id : NodeId) : Operation α → Prop
  | setOutputPrecision {precision : Precision} : Adjusts id (.setOutputPrecision id precision)
  | setAttr {key : String} {value : Attr α} : Adjusts id (.setAttr id key value)
  | replaceWeight {role : Role} {weight : Weight α} : Adjusts id (.replaceWeight id role weight)
  | setWeight {role : Role} {data : Tensor α} : Adjusts id (.setWeight id role data)
  | addWeight {role : Role} {weight : Weight α} : Adjusts id (.addWeight id role weight)

namespace Graph

variable {α : Type} {graph changed : Graph α} {id : NodeId} {node : Node α}

/-! ## What operations that succeed have done -/

theorem listed_of_node (found : graph.node id = .ok node) :
    id = graph.handle id.index ∧ graph.find? id.index = some node :=
  listed_of_get (get_eq_ok_of_node found)

theorem mem_tensorsOf {ref : TensorRef} :
    ref ∈ tensorsOf id node ↔ ref.node = id ∧ ref.output < node.outputs.length := by
  simp only [tensorsOf, List.mem_map, List.mem_range]
  constructor
  · rintro ⟨output, below, rfl⟩
    exact ⟨rfl, below⟩
  · rintro ⟨rfl, below⟩
    exact ⟨ref.output, below, rfl⟩

/-- A tensor that exists is among the tensors of its producer. -/
theorem mem_tensorsOf_iff
    {ref : TensorRef} (listed : graph.find? id.index = some node)
    (exist : graph.hasTensor ref = true) :
    ref ∈ tensorsOf id node ↔ ref.node = id := by
  rw [mem_tensorsOf]
  refine ⟨And.left, fun same => ⟨same, ?_⟩⟩
  obtain ⟨_, other, relisted, below⟩ := hasTensor_iff.mp exist
  rw [same, listed] at relisted
  rwa [Option.some.inj relisted]

theorem onlyInput?_eq_some_iff {input : TensorRef} :
    node.onlyInput? = some input ↔ node.inputs = [input] := by
  unfold Node.onlyInput?
  split
  · next only => simp [only]
  · next several =>
      simp only [reduceCtorEq, false_iff]
      exact several input

/-- Removal with rewiring bypasses a node whose single input is a tensor of another one. -/
theorem Linked.remove_of_node
    (linked : graph.Linked) {input : TensorRef} (found : graph.node id = .ok node)
    (reads : node.inputs = [input]) (apart : input.node ≠ id) :
    graph.remove id true = .ok (graph.bypassed id input) := by
  obtain ⟨named, listed⟩ := listed_of_node found
  have fresh : input ∉ tensorsOf id node := by
    rw [mem_tensorsOf]
    exact fun own => apart own.1
  have renamed :
      graph.rename (fun ref => if ref ∈ tensorsOf id node then input else ref) =
        graph.rename (TensorRef.past id input) := by
    apply rename_congr
    · intro other reader there ref used
      simp only [mem_tensorsOf_iff listed (linked.reads there ref used), TensorRef.past]
    · intro ref used
      simp only [mem_tensorsOf_iff listed (linked.exports ref used), TensorRef.past]
  have member : id ∈ (graph.rename (TensorRef.past id input)).order :=
    named ▸ linked.handle_mem_order listed
  have dropped := drop_eq_ok_iff.mpr ⟨member, rfl⟩
  refine except_bind_eq_ok.mpr ⟨node, found, ?_⟩
  rw [if_pos rfl, onlyInput?_eq_some_iff.mpr reads]
  refine lift_eq_ok.mpr ?_
  rw [linked.lists.foldl_redirect _ fresh, renamed]
  exact dropped

theorem Linked.remove_rewire
    (linked : graph.Linked)
    (apart : ∀ ⦃node input⦄, graph.find? id.index = some node → node.inputs = [input] →
      input.node ≠ graph.handle id.index)
    (removed : graph.remove id true = .ok changed) :
    ∃ node input,
      id = graph.handle id.index ∧ graph.find? id.index = some node ∧
        node.inputs = [input] ∧ changed = graph.bypassed id input := by
  obtain ⟨node, found, rest⟩ := except_bind_eq_ok.mp removed
  obtain ⟨named, listed⟩ := listed_of_node found
  simp only [if_true] at rest
  split at rest
  · exact absurd rest except_throw_ne_ok
  · next input only =>
      have reads := onlyInput?_eq_some_iff.mp only
      have distinct : input.node ≠ id := fun same => apart listed reads (same.trans named)
      have result := removed.symm.trans (linked.remove_of_node found reads distinct)
      exact ⟨node, input, named, listed, reads, Except.ok.inj result⟩

theorem mem_readers_iff_get {ref : TensorRef} (lists : graph.Lists) :
    id ∈ graph.readers ref ↔ ∃ node, graph.get id = .ok node ∧ ref ∈ node.inputs := by
  constructor
  · intro member
    have named := eq_handle_of_mem_readers member
    obtain ⟨node, listed, reads⟩ := lists.mem_readers_iff.mp (named ▸ member)
    exact ⟨node, named ▸ get_handle_eq_ok_iff.mpr listed, reads⟩
  · rintro ⟨node, found, reads⟩
    obtain ⟨named, listed⟩ := listed_of_get found
    rw [named]
    exact lists.mem_readers_iff.mpr ⟨node, listed, reads⟩

/-- A tensor is used by the graph as an output, or by a node as an input. -/
theorem isUsed_iff {ref : TensorRef} (lists : graph.Lists) :
    graph.isUsed ref = true ↔
      ref ∈ graph.outputs ∨ ∃ id node, graph.get id = .ok node ∧ ref ∈ node.inputs := by
  have readers : (graph.readers ref).isEmpty = false ↔
      ∃ id node, graph.get id = .ok node ∧ ref ∈ node.inputs := by
    simp only [List.isEmpty_eq_false_iff_exists_mem, mem_readers_iff_get lists]
  simp [isUsed, isOutput, readers]

/-- Removal without rewiring drops a node that nothing uses. -/
theorem WellFormed.remove_unused
    (wf : graph.WellFormed) (removed : graph.remove id false = .ok changed) :
    (∀ ⦃other node⦄, graph.find? other = some node → ∀ input ∈ node.inputs, input.node ≠ id) ∧
      (∀ ref ∈ graph.outputs, ref.node ≠ id) ∧
        id = graph.handle id.index ∧ changed = graph.dropped id := by
  obtain ⟨node, found, rest⟩ := except_bind_eq_ok.mp removed
  obtain ⟨named, listed⟩ := listed_of_node found
  simp only [Bool.false_eq_true, if_false] at rest
  split at rest
  · exact absurd rest except_throw_ne_ok
  · next unused =>
      have free : ∀ ref, graph.hasTensor ref = true → graph.isUsed ref = true → ref.node ≠ id := by
        intro ref exist used same
        have own := (mem_tensorsOf_iff listed exist).mpr same
        exact unused (List.any_eq_true.mpr ⟨ref, own, used⟩)
      refine ⟨fun other reader member input used => ?_, fun ref used => ?_, named,
        (drop_eq_ok_iff.mp (lift_eq_ok.mp rest)).2⟩
      · have there := get_handle_eq_ok_iff.mpr member
        exact free input (wf.reads member input used)
          ((isUsed_iff wf.lists).mpr (Or.inr ⟨_, reader, there, used⟩))
      · exact free ref (wf.exports ref used) ((isUsed_iff wf.lists).mpr (Or.inl used))

theorem modify_eq_ok_iff {change : Node α → Node α} :
    graph.modify id change = .ok changed ↔
      ∃ node, graph.node id = .ok node ∧ changed = graph.replace id.index (change node) := by
  simp only [modify, except_bind_eq_ok, except_pure_eq_ok]
  exact exists_congr fun node => and_congr_right fun _ => eq_comm

theorem weight_eq_ok_iff {role : Role} {weight : Weight α} :
    graph.weight id role = .ok weight ↔
      ∃ node, graph.node id = .ok node ∧ node.weights.get? role = some weight := by
  simp only [Graph.weight, except_bind_eq_ok]
  refine exists_congr fun node => and_congr_right fun _ => ?_
  cases stored : node.weights.get? role with
  | none => simp
  | some other => simp

theorem modifyWeight_eq_ok_iff {role : Role} {change : Weight α → Weight α} :
    graph.modifyWeight id role change = .ok changed ↔
      ∃ node weight, graph.node id = .ok node ∧ node.weights.get? role = some weight ∧
        changed = graph.replace id.index (node.withWeight role (change weight)) := by
  simp only [modifyWeight, except_bind_eq_ok, weight_eq_ok_iff, modify_eq_ok_iff]
  constructor
  · rintro ⟨weight, ⟨node, found, stored⟩, other, again, rfl⟩
    obtain rfl := Except.ok.inj (found.symm.trans again)
    exact ⟨node, weight, found, stored, rfl⟩
  · rintro ⟨node, weight, found, stored, rfl⟩
    exact ⟨weight, ⟨node, found, stored⟩, node, found, rfl⟩

theorem setOutputPrecision_eq_ok_iff {precision : Precision} :
    graph.setOutputPrecision id precision = .ok changed ↔
      ∃ node output others, graph.node id = .ok node ∧ node.outputs = output :: others ∧
        changed =
          graph.replace id.index { node with outputs := { output with precision } :: others } := by
  simp only [setOutputPrecision, except_bind_eq_ok]
  constructor
  · rintro ⟨node, found, result⟩
    split at result
    · exact absurd result except_throw_ne_ok
    · next output others shape =>
        exact ⟨node, output, others, found, shape, (except_pure_eq_ok.mp result).symm⟩
  · rintro ⟨node, output, others, found, shape, rfl⟩
    refine ⟨node, found, ?_⟩
    rw [shape]
    rfl

theorem addWeight_eq_ok {role : Role} {weight : Weight α}
    (added : graph.addWeight id role weight = .ok changed) :
    ∃ node, graph.node id = .ok node ∧
      changed = graph.replace id.index (node.withWeight role weight) := by
  obtain ⟨node, found, rest⟩ := except_bind_eq_ok.mp added
  split at rest
  · exact absurd rest except_throw_ne_ok
  · exact ⟨node, found, (except_pure_eq_ok.mp rest).symm⟩

theorem addOutput_eq_ok_iff {ref : TensorRef} :
    graph.addOutput ref = .ok changed ↔
      graph.hasTensor ref = true ∧ changed = { graph with outputs := graph.outputs ++ [ref] } := by
  unfold addOutput
  by_cases exist : graph.hasTensor ref = true
  · simp [exist, eq_comm]
  · simp [exist]

/-! ## Operations -/

private theorem adding_eq_ok
    {addition : Except (Failure GraphError) (NodeId × Graph α)} {answer : Option NodeId}
    (added : (do return Operation.adding (← addition)) = .ok (answer, changed)) :
    ∃ id, addition = .ok (id, changed) ∧ answer = some id := by
  obtain ⟨⟨id, result⟩, done, shape⟩ := except_bind_eq_ok.mp added
  obtain ⟨rfl, rfl⟩ := Prod.mk.inj (except_pure_eq_ok.mp shape)
  exact ⟨id, done, rfl⟩

private theorem changing_eq_ok
    {change : Except (Failure GraphError) (Graph α)} {answer : Option NodeId}
    (done : (do return ((none : Option NodeId), ← change)) = .ok (answer, changed)) :
    change = .ok changed ∧ answer = none := by
  obtain ⟨result, changes, shape⟩ := except_bind_eq_ok.mp done
  obtain ⟨rfl, rfl⟩ := Prod.mk.inj (except_pure_eq_ok.mp shape)
  exact ⟨changes, rfl⟩

/-- An operation that sets something about a node replaces it by one that resembles it. -/
theorem replaces_of_adjusts {operation : Operation α} {answer : Option NodeId}
    (adjusts : operation.Adjusts id) (done : operation.change graph = .ok (answer, changed)) :
    answer = none ∧ ∃ old new, graph.node id = .ok old ∧ new.Resembles old ∧
      changed = graph.replace id.index new := by
  cases adjusts with
  | setOutputPrecision =>
      obtain ⟨set, rfl⟩ := changing_eq_ok done
      obtain ⟨node, output, others, found, outputs, rfl⟩ := setOutputPrecision_eq_ok_iff.mp set
      refine ⟨rfl, node, _, found, ?_, rfl⟩
      exact ⟨rfl, rfl, rfl, by simp [outputs]⟩
  | setAttr =>
      obtain ⟨set, rfl⟩ := changing_eq_ok done
      obtain ⟨node, found, rfl⟩ := modify_eq_ok_iff.mp set
      exact ⟨rfl, node, _, found, node.resembles_withAttr _ _, rfl⟩
  | replaceWeight =>
      obtain ⟨set, rfl⟩ := changing_eq_ok done
      obtain ⟨node, old, found, _, rfl⟩ := modifyWeight_eq_ok_iff.mp set
      exact ⟨rfl, node, _, found, node.resembles_withWeight _ _, rfl⟩
  | setWeight =>
      obtain ⟨set, rfl⟩ := changing_eq_ok done
      obtain ⟨node, old, found, _, rfl⟩ := modifyWeight_eq_ok_iff.mp set
      exact ⟨rfl, node, _, found, node.resembles_withWeight _ _, rfl⟩
  | addWeight =>
      obtain ⟨added, rfl⟩ := changing_eq_ok done
      obtain ⟨node, found, rfl⟩ := addWeight_eq_ok added
      exact ⟨rfl, node, _, found, node.resembles_withWeight _ _, rfl⟩

/-- What an operation that succeeds does, whether or not the graph is well formed. -/
inductive Performs (graph : Graph α) : Operation α → Option NodeId → Graph α → Prop
  | append {operation : Operation α} {node : Node α} (checked : graph.checkNew node = .ok ()) :
      Performs graph operation (some (graph.handle graph.issued)) (graph.append node).2
  | insert {node : Node α} {id : NodeId} {changed : Graph α}
      (added : graph.insert node = .ok (id, changed)) :
      Performs graph (.insert node) (some id) changed
  | remove {id : NodeId} {rewire : Bool} {changed : Graph α}
      (removed : graph.remove id rewire = .ok changed) :
      Performs graph (.remove id rewire) none changed
  | replace {operation : Operation α} {id : NodeId} {old new : Node α}
      (stays : ∀ id rewire, operation ≠ .remove id rewire) (found : graph.node id = .ok old)
      (resembles : new.Resembles old) :
      Performs graph operation none (graph.replace id.index new)
  | expose {ref : TensorRef} (exist : graph.hasTensor ref = true) :
      Performs graph (.addOutput ref) none { graph with outputs := graph.outputs ++ [ref] }

theorem Performs.of_adjusts {operation : Operation α} {answer : Option NodeId}
    (adjusts : operation.Adjusts id) (done : operation.change graph = .ok (answer, changed)) :
    graph.Performs operation answer changed := by
  have stays : ∀ other rewire, operation ≠ .remove other rewire := by
    cases adjusts <;> exact nofun
  obtain ⟨rfl, old, new, found, resembles, rfl⟩ := replaces_of_adjusts adjusts done
  exact .replace stays found resembles

theorem performs_of_change {operation : Operation α} {answer : Option NodeId}
    (done : operation.change graph = .ok (answer, changed)) :
    graph.Performs operation answer changed := by
  cases operation with
  | addInput name shape precision =>
      obtain ⟨rfl, rfl⟩ := Prod.mk.inj (except_pure_eq_ok.mp done)
      exact .append (checkNew_eq_ok_iff.mpr
        ⟨List.cons_ne_nil _ _, fun input member => absurd member List.not_mem_nil⟩)
  | push node =>
      obtain ⟨id, added, rfl⟩ := adding_eq_ok done
      obtain ⟨checked, shape⟩ := push_eq_ok_iff.mp added
      obtain ⟨rfl, rfl⟩ := Prod.mk.inj shape
      exact .append checked
  | insert node =>
      obtain ⟨id, added, rfl⟩ := adding_eq_ok done
      exact .insert added
  | remove id rewire =>
      obtain ⟨removed, rfl⟩ := changing_eq_ok done
      exact .remove removed
  | addOutput ref =>
      obtain ⟨added, rfl⟩ := changing_eq_ok done
      obtain ⟨exist, rfl⟩ := addOutput_eq_ok_iff.mp (lift_eq_ok.mp added)
      exact .expose exist
  | setOutputPrecision id precision => exact .of_adjusts .setOutputPrecision done
  | setAttr id key value => exact .of_adjusts .setAttr done
  | replaceWeight id role weight => exact .of_adjusts .replaceWeight done
  | setWeight id role data => exact .of_adjusts .setWeight done
  | addWeight id role weight => exact .of_adjusts .addWeight done

/-- An insertion that succeeds places the node behind the producer of its first input. -/
theorem WellFormed.placed_of_change
    (wf : graph.WellFormed) {answer : Option NodeId}
    (done : (Operation.insert node).change graph = .ok (answer, changed)) :
    graph.checkNew node = .ok () ∧
      ∃ anchor rest, node.inputs = anchor :: rest ∧ changed = graph.placed anchor node := by
  obtain ⟨id, added, _⟩ := adding_eq_ok done
  obtain ⟨checked, anchor, rest, reads, _, _, shape⟩ := wf.lists.insert_eq_ok_iff.mp added
  exact ⟨checked, anchor, rest, reads, shape⟩

/-- Any other operation that succeeds on a well-formed graph is a plain edit. -/
theorem WellFormed.plainEdit_of_change
    (wf : graph.WellFormed) {operation : Operation α} {answer : Option NodeId}
    (other : ∀ node, operation ≠ .insert node)
    (done : operation.change graph = .ok (answer, changed)) :
    PlainEdit graph changed := by
  cases performs_of_change done with
  | append checked =>
      obtain ⟨produces, exist⟩ := checkNew_eq_ok_iff.mp checked
      exact .append produces exist
  | insert _ => exact absurd rfl (other _)
  | @remove id rewire _ removed =>
      cases rewire with
      | true =>
          obtain ⟨node, input, named, listed, reads, rfl⟩ :=
            wf.linked.remove_rewire (fun _ _ => wf.source_ne) removed
          rw [named]
          exact .bypass listed reads
      | false =>
          obtain ⟨unread, unexported, named, rfl⟩ := wf.remove_unused removed
          rw [named] at unread unexported ⊢
          exact .drop unread unexported
  | replace _ found resembles => exact .rewrite (listed_of_node found).2 resembles
  | expose exist => exact .expose exist

/-- An operation that succeeds on a well-formed graph is an edit. -/
theorem WellFormed.edit_of_change
    (wf : graph.WellFormed) {operation : Operation α} {answer : Option NodeId}
    (done : operation.change graph = .ok (answer, changed)) :
    Edit graph changed := by
  by_cases insertion : ∃ node, operation = .insert node
  · obtain ⟨node, rfl⟩ := insertion
    obtain ⟨checked, anchor, rest, reads, rfl⟩ := wf.placed_of_change done
    obtain ⟨produces, exist⟩ := checkNew_eq_ok_iff.mp checked
    exact .place produces exist reads
  · exact .plain (wf.plainEdit_of_change (fun node same => insertion ⟨node, same⟩) done)

theorem perform_of_change {operation : Operation α} {answer : Option NodeId}
    (done : operation.change graph = .ok (answer, changed)) :
    (operation.perform graph).1 = changed := by
  rw [Operation.perform, done, Operation.settle]

theorem perform_of_failure {operation : Operation α} {failure : Failure GraphError}
    (failed : operation.change graph = .error failure) :
    (operation.perform graph).1 = graph := by
  rw [Operation.perform, failed, Operation.settle]

theorem WellFormed.perform (wf : graph.WellFormed) (operation : Operation α) :
    (operation.perform graph).1.WellFormed := by
  cases done : operation.change graph with
  | ok result =>
      rw [perform_of_change done]
      exact wf.edit (wf.edit_of_change done)
  | error failure =>
      rw [perform_of_failure done]
      exact wf

@[simp]
theorem replay_append (graph : Graph α) (earlier later : List (Operation α)) :
    graph.replay (earlier ++ later) = (graph.replay earlier).replay later :=
  List.foldl_append

theorem WellFormed.replay (wf : graph.WellFormed) (history : List (Operation α)) :
    (graph.replay history).WellFormed := by
  induction history generalizing graph with
  | nil => exact wf
  | cons operation rest inductionHypothesis =>
      exact inductionHypothesis (wf.perform operation)

end Graph

end QuantNet
