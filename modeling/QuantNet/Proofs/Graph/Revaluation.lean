import QuantNet.Proofs.Graph.Insertion
import QuantNet.Proofs.Graph.Valuation

/-!
# Values after an edit

When the tensors in use are renamed, every node keeps its value if the new names have the values of
the old ones.  So a node that forwards what it reads can come and go, wherever it stands, and a node
that nothing uses can go: the outputs of the graph stay the same, whatever its layers compute.
-/

namespace QuantNet

open QuantNet.Graph

variable {α : Type} {graph : Graph α} {id : NodeId} {index : Nat} {node : Node α}
  {input : TensorRef}

/-! ## First outputs -/

/-- Every tensor in use is the first output of its producer. -/
structure Graph.NamesFirsts {α : Type} (graph : Graph α) : Prop where
  reads : ∀ ⦃index node⦄, graph.find? index = some node → ∀ input ∈ node.inputs, input.output = 0
  outputs : ∀ ref ∈ graph.outputs, ref.output = 0

theorem TensorRef.eq_first {ref : TensorRef} (zero : ref.output = 0) : ref = ⟨ref.node, 0⟩ := by
  cases ref
  exact congrArg (TensorRef.mk _) zero

theorem TensorRef.output_instead {old new ref : TensorRef} (zero : new.output = 0)
    (first : ref.output = 0) : (old.instead new ref).output = 0 := by
  by_cases here : ref = old
  · rw [here, instead_self]
    exact zero
  · rw [instead_of_ne here]
    exact first

theorem TensorRef.output_past {input ref : TensorRef} (zero : input.output = 0)
    (first : ref.output = 0) : (past id input ref).output = 0 := by
  by_cases own : ref.node = id
  · rw [past_of_eq own]
    exact zero
  · rw [past_of_ne own]
    exact first

theorem Graph.NamesFirsts.output_eq_zero (firsts : graph.NamesFirsts)
    (listed : graph.find? index = some node) (reads : node.inputs = [input]) : input.output = 0 :=
  firsts.reads listed input (reads ▸ List.mem_singleton_self input)

theorem Graph.NamesFirsts.placed (firsts : graph.NamesFirsts)
    (reads : ∀ ref ∈ node.inputs, ref.output = 0) (anchor : TensorRef) :
    (graph.placed anchor node).NamesFirsts := by
  constructor
  · intro index new there ref member
    rcases find?_placed_eq_some_iff.mp there with ⟨_, rfl⟩ | ⟨old, older, rfl⟩
    · exact reads ref member
    · obtain ⟨before, used, rfl⟩ := List.mem_map.mp member
      exact TensorRef.output_instead rfl (firsts.reads older before used)
  · intro ref member
    obtain ⟨before, used, rfl⟩ := List.mem_map.mp member
    exact TensorRef.output_instead rfl (firsts.outputs before used)

/-! ## Input nodes -/

theorem Graph.Linked.mem_inputs (linked : graph.Linked) (member : id ∈ graph.inputs) :
    id ∈ graph.order ∧ ∃ node, graph.find? id.index = some node ∧ node.kind = .input := by
  rw [Graph.inputs, linked.select_eq_filter] at member
  obtain ⟨live, holds⟩ := List.mem_filter.mp member
  obtain ⟨node, listed, kind⟩ := (Option.any_eq_true _ _).mp holds
  exact ⟨live, node, listed, of_decide_eq_true kind⟩

/-- A node of another kind is no input node. -/
theorem Graph.Linked.ne_of_mem_inputs
    (linked : graph.Linked) (found : graph.get id = .ok node) (kind : node.kind ≠ .input)
    {other : NodeId} (member : other ∈ graph.inputs) :
    other ≠ id := by
  obtain ⟨_, entry, listed, isInput⟩ := linked.mem_inputs member
  rintro rfl
  rw [(listed_of_get found).2, Option.some.injEq] at listed
  exact kind (listed ▸ isInput)

/-! ## Values after an edit -/

variable [Scalar α] {inputs outs : List (Tensor α)} {value : NodeId → Tensor α}

/-- A node with renamed inputs has its value if the new input has the value of the old one. -/
theorem computed_rename {f : TensorRef → TensorRef} {after : NodeId → Tensor α}
    {producer : NodeId} {x y : Tensor α} (reads : node.inputs = [⟨producer, 0⟩])
    (first : (f ⟨producer, 0⟩).output = 0) (carried : after (f ⟨producer, 0⟩).node = x)
    (computed : node.evaluate x = .ok y) :
    ∃ source, (node.rename f).inputs = [⟨source, 0⟩] ∧
      (node.rename f).evaluate (after source) = .ok y := by
  refine ⟨(f ⟨producer, 0⟩).node, ?_, ?_⟩
  · rw [Node.rename, reads, List.map_singleton]
    exact congrArg (fun output => [TensorRef.mk (f ⟨producer, 0⟩).node output]) first
  · rw [carried]
    exact computed

/-- New values of the nodes, when the tensors in use are renamed.  `carries` says that a tensor has
its old value under its new name; nodes that are not in the old graph, or not just renamed, are
looked at one by one. -/
theorem Graph.Valuation.rename
    {changed : Graph α} {f : TensorRef → TensorRef} {after : NodeId → Tensor α}
    (valuation : graph.Valuation inputs outs value)
    (given : changed.inputs = graph.inputs) (exported : changed.outputs = graph.outputs.map f)
    (first : ∀ ref, ref.output = 0 → (f ref).output = 0)
    (kept : ∀ id ∈ graph.inputs, after id = value id)
    (carries : ∀ ref ∈ graph.outputs, after (f ref).node = value ref.node)
    (nodes : ∀ ⦃index new⦄, changed.find? index = some new → new.kind ≠ .input →
      (∃ producer, new.inputs = [⟨producer, 0⟩] ∧
          new.evaluate (after producer) = .ok (after (changed.handle index))) ∨
        ∃ old, graph.find? index = some old ∧ new = old.rename f ∧
          after (changed.handle index) = value (graph.handle index) ∧
            ∀ ref ∈ old.inputs, after (f ref).node = value ref.node) :
    changed.Valuation inputs outs after := by
  refine ⟨?_, fun index new there kind => ?_, ?_⟩
  · rw [given, ← valuation.inputs]
    exact List.map_congr_left kept
  · rcases nodes there kind with computed | ⟨old, older, rfl, same, carried⟩
    · exact computed
    · obtain ⟨producer, reads, computed⟩ := valuation.nodes older kind
      have used : (⟨producer, 0⟩ : TensorRef) ∈ old.inputs := by
        rw [reads]
        exact List.mem_singleton_self _
      rw [same]
      exact computed_rename reads (first _ rfl) (carried _ used) computed
  · rw [exported, List.map_map, ← valuation.outputs]
    exact List.map_congr_left carries

/-! ## Nodes that forward -/

/-- A linear activation. -/
def Node.Forwards (node : Node α) : Prop :=
  node.kind = .activation ∧ node.activation = "linear"

theorem Node.Forwards.evaluate (forwards : node.Forwards) (x : Tensor α) :
    node.evaluate x = .ok x := by
  obtain ⟨kind, linear⟩ := forwards
  simp only [Node.evaluate, kind, linear, if_true]

omit [Scalar α] in
theorem Node.Forwards.kind_ne (forwards : node.Forwards) : node.kind ≠ .input := by
  rw [forwards.1]
  exact nofun

namespace Graph

/-- A node that forwards has the value of what it reads. -/
private theorem Valuation.eq_of_forwards (valuation : graph.Valuation inputs outs value)
    (forwards : node.Forwards) (listed : graph.find? index = some node)
    (reads : node.inputs = [input]) :
    value input.node = value (graph.handle index) := by
  obtain ⟨producer, same, computed⟩ := valuation.nodes listed forwards.kind_ne
  obtain rfl := List.singleton_inj.mp (reads.symm.trans same)
  rw [forwards.evaluate] at computed
  exact Except.ok.inj computed

section Bypassing

variable (wf : graph.WellFormed) (forwards : node.Forwards)
  (listed : graph.find? index = some node) (reads : node.inputs = [input])

include wf forwards listed reads

omit [Scalar α] in
theorem WellFormed.inputs_bypassed :
    (graph.bypassed (graph.handle index) input).inputs = graph.inputs := by
  have exist := wf.reads listed input (reads ▸ List.mem_singleton_self input)
  exact wf.linked.inputs_bypassed exist (wf.source_ne listed reads) listed forwards.kind_ne

/-- The other nodes keep their values when a node that forwards is bypassed. -/
theorem Valuation.bypassed (zero : input.output = 0)
    (valuation : graph.Valuation inputs outs value) :
    (graph.bypassed (graph.handle index) input).Valuation inputs outs value := by
  have forwarded := valuation.eq_of_forwards forwards listed reads
  have carried : ∀ ref : TensorRef,
      value (TensorRef.past (graph.handle index) input ref).node = value ref.node := by
    intro ref
    by_cases own : ref.node = graph.handle index
    · rw [TensorRef.past_of_eq own, own, forwarded]
    · rw [TensorRef.past_of_ne own]
  refine valuation.rename (wf.inputs_bypassed forwards listed reads) rfl
    (fun _ => TensorRef.output_past zero) (fun _ _ => rfl) (fun ref _ => carried ref) ?_
  intro other new there _
  obtain ⟨⟨old, older, same⟩, _⟩ := find?_bypassed_eq_some_iff.mp there
  exact Or.inr ⟨old, older, same, rfl, fun ref _ => carried ref⟩

/-- The values of the nodes when a node that forwards is put back. -/
theorem Valuation.of_bypassed (firsts : graph.NamesFirsts)
    (valuation : (graph.bypassed (graph.handle index) input).Valuation inputs outs value) :
    ∃ before, graph.Valuation inputs outs before := by
  let before : NodeId → Tensor α := fun other =>
    if other = graph.handle index then value input.node else value other
  have own : before (graph.handle index) = value input.node := if_pos rfl
  have kept : ∀ other, other ≠ graph.handle index → before other = value other :=
    fun other different => if_neg different
  have carried : ∀ ref : TensorRef,
      value (TensorRef.past (graph.handle index) input ref).node = before ref.node := by
    intro ref
    by_cases here : ref.node = graph.handle index
    · rw [TensorRef.past_of_eq here, here, own]
    · rw [TensorRef.past_of_ne here, kept ref.node here]
  refine ⟨before, ?_, ?_, ?_⟩
  · rw [← valuation.inputs, wf.inputs_bypassed forwards listed reads]
    apply List.map_congr_left
    intro id member
    have found := get_handle_eq_ok_iff.mpr listed
    exact kept id (wf.linked.ne_of_mem_inputs found forwards.kind_ne member)
  · intro other old older kind
    by_cases here : other = index
    · subst here
      obtain rfl := Option.some.inj (listed.symm.trans older)
      refine ⟨input.node, ?_, ?_⟩
      · rw [reads, ← TensorRef.eq_first (firsts.output_eq_zero listed reads)]
      · rw [own, kept input.node (wf.source_ne listed reads)]
        exact forwards.evaluate _
    · have stays : (graph.bypassed (graph.handle index) input).find? other =
          some (old.rename (TensorRef.past (graph.handle index) input)) :=
        find?_bypassed_eq_some_iff.mpr ⟨⟨old, older, rfl⟩, here⟩
      obtain ⟨producer, renamed, computed⟩ := valuation.nodes stays kind
      obtain ⟨ref, uses, past⟩ := List.map_eq_singleton_iff.mp renamed
      have same : before ref.node = value producer := by
        rw [← carried ref, past]
      refine ⟨ref.node, ?_, ?_⟩
      · rw [uses, ← TensorRef.eq_first (firsts.output_eq_zero older uses)]
      · rw [same, kept _ fun equal => here (graph.handle_injective equal)]
        exact computed
  · have renamed : (graph.bypassed (graph.handle index) input).outputs =
        graph.outputs.map (TensorRef.past (graph.handle index) input) := rfl
    rw [← valuation.outputs, renamed, List.map_map]
    exact List.map_congr_left fun ref _ => (carried ref).symm

/-- A graph evaluates alike with a node that forwards and without it. -/
theorem WellFormed.evaluate_bypassed_iff (firsts : graph.NamesFirsts) :
    graph.evaluate inputs = .ok outs ↔
      (graph.bypassed (graph.handle index) input).evaluate inputs = .ok outs := by
  rw [wf.evaluate_eq_ok_iff_valuation, (wf.bypassed listed reads).evaluate_eq_ok_iff_valuation]
  constructor
  · rintro ⟨value, valuation⟩
    have zero := firsts.output_eq_zero listed reads
    exact ⟨value, valuation.bypassed wf forwards listed reads zero⟩
  · rintro ⟨value, valuation⟩
    exact valuation.of_bypassed wf forwards listed reads firsts

end Bypassing

/-- The evaluation does not see how many numbers are used up. -/
theorem evaluate_spent (graph : Graph α) (inputs : List (Tensor α)) :
    graph.spent.evaluate inputs = graph.evaluate inputs := by
  have nodes : graph.spent.nodes = graph.nodes := by
    simp only [Graph.nodes, find?_spent]
    rfl
  have given : graph.spent.inputs = graph.inputs := by
    rw [Graph.inputs, select, nodes]
    rfl
  rw [evaluate, evaluate, nodes, given]
  rfl

/-- A graph evaluates alike before and after the insertion of a node that forwards: the bypass of
that node restores the graph. -/
theorem WellFormed.evaluate_placed_iff (wf : graph.WellFormed) (firsts : graph.NamesFirsts)
    (forwards : node.Forwards) (produces : node.outputs ≠ []) (reads : node.inputs = [input])
    (exist : graph.hasTensor input = true) (zero : input.output = 0) :
    graph.evaluate inputs = .ok outs ↔ (graph.placed input node).evaluate inputs = .ok outs := by
  have attached : ∀ ref ∈ node.inputs, graph.hasTensor ref = true := by
    rw [reads]
    exact List.forall_mem_singleton.mpr exist
  have named : ∀ ref ∈ node.inputs, ref.output = 0 := by
    rw [reads]
    exact List.forall_mem_singleton.mpr zero
  have here : (graph.placed input node).find? graph.issued = some node := by
    rw [find?_placed, if_pos rfl]
  have restored : (graph.placed input node).bypassed
      ((graph.placed input node).handle graph.issued) input = graph.spent :=
    wf.linked.bypassed_placed exist node
  have wellPlaced := wf.placed produces attached reads
  rw [wellPlaced.evaluate_bypassed_iff forwards here reads (firsts.placed named input), restored,
    evaluate_spent]

/-- A node that nothing uses can go. -/
theorem WellFormed.evaluate_dropped (wf : graph.WellFormed) (listed : graph.find? index = some node)
    (kind : node.kind ≠ .input)
    (unread : ∀ ⦃other old⦄, graph.find? other = some old →
      ∀ input ∈ old.inputs, input.node ≠ graph.handle index)
    (unexported : ∀ ref ∈ graph.outputs, ref.node ≠ graph.handle index)
    (done : graph.evaluate inputs = .ok outs) :
    (graph.dropped (graph.handle index)).evaluate inputs = .ok outs := by
  have remains := wf.dropped unread unexported
  rw [wf.evaluate_eq_ok_iff_valuation] at done
  rw [remains.evaluate_eq_ok_iff_valuation]
  obtain ⟨value, valuation⟩ := done
  refine ⟨value, ?_, fun other old there computes => ?_, valuation.outputs⟩
  · rw [wf.linked.inputs_dropped remains.linked listed kind]
    exact valuation.inputs
  · exact valuation.nodes (find?_dropped_eq_some_iff.mp there).1 computes

end Graph

end QuantNet
