import QuantNet.Pass.Pipeline
import QuantNet.Proofs.Graph.Replacement

/-!
# What the standard patches do

On a well-formed graph a patch that succeeds has put another node into a slot; scale factorization
has placed one node behind it besides, and affine fusion has bypassed one.
-/

namespace QuantNet

namespace Patch

variable {α β : Type} {graph changed : Graph α} {failure : Failure PassError}

theorem look_of_ok {query : Graph α → Except Fault β} {answer : β}
    (found : query graph = .ok answer) :
    look query graph = .ok answer graph := by
  rw [look, found]

theorem ask_of_ok {query : Graph α → Except (Failure GraphError) β} {answer : β}
    (found : query graph = .ok answer) :
    ask query graph = .ok answer graph := by
  rw [ask, found]

theorem ask_of_error {query : Graph α → Except (Failure GraphError) β}
    {cause : GraphError} (refused : query graph = .error (.error cause)) :
    ask query graph = .error (.error (.graph cause)) graph := by
  rw [ask, refused]
  rfl

theorem demand_of_ok {value : Except (Failure PassError) β} {answer : β}
    (same : value = .ok answer) :
    demand value graph = .ok answer graph := by
  simp only [demand, same]

theorem demand_of_error {value : Except (Failure PassError) β} (same : value = .error failure) :
    demand value graph = .error failure graph := by
  simp only [demand, same]

theorem edit_of_ok {change : Graph α → Except (Failure GraphError) (Graph α)}
    (done : change graph = .ok changed) :
    edit change graph = .ok () changed := by
  rw [edit, done]

theorem edit_of_error {change : Graph α → Except (Failure GraphError) (Graph α)}
    {failure : Failure GraphError} (failed : change graph = .error failure) :
    edit change graph = .error failure.ofGraph graph := by
  rw [edit, failed]

end Patch

/-! ## Scale factorization -/

namespace ScaleFactorization

open QuantNet.Graph Patch

variable {α : Type} {graph : Graph α} {id : NodeId} {old node : Node α}

theorem store_replace
    (found : graph.get id = .ok old) (node : Node α) (role : Role) (weight : Weight α) :
    store id role weight (graph.replace id.index node) =
      .ok () (graph.replace id.index (node.withWeight role weight)) := by
  have stored := modify_of_get (get_replace found node) fun node => node.withWeight role weight
  rw [replace_replace] at stored
  exact edit_of_ok stored

variable [Scalar α]

/-- The bias of a layer divided by a scale, if the layer has a bias. -/
def rescaledBias (node : Node α) (scale : Tensor α) :
    Except (Failure PassError) (Option (Weight α)) :=
  match node.weights.get? .bias with
  | none => .ok none
  | some bias => do
      let data ← divided node scale bias.data
      match bias.unquantized with
      | none => return some { bias with data }
      | some unquantized =>
          let quotient ← divided node scale unquantized
          return some { bias with data, unquantized := some quotient }

/-- The layer at unit scale. -/
def unitNode (node : Node α) (weight : Weight α) (bias : Option (Weight α)) : Node α :=
  let weighted := node.withWeight .weight weight
  resetAttrs (bias.elim weighted (weighted.withWeight .bias))

theorem unitNode_resembles (node : Node α) (weight : Weight α) (bias : Option (Weight α)) :
    (unitNode node weight bias).Resembles node := by
  cases bias <;> exact ⟨rfl, rfl, rfl, rfl⟩

@[simp]
theorem unitNode_outputs (node : Node α) (weight : Weight α) (bias : Option (Weight α)) :
    (unitNode node weight bias).outputs = node.outputs := by
  cases bias <;> rfl

theorem divided_error_cases {scale data : Tensor α} {failure : Failure PassError}
    (failed : divided node scale data = .error failure) :
    ∃ cause, failure = .error cause := by
  unfold divided at failed
  split at failed
  · split at failed
    · simp at failed
    · exact ⟨_, (Except.error.inj failed).symm⟩
  · exact ⟨_, (Except.error.inj failed).symm⟩

theorem rescaledBias_of_none {scale : Tensor α} (absent : node.weights.get? .bias = none) :
    rescaledBias node scale = .ok none := by
  simp only [rescaledBias, absent]

theorem rescaledBias_of_some {scale : Tensor α} {bias : Weight α}
    (present : node.weights.get? .bias = some bias) :
    rescaledBias node scale = (do
      let data ← divided node scale bias.data
      match bias.unquantized with
      | none => return some { bias with data }
      | some unquantized =>
          let quotient ← divided node scale unquantized
          return some { bias with data, unquantized := some quotient }) := by
  simp only [rescaledBias, present]

private theorem rescaleBias_of_none {scale : Tensor α} (absent : node.weights.get? .bias = none) :
    rescaleBias id node scale = pure () := by
  simp only [rescaleBias, absent]

private theorem rescaleBias_of_some {scale : Tensor α} {bias : Weight α}
    (present : node.weights.get? .bias = some bias) :
    rescaleBias id node scale = (do
      let data ← demand (divided node scale bias.data)
      store id .bias { bias with data }
      match bias.unquantized with
      | none => return ()
      | some unquantized =>
          let quotient ← demand (divided node scale unquantized)
          store id .bias { bias with data, unquantized := some quotient }) := by
  unfold rescaleBias
  generalize node.weights.get? .bias = stored at present ⊢
  subst present
  rfl

/-- Rescaling the bias of a layer whose slot holds a node already. -/
theorem rescaleBias_replace
    (found : graph.get id = .ok old) (node layer : Node α) (scale : Tensor α) :
    (∃ cause left, rescaledBias layer scale = .error (.error cause) ∧
        rescaleBias id layer scale (graph.replace id.index node) = .error (.error cause) left) ∨
      ∃ bias, rescaledBias layer scale = .ok bias ∧
        rescaleBias id layer scale (graph.replace id.index node) =
          .ok () (graph.replace id.index (bias.elim node (node.withWeight .bias))) := by
  cases present : layer.weights.get? .bias with
  | none =>
      rw [rescaledBias_of_none present, rescaleBias_of_none present]
      exact Or.inr ⟨none, rfl, rfl⟩
  | some bias =>
      rw [rescaledBias_of_some present, rescaleBias_of_some present]
      obtain ⟨values, unquantized, quantizer⟩ := bias
      cases quotient : divided layer scale values with
      | error failure =>
          obtain ⟨cause, rfl⟩ := divided_error_cases quotient
          exact Or.inl ⟨cause, graph.replace id.index node, rfl,
            bind_of_error _ (demand_of_error rfl)⟩
      | ok data =>
          have stored := store_replace found node .bias ⟨data, unquantized, quantizer⟩
          rw [bind_of_ok _ (demand_of_ok rfl), bind_of_ok _ stored]
          cases unquantized with
          | none =>
              exact Or.inr ⟨some ⟨data, none, quantizer⟩, rfl, rfl⟩
          | some unquantized =>
              cases second : divided layer scale unquantized with
              | error failure =>
                  obtain ⟨cause, rfl⟩ := divided_error_cases second
                  refine Or.inl ⟨cause, _, ?_, bind_of_error _ (demand_of_error second)⟩
                  simp only [second, except_ok_bind, except_error_bind]
              | ok quotient =>
                  have again := store_replace found
                    (node.withWeight .bias ⟨data, some unquantized, quantizer⟩) .bias
                    ⟨data, some quotient, quantizer⟩
                  refine Or.inr ⟨some ⟨data, some quotient, quantizer⟩, ?_, ?_⟩
                  · simp only [second, except_ok_bind, except_pure_eq]
                  · refine (bind_of_ok _ (demand_of_ok second)).trans (again.trans ?_)
                    rw [Node.withWeight, Node.withWeight, Table.insert_insert]
                    rfl

/-- The graph with a layer at unit scale and the node with its scale behind it. -/
def factored (graph : Graph α) (id : NodeId) (layer : Node α) (output : Output)
    (scale : Tensor α) : Graph α :=
  (graph.replace id.index layer).placed ⟨id, 0⟩ (alphaNode id layer output scale)

theorem insertAlpha_replace
    (wf : graph.WellFormed) (found : graph.get id = .ok old) {layer : Node α}
    (resembles : layer.Resembles old) {output : Output} {others : List Output}
    (outputs : layer.outputs = output :: others) (scale : Tensor α) :
    insertAlpha id scale (graph.replace id.index layer) =
      .ok () (factored graph id layer output scale) := by
  have listed := (listed_of_get found).2
  have changedWf := wf.replace listed resembles
  have there := get_replace found layer
  have exist := hasTensor_replace found outputs
  have checked :
      (graph.replace id.index layer).checkNew (alphaNode id layer output scale) = .ok () := by
    refine checkNew_eq_ok_iff.mpr ⟨List.cons_ne_nil _ _, ?_⟩
    intro input member
    rw [List.mem_singleton.mp member]
    exact exist
  have inserted := changedWf.lists.insert_eq_ok_iff.mpr
    ⟨checked, ⟨id, 0⟩, [], rfl, changedWf.linked.producer_mem exist, rfl, rfl⟩
  have edited :
      (do return (← (graph.replace id.index layer).insert (alphaNode id layer output scale)).2) =
        Except.ok (factored graph id layer output scale) := by
    rw [inserted]
    rfl
  unfold insertAlpha
  rw [bind_of_ok _ (ask_of_ok (node_of_get there)), outputs]
  exact edit_of_ok edited

theorem factorized_error_cases {failure : Failure PassError}
    (failed : factorized node = .error failure) :
    failure = .fault .unquantizable ∨ ∃ cause, failure = .error cause := by
  unfold factorized missing at failed
  split at failed
  · exact Or.inr ⟨_, (Except.error.inj failed).symm⟩
  · split at failed
    · exact Or.inr ⟨_, (Except.error.inj failed).symm⟩
    · exact Or.inr ⟨_, (Except.error.inj failed).symm⟩
    · split at failed
      · exact Or.inl (Except.error.inj failed).symm
      · simp at failed

theorem patch_eq_ok
    (wf : graph.WellFormed) (found : graph.get id = .ok node) {weight : Weight α}
    {scale : Tensor α} {bias : Option (Weight α)} {output : Output} {others : List Output}
    (unit : factorized node = .ok (weight, scale)) (divided : rescaledBias node scale = .ok bias)
    (outputs : node.outputs = output :: others) :
    patch id graph = .ok true (factored graph id (unitNode node weight bias) output scale) := by
  have stored := store_replace found node .weight weight
  rw [replace_self found] at stored
  have reset := modify_of_get (get_replace found
    (bias.elim (node.withWeight .weight weight)
      ((node.withWeight .weight weight).withWeight .bias))) resetAttrs
  rw [replace_replace] at reset
  have inserted := insertAlpha_replace wf found (unitNode_resembles node weight bias)
    ((unitNode_outputs node weight bias).trans outputs) scale
  unfold patch
  rw [bind_of_ok _ (look_of_ok found), bind_of_ok _ (demand_of_ok unit)]
  dsimp only
  rw [bind_of_ok _ stored]
  rcases rescaleBias_replace found (node.withWeight .weight weight) node scale with
    ⟨cause, left, refused, _⟩ | ⟨_, same, done⟩
  · cases refused.symm.trans divided
  · obtain rfl := Except.ok.inj (same.symm.trans divided)
    rw [bind_of_ok _ done, bind_of_ok _ (edit_of_ok reset)]
    exact bind_of_ok _ inserted

/-- A factorization fails for the weights of the layer, fails for its bias, or succeeds. -/
theorem patch_cases (wf : graph.WellFormed) (found : graph.get id = .ok node) :
    (∃ failure, factorized node = .error failure ∧ patch id graph = .error failure graph) ∨
      (∃ cause left, patch id graph = .error (.error cause) left) ∨
      ∃ weight scale bias output others,
        factorized node = .ok (weight, scale) ∧ rescaledBias node scale = .ok bias ∧
          node.outputs = output :: others ∧
          patch id graph =
            .ok true (factored graph id (unitNode node weight bias) output scale) := by
  cases unit : factorized node with
  | error failure =>
      refine Or.inl ⟨failure, rfl, ?_⟩
      unfold patch
      rw [bind_of_ok _ (look_of_ok found)]
      exact bind_of_error _ (demand_of_error unit)
  | ok result =>
      obtain ⟨weight, scale⟩ := result
      have stored := store_replace found node .weight weight
      rw [replace_self found] at stored
      rcases rescaleBias_replace found (node.withWeight .weight weight) node scale with
        ⟨cause, left, _, failed⟩ | ⟨bias, divided, _⟩
      · refine Or.inr (Or.inl ⟨cause, left, ?_⟩)
        unfold patch
        rw [bind_of_ok _ (look_of_ok found), bind_of_ok _ (demand_of_ok unit)]
        dsimp only
        rw [bind_of_ok _ stored]
        exact bind_of_error _ failed
      · cases outputs : node.outputs with
        | nil =>
            exact absurd outputs (wf.produces (listed_of_get found).2)
        | cons output others =>
            exact Or.inr (Or.inr ⟨weight, scale, bias, output, others, rfl, divided, rfl,
              patch_eq_ok wf found unit divided outputs⟩)

end ScaleFactorization

/-! ## Affine fusion -/

namespace AffineFusion

open QuantNet.Graph Patch

variable {α : Type} {graph : Graph α} {id : NodeId} {node first : Node α} {input : TensorRef}

/-- Affine fusion applies to an affine node that alone reads the first output of another one. -/
theorem applies_eq_ok_true_iff :
    applies graph id = .ok true ↔
      ∃ node input first,
        graph.get id = .ok node ∧ node.inputs = [input] ∧ node.kind.isAffine = true ∧
          graph.get input.node = .ok first ∧ first.kind.isAffine = true ∧ input.output = 0 ∧
            graph.isOutput input = false ∧ graph.readers input = [id] := by
  simp only [applies, except_bind_eq_ok]
  constructor
  · rintro ⟨node, found, rest⟩
    split at rest
    · simp at rest
    · next input only =>
        split at rest
        · next affine =>
            obtain ⟨first, source, result⟩ := except_bind_eq_ok.mp rest
            have conditions := except_pure_eq_ok.mp result
            simp only [Bool.and_eq_true, decide_eq_true_eq, Bool.not_eq_true'] at conditions
            obtain ⟨⟨⟨kind, zero⟩, unexported⟩, alone⟩ := conditions
            exact ⟨node, input, first, found, onlyInput?_eq_some_iff.mp only, affine, source, kind,
              zero, unexported, alone⟩
        · simp at rest
  · rintro ⟨node, input, first, found, reads, affine, source, kind, zero, unexported, alone⟩
    refine ⟨node, found, ?_⟩
    simp only [onlyInput?_eq_some_iff.mpr reads, affine, if_true]
    refine except_bind_eq_ok.mpr ⟨first, source, ?_⟩
    simp [kind, zero, unexported, alone]

theorem affineOf_eq_ok (found : graph.get id = .ok node) {scale bias : Weight α}
    (hasScale : node.weights.get? .scale = some scale)
    (hasBias : node.weights.get? .bias = some bias) :
    affineOf graph id = .ok ⟨scale.data, bias.data⟩ := by
  simp [affineOf, Graph.weight, node_of_get found, hasScale, hasBias]

theorem affineOf_cases (found : graph.get id = .ok node) :
    (∃ cause, affineOf graph id = .error (.error cause)) ∨
      ∃ scale bias, node.weights.get? .scale = some scale ∧ node.weights.get? .bias = some bias ∧
        affineOf graph id = .ok ⟨scale.data, bias.data⟩ := by
  have there := node_of_get found
  cases scale : node.weights.get? .scale with
  | none =>
      refine Or.inl ⟨.missingWeight node.name .scale, ?_⟩
      simp [affineOf, Graph.weight, there, scale]
  | some weight =>
      cases bias : node.weights.get? .bias with
      | none =>
          refine Or.inl ⟨.missingWeight node.name .bias, ?_⟩
          simp [affineOf, Graph.weight, there, scale, bias]
      | some _ =>
          exact Or.inr ⟨_, _, rfl, rfl, affineOf_eq_ok found scale bias⟩

theorem setWeight_replace (found : graph.get id = .ok node) (new : Node α) {role : Role}
    {weight : Weight α} (present : new.weights.get? role = some weight) (data : Tensor α) :
    (graph.replace id.index new).setWeight id role data =
      .ok (graph.replace id.index (new.withWeight role { weight with data })) := by
  have there := node_of_get (get_replace found new)
  rw [setWeight, modifyWeight_eq_ok_iff]
  exact ⟨new, weight, there, present, (replace_replace _ _ _ _).symm⟩

/-- The first of two affine nodes with the joint map. -/
def fusedNode (first : Node α) (scale bias : Weight α) (fused : Affine α) : Node α :=
  (first.withWeight .scale { scale with data := fused.scale }).withWeight .bias
    { bias with data := fused.bias }

/-- Storing the two parts of a joint map, one after the other. -/
theorem exists_setWeight_fused (found : graph.get id = .ok first) {scale bias : Weight α}
    (hasScale : first.weights.get? .scale = some scale)
    (hasBias : first.weights.get? .bias = some bias) (fused : Affine α) :
    ∃ middle, graph.setWeight id .scale fused.scale = .ok middle ∧
      middle.setWeight id .bias fused.bias =
        .ok (graph.replace id.index (fusedNode first scale bias fused)) := by
  have setScale := setWeight_replace found first hasScale fused.scale
  rw [replace_self found] at setScale
  have keptBias :
      (first.withWeight .scale { scale with data := fused.scale }).weights.get? .bias =
        some bias := by
    simp [Node.withWeight, hasBias]
  exact ⟨_, setScale, setWeight_replace found _ keptBias fused.bias⟩

theorem fusedNode_resembles (first : Node α) (scale bias : Weight α) (fused : Affine α) :
    (fusedNode first scale bias fused).Resembles first :=
  ⟨rfl, rfl, rfl, rfl⟩

@[simp]
theorem scale_fusedNode {scale bias : Weight α} (fused : Affine α) :
    (fusedNode first scale bias fused).weights.get? .scale =
      some { scale with data := fused.scale } := by
  simp [fusedNode, Node.withWeight]

@[simp]
theorem bias_fusedNode {scale bias : Weight α} (fused : Affine α) :
    (fusedNode first scale bias fused).weights.get? .bias =
      some { bias with data := fused.bias } := by
  simp [fusedNode, Node.withWeight]

/-- The second of two nodes is bypassed when it is removed after a change to the first. -/
theorem remove_of_replaced (linked : graph.Linked) (found : graph.get id = .ok node)
    (reads : node.inputs = [input]) (source : graph.get input.node = .ok first)
    (apart : input.node ≠ id) {new : Node α} (resembles : new.Resembles first) :
    (graph.replace input.node.index new).remove id true =
      .ok ((graph.replace input.node.index new).bypassed id input) := by
  have there : (graph.replace input.node.index new).get id = .ok node :=
    (get_replace_iff source).mpr (Or.inr ⟨apart.symm, found⟩)
  have replaced := linked.replace (listed_of_get source).2 resembles
  exact replaced.remove_of_node (node_of_get there) reads apart

variable [Scalar α]

section

variable (found : graph.get id = .ok node) (reads : node.inputs = [input])

include found reads

omit [Scalar α] in
theorem source?_eq_ok : graph.source? id = .ok (some input.node) := by
  have there := get?_eq_ok_iff.mpr (get_eq_ok_iff.mp found)
  simp [source?, there, onlyInput?_eq_some_iff.mpr reads]

theorem patch_eq_ok
    (wf : graph.WellFormed) (source : graph.get input.node = .ok first)
    {scale bias nextScale nextBias : Weight α} {fused : Affine α}
    (hasScale : first.weights.get? .scale = some scale)
    (hasBias : first.weights.get? .bias = some bias)
    (hasNextScale : node.weights.get? .scale = some nextScale)
    (hasNextBias : node.weights.get? .bias = some nextBias)
    (joint : Affine.andThen ⟨scale.data, bias.data⟩ ⟨nextScale.data, nextBias.data⟩ =
      .ok fused) :
    patch id graph = .ok true
      ((graph.replace input.node.index (fusedNode first scale bias fused)).bypassed id input) := by
  have apart : input.node ≠ id :=
    fun same => wf.source_index_ne found reads source (congrArg NodeId.index same.symm)
  obtain ⟨middle, setScale, setBias⟩ := exists_setWeight_fused source hasScale hasBias fused
  have removed := remove_of_replaced wf.linked found reads source apart
    (fusedNode_resembles first scale bias fused)
  unfold patch
  rw [bind_of_ok _ (look_of_ok (source?_eq_ok found reads))]
  dsimp only
  rw [bind_of_ok _ (ask_of_ok (affineOf_eq_ok source hasScale hasBias)),
    bind_of_ok _ (ask_of_ok (affineOf_eq_ok found hasNextScale hasNextBias)), joint]
  dsimp only
  rw [bind_of_ok _ (edit_of_ok setScale), bind_of_ok _ (edit_of_ok setBias)]
  exact bind_of_ok _ (edit_of_ok removed)

/-- A fusion is refused, or it succeeds. -/
theorem patch_cases
    (wf : graph.WellFormed) (source : graph.get input.node = .ok first) :
    (∃ cause, patch id graph = .error (.error cause) graph) ∨
      ∃ scale bias nextScale nextBias fused,
        first.weights.get? .scale = some scale ∧ first.weights.get? .bias = some bias ∧
          node.weights.get? .scale = some nextScale ∧ node.weights.get? .bias = some nextBias ∧
            Affine.andThen ⟨scale.data, bias.data⟩ ⟨nextScale.data, nextBias.data⟩ = .ok fused ∧
              patch id graph = .ok true
                ((graph.replace input.node.index (fusedNode first scale bias fused)).bypassed
                  id input) := by
  have producer := source?_eq_ok found reads
  rcases affineOf_cases source with ⟨cause, refused⟩ | ⟨scale, bias, hasScale, hasBias, map⟩
  · refine Or.inl ⟨.graph cause, ?_⟩
    unfold patch
    rw [bind_of_ok _ (look_of_ok producer)]
    exact bind_of_error _ (ask_of_error refused)
  rcases affineOf_cases found with
    ⟨cause, refused⟩ | ⟨nextScale, nextBias, hasNextScale, hasNextBias, nextMap⟩
  · refine Or.inl ⟨.graph cause, ?_⟩
    unfold patch
    rw [bind_of_ok _ (look_of_ok producer)]
    dsimp only
    rw [bind_of_ok _ (ask_of_ok map)]
    exact bind_of_error _ (ask_of_error refused)
  cases joint : Affine.andThen ⟨scale.data, bias.data⟩ ⟨nextScale.data, nextBias.data⟩ with
  | error shapes =>
      refine Or.inl ⟨.shapeMismatch node.name shapes.1 shapes.2, ?_⟩
      unfold patch
      rw [bind_of_ok _ (look_of_ok producer)]
      dsimp only
      rw [bind_of_ok _ (ask_of_ok map), bind_of_ok _ (ask_of_ok nextMap), joint]
      exact bind_of_ok _ (look_of_ok found)
  | ok fused =>
      exact Or.inr ⟨scale, bias, nextScale, nextBias, fused, hasScale, hasBias, hasNextScale,
        hasNextBias, joint,
        patch_eq_ok found reads wf source hasScale hasBias hasNextScale hasNextBias joint⟩

end

end AffineFusion

/-! ## Output modes -/

namespace OutputModes

open QuantNet.Graph Patch

variable {α : Type} {graph : Graph α} {id : NodeId} {node : Node α} {selection : ModeSelection}

/-- The layer with a precision for its first output, and for its accumulator if it has one. -/
def withPrecision (node : Node α) (output : Output) (others : List Output)
    (precision : Precision) : Node α :=
  let noted :=
    if (node.attrs.get? accumulatorKey).isSome then
      node.withAttr accumulatorKey (.precision precision)
    else node
  { noted with outputs := { output with precision } :: others }

section

variable {output : Output} {others : List Output} {precision : Precision}

@[simp]
theorem kind_withPrecision : (withPrecision node output others precision).kind = node.kind := by
  unfold withPrecision
  split <;> rfl

@[simp]
theorem name_withPrecision : (withPrecision node output others precision).name = node.name := by
  unfold withPrecision
  split <;> rfl

@[simp]
theorem weights_withPrecision :
    (withPrecision node output others precision).weights = node.weights := by
  unfold withPrecision
  split <;> rfl

end

theorem withPrecision_resembles {output : Output} {others : List Output} (precision : Precision)
    (outputs : node.outputs = output :: others) :
    (withPrecision node output others precision).Resembles node := by
  unfold withPrecision
  split <;> exact ⟨rfl, rfl, rfl, by simp [outputs]⟩

theorem setOutputPrecision_replace (found : graph.get id = .ok node) (new : Node α)
    {output : Output} {others : List Output} (outputs : new.outputs = output :: others)
    (precision : Precision) :
    (graph.replace id.index new).setOutputPrecision id precision =
      .ok (graph.replace id.index { new with outputs := { output with precision } :: others }) := by
  have there := node_of_get (get_replace found new)
  rw [setOutputPrecision_eq_ok_iff]
  exact ⟨new, output, others, there, outputs, (replace_replace _ _ _ _).symm⟩

/-- A node that lacks modes has a first output, which does not cover them. -/
theorem lacksModes_eq_true_iff :
    lacksModes selection node = true ↔
      selects selection node = true ∧ selection.modes.isEmpty = false ∧
        ∃ output others, node.outputs = output :: others ∧
          output.precision.covers selection.modes = false := by
  unfold lacksModes
  cases outputs : node.outputs with
  | nil => simp
  | cons output others => simp [and_assoc]

/-- Setting modes fails for the precision of the first output, or it succeeds. -/
theorem patch_cases
    (selection : ModeSelection) (found : graph.get id = .ok node) {output : Output}
    {others : List Output} (outputs : node.outputs = output :: others) :
    (∃ source, output.precision.setModes selection.modes = .error source ∧
        patch selection id graph = .error (.error (.precisionMismatch node.name source)) graph) ∨
      ∃ precision, output.precision.setModes selection.modes = .ok precision ∧
        patch selection id graph = .ok false
          (graph.replace id.index (withPrecision node output others precision)) := by
  have there := node_of_get found
  have old : graph.outputPrecision id = .ok output.precision := by
    simp [outputPrecision, there, outputs]
  have noted : graph.attr? id accumulatorKey = .ok (node.attrs.get? accumulatorKey) := by
    have found? := get?_eq_ok_iff.mpr (get_eq_ok_iff.mp found)
    simp [attr?, found?]
  unfold patch
  rw [bind_of_ok _ (ask_of_ok old)]
  cases result : output.precision.setModes selection.modes with
  | error source =>
      refine Or.inl ⟨source, rfl, ?_⟩
      exact bind_of_ok _ (look_of_ok found)
  | ok precision =>
      refine Or.inr ⟨precision, rfl, ?_⟩
      dsimp only
      rw [bind_of_ok _ (look_of_ok noted)]
      unfold withPrecision
      split
      · have attrSet : graph.setAttr id accumulatorKey (.precision precision) =
            .ok (graph.replace id.index
              (node.withAttr accumulatorKey (.precision precision))) :=
          modify_of_get found _
        have modesSet := setOutputPrecision_replace found
          (node.withAttr accumulatorKey (.precision precision)) outputs precision
        rw [bind_of_ok _ (edit_of_ok attrSet)]
        exact bind_of_ok _ (edit_of_ok modesSet)
      · have modesSet := setOutputPrecision_replace found node outputs precision
        rw [replace_self found] at modesSet
        exact bind_of_ok _ (edit_of_ok modesSet)

theorem patch_eq_ok
    (found : graph.get id = .ok node) {output : Output} {others : List Output}
    (outputs : node.outputs = output :: others) {precision : Precision}
    (set : output.precision.setModes selection.modes = .ok precision) :
    patch selection id graph =
      .ok false (graph.replace id.index (withPrecision node output others precision)) := by
  rcases patch_cases selection found outputs with ⟨_, refused, _⟩ | ⟨_, same, done⟩
  · cases refused.symm.trans set
  · rw [done, Except.ok.inj (same.symm.trans set)]

end OutputModes

end QuantNet
