import QuantNet.Proofs.Pass.Effects

/-!
# What a successful patch has done

A patch that succeeds has found all that it asked for, on any graph, well formed or not.  Scale
factorization has then replaced its layer and inserted a node behind it; affine fusion has replaced
the producer of its node and removed the node.
-/

namespace QuantNet

namespace Patch

variable {α β : Type} {graph changed : Graph α} {answer : β}

theorem look_eq_ok_iff {query : Graph α → Except Fault β} :
    look query graph = .ok answer changed ↔ query graph = .ok answer ∧ changed = graph := by
  unfold look
  cases query graph <;> simp [eq_comm]

theorem ask_eq_ok_iff {query : Graph α → Except (Failure GraphError) β} :
    ask query graph = .ok answer changed ↔ query graph = .ok answer ∧ changed = graph := by
  unfold ask
  cases query graph <;> simp [eq_comm]

theorem demand_eq_ok_iff {value : Except (Failure PassError) β} :
    demand value graph = .ok answer changed ↔ value = .ok answer ∧ changed = graph := by
  unfold demand
  cases value <;> simp [eq_comm]

theorem edit_eq_ok_iff {change : Graph α → Except (Failure GraphError) (Graph α)} {answer : Unit} :
    edit change graph = .ok answer changed ↔ change graph = .ok changed := by
  unfold edit
  cases change graph <;> simp

end Patch

open QuantNet.Graph Patch

variable {α : Type} [Scalar α] {graph changed : Graph α} {id : NodeId} {topologyChanged : Bool}

namespace ScaleFactorization

theorem insertAlpha_eq_ok {layer : Node α} {scale : Tensor α} (found : graph.get id = .ok layer)
    (done : insertAlpha id scale graph = .ok () changed) :
    ∃ output others inserted, layer.outputs = output :: others ∧
      graph.insert (alphaNode id layer output scale) = .ok (inserted, changed) := by
  unfold insertAlpha at done
  rw [bind_of_ok _ (ask_of_ok (node_of_get found))] at done
  cases outputs : layer.outputs with
  | nil =>
      rw [outputs] at done
      cases done
  | cons output others =>
      rw [outputs] at done
      obtain ⟨⟨inserted, result⟩, added, shape⟩ := except_bind_eq_ok.mp (edit_eq_ok_iff.mp done)
      obtain rfl := except_pure_eq_ok.mp shape
      exact ⟨output, others, inserted, rfl, added⟩

/-- A factorization that succeeds has replaced the layer by the layer at unit scale and has inserted
the node with its scale. -/
theorem exists_of_patch_eq_ok (done : patch id graph = .ok topologyChanged changed) :
    ∃ node weight scale bias output others inserted,
      graph.get id = .ok node ∧ factorized node = .ok (weight, scale) ∧
        rescaledBias node scale = .ok bias ∧ node.outputs = output :: others ∧
          (graph.replace id.index (unitNode node weight bias)).insert
            (alphaNode id (unitNode node weight bias) output scale) = .ok (inserted, changed) := by
  obtain ⟨node, _, looked, step⟩ := bind_eq_ok_iff.mp done
  obtain ⟨found, rfl⟩ := look_eq_ok_iff.mp looked
  obtain ⟨⟨weight, scale⟩, _, demanded, rest⟩ := bind_eq_ok_iff.mp step
  obtain ⟨unit, rfl⟩ := demand_eq_ok_iff.mp demanded
  have stored := store_replace found node .weight weight
  rw [replace_self found] at stored
  dsimp only at rest
  rw [bind_of_ok _ stored] at rest
  rcases rescaleBias_replace found (node.withWeight .weight weight) node scale with
    ⟨cause, left, _, failed⟩ | ⟨bias, divided, rescaled⟩
  · rw [bind_of_error _ failed] at rest
    cases rest
  · have reset := modify_of_get (get_replace found
      (bias.elim (node.withWeight .weight weight)
        ((node.withWeight .weight weight).withWeight .bias))) resetAttrs
    rw [replace_replace] at reset
    rw [bind_of_ok _ rescaled, bind_of_ok _ (edit_of_ok reset)] at rest
    obtain ⟨_, _, inserted, ended⟩ := bind_eq_ok_iff.mp rest
    obtain ⟨_, rfl⟩ := EStateM.Result.ok.inj ended
    obtain ⟨output, others, place, outputs, added⟩ :=
      insertAlpha_eq_ok (get_replace found _) inserted
    exact ⟨node, weight, scale, bias, output, others, place, found, unit, divided,
      (unitNode_outputs node weight bias).symm.trans outputs, added⟩

/-- Where slots, order and uses fit together, the inserted node stands behind the layer and has
taken over its users. -/
theorem exists_factored_of_patch_eq_ok (linked : graph.Linked)
    (done : patch id graph = .ok topologyChanged changed) :
    ∃ node weight scale bias output others,
      graph.get id = .ok node ∧ node.outputs = output :: others ∧
        changed = factored graph id (unitNode node weight bias) output scale := by
  obtain ⟨node, weight, scale, bias, output, others, inserted, found, _, _, outputs, added⟩ :=
    exists_of_patch_eq_ok done
  have replaced := linked.replace (listed_of_get found).2 (unitNode_resembles node weight bias)
  obtain ⟨_, anchor, rest, shape, _, _, rfl⟩ := replaced.lists.insert_eq_ok_iff.mp added
  obtain ⟨rfl, _⟩ : (⟨id, 0⟩ : TensorRef) = anchor ∧ [] = rest := List.cons_eq_cons.mp shape
  exact ⟨node, weight, scale, bias, output, others, found, outputs, rfl⟩

end ScaleFactorization

namespace AffineFusion

omit [Scalar α] in
theorem affineOf_eq_ok_iff {node : Node α} {map : Affine α} (found : graph.get id = .ok node) :
    affineOf graph id = .ok map ↔
      ∃ scale bias, node.weights.get? .scale = some scale ∧ node.weights.get? .bias = some bias ∧
        map = ⟨scale.data, bias.data⟩ := by
  constructor
  · intro read
    rcases affineOf_cases found with ⟨cause, failed⟩ | ⟨scale, bias, hasScale, hasBias, done⟩
    · cases failed.symm.trans read
    · exact ⟨scale, bias, hasScale, hasBias, Except.ok.inj (read.symm.trans done)⟩
  · rintro ⟨scale, bias, hasScale, hasBias, rfl⟩
    exact affineOf_eq_ok found hasScale hasBias

omit [Scalar α] in
theorem get_of_affineOf {map : Affine α} (read : affineOf graph id = .ok map) :
    ∃ node, graph.get id = .ok node := by
  obtain ⟨weight, read, _⟩ := except_bind_eq_ok.mp read
  obtain ⟨node, found, _⟩ := weight_eq_ok_iff.mp read
  exact ⟨node, get_eq_ok_of_node found⟩

omit [Scalar α] in
theorem input_of_source? {node : Node α} {producer : NodeId} (found : graph.get id = .ok node)
    (source : graph.source? id = .ok (some producer)) :
    ∃ input, node.inputs = [input] ∧ input.node = producer := by
  have there := get?_eq_ok_iff.mpr (get_eq_ok_iff.mp found)
  obtain ⟨_, again, shape⟩ := except_bind_eq_ok.mp source
  obtain rfl := Except.ok.inj (there.symm.trans again)
  obtain ⟨input, only, same⟩ := Option.map_eq_some_iff.mp (except_pure_eq_ok.mp shape)
  exact ⟨input, onlyInput?_eq_some_iff.mp only, same⟩

/-- A fusion that succeeds has replaced the producer by the joint node and has removed the node. -/
theorem exists_of_patch_eq_ok (done : patch id graph = .ok topologyChanged changed) :
    ∃ node input first scale bias nextScale nextBias fused,
      graph.get id = .ok node ∧ node.inputs = [input] ∧ graph.get input.node = .ok first ∧
        first.weights.get? .scale = some scale ∧ first.weights.get? .bias = some bias ∧
          node.weights.get? .scale = some nextScale ∧ node.weights.get? .bias = some nextBias ∧
            Affine.andThen ⟨scale.data, bias.data⟩ ⟨nextScale.data, nextBias.data⟩ = .ok fused ∧
              (graph.replace input.node.index (fusedNode first scale bias fused)).remove id true =
                .ok changed := by
  obtain ⟨producer?, _, looked, step⟩ := bind_eq_ok_iff.mp done
  obtain ⟨source, rfl⟩ := look_eq_ok_iff.mp looked
  obtain ⟨producer, rfl⟩ : ∃ producer, producer? = some producer := by
    cases producer? with
    | none =>
        obtain ⟨_, _, _, failed⟩ := bind_eq_ok_iff.mp step
        cases failed
    | some producer => exact ⟨producer, rfl⟩
  obtain ⟨map, _, asked, second⟩ := bind_eq_ok_iff.mp step
  obtain ⟨read, rfl⟩ := ask_eq_ok_iff.mp asked
  obtain ⟨nextMap, _, askedNext, rest⟩ := bind_eq_ok_iff.mp second
  obtain ⟨nextRead, rfl⟩ := ask_eq_ok_iff.mp askedNext
  obtain ⟨first, there⟩ := get_of_affineOf read
  obtain ⟨node, found⟩ := get_of_affineOf nextRead
  obtain ⟨scale, bias, hasScale, hasBias, rfl⟩ := (affineOf_eq_ok_iff there).mp read
  obtain ⟨nextScale, nextBias, hasNextScale, hasNextBias, rfl⟩ :=
    (affineOf_eq_ok_iff found).mp nextRead
  obtain ⟨input, reads, rfl⟩ := input_of_source? found source
  obtain ⟨fused, joint⟩ : ∃ fused,
      Affine.andThen ⟨scale.data, bias.data⟩ ⟨nextScale.data, nextBias.data⟩ = .ok fused := by
    cases joint : Affine.andThen ⟨scale.data, bias.data⟩ ⟨nextScale.data, nextBias.data⟩ with
    | error shapes =>
        rw [joint] at rest
        obtain ⟨_, _, _, failed⟩ := bind_eq_ok_iff.mp rest
        cases failed
    | ok fused => exact ⟨fused, rfl⟩
  obtain ⟨middle, setScale, setBias⟩ := exists_setWeight_fused there hasScale hasBias fused
  rw [joint] at rest
  dsimp only at rest
  rw [bind_of_ok _ (edit_of_ok setScale), bind_of_ok _ (edit_of_ok setBias)] at rest
  obtain ⟨_, _, removed, ended⟩ := bind_eq_ok_iff.mp rest
  obtain ⟨_, rfl⟩ := EStateM.Result.ok.inj ended
  exact ⟨node, input, first, scale, bias, nextScale, nextBias, fused, found, reads, there,
    hasScale, hasBias, hasNextScale, hasNextBias, joint, edit_eq_ok_iff.mp removed⟩

/-- Where slots, order and uses fit together, a fusion that succeeds has bypassed a node that reads
a tensor of another one. -/
theorem exists_bypassed_of_patch_eq_ok (linked : graph.Linked)
    (apart : ∀ ⦃node input⦄, graph.get id = .ok node → node.inputs = [input] → input.node ≠ id)
    (done : patch id graph = .ok topologyChanged changed) :
    ∃ node input first scale bias fused,
      graph.get id = .ok node ∧ node.inputs = [input] ∧ graph.get input.node = .ok first ∧
        changed = (graph.replace input.node.index (fusedNode first scale bias fused)).bypassed id
          input := by
  obtain ⟨node, input, first, scale, bias, _, _, fused, found, reads, source, _, _, _, _, _,
    removed⟩ := exists_of_patch_eq_ok done
  have bypass := remove_of_replaced linked found reads source (apart found reads)
    (fusedNode_resembles first scale bias fused)
  exact ⟨node, input, first, scale, bias, fused, found, reads, source,
    Except.ok.inj (removed.symm.trans bypass)⟩

end AffineFusion

end QuantNet
