import QuantNet.Proofs.Graph.Entries
import QuantNet.Proofs.Layer.Requantizing
import QuantNet.Proofs.Pass.Editing
import QuantNet.Proofs.Pass.Inversion
import QuantNet.Proofs.Pass.Rewrite

/-!
# Graphs whose weights can be quantized again

What the two passes that change the topology do to the weights that have a quantizer and keep their
unquantized values.  Scale factorization stores the weights of its layer at unit scale beside
unquantized values that still have their scale; affine fusion replaces data and nothing else.
-/

namespace QuantNet

open QuantNet.Graph

variable {α : Type} [Scalar α] {graph changed : Graph α} {id : NodeId} {topologyChanged : Bool}
  {weight : Weight α} {unquantized : Tensor α} {quantizer : WeightQuantizer α}

/-- All weights of a graph can be quantized again. -/
def Graph.Requantizable (graph : Graph α) : Prop :=
  ∀ ⦃index role weight⦄, graph.weightAt? index role = some weight → weight.Requantizable

theorem Graph.requantizable_iff_slots :
    graph.Requantizable ↔ ∀ slot ∈ graph.slots, ∀ node ∈ slot.toList, node.Requantizable := by
  constructor
  · intro requantizable slot member node there role weight stored
    obtain rfl := Option.mem_toList.mp there
    obtain ⟨index, place⟩ := List.mem_iff_getElem?.mp member
    exact requantizable ((weightAt?_of_find? (find?_eq_some_iff.mpr place) role).trans stored)
  · intro all index role weight found
    obtain ⟨node, listed, stored⟩ := Option.bind_eq_some_iff.mp found
    have member := List.mem_of_getElem? (find?_eq_some_iff.mp listed)
    exact all _ member node (Option.mem_toList.mpr rfl) stored

instance [DecidableEq α] : Decidable graph.Requantizable :=
  decidable_of_iff _ Graph.requantizable_iff_slots.symm

omit [Scalar α] in
/-- A weight that has a quantizer and unquantized values, before and after a change, has the same
data. -/
def Graph.KeepsData (graph changed : Graph α) : Prop :=
  ∀ ⦃index role old new⦄, graph.weightAt? index role = some old →
    changed.weightAt? index role = some new → old.unquantized.isSome → old.quantizer.isSome →
      new.data = old.data

namespace ScaleFactorization

/-- What a factorization makes of a reading of nodes that does not look at their inputs. -/
theorem map_find?_of_patch {β : Type} (reading : Node α → β)
    (free : ∀ old new (node : Node α), reading (node.redirect old new) = reading node)
    (done : patch id graph = .ok topologyChanged changed) :
    ∃ node unit scale bias output,
      graph.get id = .ok node ∧ factorized node = .ok (unit, scale) ∧
        rescaledBias node scale = .ok bias ∧ changed.tag = graph.tag ∧
          changed.issued = graph.issued + 1 ∧
            ∀ index, (changed.find? index).map reading =
              if index = graph.issued then
                some (reading (alphaNode id (unitNode node unit bias) output scale))
              else if index = id.index then some (reading (unitNode node unit bias))
              else (graph.find? index).map reading := by
  obtain ⟨node, unit, scale, bias, output, _, _, found, factor, divided, _, added⟩ :=
    exists_of_patch_eq_ok done
  obtain ⟨_, tag, issued⟩ := handle_of_insert added
  rw [issued_replace] at issued
  refine ⟨node, unit, scale, bias, output, found, factor, divided, tag, issued, fun index => ?_⟩
  rw [map_find?_insert free added, issued_replace, find?_replace (listed_of_get found).2]
  split
  · rfl
  · split <;> rfl

/-- The weights after a factorization: the inserted node has its own, and the layer has those of the
layer at unit scale. -/
theorem weightAt?_of_patch (done : patch id graph = .ok topologyChanged changed) :
    ∃ node unit scale bias output,
      graph.find? id.index = some node ∧ factorized node = .ok (unit, scale) ∧
        rescaledBias node scale = .ok bias ∧ id.index ≠ graph.issued ∧
          ∀ index role, changed.weightAt? index role =
            if index = graph.issued then
              (alphaNode id (unitNode node unit bias) output scale).weights.get? role
            else if index = id.index then (unitNode node unit bias).weights.get? role
            else graph.weightAt? index role := by
  obtain ⟨node, unit, scale, bias, output, found, factor, divided, _, _, readings⟩ :=
    map_find?_of_patch Node.weights (fun _ _ _ => rfl) done
  have listed := (listed_of_get found).2
  refine ⟨node, unit, scale, bias, output, listed, factor, divided,
    Nat.ne_of_lt (issued_of_find? listed), fun index role => ?_⟩
  rw [weightAt?_eq_map, readings, weightAt?_eq_map]
  split
  · rfl
  · split <;> rfl

/-- The weight of the layer after a factorization. -/
theorem weightAt?_weight_of_patch (stored : graph.weightAt? id.index .weight = some weight)
    (kept : weight.unquantized = some unquantized) (quantized : weight.quantizer = some quantizer)
    (done : patch id graph = .ok topologyChanged changed) :
    ∃ outcome, quantizer.config.quantize? unquantized = some outcome ∧
      changed.weightAt? id.index .weight = some (unitWeight weight quantizer outcome) := by
  obtain ⟨node, unit, scale, bias, output, listed, factor, _, apart, entries⟩ :=
    weightAt?_of_patch done
  rw [weightAt?_of_find? listed] at stored
  obtain ⟨_, outcome, result, rfl⟩ := unit_of_factorized factor stored kept quantized
  refine ⟨outcome, result, ?_⟩
  rw [entries, if_neg apart, if_pos rfl, weight_unitNode]

section

variable (laws : Scalar.Lawful α) (one : (1 : α) ≠ 0)

include laws one

/-- A factorization leaves weights that can be quantized again exactly if the scale made no
difference to the levels of the layer's weights, and quantizing and dividing can be exchanged for
its bias. -/
theorem requantizable_iff_of_patch (requantizable : graph.Requantizable)
    (stored : graph.weightAt? id.index .weight = some weight)
    (kept : weight.unquantized = some unquantized) (quantized : weight.quantizer = some quantizer)
    (nonzero : ∀ s ∈ (quantizer.config.scale unquantized).data, s ≠ 0)
    (done : patch id graph = .ok topologyChanged changed) :
    changed.Requantizable ↔
      quantizer.SameLevels unquantized ∧ ∀ bias, graph.weightAt? id.index .bias = some bias →
        bias.DividesThrough (quantizer.config.scale unquantized).flatten := by
  obtain ⟨node, unit, scale, bias, output, listed, factor, divided, apart, entries⟩ :=
    weightAt?_of_patch done
  rw [weightAt?_of_find? listed] at stored
  obtain ⟨scaleOfWeight, _⟩ := unit_of_factorized factor stored kept quantized
  have layer : node.Requantizable := fun role weight found =>
    requantizable ((weightAt?_of_find? listed role).trans found)
  have unitLayer := requantizable_unitNode_iff laws one layer factor divided stored kept quantized
    nonzero
  rw [weightAt?_of_find? listed, ← scaleOfWeight, ← unitLayer]
  constructor
  · intro all role weight found
    have there : changed.weightAt? id.index role = some weight := by
      rw [entries, if_neg apart, if_pos rfl, found]
    exact all there
  · intro unitRequantizable index role weight found
    rw [entries] at found
    split at found
    · exact requantizable_alphaNode id _ output scale found
    · split at found
      · exact unitRequantizable found
      · exact requantizable found

/-- A layer that was factorized has the same weights after another factorization exactly if the
scale made no difference to their levels. -/
private theorem weightAt?_eq_again_iff
    (stored : graph.weightAt? id.index .weight = some weight)
    (kept : weight.unquantized = some unquantized) (quantized : weight.quantizer = some quantizer)
    (nonzero : ∀ s ∈ (quantizer.config.scale unquantized).data, s ≠ 0)
    (done : patch id graph = .ok topologyChanged changed) {later twice : Graph α}
    (same : later.weightAt? id.index .weight = changed.weightAt? id.index .weight) {answer : Bool}
    (again : patch id later = .ok answer twice) :
    twice.weightAt? id.index .weight = changed.weightAt? id.index .weight ↔
      quantizer.SameLevels unquantized := by
  obtain ⟨outcome, result, unit⟩ := weightAt?_weight_of_patch stored kept quantized done
  have unitQuantizer : (unitWeight weight quantizer outcome).quantizer = some quantizer.toUnit :=
    rfl
  obtain ⟨second, secondResult, twiceUnit⟩ :=
    weightAt?_weight_of_patch (same.trans unit) kept unitQuantizer again
  -- The second weight can be quantized again in any case, and there is only one such weight with
  -- these values and this quantizer.
  have repeated :
      (unitWeight (unitWeight weight quantizer outcome) quantizer.toUnit second).Requantizable :=
    requantizable_unitWeight_toUnit laws one kept secondResult
  rw [twiceUnit, unit, Option.some.injEq,
    ← requantizable_unitWeight_iff laws one kept result nonzero]
  constructor
  · intro equal
    rwa [← equal]
  · intro requantizable
    exact repeated.unique requantizable kept rfl rfl rfl

end

end ScaleFactorization

namespace AffineFusion

omit [Scalar α] in
/-- A weight of the joint node comes from one with the same quantizer and unquantized values. -/
private theorem origin_fusedNode {first : Node α} {scale bias new : Weight α} {fused : Affine α}
    {role : Role} (hasScale : first.weights.get? .scale = some scale)
    (hasBias : first.weights.get? .bias = some bias)
    (stored : (fusedNode first scale bias fused).weights.get? role = some new) :
    ∃ old, first.weights.get? role = some old ∧ new.unquantized = old.unquantized ∧
      new.quantizer = old.quantizer := by
  simp only [fusedNode, Node.withWeight, Table.get?_insert] at stored
  split at stored
  · next here =>
      obtain rfl := Option.some.inj stored
      exact ⟨bias, here ▸ hasBias, rfl, rfl⟩
  · split at stored
    · next here =>
        obtain rfl := Option.some.inj stored
        exact ⟨scale, here ▸ hasScale, rfl, rfl⟩
    · exact ⟨new, stored, rfl, rfl⟩

/-- A fusion leaves weights that can be quantized again exactly if it replaces none of their
data. -/
theorem requantizable_iff_of_patch (requantizable : graph.Requantizable)
    (done : patch id graph = .ok topologyChanged changed) :
    changed.Requantizable ↔ graph.KeepsData changed := by
  obtain ⟨node, input, first, scale, bias, _, _, fused, _, _, source, hasScale, hasBias, _, _, _,
    removed⟩ := exists_of_patch_eq_ok done
  have listed := (listed_of_get source).2
  have origin : ∀ ⦃index role new⦄, changed.weightAt? index role = some new →
      ∃ old, graph.weightAt? index role = some old ∧ new.unquantized = old.unquantized ∧
        new.quantizer = old.quantizer := by
    intro index role new after
    rw [weightAt?_remove removed, weightAt?_replace listed] at after
    split at after
    · cases after
    · split at after
      · next here =>
          rw [here, weightAt?_of_find? listed]
          exact origin_fusedNode hasScale hasBias after
      · exact ⟨new, after, rfl, rfl⟩
  constructor
  · intro all index role old new before after kept quantized
    obtain ⟨_, again, sameKept, sameQuantizer⟩ := origin after
    obtain rfl := Option.some.inj (before.symm.trans again)
    obtain ⟨unquantized, kept⟩ := Option.isSome_iff_exists.mp kept
    obtain ⟨quantizer, quantized⟩ := Option.isSome_iff_exists.mp quantized
    exact congrArg Weight.data ((requantizable before).unique (all after) kept quantized sameKept
      sameQuantizer).symm
  · intro keeps index role new after unquantized quantizer kept quantized
    obtain ⟨old, before, sameKept, sameQuantizer⟩ := origin after
    have oldKept := sameKept.symm.trans kept
    have oldQuantized := sameQuantizer.symm.trans quantized
    have data := keeps before after (oldKept ▸ rfl) (oldQuantized ▸ rfl)
    have same : new = old := by
      cases new
      cases old
      simp_all
    rw [same]
    exact requantizable before oldKept oldQuantized

end AffineFusion

/-! ## Exact arithmetic -/

/-- Which rewrites of the topology leave weights that can be quantized again, in exact arithmetic.
Fusion does if it replaces no data of a weight with a quantizer and unquantized values; scale
factorization does if the scale made no difference to the levels of the layer's weights, and
quantizing and dividing can be exchanged for its bias.  Only if the scale made no difference does
another factorization of the layer find the same weights. -/
theorem topology_passes_requantizable_iff (exponent : ℚ → ℤ)
    {graph : Graph (Exact.Number exponent)} (requantizable : graph.Requantizable) :
    (∀ ⦃id changed topologyChanged⦄,
        AffineFusion.patch id graph = .ok topologyChanged changed →
          (changed.Requantizable ↔ graph.KeepsData changed)) ∧
      ∀ ⦃id changed topologyChanged weight unquantized quantizer⦄,
        graph.weightAt? id.index .weight = some weight → weight.unquantized = some unquantized →
          weight.quantizer = some quantizer → weight.ScalesNonzero →
            ScaleFactorization.patch id graph = .ok topologyChanged changed →
              (changed.Requantizable ↔
                quantizer.SameLevels unquantized ∧
                  ∀ bias, graph.weightAt? id.index .bias = some bias →
                    bias.DividesThrough (quantizer.config.scale unquantized).flatten) ∧
                ∀ ⦃later twice answer⦄,
                  later.weightAt? id.index .weight = changed.weightAt? id.index .weight →
                    ScaleFactorization.patch id later = .ok answer twice →
                      (twice.weightAt? id.index .weight = changed.weightAt? id.index .weight ↔
                        quantizer.SameLevels unquantized) := by
  have laws := Exact.lawful exponent
  have one := Exact.number_one_ne_zero exponent
  refine ⟨fun id changed _ done => AffineFusion.requantizable_iff_of_patch requantizable done, ?_⟩
  intro id changed _ weight unquantized quantizer stored kept quantized nonzero done
  have scales := nonzero kept quantized
  exact ⟨ScaleFactorization.requantizable_iff_of_patch laws one requantizable stored kept quantized
      scales done,
    fun later twice _ same again => ScaleFactorization.weightAt?_eq_again_iff laws one stored kept
      quantized scales done same again⟩

/-- A model with a layer whose weights a quantizer has made, and two normalizations behind it. -/
def quantizedModel (quantizer : WeightQuantizer (Exact.Number fun _ => 0))
    (unquantized : Tensor (Exact.Number fun _ => 0)) :
    List (Operation (Exact.Number fun _ => 0)) :=
  let precision : Precision := .fixed 16 6 true .unset
  let attrs := .ofList [(ScaleFactorization.weightKey, .quantizer quantizer.config)]
  let weight := (Weight.quantized? unquantized quantizer).getD { data := unquantized }
  let plain (x : ℚ) : Weight (Exact.Number fun _ => 0) := { data := .ofList [x] }
  let affine (name : String) (source : Nat) : Node (Exact.Number fun _ => 0) :=
    (Node.single .batchNormalization name .empty [⟨⟨0, source⟩, 0⟩] [1, 1] precision)
      |>.withWeight .scale (plain 2) |>.withWeight .bias (plain 1)
  [.addInput "x" [1, 2] precision,
    .push ((Node.single .dense "dense" attrs [⟨⟨0, 0⟩, 0⟩] [1, 1] precision).withWeight .weight
      weight),
    .push (affine "first" 1), .push (affine "second" 2)]

/-- The sign of a weight does not depend on a scale of two. -/
theorem topology_passes_requantizable_signs :
    let signs : WeightQuantizer (Exact.Number fun _ => 0) :=
      ⟨⟨.binary, some (.fixed (2 : ℚ))⟩, .binary 1⟩
    let unquantized : Tensor (Exact.Number fun _ => 0) := ⟨[2, 1], #[(3 : ℚ), (-1 : ℚ)], rfl⟩
    let graph := (Graph.empty 0).replay (quantizedModel signs unquantized)
    graph.Requantizable ∧
      (∃ fused, AffineFusion.patch ⟨0, 3⟩ graph = .ok true fused ∧ graph.KeepsData fused) ∧
        ∃ once twice, ScaleFactorization.patch ⟨0, 1⟩ graph = .ok true once ∧
          ScaleFactorization.patch ⟨0, 1⟩ once = .ok true twice ∧ signs.SameLevels unquantized ∧
            twice.weightAt? 1 .weight = once.weightAt? 1 .weight := by
  intro signs unquantized graph
  have requantizable : graph.Requantizable := by
    decide +kernel
  obtain ⟨fusing, factoring⟩ := topology_passes_requantizable_iff _ requantizable
  refine ⟨requantizable, ?_, ?_⟩
  · have succeeded : (AffineFusion.patch ⟨0, 3⟩ : Patch (Exact.Number fun _ => 0) Bool).run'
        graph = some true := by
      decide +kernel
    have kept : ((AffineFusion.patch ⟨0, 3⟩).leaves graph).Requantizable := by
      decide +kernel
    have done := Patch.eq_ok_of_run' succeeded
    exact ⟨_, done, (fusing done).mp kept⟩
  · have stored : graph.weightAt? 1 .weight = Weight.quantized? unquantized signs := by
      decide +kernel
    have nonzero : ∀ s ∈ (signs.config.scale unquantized).data, s ≠ 0 := by
      decide +kernel
    let patch : Patch (Exact.Number fun _ => 0) Bool := ScaleFactorization.patch ⟨0, 1⟩
    have factors : patch.run' graph = some true := by
      decide +kernel
    have again : patch.run' (patch.leaves graph) = some true := by
      decide +kernel
    have survives : (patch.leaves graph).Requantizable := by
      decide +kernel
    obtain ⟨weight, made⟩ : ∃ weight, Weight.quantized? unquantized signs = some weight :=
      Option.isSome_iff_exists.mp (by decide +kernel)
    have scales := Weight.scalesNonzero_of_quantized? made nonzero
    obtain ⟨_, _, rfl⟩ := Option.map_eq_some_iff.mp made
    have done := Patch.eq_ok_of_run' factors
    have doneAgain := Patch.eq_ok_of_run' again
    obtain ⟨iff, repeats⟩ :=
      @factoring ⟨0, 1⟩ _ _ _ _ _ (stored.trans made) rfl rfl scales done
    have levels := (iff.mp survives).1
    exact ⟨_, _, done, doneAgain, levels, (repeats rfl doneAgain).mpr levels⟩

/-- A quantizer to three levels, which are a half apart. -/
def halves : WeightQuantizer (Exact.Number fun _ => 0) :=
  ⟨⟨.ternary, some (.fixed (1 / 2 : ℚ))⟩, .ternary⟩

def threeEighths : Tensor (Exact.Number fun _ => 0) :=
  .fill [1, 1] (3 / 8 : ℚ)

/-- A layer with a weight of three eighths, quantized to a half. -/
def roundedUp : Graph (Exact.Number fun _ => 0) :=
  (Graph.empty 0).replay (quantizedModel halves threeEighths)

/-- The layer once its scale has been factored out. -/
def factoredOut : Graph (Exact.Number fun _ => 0) :=
  (ScaleFactorization.patch ⟨0, 1⟩ : Patch (Exact.Number fun _ => 0) Bool).leaves roundedUp

/-- The layer once a quantizer for its bias has brought the scale back. -/
def scaledAgain : Graph (Exact.Number fun _ => 0) :=
  (factoredOut.setAttr ⟨0, 1⟩ ScaleFactorization.biasKey
    (.quantizer halves.config)).toOption.getD factoredOut

private theorem requantizable_roundedUp : roundedUp.Requantizable := by
  decide +kernel

private theorem scalesNonzero_roundedUp {weight : Weight (Exact.Number fun _ => 0)}
    (found : roundedUp.weightAt? 1 .weight = some weight) : weight.ScalesNonzero := by
  have stored : roundedUp.weightAt? 1 .weight = Weight.quantized? threeEighths halves := by
    decide +kernel
  exact Weight.scalesNonzero_of_quantized? (stored.symm.trans found) (by decide +kernel)

private theorem patch_roundedUp :
    ScaleFactorization.patch ⟨0, 1⟩ roundedUp = .ok true factoredOut :=
  Patch.eq_ok_of_run' (by decide +kernel)

/-- Behind a scale of one half a weight of three eighths has level one, and without it level zero.
The layer keeps the level of the one beside a quantizer for the other. -/
theorem factorization_leaves_stale_weights :
    (¬ ∀ (graph changed : Graph (Exact.Number fun _ => 0)) (id : NodeId)
      (pass : Pass (Exact.Number fun _ => 0)) (topologyChanged : Bool), graph.Requantizable →
        (∀ weight, graph.weightAt? id.index .weight = some weight → weight.ScalesNonzero) →
          pass ∈ topologyPasses _ → pass.applies graph id = .ok true →
            pass.patch id graph = .ok topologyChanged changed → changed.Requantizable) ∧
      ¬ ∀ (graph once later twice : Graph (Exact.Number fun _ => 0)) (id : NodeId)
        (config : QuantizerConfig (Exact.Number fun _ => 0)), graph.Requantizable →
          (∀ weight, graph.weightAt? id.index .weight = some weight → weight.ScalesNonzero) →
            ScaleFactorization.patch id graph = .ok true once →
              once.setAttr id ScaleFactorization.biasKey (.quantizer config) = .ok later →
                ScaleFactorization.pass.applies later id = .ok true →
                  ScaleFactorization.patch id later = .ok true twice →
                    twice.weightAt? id.index .weight = once.weightAt? id.index .weight := by
  constructor
  · intro claim
    have applies : (ScaleFactorization.pass : Pass (Exact.Number fun _ => 0)).applies roundedUp
        ⟨0, 1⟩ = .ok true := by
      decide +kernel
    have stale : ¬ factoredOut.Requantizable := by
      decide +kernel
    exact stale (claim roundedUp factoredOut ⟨0, 1⟩ ScaleFactorization.pass true
      requantizable_roundedUp (fun _ => scalesNonzero_roundedUp) (by simp [topologyPasses])
      applies patch_roundedUp)
  · intro claim
    have set : factoredOut.setAttr ⟨0, 1⟩ ScaleFactorization.biasKey
        (.quantizer halves.config) = .ok scaledAgain := by
      decide +kernel
    have applies : (ScaleFactorization.pass : Pass (Exact.Number fun _ => 0)).applies scaledAgain
        ⟨0, 1⟩ = .ok true := by
      decide +kernel
    have succeeded : (ScaleFactorization.patch ⟨0, 1⟩ :
        Patch (Exact.Number fun _ => 0) Bool).run' scaledAgain = some true := by
      decide +kernel
    have again := Patch.eq_ok_of_run' succeeded
    have other : ((ScaleFactorization.patch ⟨0, 1⟩ : Patch (Exact.Number fun _ => 0) Bool).leaves
        scaledAgain).weightAt? 1 .weight ≠ factoredOut.weightAt? 1 .weight := by
      decide +kernel
    exact other (claim roundedUp factoredOut scaledAgain _ ⟨0, 1⟩ halves.config
      requantizable_roundedUp (fun _ => scalesNonzero_roundedUp) patch_roundedUp set applies again)

end QuantNet
