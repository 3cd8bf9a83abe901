import QuantNet.Proofs.Pass.Requantizing

/-!
# Which scales a factorization takes away

A layer names quantizers in up to four places: in two attributes, beside its weight and beside its
bias.  A factorization puts the first three at unit scale.  The quantizer beside the bias stays as
it was, although the bias is divided by the scale.
-/

namespace QuantNet.ScaleFactorization

open QuantNet.Graph

variable {α : Type}

/-- The quantizers that a node names in its attributes. -/
def namedQuantizers (node : Node α) : List (QuantizerConfig α) :=
  [weightKey, biasKey].filterMap fun key => (node.attrs.get? key).bind Attr.quantizer?

/-- The quantizer beside a weight of a node. -/
def quantizerOf? (node : Node α) (role : Role) : Option (QuantizerConfig α) :=
  ((node.weights.get? role).bind Weight.quantizer).map WeightQuantizer.config

/-- All quantizers that a node has for its weight and its bias. -/
def layerQuantizers (node : Node α) : List (QuantizerConfig α) :=
  namedQuantizers node ++ [Role.weight, Role.bias].filterMap (quantizerOf? node)

variable [Scalar α] {graph changed : Graph α} {id : NodeId} {topologyChanged : Bool}
  {node : Node α} {unit : Weight α} {scale : Tensor α} {bias : Option (Weight α)}
  {config : QuantizerConfig α}

/-! ## The layer -/

theorem isUnit_of_named_resetAttrs (one : Scalar.eq (1 : α) 1 = true)
    (named : config ∈ namedQuantizers (resetAttrs node)) : config.isUnit = true := by
  obtain ⟨key, member, found⟩ := List.mem_filterMap.mp named
  have known : key = weightKey ∨ key = biasKey := by simpa using member
  obtain ⟨value, stored, read⟩ := Option.bind_eq_some_iff.mp found
  cases value with
  | quantizer other =>
      obtain rfl := Option.some.inj read
      by_contra scaled
      have holds := hasScale_eq_true_iff.mpr ⟨other, stored, Bool.eq_false_iff.mpr scaled⟩
      rw [hasScale_resetAttrs one known] at holds
      cases holds
  | int | float | str | precision => cases read

theorem quantizerOf?_weight_unitNode (factor : factorized node = .ok (unit, scale))
    (bias : Option (Weight α)) :
    ∃ config : QuantizerConfig α,
      quantizerOf? (unitNode node unit bias) .weight = some (config.setAlpha .one) := by
  obtain ⟨_, _, quantizer, _, _, _, _, _, rfl, _⟩ := factorized_eq_ok factor
  exact ⟨quantizer.config, by rw [quantizerOf?, weight_unitNode]; rfl⟩

/-- The quantizer beside the bias stays as it is. -/
theorem quantizerOf?_bias_unitNode (done : rescaledBias node scale = .ok bias) :
    quantizerOf? (unitNode node unit bias) .bias = quantizerOf? node .bias := by
  rw [quantizerOf?, quantizerOf?, bias_unitNode]
  rcases rescaledBias_eq_ok done with ⟨absent, rfl⟩ | ⟨old, new, stored, rfl, divided⟩
  · rfl
  · rw [stored, Option.some_or, Option.bind_some, Option.bind_some, divided.quantizer]

/-- Only the quantizer beside the bias can have a scale after a factorization. -/
private theorem isUnit_or_of_mem_unitNode (one : Scalar.eq (1 : α) 1 = true)
    (factor : factorized node = .ok (unit, scale)) (done : rescaledBias node scale = .ok bias)
    (member : config ∈ layerQuantizers (unitNode node unit bias)) :
    config.isUnit = true ∨ quantizerOf? node .bias = some config := by
  rcases List.mem_append.mp member with named | stored
  · exact Or.inl (isUnit_of_named_resetAttrs one named)
  · obtain ⟨role, among, found⟩ := List.mem_filterMap.mp stored
    obtain rfl | rfl : role = .weight ∨ role = .bias := by simpa using among
    · obtain ⟨other, there⟩ := quantizerOf?_weight_unitNode factor bias
      obtain rfl := Option.some.inj (there.symm.trans found)
      exact Or.inl one
    · exact Or.inr ((quantizerOf?_bias_unitNode done).symm.trans found)

/-- All quantizers of a layer are at unit scale after a factorization exactly if the one beside the
bias was. -/
theorem isUnit_unitNode_iff (one : Scalar.eq (1 : α) 1 = true)
    (factor : factorized node = .ok (unit, scale)) (done : rescaledBias node scale = .ok bias) :
    (∀ config ∈ layerQuantizers (unitNode node unit bias), config.isUnit = true) ↔
      ∀ config, quantizerOf? node .bias = some config → config.isUnit = true := by
  constructor
  · intro all config there
    refine all config (List.mem_append_right _ (List.mem_filterMap.mpr ⟨.bias, by simp, ?_⟩))
    exact (quantizerOf?_bias_unitNode done).trans there
  · intro units config member
    exact (isUnit_or_of_mem_unitNode one factor done member).elim id (units config)

/-! ## The graph -/

/-- Whether a layer is scaled is a matter of its kind and attributes. -/
theorem applies_eq (graph : Graph α) (id : NodeId) :
    (pass : Pass α).applies graph id =
      if graph.knows id then
        ((graph.find? id.index).map isScaled).elim (.error (.removedNode id)) .ok
      else
        .error (.foreignNode id) := by
  simp only [pass, Graph.get, get?]
  split
  · cases graph.find? id.index <;> rfl
  · rfl

/-- To other nodes the pass applies as before. -/
theorem applies_other_of_patch (done : patch id graph = .ok topologyChanged changed)
    {other : NodeId} (different : other ≠ id) (older : other ≠ graph.handle graph.issued) :
    (pass : Pass α).applies changed other = (pass : Pass α).applies graph other := by
  obtain ⟨_, _, _, _, _, found, _, _, tag, issued, readings⟩ :=
    map_find?_of_patch isScaled (fun _ _ _ => rfl) done
  rw [applies_eq, applies_eq, knows_of_grown tag issued older]
  by_cases known : graph.knows other = true
  · have named := eq_handle_of_knows known
    have apart : other.index ≠ id.index := by
      intro same
      rw [named, same, ← (listed_of_get found).1] at different
      exact different rfl
    have early : other.index ≠ graph.issued := fun last => older (last ▸ named)
    rw [readings, if_neg early, if_neg apart]
  · rw [if_neg known, if_neg known]

/-- Where scales are after a factorization.  All quantizers of the layer are at unit scale exactly
if the one beside the bias was, which is the only one that can have a scale.  The pass applies
neither to the layer again nor to the inserted node, and to other nodes as before. -/
theorem isUnit_iff_of_patch (one : Scalar.eq (1 : α) 1 = true)
    (done : patch id graph = .ok topologyChanged changed) :
    ∃ node layer, graph.get id = .ok node ∧ changed.get id = .ok layer ∧
      ((∀ config ∈ layerQuantizers layer, config.isUnit = true) ↔
        ∀ config, quantizerOf? node .bias = some config → config.isUnit = true) ∧
      (∀ config ∈ layerQuantizers layer,
        config.isUnit = true ∨ quantizerOf? node .bias = some config) ∧
      (pass : Pass α).applies changed id = .ok false ∧
      (pass : Pass α).applies changed (graph.handle graph.issued) = .ok false ∧
      ∀ other, other ≠ id → other ≠ graph.handle graph.issued →
        (pass : Pass α).applies changed other = (pass : Pass α).applies graph other := by
  obtain ⟨node, unit, scale, bias, output, found, factor, divided, tag, issued, readings⟩ :=
    map_find?_of_patch (fun node => (layerQuantizers node, isScaled node)) (fun _ _ _ => rfl) done
  obtain ⟨named, listed⟩ := listed_of_get found
  have apart : id.index ≠ graph.issued := Nat.ne_of_lt (issued_of_find? listed)
  have fresh : changed.handle graph.issued = graph.handle graph.issued := by
    rw [handle, tag, handle]
  have place : changed.handle id.index = id := by
    rw [handle, tag, ← handle, ← named]
  have there := readings id.index
  rw [if_neg apart, if_pos rfl] at there
  obtain ⟨layer, placed, same⟩ := Option.map_eq_some_iff.mp there
  obtain ⟨quantizers, unscaled⟩ := Prod.mk.inj same
  have inserted := readings graph.issued
  rw [if_pos rfl] at inserted
  obtain ⟨alpha, alphaPlaced, alphaSame⟩ := Option.map_eq_some_iff.mp inserted
  have relisted : changed.get id = .ok layer := place ▸ get_handle_eq_ok_iff.mpr placed
  have alphaListed : changed.get (graph.handle graph.issued) = .ok alpha :=
    fresh ▸ get_handle_eq_ok_iff.mpr alphaPlaced
  refine ⟨node, layer, found, relisted, ?_, ?_, ?_, ?_,
    fun other different older => applies_other_of_patch done different older⟩
  · rw [quantizers]
    exact isUnit_unitNode_iff one factor divided
  · rw [quantizers]
    exact fun config => isUnit_or_of_mem_unitNode one factor divided
  · rw [applies_eq_ok relisted, unscaled, isScaled_unitNode one]
  · rw [applies_eq_ok alphaListed, (Prod.mk.inj alphaSame).2, isScaled_of_affine rfl]

/-! ## Two quantizers -/

/-- A model with a layer that has a quantizer for its weight and another one for its bias. -/
def biasedModel (weight bias : WeightQuantizer (Exact.Number fun _ => 0)) :
    List (Operation (Exact.Number fun _ => 0)) :=
  let precision : Precision := .fixed 16 6 true .unset
  let attrs := .ofList [(weightKey, .quantizer weight.config), (biasKey, .quantizer bias.config)]
  let made (shape : Shape) (quantizer : WeightQuantizer (Exact.Number fun _ => 0)) :=
    let half : Exact.Number fun _ => 0 := (1 / 2 : ℚ)
    (Weight.quantized? (.fill shape half) quantizer).getD { data := .empty }
  [.addInput "x" [1, 1] precision,
    .push ((Node.single .dense "dense" attrs [⟨⟨0, 0⟩, 0⟩] [1, 1] precision)
      |>.withWeight .weight (made [1, 1] weight) |>.withWeight .bias (made [1] bias))]

/-- A quantizer without a scale beside the bias leaves nothing to be done. -/
theorem isUnit_of_patch_plain_bias :
    let half : WeightQuantizer (Exact.Number fun _ => 0) :=
      ⟨⟨.ternary, some (.fixed (1 / 2 : ℚ))⟩, .ternary⟩
    let plain : WeightQuantizer (Exact.Number fun _ => 0) := ⟨⟨.binary, none⟩, .native⟩
    let graph := (Graph.empty 0).replay (biasedModel half plain)
    ∃ changed layer, patch ⟨0, 1⟩ graph = .ok true changed ∧ changed.get ⟨0, 1⟩ = .ok layer ∧
      ∀ config ∈ layerQuantizers layer, config.isUnit = true := by
  intro half plain graph
  have succeeded : (patch ⟨0, 1⟩ : Patch (Exact.Number fun _ => 0) Bool).run' graph =
      some true := by
    decide +kernel
  have done := Patch.eq_ok_of_run' succeeded
  obtain ⟨node, layer, found, placed, units, _⟩ := isUnit_iff_of_patch (Exact.eq_one _) done
  refine ⟨_, layer, done, placed, units.mpr ?_⟩
  obtain ⟨_, listed⟩ := listed_of_get found
  have beside : (graph.find? 1).bind (quantizerOf? · .bias) = some plain.config := by
    decide +kernel
  rw [listed] at beside
  intro config there
  obtain rfl := Option.some.inj (there.symm.trans beside)
  rfl

/-- A quantizer to three levels, which are a half apart and stored as they are. -/
def nativeHalves : WeightQuantizer (Exact.Number fun _ => 0) :=
  ⟨⟨.ternary, some (.fixed (1 / 2 : ℚ))⟩, .native⟩

/-- A layer with a weight and a bias of a half, both of them quantized. -/
def halvedTwice : Graph (Exact.Number fun _ => 0) :=
  (Graph.empty 0).replay (biasedModel nativeHalves nativeHalves)

/-- The layer once the scale of the weight has been factored out. -/
def halvedOnce : Graph (Exact.Number fun _ => 0) :=
  (patch ⟨0, 1⟩ : Patch (Exact.Number fun _ => 0) Bool).leaves halvedTwice

/-- The bias of a half is divided by the scale of a half, and the scale stays beside it. -/
theorem factorization_leaves_scale :
    ¬ ∀ (graph changed : Graph (Exact.Number fun _ => 0)) (id : NodeId)
      (layer : Node (Exact.Number fun _ => 0)),
        (pass : Pass (Exact.Number fun _ => 0)).applies graph id = .ok true →
          patch id graph = .ok true changed → changed.get id = .ok layer →
            ∀ config ∈ layerQuantizers layer, config.isUnit = true := by
  intro all
  have applies : (pass : Pass (Exact.Number fun _ => 0)).applies halvedTwice ⟨0, 1⟩ =
      .ok true := by
    decide +kernel
  have succeeded : (patch ⟨0, 1⟩ : Patch (Exact.Number fun _ => 0) Bool).run' halvedTwice =
      some true := by
    decide +kernel
  have done := Patch.eq_ok_of_run' succeeded
  have known : halvedOnce.knows ⟨0, 1⟩ = true := by
    decide +kernel
  obtain ⟨layer, there, config, member, scaled⟩ : ∃ layer ∈ (halvedOnce.find? 1).toList,
      ∃ config ∈ layerQuantizers layer, config.isUnit = false := by
    decide +kernel
  have placed : halvedOnce.get ⟨0, 1⟩ = .ok layer :=
    get_eq_ok_iff.mpr ⟨known, Option.mem_toList.mp there⟩
  rw [all halvedTwice halvedOnce ⟨0, 1⟩ layer applies done placed config member] at scaled
  cases scaled

end QuantNet.ScaleFactorization
