import QuantNet.Proofs.Pass.Requantizing

/-!
# Factorization without loss

Some encodings can store all levels of a quantizer.  In exact arithmetic, a factorization of weights
that are stored in such an encoding only takes their scale away: decoded, the stored weights are the
levels of the unquantized ones, and the scale of the inserted node makes of them what the quantizer
makes of the unquantized ones.
-/

namespace QuantNet

/-! ## Encodings and levels -/

/-- Whether an encoding can store the levels of a quantizer.  One bit has room for a sign, and the
ternary encoding for a sign and for zero. -/
def Encoding.isLossless : Encoding → Levels → Bool
  | .native, _ => true
  | .binary _, .binary => true
  | .ternary, .binary => true
  | .ternary, .ternary => true
  | _, _ => false

namespace Levels

variable {α : Type} [Scalar α]

theorem level_binary_cases (x : α) :
    Levels.binary.level x = 1 ∨ Levels.binary.level x = -1 := by
  by_cases above : Scalar.le 0 x = true
  · exact Or.inl (if_pos above)
  · exact Or.inr (if_neg above)

theorem level_ternary_cases {exponent : ℚ → ℤ} (x : Exact.Number exponent) :
    Levels.ternary.level x = 0 ∨ Levels.ternary.level x = 1 ∨ Levels.ternary.level x = -1 := by
  by_cases small : Scalar.lt (Scalar.abs x) Scalar.half = true
  · exact Or.inl (if_pos small)
  · have level : Levels.ternary.level x = Scalar.sign x := if_neg small
    rw [level, Scalar.sign]
    by_cases negative : Scalar.lt x 0 = true
    · exact Or.inr (Or.inr (if_pos negative))
    · by_cases positive : Scalar.lt 0 x = true
      · exact Or.inr (Or.inl (by rw [if_neg negative, if_pos positive]))
      · rw [if_neg negative, if_neg positive]
        exact Or.inl (Exact.eq_zero_of_not_lt negative positive)

end Levels

namespace Encoding

variable {exponent : ℚ → ℤ} {encoding : Encoding}

theorem decodeElement_encodeElement_sign (bits : UInt32) {x : Exact.Number exponent}
    (sign : x = 1 ∨ x = -1) :
    (binary bits).decodeElement ((binary bits).encodeElement x) = x := by
  have positive : Scalar.lt (0 : Exact.Number exponent) 1 = true :=
    (Exact.lt_iff 0 1).mpr (by norm_num : (0 : ℚ) < 1)
  have negative : ¬ Scalar.lt (0 : Exact.Number exponent) (-1) = true :=
    (Exact.lt_iff 0 (-1)).not.mpr (by norm_num : ¬ (0 : ℚ) < -1)
  have zero : ¬ Scalar.lt (0 : Exact.Number exponent) 0 = true :=
    (Exact.lt_iff 0 0).not.mpr (lt_irrefl (0 : ℚ))
  by_cases single : bits = 1 <;> rcases sign with rfl | rfl <;>
    simp [encodeElement, decodeElement, single, positive, negative, zero]

theorem encodeElement_ternary {x : Exact.Number exponent} (level : x = 0 ∨ x = 1 ∨ x = -1) :
    ternary.encodeElement x = x := by
  let half : ℚ := 2 ^ (-1 : ℤ)
  have above : Scalar.le Scalar.half (1 : Exact.Number exponent) = true :=
    (Exact.le_iff half 1).mpr (by norm_num : (2 : ℚ) ^ (-1 : ℤ) ≤ 1)
  have between : ¬ Scalar.le Scalar.half (0 : Exact.Number exponent) = true :=
    (Exact.le_iff half 0).not.mpr (by norm_num : ¬ (2 : ℚ) ^ (-1 : ℤ) ≤ 0)
  have between' : ¬ Scalar.le (0 : Exact.Number exponent) (-Scalar.half) = true :=
    (Exact.le_iff 0 (-half)).not.mpr (by norm_num : ¬ (0 : ℚ) ≤ -2 ^ (-1 : ℤ))
  have notAbove : ¬ Scalar.le Scalar.half (-1 : Exact.Number exponent) = true :=
    (Exact.le_iff half (-1)).not.mpr (by norm_num : ¬ (2 : ℚ) ^ (-1 : ℤ) ≤ -1)
  have below : Scalar.le (-1 : Exact.Number exponent) (-Scalar.half) = true :=
    (Exact.le_iff (-1) (-half)).mpr (by norm_num : (-1 : ℚ) ≤ -2 ^ (-1 : ℤ))
  rcases level with rfl | rfl | rfl
  · simp only [encodeElement, between, between', if_false, Bool.false_eq_true]
  · exact if_pos above
  · exact (if_neg notAbove).trans (if_pos below)

/-- Decoding gives the levels back that a lossless encoding has stored. -/
theorem decodeElement_encodeElement_level {levels : Levels}
    (lossless : encoding.isLossless levels = true) (x : Exact.Number exponent) :
    encoding.decodeElement (encoding.encodeElement (levels.level x)) = levels.level x := by
  cases encoding with
  | native => rfl
  | binary bits =>
      cases levels with
      | binary => exact decodeElement_encodeElement_sign bits (Levels.level_binary_cases x)
      | fixedPoint | ternary => cases lossless
  | ternary =>
      cases levels with
      | binary => exact encodeElement_ternary (Or.inr (Levels.level_binary_cases x))
      | ternary => exact encodeElement_ternary (Levels.level_ternary_cases x)
      | fixedPoint => cases lossless

end Encoding

/-! ## Scales along the channels -/

/-- The tensor whose elements are multiplied by what a scale shows for their channel, which is their
position on the last axis. -/
def Tensor.mulChannels {α : Type} [Scalar α] (tensor scale : Tensor α) : Tensor α :=
  .ofFn tensor.shape fun index => tensor.get index * scale.stretched index

section

variable {α : Type} [Scalar α] {tensor scale : Tensor α}

theorem Tensor.get_mulChannels {index : List Nat} (inside : tensor.shape.InBounds index) :
    (tensor.mulChannels scale).get index = tensor.get index * scale.stretched index :=
  get_ofFn _ inside

/-- For no position at all a tensor shows its first element. -/
private theorem Tensor.stretched_nil (tensor : Tensor α) :
    tensor.stretched [] = tensor.data.getD 0 0 := by
  have place : tensor.shape.offset (tensor.shape.pull []) = 0 := by
    cases tensor.shape <;> simp [Shape.pull, Shape.offset]
  rw [stretched, get, place]

/-- Where a scale stretches with a tensor, multiplying along the channels is the product of the
two. -/
theorem Tensor.zipWith?_eq_mulChannels (stretches : scale.shape.Stretches tensor.shape)
    (addressable : tensor.shape.isAddressable = true) :
    zipWith? (fun x s => x * s) tensor scale = some (tensor.mulChannels scale) := by
  obtain ⟨product, multiplied⟩ := exists_zipWith? (fun x s => x * s) (.refl _) stretches addressable
  have joined := (join_of_zipWith? multiplied).1
  rw [Shape.Stretches.join_eq_left stretches, Option.some.injEq] at joined
  rw [multiplied, Option.some.injEq]
  refine ext_get joined.symm fun index inside => ?_
  have within : tensor.shape.InBounds index := joined ▸ inside
  rw [get_zipWith? multiplied inside, stretched_self within, get_mulChannels within]

namespace QuantizerConfig

variable {config : QuantizerConfig α} {data : Tensor α} {outcome : Quantized α}
  {index : List Nat}

/-- The levels of the elements of a tensor divided by their scale. -/
def unitLevels (config : QuantizerConfig α) (data : Tensor α) : Tensor α :=
  .ofFn data.shape fun index =>
    config.levels.level (data.get index / (config.scale data).stretched index)

/-- A scale shows the same for an element of its tensor when its axes of size one are left out. -/
private theorem stretched_flatten_scale (inside : data.shape.InBounds index) :
    (config.scale data).flatten.stretched index = (config.scale data).stretched index := by
  rcases List.eq_nil_or_concat data.shape with none | ⟨rows, channels, axes⟩
  · rw [none] at inside
    obtain rfl : index = [] := List.length_eq_zero_iff.mp inside.length_eq
    have same : (config.scale data).flatten.data = (config.scale data).data :=
      Array.toArray_toList
    rw [Tensor.stretched_nil, Tensor.stretched_nil, same]
  · rw [List.concat_eq_append] at axes
    obtain ⟨k, _, scaleAxes⟩ := config.shape_scale axes
    rw [axes] at inside
    obtain ⟨leading, i, rfl, length, _⟩ := inside.concat
    rw [← length] at scaleAxes
    exact Tensor.stretched_flatten scaleAxes i

/-- A scale without its axes of size one stretches with its tensor, unless that has no axis. -/
private theorem stretches_flatten_scale (ranked : 0 < data.rank) :
    (config.scale data).flatten.shape.Stretches data.shape := by
  rcases List.eq_nil_or_concat data.shape with none | ⟨rows, channels, axes⟩
  · rw [Tensor.rank, none] at ranked
    cases ranked
  · rw [List.concat_eq_append] at axes
    obtain ⟨k, size, scaleAxes⟩ := config.shape_scale axes
    rw [Tensor.shape_flatten_of_axes scaleAxes, axes]
    exact Shape.stretches_concat size rows

/-- The levels of a tensor, with the scale multiplied in again, are what the quantizer makes of
it. -/
theorem mulChannels_unitLevels (laws : Scalar.Lawful α)
    (done : config.quantize? data = some outcome) :
    (config.unitLevels data).mulChannels (config.scale data).flatten = outcome.values := by
  refine Tensor.ext_get (quantize?_eq_some done).1.symm fun index inside => ?_
  have unit : (config.unitLevels data).shape.InBounds index := inside
  have within : data.shape.InBounds index := inside
  rw [Tensor.get_mulChannels unit, unitLevels, Tensor.get_ofFn _ within,
    stretched_flatten_scale within, get_of_quantize? done within, laws.mul_comm]

end QuantizerConfig

end

/-! ## Weights at unit scale -/

namespace ScaleFactorization

variable {exponent : ℚ → ℤ} {graph changed : Graph (Exact.Number exponent)} {id : NodeId}
  {topologyChanged : Bool} {weight : Weight (Exact.Number exponent)}
  {unquantized : Tensor (Exact.Number exponent)} {outcome : Quantized (Exact.Number exponent)}
  {quantizer : WeightQuantizer (Exact.Number exponent)}

/-- Decoded, a weight at unit scale is the levels of the unquantized values. -/
theorem decoded_unitWeight (weight : Weight (Exact.Number exponent))
    (lossless : quantizer.encoding.isLossless quantizer.config.levels = true)
    (nonzero : ∀ s ∈ (quantizer.config.scale unquantized).data, s ≠ 0)
    (done : quantizer.config.quantize? unquantized = some outcome) :
    (unitWeight weight quantizer outcome).decoded = quantizer.config.unitLevels unquantized := by
  obtain ⟨shape, elements⟩ := get_unitWeight (Exact.lawful exponent) weight done nonzero
  refine Tensor.ext_get shape fun index inside => ?_
  have stored : (unitWeight weight quantizer outcome).data.shape.InBounds index := inside
  have within : unquantized.shape.InBounds index := shape ▸ stored
  have decoded : (unitWeight weight quantizer outcome).decoded.get index =
      quantizer.encoding.decodeElement ((unitWeight weight quantizer outcome).data.get index) :=
    Tensor.get_map _ stored
  rw [decoded, elements within, Encoding.decodeElement_encodeElement_level lossless,
    QuantizerConfig.unitLevels, Tensor.get_ofFn _ within]

/-- A factorization loses nothing of weights that are stored in a lossless encoding.  Decoded, the
layer has the levels of the unquantized weights, and the scale of the inserted node makes of them
what the quantizer makes of the unquantized weights. -/
theorem decoded_of_patch (stored : graph.weightAt? id.index .weight = some weight)
    (kept : weight.unquantized = some unquantized) (quantized : weight.quantizer = some quantizer)
    (lossless : quantizer.encoding.isLossless quantizer.config.levels = true)
    (nonzero : ∀ s ∈ (quantizer.config.scale unquantized).data, s ≠ 0)
    (done : patch id graph = .ok topologyChanged changed) :
    ∃ outcome unit factor,
      quantizer.config.quantize? unquantized = some outcome ∧
      changed.weightAt? id.index .weight = some unit ∧
      (changed.find? graph.issued).map Node.kind = some .applyAlpha ∧
      changed.weightAt? graph.issued .scale = some factor ∧
      unit.decoded = quantizer.config.unitLevels unquantized ∧
      unit.decoded.mulChannels factor.decoded = outcome.values ∧
      (0 < unquantized.rank → unquantized.shape.isAddressable = true →
        Tensor.zipWith? (fun w s => w * s) unit.decoded factor.decoded = some outcome.values) := by
  obtain ⟨node, unit, scale, bias, output, listed, factor, _, apart, entries⟩ :=
    weightAt?_of_patch done
  obtain ⟨_, _, _, _, _, _, _, _, _, _, kinds⟩ :=
    map_find?_of_patch Node.kind (fun _ _ _ => rfl) done
  rw [Graph.weightAt?_of_find? listed] at stored
  obtain ⟨rfl, outcome, result, rfl⟩ := unit_of_factorized factor stored kept quantized
  have decoded := decoded_unitWeight weight lossless nonzero result
  have values := quantizer.config.mulChannels_unitLevels (Exact.lawful exponent) result
  let scales : Weight (Exact.Number exponent) :=
    { data := (quantizer.config.scale unquantized).flatten }
  refine ⟨outcome, unitWeight weight quantizer outcome, scales, result, ?_, ?_, ?_, decoded, ?_, ?_⟩
  · rw [entries, if_neg apart, if_pos rfl, weight_unitNode]
  · rw [kinds, if_pos rfl]
    rfl
  · rw [entries, if_pos rfl, scale_alphaNode]
  · rw [decoded]
    exact values
  · intro ranked addressable
    rw [decoded, ← values]
    exact Tensor.zipWith?_eq_mulChannels (QuantizerConfig.stretches_flatten_scale ranked)
      addressable

/-- Signs that are stored as zero and one, with a negative scale. -/
theorem decoded_of_patch_signs :
    let signs : WeightQuantizer (Exact.Number fun _ => 0) :=
      ⟨⟨.binary, some (.fixed (-2 : ℚ))⟩, .binary 1⟩
    let unquantized : Tensor (Exact.Number fun _ => 0) := ⟨[2, 1], #[(3 : ℚ), (-1 : ℚ)], rfl⟩
    let values : Tensor (Exact.Number fun _ => 0) := ⟨[2, 1], #[(2 : ℚ), (-2 : ℚ)], rfl⟩
    let graph := (Graph.empty 0).replay (quantizedModel signs unquantized)
    ∃ changed unit factor, patch ⟨0, 1⟩ graph = .ok true changed ∧
      changed.weightAt? 1 .weight = some unit ∧ changed.weightAt? 4 .scale = some factor ∧
        unit.decoded = signs.config.unitLevels unquantized ∧
          Tensor.zipWith? (fun w s => w * s) unit.decoded factor.decoded = some values := by
  intro signs unquantized values graph
  have stored : graph.weightAt? 1 .weight = Weight.quantized? unquantized signs := by
    decide +kernel
  have nonzero : ∀ s ∈ (signs.config.scale unquantized).data, s ≠ 0 := by
    decide +kernel
  have succeeded : (patch ⟨0, 1⟩ : Patch (Exact.Number fun _ => 0) Bool).run' graph =
      some true := by
    decide +kernel
  have made : (signs.config.quantize? unquantized).map Quantized.values = some values := by
    decide +kernel
  have issued : graph.issued = 4 := by
    decide +kernel
  obtain ⟨outcome, result, shown⟩ := Option.map_eq_some_iff.mp made
  have entry : graph.weightAt? 1 .weight = _ :=
    stored.trans (congrArg (Option.map _) result)
  have done := Patch.eq_ok_of_run' succeeded
  obtain ⟨again, unit, factor, same, unitStored, _, factorStored, decoded, _, product⟩ :=
    @decoded_of_patch _ graph _ ⟨0, 1⟩ _ _ _ signs entry rfl rfl rfl nonzero done
  obtain rfl := Option.some.inj (result.symm.trans same)
  rw [issued] at factorStored
  rw [shown] at product
  exact ⟨_, unit, factor, done, unitStored, factorStored, decoded,
    product (by decide) (by decide)⟩

end ScaleFactorization

end QuantNet
