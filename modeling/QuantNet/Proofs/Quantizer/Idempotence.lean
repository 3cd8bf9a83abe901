import QuantNet.Proofs.Quantizer.Divisors

/-!
# Quantizing twice

In exact arithmetic the values that a quantizer has made are on the levels of their scale, and stay
there when they are quantized at the same scale.  An automatic scale is computed anew from them.  It
is the same scale if the levels lie on both sides of zero, since the largest magnitude of every
channel is then kept.
-/

namespace QuantNet

open Exact

namespace Levels

/-- Whether the levels lie on both sides of zero. -/
def IsTwoSided : Levels → Prop
  | fixedPoint bits _ keepNegative => keepNegative = true ∧ 2 ≤ bits.toNat
  | _ => True

theorem isBalanced_of_isTwoSided (exponent : ℚ → ℤ) {levels : Levels} (short : levels.IsShort)
    (sides : levels.IsTwoSided) : IsBalanced exponent levels := by
  cases levels with
  | binary => exact isBalanced_binary exponent
  | ternary => exact isBalanced_ternary exponent
  | fixedPoint bits integer keepNegative =>
      obtain ⟨rfl, more⟩ := sides
      exact isBalanced_fixedPoint exponent short.1 short.2 more

end Levels

/-! ## Elements of a channel -/

namespace Exact

/-- The elements of an output channel, as rational numbers. -/
def channelElements {exponent : ℚ → ℤ} (data : Tensor (Number exponent)) (c : Nat) : List ℚ :=
  @QuantizerConfig.channel (Number exponent) _ data c

/-- What a quantizer makes of a number at a scale factor. -/
def quantized (exponent : ℚ → ℤ) (levels : Levels) (s x : ℚ) : ℚ :=
  s * levels.exactLevel exponent (x / s)

variable {exponent : ℚ → ℤ} {levels : Levels} {elements : List ℚ} {s x : ℚ}

theorem quantized_quantized (exponent : ℚ → ℤ) (short : levels.IsShort) (nonzero : s ≠ 0)
    (x : ℚ) :
    quantized exponent levels s (quantized exponent levels s x) =
      quantized exponent levels s x := by
  rw [quantized, quantized, mul_div_cancel_left₀ _ nonzero, Levels.exactLevel_exactLevel short]

theorem abs_quantized (positive : 0 < s) (x : ℚ) :
    |quantized exponent levels s x| = s * |levels.exactLevel exponent (x / s)| := by
  rw [quantized, abs_mul, abs_of_pos positive]

section

variable (balanced : levels.IsBalanced exponent)

include balanced

/-- What is in reach of the largest level stays in its reach. -/
theorem abs_quantized_le (positive : 0 < s) (reached : |x| ≤ s * levels.exactHighest exponent) :
    |quantized exponent levels s x| ≤ s * levels.exactHighest exponent := by
  have unit : |x / s| ≤ levels.exactHighest exponent := by
    rw [abs_div, abs_of_pos positive]
    exact (div_le_iff₀' positive).mpr reached
  rw [abs_quantized positive]
  exact mul_le_mul_of_nonneg_left (balanced.within _ unit) positive.le

/-- What is as large as the largest level stays as large. -/
theorem abs_quantized_eq (positive : 0 < s) (same : |x| = s * levels.exactHighest exponent) :
    |quantized exponent levels s x| = s * levels.exactHighest exponent := by
  have unit : |x / s| = levels.exactHighest exponent := by
    rw [abs_div, abs_of_pos positive, same, mul_div_cancel_left₀ _ positive.ne']
  rw [abs_quantized positive, balanced.keeps _ unit]

/-- The largest magnitude of a channel is the largest level at its scale factor. -/
theorem scaleFactor_mul_highest (some : 0 < largest exponent elements) :
    scaleFactor exponent levels id elements * levels.exactHighest exponent =
      largest exponent elements := by
  rw [scaleFactor_eq, if_pos some, id, div_mul_cancel₀ _ balanced.positive.ne']

/-- A channel that is quantized at its scale factor keeps its largest magnitude. -/
private theorem isGreatest_map_quantized (some : 0 < largest exponent elements)
    (factor : s = scaleFactor exponent levels id elements) :
    IsGreatest (magnitudes (elements.map (quantized exponent levels s)))
      (largest exponent elements) := by
  have positive : 0 < s :=
    factor ▸ scaleFactor_pos balanced.positive (fun _ positive => positive) elements
  have top : s * levels.exactHighest exponent = largest exponent elements :=
    factor ▸ scaleFactor_mul_highest balanced some
  obtain ⟨⟨x, member, same⟩, _⟩ := isGreatest_largest_of_pos some
  refine ⟨⟨_, List.mem_map_of_mem member, ?_⟩, ?_⟩
  · rw [abs_quantized_eq balanced positive (same.trans top.symm), top]
  · rintro _ ⟨_, among, rfl⟩
    obtain ⟨y, there, rfl⟩ := List.mem_map.mp among
    rw [← top]
    exact abs_quantized_le balanced positive (top ▸ abs_le_largest exponent there)

theorem largest_map_quantized (some : 0 < largest exponent elements)
    (factor : s = scaleFactor exponent levels id elements) :
    largest exponent (elements.map (quantized exponent levels s)) = largest exponent elements := by
  have greatest := isGreatest_map_quantized balanced some factor
  have positive := some.trans_le ((isGreatest_largest exponent _).2 (Or.inr greatest.1))
  exact (isGreatest_largest_of_pos positive).unique greatest

/-- A channel of zeros has the scale factor one, also when its zeros have become other levels. -/
private theorem scaleFactor_map_quantized_zero (none : largest exponent elements = 0) :
    scaleFactor exponent levels id (elements.map (quantized exponent levels 1)) = 1 := by
  rw [scaleFactor_eq]
  split
  -- Binary levels make ones of the zeros.  Their largest magnitude is the largest level.
  · next some =>
      obtain ⟨⟨_, among, same⟩, _⟩ := isGreatest_largest_of_pos some
      obtain ⟨x, member, rfl⟩ := List.mem_map.mp among
      have zero : x = 0 := abs_nonpos_iff.mp (none ▸ abs_le_largest exponent member)
      rw [abs_quantized one_pos, zero, zero_div, one_mul] at same
      rcases balanced.zero with stays | ⟨highest, unit⟩
      · rw [stays, abs_zero] at same
        exact absurd same some.ne
      · rw [← same, unit, highest]
        exact div_one 1
  · rfl

/-- A channel that is quantized at its scale factor keeps the scale factor. -/
theorem scaleFactor_map_quantized (factor : s = scaleFactor exponent levels id elements) :
    scaleFactor exponent levels id (elements.map (quantized exponent levels s)) = s := by
  rcases (largest_nonneg exponent elements).eq_or_lt with none | some
  · have one : s = 1 := by
      rw [factor, scaleFactor_eq, if_neg none.not_lt]
    rw [one, scaleFactor_map_quantized_zero balanced none.symm]
  · rw [scaleFactor_eq, largest_map_quantized balanced some factor, ← scaleFactor_eq, factor]

end

end Exact

/-! ## Tensors -/

namespace QuantizerConfig

/-- Values that are fixed at their scale, and have the same scale, are quantized to themselves. -/
theorem quantize?_values {α : Type} [Scalar α] {config : QuantizerConfig α} {data : Tensor α}
    {outcome : Quantized α} (done : config.quantize? data = some outcome)
    (same : config.scale outcome.values = config.scale data)
    (fixed : ∀ index, data.shape.InBounds index →
      (config.scale data).stretched index * config.levels.level
        (outcome.values.get index / (config.scale data).stretched index) =
          outcome.values.get index) :
    config.quantize? outcome.values = some outcome := by
  obtain ⟨shape, scale⟩ := quantize?_eq_some done
  obtain ⟨again, redone⟩ := Option.isSome_iff_exists.mp
    (isSome_quantize?_of_shape_eq shape (Option.isSome_of_eq_some done))
  obtain ⟨shapeAgain, scaleAgain⟩ := quantize?_eq_some redone
  have values : again.values = outcome.values := by
    apply Tensor.ext_get shapeAgain
    intro index inside
    rw [shapeAgain] at inside
    rw [get_of_quantize? redone inside, same, fixed index (shape ▸ inside)]
  rw [redone, Option.some.injEq]
  obtain ⟨values', scale'⟩ := again
  obtain rfl : values' = outcome.values := values
  obtain rfl : scale' = config.scale outcome.values := scaleAgain
  rw [same, ← scale]

variable {exponent : ℚ → ℤ} {config : QuantizerConfig (Number exponent)}
  {data : Tensor (Number exponent)} {outcome : Quantized (Number exponent)}

theorem hasLevels_of_isShort (short : config.levels.IsShort) (data : Tensor (Number exponent)) :
    config.hasLevels data = true := by
  unfold hasLevels
  cases levels : config.levels with
  | binary | ternary => rfl
  | fixedPoint bits integer keepNegative =>
      rw [levels] at short
      simp only [Levels.isCountable_of_lt short.1 short.2, Levels.ordered_of_isShort short,
        Bool.and_self, Bool.true_or]

theorem get_values (done : config.quantize? data = some outcome) {index : List Nat}
    (inside : data.shape.InBounds index) :
    outcome.values.get index = quantized exponent config.levels
      ((config.scale data).stretched index) (data.get index) :=
  get_of_quantize? done inside

/-- The values at a scale without zeros are quantized to themselves if they have the same scale. -/
theorem quantize?_values_of_scale_eq (short : config.levels.IsShort)
    (done : config.quantize? data = some outcome)
    (nonzero : ∀ index, data.shape.InBounds index → (config.scale data).stretched index ≠ (0 : ℚ))
    (same : config.scale outcome.values = config.scale data) :
    config.quantize? outcome.values = some outcome := by
  refine quantize?_values done same fun index inside => ?_
  have value := get_values done inside
  have twice := quantized_quantized exponent short (nonzero index inside) (data.get index)
  exact (congrArg (quantized exponent config.levels _) value).trans (twice.trans value.symm)

theorem quantize?_values_of_fixed {value : Number exponent} (short : config.levels.IsShort)
    (fixed : config.alpha.getD .one = .fixed value) (nonzero : value ≠ (0 : ℚ))
    (done : config.quantize? data = some outcome) :
    config.quantize? outcome.values = some outcome := by
  have rank : outcome.values.rank = data.rank :=
    congrArg List.length (quantize?_eq_some done).1
  refine quantize?_values_of_scale_eq short done (fun index inside => ?_) ?_
  · rw [stretched_scale inside.length_eq inside.getLastD_lt, factor, fixed]
    exact nonzero
  · rw [scale, scale, fixed, rank]

/-! ## Automatic scales -/

variable {c : Nat}

theorem factor_auto (auto : config.alpha = some .auto) (data : Tensor (Number exponent))
    (c : Nat) :
    config.factor (channel data c) =
      scaleFactor exponent config.levels id (channelElements data c) := by
  rw [factor, auto]
  rfl

/-- A channel of the outcome is quantized at the scale factor of the channel. -/
theorem channel_values (auto : config.alpha = some .auto)
    (done : config.quantize? data = some outcome) (below : c < data.shape.channels) :
    channelElements outcome.values c = (channelElements data c).map
      (quantized exponent config.levels
        (scaleFactor exponent config.levels id (channelElements data c))) := by
  refine channel_eq_map (quantize?_eq_some done).1 below fun index inside last => ?_
  rw [get_values done inside, stretched_scale inside.length_eq inside.getLastD_lt, last,
    factor_auto auto]

/-- The outcome of balanced levels has the scale of the tensor. -/
theorem scale_values (auto : config.alpha = some .auto)
    (balanced : config.levels.IsBalanced exponent)
    (done : config.quantize? data = some outcome) :
    config.scale outcome.values = config.scale data := by
  have channelwise : ∀ tensor : Tensor (Number exponent),
      config.scaleShape tensor = channelShape tensor.shape := fun tensor => by
    rw [scaleShape, auto]
    rfl
  rw [scale_eq_ofFn, scale_eq_ofFn, channelwise, channelwise, (quantize?_eq_some done).1]
  refine Tensor.ofFn_congr fun index inside => ?_
  have below := channels_channelShape data.shape ▸ inside.getLastD_lt
  have elements := channel_values auto done below
  have same := scaleFactor_map_quantized balanced (Eq.refl
    (scaleFactor exponent config.levels id (channelElements data (index.getLastD 0))))
  rw [← elements] at same
  rw [factor_auto auto, factor_auto auto]
  exact same

theorem quantize?_values_of_auto (short : config.levels.IsShort)
    (auto : config.alpha = some .auto) (balanced : config.levels.IsBalanced exponent)
    (done : config.quantize? data = some outcome) :
    config.quantize? outcome.values = some outcome := by
  refine quantize?_values_of_scale_eq short done (fun index inside => ?_)
    (scale_values auto balanced done)
  rw [stretched_scale inside.length_eq inside.getLastD_lt, factor_auto auto]
  exact (scaleFactor_pos balanced.positive (fun _ positive => positive) _).ne'

/-- A channel that is not all zero keeps its largest magnitude. -/
theorem isGreatest_values (auto : config.alpha = some .auto)
    (balanced : config.levels.IsBalanced exponent)
    (done : config.quantize? data = some outcome) (below : c < data.shape.channels)
    (some : ∃ x ∈ channelElements data c, x ≠ (0 : ℚ)) :
    ∃ m, IsGreatest (magnitudes (channelElements data c)) m ∧
      IsGreatest (magnitudes (channelElements outcome.values c)) m := by
  obtain ⟨x, member, nonzero⟩ := some
  have positive : 0 < largest exponent (channelElements data c) :=
    (abs_pos.mpr nonzero).trans_le (abs_le_largest exponent member)
  rw [channel_values auto done below]
  exact ⟨_, isGreatest_largest_of_pos positive, isGreatest_map_quantized balanced positive rfl⟩

/-- Whether quantizing a second time is known to find the same scale. -/
def IsSteady (config : QuantizerConfig (Number exponent)) : Prop :=
  match config.alpha with
  | none => True
  | some (.fixed value) => value ≠ (0 : ℚ)
  | some .auto => config.levels.IsTwoSided
  | some .autoPowerOfTwo => False

end QuantizerConfig

/-- In exact arithmetic quantizing is idempotent, at no scale, at a fixed one, and at an automatic
one if the levels lie on both sides of zero.  A channel that is not all zero then keeps its largest
magnitude.  There is an outcome unless there are more channels than can be stored. -/
theorem quantize_idempotent (exponent : ℚ → ℤ) {config : QuantizerConfig (Number exponent)}
    (short : config.levels.IsShort) (steady : config.IsSteady) (data : Tensor (Number exponent)) :
    ((config.quantize? data).isSome ↔ (config.scaleShape data).isStorable = true) ∧
    ∀ outcome, config.quantize? data = some outcome →
      config.quantize? outcome.values = some outcome ∧
      (config.alpha = some .auto →
        ∀ c < data.shape.channels, (∃ x ∈ channelElements data c, x ≠ (0 : ℚ)) →
          ∃ m, IsGreatest (magnitudes (channelElements data c)) m ∧
            IsGreatest (magnitudes (channelElements outcome.values c)) m) := by
  have levels := QuantizerConfig.hasLevels_of_isShort short data
  refine ⟨by simp only [QuantizerConfig.isSome_quantize?_iff, levels, and_true], ?_⟩
  intro outcome done
  unfold QuantizerConfig.IsSteady at steady
  split at steady
  · next none =>
      refine ⟨?_, fun auto => ?_⟩
      · exact QuantizerConfig.quantize?_values_of_fixed short (by rw [none]; rfl)
          (one_ne_zero : (1 : ℚ) ≠ 0) done
      · rw [none] at auto
        cases auto
  · next value fixed =>
      refine ⟨?_, fun auto => ?_⟩
      · exact QuantizerConfig.quantize?_values_of_fixed short (by rw [fixed]; rfl) steady done
      · rw [fixed] at auto
        cases auto
  · next auto =>
      have balanced := Levels.isBalanced_of_isTwoSided exponent short steady
      exact ⟨QuantizerConfig.quantize?_values_of_auto short auto balanced done,
        fun _ c below => QuantizerConfig.isGreatest_values auto balanced done below⟩
  · exact steady.elim

/-- Halves between minus one and one half, quantized twice.  The second channel keeps the magnitude
three of its first element. -/
theorem quantize_idempotent_halves :
    let config : QuantizerConfig (Number fun _ => 0) := ⟨.fixedPoint 2 0 true, some .auto⟩
    let data : Tensor (Number fun _ => 0) :=
      ⟨[2, 3], #[(1 / 2 : ℚ), (-3 : ℚ), (0 : ℚ), (-1 / 10 : ℚ), (1 : ℚ), (0 : ℚ)], rfl⟩
    let outcome : Quantized (Number fun _ => 0) :=
      ⟨⟨[2, 3], #[(1 / 2 : ℚ), (-3 : ℚ), (0 : ℚ), (0 : ℚ), (0 : ℚ), (0 : ℚ)], rfl⟩,
        ⟨[1, 3], #[(1 : ℚ), (6 : ℚ), (1 : ℚ)], rfl⟩⟩
    config.levels.IsShort ∧ config.IsSteady ∧ config.quantize? data = some outcome ∧
      config.quantize? outcome.values = some outcome ∧
      ∃ m, IsGreatest (magnitudes (channelElements data 1)) m ∧
        IsGreatest (magnitudes (channelElements outcome.values 1)) m := by
  intro config data outcome
  have short : config.levels.IsShort := ⟨by decide, by decide⟩
  have steady : config.IsSteady := (⟨rfl, by decide⟩ : true = true ∧ 2 ≤ (2 : UInt32).toNat)
  have done : config.quantize? data = some outcome := by decide +kernel
  obtain ⟨again, keeps⟩ := (quantize_idempotent (fun _ => 0) short steady data).2 outcome done
  have nonzero : ∃ x ∈ channelElements data 1, x ≠ 0 := ⟨-3, by decide +kernel, by decide⟩
  exact ⟨short, steady, done, again, keeps rfl 1 (by decide) nonzero⟩

end QuantNet
