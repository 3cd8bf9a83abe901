import QuantNet.Proofs.Layer.Rewriting
import QuantNet.Proofs.Quantizer.ChannelScales
import QuantNet.Scalar.Binary32

/-!
# Divisors of automatic scales

An automatic scale divides the largest magnitude of a channel by the largest level, and is itself
what weights and biases are divided by.  In exact arithmetic all these divisors are positive, unless
the levels have a sign bit only.  Then the largest level is zero.
-/

namespace QuantNet

open Exact

namespace QuantizerConfig

variable {exponent : ℚ → ℤ}

/-- Whether all numbers are positive by which a tensor, and the weights and the bias of a layer with
these unquantized weights, are divided on account of a quantizer. -/
structure DividesSafely (config : QuantizerConfig (Number exponent))
    (data : Tensor (Number exponent)) : Prop where
  /-- The largest magnitude of a channel is divided by the largest level. -/
  highest : 0 < config.levels.exactHighest exponent
  scale : ∀ s ∈ (config.scale data).data, (0 : ℚ) < s
  /-- Every element is divided by the scale factor that the scale shows at its index. -/
  elements : ∀ index, data.shape.InBounds index → (0 : ℚ) < (config.scale data).stretched index
  /-- The weights of a layer at unit scale are multiplied by an inverse at every index. -/
  weights : ∀ outcome, config.quantize? data = some outcome →
    ∀ index, outcome.values.shape.InBounds index → (0 : ℚ) < outcome.scale.stretched index
  /-- The bias of a layer is divided by the scale that is taken out of its weights. -/
  bias : ∀ (node : Node (Number exponent)) weight quantizer unit scale,
    node.weights.get? .weight = some weight → weight.unquantized = some data →
      weight.quantizer = some quantizer → quantizer.config = config →
        ScaleFactorization.factorized node = .ok (unit, scale) →
          ∀ bias quotient, Tensor.zipWith? (fun b s => b / s) bias scale = some quotient →
            ∀ index, quotient.shape.InBounds index → (0 : ℚ) < scale.stretched index

variable {levels : Levels} {alpha : Alpha (Number exponent)} {data : Tensor (Number exponent)}

theorem factor_pos (highest : 0 < levels.exactHighest exponent) (automatic : alpha.IsAutomatic)
    (elements : List (Number exponent)) : (0 : ℚ) < factor ⟨levels, some alpha⟩ elements := by
  cases alpha with
  | fixed value => exact automatic.elim
  | auto => exact scaleFactor_pos highest (fun _ positive => positive) elements
  | autoPowerOfTwo =>
      exact scaleFactor_pos highest (fun q _ => zpow_pos (two_pos : (0 : ℚ) < 2) (exponent q))
        elements

theorem scale_pos (highest : 0 < levels.exactHighest exponent) (automatic : alpha.IsAutomatic) :
    ∀ s ∈ (scale ⟨levels, some alpha⟩ data).data, (0 : ℚ) < s := by
  intro s member
  rw [scale_eq_ofFn] at member
  obtain ⟨index, inside, rfl⟩ := Tensor.mem_data_iff.mp member
  have shown : (Tensor.ofFn (scaleShape ⟨levels, some alpha⟩ data) fun index =>
      factor ⟨levels, some alpha⟩ (channel data (index.getLastD 0))).get index =
        factor ⟨levels, some alpha⟩ (channel data (index.getLastD 0)) :=
    Tensor.get_ofFn _ inside
  rw [shown]
  exact factor_pos highest automatic _

/-- Wherever the scale is stretched to, it shows a positive number. -/
private theorem stretched_pos {scale : Tensor (Number exponent)} {shape : Shape} {index : List Nat}
    (positive : ∀ s ∈ scale.data, (0 : ℚ) < s) (stretches : scale.shape.Stretches shape)
    (inside : shape.InBounds index) : (0 : ℚ) < scale.stretched index :=
  positive _ (Tensor.get_mem (stretches.inBounds_pull inside))

/-- An automatic scale divides by positive numbers only, exactly if there is more than a sign
bit. -/
theorem dividesSafely_iff (short : levels.IsShort) (bits : levels.HasBits)
    (automatic : alpha.IsAutomatic) :
    DividesSafely ⟨levels, some alpha⟩ data ↔ ¬ levels.IsSignOnly := by
  rw [← Levels.exactHighest_pos_iff exponent short bits]
  refine ⟨DividesSafely.highest, fun highest => ?_⟩
  have positive : ∀ s ∈ (scale ⟨levels, some alpha⟩ data).data, (0 : ℚ) < s :=
    scale_pos highest automatic
  have stretches := stretches_scale ⟨levels, some alpha⟩ data
  refine ⟨highest, positive, fun index => stretched_pos positive stretches, ?_, ?_⟩
  · intro outcome done index inside
    obtain ⟨shape, scale⟩ := quantize?_eq_some done
    rw [scale]
    rw [shape] at inside
    exact stretched_pos positive stretches inside
  · intro node weight quantizer unit scale stored kept quantized same factor bias quotient divided
      index inside
    obtain ⟨_, _, _, outcome, again, keptAgain, quantizedAgain, done, _, rfl⟩ :=
      ScaleFactorization.factorized_eq_ok factor
    obtain rfl := Option.some.inj (stored.symm.trans again)
    obtain rfl := Option.some.inj (kept.symm.trans keptAgain)
    obtain rfl := Option.some.inj (quantized.symm.trans quantizedAgain)
    rw [same] at done
    have flat : ∀ s ∈ outcome.scale.flatten.data, (0 : ℚ) < s := by
      intro s member
      rw [Tensor.data_flatten, (quantize?_eq_some done).2] at member
      exact positive s member
    exact stretched_pos flat (Tensor.stretches_of_zipWith? divided).2 inside

end QuantizerConfig

/-- In exact arithmetic an automatic quantizer divides by positive numbers only, whatever the
tensor, exactly if its levels have more than a sign bit.  The largest level of a sign bit is
zero. -/
theorem automatic_scales_positive_iff (exponent : ℚ → ℤ) {levels : Levels}
    (short : levels.IsShort) (bits : levels.HasBits) :
    (∀ (alpha : Alpha (Number exponent)) (data : Tensor (Number exponent)), alpha.IsAutomatic →
      (QuantizerConfig.DividesSafely ⟨levels, some alpha⟩ data ↔ ¬ levels.IsSignOnly)) ∧
    (levels.IsSignOnly → levels.exactHighest exponent = 0) :=
  ⟨fun _ _ => QuantizerConfig.dividesSafely_iff short bits,
    Levels.exactHighest_of_isSignOnly short⟩

/-- Halves between minus one and one half.  The channels have the scale factors one, six and, since
its elements are zero, one. -/
theorem automatic_scales_positive_halves :
    let config : QuantizerConfig (Number fun _ => 0) := ⟨.fixedPoint 2 0 true, some .auto⟩
    let data : Tensor (Number fun _ => 0) :=
      ⟨[2, 3], #[(1 / 2 : ℚ), (-3 : ℚ), (0 : ℚ), (-1 / 10 : ℚ), (1 : ℚ), (0 : ℚ)], rfl⟩
    config.levels.IsShort ∧ config.levels.HasBits ∧ ¬ config.levels.IsSignOnly ∧
      config.DividesSafely data ∧
      config.scale data = ⟨[1, 3], #[(1 : ℚ), (6 : ℚ), (1 : ℚ)], rfl⟩ := by
  intro config data
  have short : config.levels.IsShort := ⟨by decide, by decide⟩
  have bits : config.levels.HasBits := (by decide : 1 ≤ (2 : UInt32).toNat)
  have more : ¬ config.levels.IsSignOnly := fun sign => absurd sign.2 (by decide)
  have safe := ((automatic_scales_positive_iff (fun _ => 0) short bits).1 .auto data trivial).mpr
    more
  exact ⟨short, bits, more, safe, by decide +kernel⟩

/-- With a sign bit only, minus one is divided by zero.  In floating point this makes its scale
factor infinite. -/
theorem sign_bit_divides_by_zero :
    (¬ ∀ (levels : Levels) (alpha : Alpha (Number fun _ => 0))
        (data : Tensor (Number fun _ => 0)),
      levels.IsShort → levels.HasBits → alpha.IsAutomatic →
        QuantizerConfig.DividesSafely ⟨levels, some alpha⟩ data) ∧
    let config : QuantizerConfig Float32 := ⟨.fixedPoint 1 0 true, some .auto⟩
    config.scale (.ofList [-1]) = .ofList [Binary32.infinity] := by
  constructor
  · intro all
    have short : (Levels.fixedPoint 1 0 true).IsShort := ⟨by decide, by decide⟩
    have bits : (Levels.fixedPoint 1 0 true).HasBits := (by decide : 1 ≤ (1 : UInt32).toNat)
    have sign : (Levels.fixedPoint 1 0 true).IsSignOnly := ⟨rfl, by decide⟩
    have safe := all _ .auto (.ofList [(-1 : ℚ)]) short bits trivial
    exact safe.highest.ne' (Levels.exactHighest_of_isSignOnly short sign)
  · decide +kernel

end QuantNet
