import QuantNet.Proofs.Quantizer.Outcome
import QuantNet.Proofs.Scalar.Rounding

/-!
# Nearest levels

In exact arithmetic the levels of a fixed-point quantizer are the multiples of its step by the
integers that its bits can hold, and every value at unit scale gets the nearest of them.
-/

namespace QuantNet

open Exact

namespace Levels

/-- The least integer of some bits. -/
def lowestNumber (bits : UInt32) : (keepNegative : Bool) → ℤ
  | true => -2 ^ (bits.toNat - 1)
  | false => 0

/-- The greatest integer of some bits, one of which is for the sign if there is one. -/
def highestNumber (bits : UInt32) : (keepNegative : Bool) → ℤ
  | true => 2 ^ (bits.toNat - 1) - 1
  | false => 2 ^ bits.toNat - 1

/-- The integers that some bits can hold. -/
def numbers (bits : UInt32) (keepNegative : Bool) : Set ℤ :=
  Set.Icc (lowestNumber bits keepNegative) (highestNumber bits keepNegative)

/-- The distance of two neighbouring levels. -/
def stepSize (bits integer : UInt32) (keepNegative : Bool) : ℚ :=
  2 ^ (-((bits.toNat : ℤ) - integer.toNat - keepNegative.toNat))

/-- The integer of the level of a value at unit scale. -/
def number (bits integer : UInt32) (keepNegative : Bool) (y : ℚ) : ℤ :=
  roundBetween (lowestNumber bits keepNegative) (highestNumber bits keepNegative)
    (y / stepSize bits integer keepNegative)

/-- What is stored for a value is the level of an integer at a scale.  None of the integers is
closer to the value in steps, and none of their levels is closer to the value. -/
structure StoredNearest (bits integer : UInt32) (keepNegative : Bool) (s x stored : ℚ) : Prop where
  level : stored =
    s * (number bits integer keepNegative (x / s) * stepSize bits integer keepNegative)
  nearest : Nearest (numbers bits keepNegative) (x / (s * stepSize bits integer keepNegative))
    (number bits integer keepNegative (x / s))
  closest : ∀ k ∈ numbers bits keepNegative,
    |x - stored| ≤ |x - s * (k * stepSize bits integer keepNegative)|

variable {bits integer : UInt32} {keepNegative : Bool} {exponent : ℚ → ℤ}

theorem stepSize_pos : 0 < stepSize bits integer keepNegative :=
  zpow_pos two_pos _

theorem lowestNumber_le_highestNumber (bits : UInt32) (keepNegative : Bool) :
    lowestNumber bits keepNegative ≤ highestNumber bits keepNegative := by
  have power : ∀ n : ℕ, (0 : ℤ) < 2 ^ n := fun n => pow_pos two_pos n
  cases keepNegative with
  | true =>
      have positive := power (bits.toNat - 1)
      simp only [lowestNumber, highestNumber]
      omega
  | false => exact Int.le_sub_one_of_lt (power bits.toNat)

theorem number_mono (bits integer : UInt32) (keepNegative : Bool) :
    Monotone (number bits integer keepNegative) :=
  fun _ _ less => roundBetween_mono _ _ (div_le_div_of_nonneg_right less stepSize_pos.le)

theorem nearest_number (bits integer : UInt32) (keepNegative : Bool) (y : ℚ) :
    Nearest (numbers bits keepNegative) (y / stepSize bits integer keepNegative)
      (number bits integer keepNegative y) :=
  nearest_roundBetween (lowestNumber_le_highestNumber bits keepNegative) _

theorem storedNearest_number (bits integer : UInt32) (keepNegative : Bool) {s : ℚ} (x : ℚ)
    (nonzero : s ≠ 0) :
    StoredNearest bits integer keepNegative s x
      (s * (number bits integer keepNegative (x / s) * stepSize bits integer keepNegative)) := by
  have nearest : Nearest (numbers bits keepNegative) (x / (s * stepSize bits integer keepNegative))
      (number bits integer keepNegative (x / s)) := by
    rw [← div_div]
    exact nearest_number bits integer keepNegative (x / s)
  refine ⟨rfl, nearest, fun k among => ?_⟩
  have regroup : ∀ y : ℚ, s * (y * stepSize bits integer keepNegative) =
      s * stepSize bits integer keepNegative * y := fun y => by ring
  rw [regroup, regroup]
  exact nearest.scaled (mul_ne_zero nonzero stepSize_pos.ne') among

/-- The power of two that bounds the levels, in steps. -/
private theorem pow_mul_stepSize (signed : keepNegative = true → 1 ≤ bits.toNat) :
    (2 : ℚ) ^ (bits.toNat - keepNegative.toNat) * stepSize bits integer keepNegative =
      2 ^ (integer.toNat : ℤ) := by
  have enough : keepNegative.toNat ≤ bits.toNat := by
    cases keepNegative with
    | true => exact signed rfl
    | false => exact Nat.zero_le _
  rw [stepSize, ← zpow_natCast, ← zpow_add₀ two_ne_zero]
  congr 1
  omega

/-! ## Words -/

theorem word_of_lt {n : UInt32} (few : n.toNat < 2 ^ 30) : word n = n.toNat := by
  have small : 2 * n.toBitVec.toNat < 2 ^ 32 := by
    have same : n.toBitVec.toNat = n.toNat := rfl
    omega
  exact BitVec.toInt_eq_toNat_of_lt small

private theorem lowest_of_lt (short : integer.toNat < 2 ^ 30)
    (signed : keepNegative = true → 1 ≤ bits.toNat) :
    @lowest (Number exponent) _ (fixedPoint bits integer keepNegative) =
      (lowestNumber bits keepNegative * stepSize bits integer keepNegative : ℚ) := by
  cases keepNegative with
  | true =>
      have power : @lowest (Number exponent) _ (fixedPoint bits integer true) =
          -(2 : ℚ) ^ word integer :=
        rfl
      rw [power, word_of_lt short, ← pow_mul_stepSize signed, lowestNumber]
      push_cast
      rw [neg_mul]
      rfl
  | false =>
      have zero : @lowest (Number exponent) _ (fixedPoint bits integer false) = (0 : ℚ) := rfl
      rw [zero, lowestNumber, Int.cast_zero, zero_mul]

section

variable (few : bits.toNat < 2 ^ 30) (short : integer.toNat < 2 ^ 30)

include few short

private theorem fractionBits_of_lt (keepNegative : Bool) :
    fractionBits bits integer keepNegative = bits.toNat - integer.toNat - keepNegative.toNat := by
  rw [fractionBits, word_of_lt few, word_of_lt short]
  cases keepNegative <;> rfl

theorem isCountable_of_lt (keepNegative : Bool) :
    (fixedPoint bits integer keepNegative).isCountable = true := by
  have least : Int32.minValue.toInt = -2 ^ 31 := rfl
  have most : Int32.maxValue.toInt = 2 ^ 31 - 1 := rfl
  have sign := Bool.toNat_le keepNegative
  rw [isCountable, fractionBits_of_lt few short, word_of_lt few, word_of_lt short,
    Bool.and_eq_true, decide_eq_true_iff, decide_eq_true_iff]
  omega

theorem step_of_lt (keepNegative : Bool) :
    @step (Number exponent) _ (fixedPoint bits integer keepNegative) =
      stepSize bits integer keepNegative := by
  have power : @step (Number exponent) _ (fixedPoint bits integer keepNegative) =
      (2 : ℚ) ^ (-(fractionBits bits integer keepNegative)) :=
    rfl
  rw [power, fractionBits_of_lt few short, stepSize]

variable (signed : keepNegative = true → 1 ≤ bits.toNat)

include signed

theorem highest_of_lt :
    @highest (Number exponent) _ (fixedPoint bits integer keepNegative) =
      (highestNumber bits keepNegative * stepSize bits integer keepNegative : ℚ) := by
  have top : highestNumber bits keepNegative =
      2 ^ (bits.toNat - keepNegative.toNat) - 1 := by
    cases keepNegative <;> rfl
  have power : ∀ size : ℚ,
      @step (Number exponent) _ (fixedPoint bits integer keepNegative) = size →
        @highest (Number exponent) _ (fixedPoint bits integer keepNegative) =
          (2 : ℚ) ^ word integer - size := by
    rintro _ rfl
    rfl
  rw [power _ (step_of_lt few short keepNegative), word_of_lt short, ← pow_mul_stepSize signed, top]
  push_cast
  rw [sub_mul, one_mul]

theorem ordered_of_lt :
    (fixedPoint bits integer keepNegative).ordered (Number exponent) = true := by
  rw [ordered, lowest_of_lt short signed, highest_of_lt few short signed, le_iff]
  have numbers := lowestNumber_le_highestNumber bits keepNegative
  exact mul_le_mul_of_nonneg_right (Int.cast_le.mpr numbers) stepSize_pos.le

/-- The level of a value at unit scale is its number of steps. -/
theorem level_of_lt (y : ℚ) :
    @level (Number exponent) _ (fixedPoint bits integer keepNegative) y =
      (number bits integer keepNegative y * stepSize bits integer keepNegative : ℚ) := by
  have shape : ∀ least most size : ℚ,
      @lowest (Number exponent) _ (fixedPoint bits integer keepNegative) = least →
        @highest (Number exponent) _ (fixedPoint bits integer keepNegative) = most →
          @step (Number exponent) _ (fixedPoint bits integer keepNegative) = size →
            @level (Number exponent) _ (fixedPoint bits integer keepNegative) y =
              @Scalar.clamp (Number exponent) _ least most (Exact.round (y / size) * size : ℚ) := by
    rintro _ _ _ rfl rfl rfl
    rfl
  have positive : 0 ≤ stepSize bits integer keepNegative := stepSize_pos.le
  have numbers : (lowestNumber bits keepNegative : ℚ) ≤ highestNumber bits keepNegative :=
    Int.cast_le.mpr (lowestNumber_le_highestNumber bits keepNegative)
  rw [shape _ _ _ (lowest_of_lt short signed) (highest_of_lt few short signed)
      (step_of_lt few short keepNegative),
    clamp_eq (mul_le_mul_of_nonneg_right numbers positive), ← min_mul_of_nonneg _ _ positive,
    ← max_mul_of_nonneg _ _ positive, number, roundBetween]
  push_cast
  rfl

end

end Levels

/-- In exact arithmetic a fixed-point quantizer has an outcome for every tensor whose scale can be
stored, and the outcome has the nearest level of every element with a nonzero scale. -/
theorem quantize_nearest_level (exponent : ℚ → ℤ) {bits integer : UInt32} {keepNegative : Bool}
    (few : bits.toNat < 2 ^ 30) (short : integer.toNat < 2 ^ 30)
    (signed : keepNegative = true → 1 ≤ bits.toNat) :
    (Levels.fixedPoint bits integer keepNegative).ordered (Number exponent) = true ∧
    Monotone (fun y => Levels.number bits integer keepNegative y *
      Levels.stepSize bits integer keepNegative) ∧
    ∀ (alpha : Option (Alpha (Number exponent))) (data : Tensor (Number exponent)),
      let config : QuantizerConfig (Number exponent) :=
        ⟨.fixedPoint bits integer keepNegative, alpha⟩
      ((config.quantize? data).isSome ↔ (config.scaleShape data).isStorable = true) ∧
      ∀ outcome, config.quantize? data = some outcome →
        outcome.values.shape = data.shape ∧ outcome.scale = config.scale data ∧
        ∀ index, data.shape.InBounds index →
          let s : ℚ := outcome.scale.stretched index
          s ≠ 0 → Levels.StoredNearest bits integer keepNegative s (data.get index)
            (outcome.values.get index) := by
  have ordered : (Levels.fixedPoint bits integer keepNegative).ordered (Number exponent) = true :=
    Levels.ordered_of_lt few short signed
  have countable := Levels.isCountable_of_lt few short keepNegative
  refine ⟨ordered, ?_, fun alpha data => ⟨?_, fun outcome done => ?_⟩⟩
  · intro y z less
    have numbers : (Levels.number bits integer keepNegative y : ℚ) ≤
        Levels.number bits integer keepNegative z :=
      Int.cast_le.mpr (Levels.number_mono bits integer keepNegative less)
    exact mul_le_mul_of_nonneg_right numbers Levels.stepSize_pos.le
  · rw [QuantizerConfig.isSome_quantize?_iff]
    simp only [QuantizerConfig.hasLevels, ordered, countable, Bool.and_self, Bool.true_or, and_true]
  · obtain ⟨shape, scale⟩ := QuantizerConfig.quantize?_eq_some done
    refine ⟨shape, scale, fun index inside => ?_⟩
    intro s nonzero
    let x : ℚ := data.get index
    have value := QuantizerConfig.get_of_quantize? done inside
    rw [← scale] at value
    have level : @Levels.level (Number exponent) _ (.fixedPoint bits integer keepNegative) (x / s) =
        (Levels.number bits integer keepNegative (x / s) *
          Levels.stepSize bits integer keepNegative : ℚ) :=
      Levels.level_of_lt few short signed (x / s)
    rw [value.trans (congrArg (fun level : ℚ => s * level) level)]
    exact Levels.storedNearest_number bits integer keepNegative x nonzero

/-- Eighths from minus one to seven eighths, for a scale of minus two.  The third element is on the
lowest level; with a scale of two it would be above the highest one. -/
theorem quantize_nearest_level_eighths :
    let config : QuantizerConfig (Number fun _ => 0) :=
      ⟨.fixedPoint 4 0 true, some (.fixed (-2 : ℚ))⟩
    let data : Tensor (Number fun _ => 0) :=
      .ofList [(3 / 10 : ℚ), (-99 / 100 : ℚ), (2 : ℚ), (6 / 100 : ℚ)]
    (4 : UInt32).toNat < 2 ^ 30 ∧ (0 : UInt32).toNat < 2 ^ 30 ∧ 1 ≤ (4 : UInt32).toNat ∧
      ∃ outcome, config.quantize? data = some outcome ∧
        outcome.values = .ofList [(1 / 4 : ℚ), (-1 : ℚ), (2 : ℚ), (0 : ℚ)] ∧
        Levels.stepSize 4 0 true = 1 / 8 ∧ Levels.number 4 0 true (2 / -2) = -8 ∧
        Levels.StoredNearest 4 0 true (-2) 2 (outcome.values.get [2]) := by
  intro config data
  have few : (4 : UInt32).toNat < 2 ^ 30 := by decide
  have short : (0 : UInt32).toNat < 2 ^ 30 := by decide
  have signed : true = true → 1 ≤ (4 : UInt32).toNat := by decide
  have done : config.quantize? data =
      some ⟨.ofList [(1 / 4 : ℚ), (-1 : ℚ), (2 : ℚ), (0 : ℚ)], .fill [1] (-2 : ℚ)⟩ := by
    decide +kernel
  have step : Levels.stepSize 4 0 true = 1 / 8 := by decide +kernel
  have lowest : Levels.number 4 0 true (2 / -2) = -8 := by decide +kernel
  have inside : data.shape.InBounds [2] := ⟨by decide, trivial⟩
  have nonzero : (-2 : ℚ) ≠ 0 := by decide
  obtain ⟨_, _, all⟩ := quantize_nearest_level (fun _ => 0) few short signed
  have stored := ((all (some (.fixed (-2 : ℚ))) data).2 _ done).2.2 [2] inside nonzero
  exact ⟨few, short, signed rfl, _, done, rfl, step, lowest, stored⟩

end QuantNet
