import QuantNet.Proofs.Quantizer.NearestLevel

/-!
# Levels in exact arithmetic

The level of a level is that level.  The largest level is positive unless there is only a sign bit,
and values that are as large as the largest level stay as large, provided that the levels lie on
both sides of zero.
-/

namespace QuantNet

open Exact

namespace Levels

/-- Whether the numbers of bits are read as they are. -/
def IsShort : Levels → Prop
  | fixedPoint bits integer _ => bits.toNat < 2 ^ 30 ∧ integer.toNat < 2 ^ 30
  | _ => True

def HasBits : Levels → Prop
  | fixedPoint bits _ _ => 1 ≤ bits.toNat
  | _ => True

/-- Whether the only bit is a sign bit. -/
def IsSignOnly : Levels → Prop
  | fixedPoint bits _ keepNegative => keepNegative = true ∧ bits.toNat = 1
  | _ => False

/-- The level of a rational number. -/
def exactLevel (exponent : ℚ → ℤ) (levels : Levels) (y : ℚ) : ℚ :=
  @level (Number exponent) _ levels y

/-- The largest level, as a rational number. -/
def exactHighest (exponent : ℚ → ℤ) (levels : Levels) : ℚ :=
  @highest (Number exponent) _ levels

variable {exponent : ℚ → ℤ} {levels : Levels} {bits integer : UInt32} {keepNegative : Bool}
  {y : ℚ}

/-! ## Binary and ternary levels -/

theorem exactLevel_binary (exponent : ℚ → ℤ) (y : ℚ) :
    exactLevel exponent binary y = if 0 ≤ y then 1 else -1 :=
  ite_congr (propext (le_iff 0 y)) (fun _ => rfl) fun _ => rfl

theorem exactLevel_ternary (exponent : ℚ → ℤ) (y : ℚ) :
    exactLevel exponent ternary y =
      if |y| < 1 / 2 then 0 else if y < 0 then -1 else if 0 < y then 1 else y := by
  have half : @Scalar.half (Number exponent) _ = (1 / 2 : ℚ) := by
    have power : @Scalar.half (Number exponent) _ = (2 : ℚ) ^ (-1 : ℤ) := rfl
    rw [power, zpow_neg_one, one_div]
  have below : (Scalar.lt (@Scalar.abs (Number exponent) _ y) Scalar.half = true) =
      (|y| < 1 / 2) := by
    rw [half]
    exact propext (lt_iff |y| (1 / 2))
  refine ite_congr below (fun _ => rfl) fun _ => ?_
  exact ite_congr (propext (lt_iff y 0)) (fun _ => rfl) fun _ =>
    ite_congr (propext (lt_iff 0 y)) (fun _ => rfl) fun _ => rfl

theorem abs_exactLevel_binary (y : ℚ) : |exactLevel exponent binary y| = 1 := by
  rw [exactLevel_binary]
  split <;> norm_num

theorem abs_exactLevel_ternary (exponent : ℚ → ℤ) (y : ℚ) :
    |exactLevel exponent ternary y| = if |y| < 1 / 2 then 0 else 1 := by
  rw [exactLevel_ternary]
  split
  · exact abs_zero
  · next large =>
      have nonzero : y ≠ 0 := by
        rintro rfl
        norm_num at large
      rcases nonzero.lt_or_gt with negative | positive
      · rw [if_pos negative, abs_neg, abs_one]
      · rw [if_neg positive.not_gt, if_pos positive, abs_one]

/-! ## The level of a level -/

private theorem signed_or_eq_zero (bits : UInt32) (keepNegative : Bool) :
    (keepNegative = true → 1 ≤ bits.toNat) ∨ keepNegative = true ∧ bits = 0 := by
  by_cases signed : keepNegative = true → 1 ≤ bits.toNat
  · exact Or.inl signed
  · obtain ⟨negative, none⟩ := Classical.not_imp.mp signed
    exact Or.inr ⟨negative, UInt32.toNat_inj.mp (Nat.lt_one_iff.mp (not_le.mp none))⟩

/-- Without a bit for the sign, the lowest level is the only one. -/
theorem highest_eq_lowest (exponent : ℚ → ℤ) (short : integer.toNat < 2 ^ 30) :
    @highest (Number exponent) _ (fixedPoint 0 integer true) =
      @lowest (Number exponent) _ (fixedPoint 0 integer true) := by
  have few : (0 : UInt32).toNat < 2 ^ 30 := by decide
  have size : stepSize 0 integer true = 2 * 2 ^ word integer := by
    rw [stepSize, word_of_lt short, ← zpow_one_add₀ two_ne_zero]
    congr 1
    simp
  have difference : ∀ size : ℚ,
      @step (Number exponent) _ (fixedPoint 0 integer true) = size →
        @highest (Number exponent) _ (fixedPoint 0 integer true) =
          (2 : ℚ) ^ word integer - size := by
    rintro _ rfl
    rfl
  have total : (2 : ℚ) ^ word integer - 2 * 2 ^ word integer = -2 ^ word integer := by
    ring
  exact (difference _ ((step_of_lt few short true).trans size)).trans total

/-- Where only one level is left, every value gets it. -/
theorem exactLevel_of_highest_eq_lowest
    (single : @highest (Number exponent) _ (fixedPoint bits integer keepNegative) =
      @lowest (Number exponent) _ (fixedPoint bits integer keepNegative)) (y : ℚ) :
    exactLevel exponent (fixedPoint bits integer keepNegative) y =
      @lowest (Number exponent) _ (fixedPoint bits integer keepNegative) := by
  have clamped : ∀ least most z : ℚ, most = least →
      @Scalar.clamp (Number exponent) _ least most z = least := by
    rintro _ most z rfl
    exact (clamp_eq (le_refl most) z).trans (max_eq_left (min_le_left most z))
  exact clamped _ _ _ single

theorem exactLevel_fixedPoint (few : bits.toNat < 2 ^ 30) (short : integer.toNat < 2 ^ 30)
    (signed : keepNegative = true → 1 ≤ bits.toNat) (y : ℚ) :
    exactLevel exponent (fixedPoint bits integer keepNegative) y =
      number bits integer keepNegative y * stepSize bits integer keepNegative :=
  level_of_lt few short signed y

/-- The level of a level is that level. -/
theorem exactLevel_exactLevel (short : levels.IsShort) (y : ℚ) :
    exactLevel exponent levels (exactLevel exponent levels y) = exactLevel exponent levels y := by
  cases levels with
  | binary =>
      simp only [exactLevel_binary]
      split <;> norm_num
  | ternary =>
      have magnitude := abs_exactLevel_ternary exponent y
      have values : exactLevel exponent ternary y = 0 ∨ exactLevel exponent ternary y = 1 ∨
          exactLevel exponent ternary y = -1 := by
        split at magnitude
        · exact Or.inl (abs_eq_zero.mp magnitude)
        · exact Or.inr (eq_or_eq_neg_of_abs_eq magnitude)
      rcases values with zero | plus | minus
      · rw [zero, exactLevel_ternary]
        norm_num
      · rw [plus, exactLevel_ternary]
        norm_num
      · rw [minus, exactLevel_ternary]
        norm_num
  | fixedPoint bits integer keepNegative =>
      obtain ⟨few, short⟩ := short
      -- If not even the sign has a bit, the lowest level is the only one.
      rcases signed_or_eq_zero bits keepNegative with signed | ⟨rfl, rfl⟩
      · have steps : number bits integer keepNegative
            (number bits integer keepNegative y * stepSize bits integer keepNegative) =
              number bits integer keepNegative y := by
          rw [number, mul_div_cancel_right₀ _ stepSize_pos.ne']
          exact roundBetween_intCast
            (mem_roundBetween (lowestNumber_le_highestNumber bits keepNegative) _)
        rw [exactLevel_fixedPoint few short signed, exactLevel_fixedPoint few short signed, steps]
      · have single := highest_eq_lowest exponent short
        rw [exactLevel_of_highest_eq_lowest single, exactLevel_of_highest_eq_lowest single]

/-- The lowest level is not above the highest one. -/
theorem ordered_of_isShort (short : levels.IsShort) : levels.ordered (Number exponent) = true := by
  cases levels with
  | binary | ternary => exact (le_iff (-1) 1).mpr (neg_le_self zero_le_one)
  | fixedPoint bits integer keepNegative =>
      obtain ⟨few, short⟩ := short
      rcases signed_or_eq_zero bits keepNegative with signed | ⟨rfl, rfl⟩
      · exact ordered_of_lt few short signed
      · rw [ordered, highest_eq_lowest _ short]
        exact (le_iff _ _).mpr le_rfl

/-! ## The largest level -/

theorem exactHighest_fixedPoint (exponent : ℚ → ℤ) (few : bits.toNat < 2 ^ 30)
    (short : integer.toNat < 2 ^ 30) (signed : keepNegative = true → 1 ≤ bits.toNat) :
    exactHighest exponent (fixedPoint bits integer keepNegative) =
      highestNumber bits keepNegative * stepSize bits integer keepNegative :=
  highest_of_lt few short signed

theorem highestNumber_pos_iff (some : 1 ≤ bits.toNat) :
    0 < highestNumber bits keepNegative ↔ ¬ (keepNegative = true ∧ bits.toNat = 1) := by
  have power : ∀ n : ℕ, (0 : ℤ) < 2 ^ n - 1 ↔ n ≠ 0 := fun n => by
    rw [sub_pos]
    exact ⟨fun large zero => by simp [zero] at large, fun more => one_lt_pow₀ one_lt_two more⟩
  cases keepNegative with
  | true =>
      rw [highestNumber, power, eq_self, true_and]
      omega
  | false =>
      rw [highestNumber, power]
      exact iff_of_true (Nat.one_le_iff_ne_zero.mp some) fun sign => Bool.noConfusion sign.1

/-- The largest level is positive exactly if there is more than a sign bit. -/
theorem exactHighest_pos_iff (exponent : ℚ → ℤ) (short : levels.IsShort)
    (bits : levels.HasBits) :
    0 < exactHighest exponent levels ↔ ¬ levels.IsSignOnly := by
  cases levels with
  | binary | ternary => exact iff_of_true zero_lt_one id
  | fixedPoint count integer keepNegative =>
      rw [exactHighest_fixedPoint exponent short.1 short.2 fun _ => bits,
        mul_pos_iff_of_pos_right stepSize_pos, Int.cast_pos]
      exact highestNumber_pos_iff bits

/-- With nothing but a sign bit the largest level is zero. -/
theorem exactHighest_of_isSignOnly (short : levels.IsShort) (sign : levels.IsSignOnly) :
    exactHighest exponent levels = 0 := by
  cases levels with
  | binary | ternary => exact sign.elim
  | fixedPoint bits integer keepNegative =>
      obtain ⟨rfl, one⟩ := sign
      rw [exactHighest_fixedPoint exponent short.1 short.2 fun _ => one.ge, highestNumber, one]
      simp

/-! ## Values as large as the largest level -/

/-- Values up to the largest level do not leave its range, and those that are as large as it stay as
large. -/
structure IsBalanced (exponent : ℚ → ℤ) (levels : Levels) : Prop where
  positive : 0 < exactHighest exponent levels
  within : ∀ y, |y| ≤ exactHighest exponent levels →
    |exactLevel exponent levels y| ≤ exactHighest exponent levels
  keeps : ∀ y, |y| = exactHighest exponent levels →
    |exactLevel exponent levels y| = exactHighest exponent levels
  /-- Zero stays zero, unless all levels have the magnitude one. -/
  zero : exactLevel exponent levels 0 = 0 ∨
    exactHighest exponent levels = 1 ∧ |exactLevel exponent levels 0| = 1

theorem isBalanced_binary (exponent : ℚ → ℤ) : IsBalanced exponent binary where
  positive := zero_lt_one
  within y _ := (abs_exactLevel_binary y).le
  keeps y _ := abs_exactLevel_binary y
  zero := Or.inr ⟨rfl, abs_exactLevel_binary 0⟩

theorem isBalanced_ternary (exponent : ℚ → ℤ) : IsBalanced exponent ternary where
  positive := zero_lt_one
  within y _ := by
    rw [abs_exactLevel_ternary]
    split
    · exact zero_le_one
    · exact le_refl (1 : ℚ)
  keeps y one := by
    have large : |y| = 1 := one
    rw [abs_exactLevel_ternary, if_neg (by rw [large]; norm_num)]
    rfl
  zero := Or.inl (abs_eq_zero.mp (by rw [abs_exactLevel_ternary, if_pos (by norm_num)]))

/-- Within the range of the largest number nothing is cut off, since the numbers with a sign reach
as far below zero as above it. -/
private theorem roundBetween_eq_round {x : ℚ} (bounded : |x| ≤ highestNumber bits true) :
    roundBetween (lowestNumber bits true) (highestNumber bits true) x = Exact.round x := by
  obtain ⟨below, above⟩ := abs_le.mp (abs_round_le bounded)
  have lowest : lowestNumber bits true ≤ -highestNumber bits true := by
    rw [lowestNumber, highestNumber]
    omega
  rw [roundBetween, min_eq_right above, max_eq_right (lowest.trans below)]

private theorem abs_div_stepSize (y : ℚ) :
    |y / stepSize bits integer keepNegative| = |y| / stepSize bits integer keepNegative := by
  have size : (0 : ℚ) < stepSize bits integer keepNegative := stepSize_pos
  rw [abs_div, abs_of_pos size]

/-- The magnitude of a level whose number is not cut off. -/
theorem abs_exactLevel_fixedPoint (few : bits.toNat < 2 ^ 30) (short : integer.toNat < 2 ^ 30)
    (some : 1 ≤ bits.toNat) (bounded : |y / stepSize bits integer true| ≤ highestNumber bits true) :
    |exactLevel exponent (fixedPoint bits integer true) y| =
      ((|Exact.round (y / stepSize bits integer true)| : ℤ) : ℚ) * stepSize bits integer true := by
  have size : (0 : ℚ) < stepSize bits integer true := stepSize_pos
  rw [exactLevel_fixedPoint few short fun _ => some, number, roundBetween_eq_round bounded, abs_mul,
    abs_of_pos size, Int.cast_abs]

theorem isBalanced_fixedPoint (exponent : ℚ → ℤ) (few : bits.toNat < 2 ^ 30)
    (short : integer.toNat < 2 ^ 30) (more : 2 ≤ bits.toNat) :
    IsBalanced exponent (fixedPoint bits integer true) := by
  have some : 1 ≤ bits.toNat := one_le_two.trans more
  have top := exactHighest_fixedPoint exponent few short fun _ : true = true => some
  have positive : 0 < highestNumber bits true :=
    (highestNumber_pos_iff some).mpr fun one => by omega
  have size : (0 : ℚ) < stepSize bits integer true := stepSize_pos
  refine ⟨?_, fun y bounded => ?_, fun y same => ?_, Or.inl ?_⟩
  · rw [top]
    exact mul_pos (Int.cast_pos.mpr positive) size
  · rw [top] at bounded ⊢
    have inside : |y / stepSize bits integer true| ≤ highestNumber bits true := by
      rw [abs_div_stepSize]
      exact (div_le_iff₀ size).mpr bounded
    rw [abs_exactLevel_fixedPoint few short some inside]
    exact mul_le_mul_of_nonneg_right (Int.cast_le.mpr (abs_round_le inside)) size.le
  · rw [top] at same ⊢
    have edge : |y / stepSize bits integer true| = highestNumber bits true := by
      rw [abs_div_stepSize, same, mul_div_cancel_right₀ _ size.ne']
    rw [abs_exactLevel_fixedPoint few short some edge.le, abs_round_eq edge, abs_of_pos positive]
  · have zero : Exact.round (0 / stepSize bits integer true) = 0 := by
      rw [zero_div]
      exact round_intCast 0
    have bounded : |0 / stepSize bits integer true| ≤ highestNumber bits true := by
      rw [zero_div, abs_zero]
      exact_mod_cast positive.le
    rw [← abs_eq_zero, abs_exactLevel_fixedPoint few short some bounded, zero, abs_zero,
      Int.cast_zero, zero_mul]

end Levels

end QuantNet
