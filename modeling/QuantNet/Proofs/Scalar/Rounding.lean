import Mathlib.Data.Int.ConditionallyCompleteOrder
import Mathlib.Data.Rat.Floor
import Mathlib.Tactic.Linarith
import QuantNet.Proofs.Scalar.Laws

/-!
# Rounding

A number is within one half of the integer that it is rounded to.  Of the integers between two
bounds, none is closer to the number than the rounded one, kept between the bounds.
-/

namespace QuantNet.Exact

variable {low high : ℤ} {x : ℚ}

private theorem round_le_add_half (x : ℚ) : (round x : ℚ) ≤ x + 1 / 2 := by
  rw [round]
  split
  · have above := Int.lt_floor_add_one (-x + 1 / 2)
    push_cast
    linarith
  · exact Int.floor_le (x + 1 / 2)

private theorem sub_half_le_round (x : ℚ) : x - 1 / 2 ≤ round x := by
  rw [round]
  split
  · have below := Int.floor_le (-x + 1 / 2)
    push_cast
    linarith
  · have above := Int.lt_floor_add_one (x + 1 / 2)
    linarith

theorem round_mono : Monotone round := by
  intro x y less
  by_contra greater
  -- Between integers that far apart there is room for one number only.
  have apart : round y + 1 ≤ round x := not_le.mp greater
  have far : (round y : ℚ) + 1 ≤ round x := by exact_mod_cast apart
  have below := sub_half_le_round y
  have above := round_le_add_half x
  have same : x = y := by linarith
  rw [same] at apart
  omega

theorem round_intCast (k : ℤ) : round (k : ℚ) = k := by
  rw [round]
  split
  · have half : ⌊-(k : ℚ) + 1 / 2⌋ = -k := by
      rw [← Int.cast_neg, Int.floor_intCast_add]
      norm_num
    rw [half, neg_neg]
  · rw [Int.floor_intCast_add]
    norm_num

/-- The integer nearest to a number is no larger than the integers that bound the number. -/
theorem abs_round_le {x : ℚ} {bound : ℤ} (bounded : |x| ≤ bound) : |round x| ≤ bound := by
  obtain ⟨below, above⟩ := abs_le.mp bounded
  have low := round_mono (by exact_mod_cast below : ((-bound : ℤ) : ℚ) ≤ x)
  have high := round_mono above
  rw [round_intCast] at low high
  exact abs_le.mpr ⟨low, high⟩

theorem abs_round_eq {x : ℚ} {bound : ℤ} (same : |x| = bound) : |round x| = |bound| := by
  rcases abs_choice x with plus | minus
  · rw [← plus, same, round_intCast]
  · have negated : x = ((-bound : ℤ) : ℚ) := by
      rw [Int.cast_neg, ← same, minus, neg_neg]
    rw [negated, round_intCast, abs_neg]

/-- An integer of a range to which none of the range is closer to a number. -/
structure Nearest (range : Set ℤ) (x : ℚ) (number : ℤ) : Prop where
  mem : number ∈ range
  closest : ∀ other ∈ range, |x - number| ≤ |x - other|

/-- Of the multiples of a number by the integers of a range, none is closer than the nearest. -/
theorem Nearest.scaled {range : Set ℤ} {number : ℤ} {unit : ℚ}
    (nearest : Nearest range (x / unit) number) (nonzero : unit ≠ 0) {other : ℤ}
    (among : other ∈ range) : |x - unit * number| ≤ |x - unit * other| := by
  have distance : ∀ k : ℤ, |x - unit * k| = |unit| * |x / unit - k| := by
    intro k
    rw [← abs_mul, mul_sub, mul_div_cancel₀ x nonzero]
  rw [distance, distance]
  exact mul_le_mul_of_nonneg_left (nearest.closest other among) (abs_nonneg unit)

/-- The nearest integer between two others. -/
def roundBetween (low high : ℤ) (x : ℚ) : ℤ :=
  max low (min high (round x))

theorem roundBetween_mono (low high : ℤ) : Monotone (roundBetween low high) :=
  fun _ _ less => max_le_max le_rfl (min_le_min le_rfl (round_mono less))

theorem mem_roundBetween (ordered : low ≤ high) (x : ℚ) :
    roundBetween low high x ∈ Set.Icc low high :=
  ⟨le_max_left _ _, max_le ordered (min_le_left _ _)⟩

theorem roundBetween_intCast {low high k : ℤ} (among : k ∈ Set.Icc low high) :
    roundBetween low high (k : ℚ) = k := by
  rw [roundBetween, round_intCast, min_eq_right among.2, max_eq_right among.1]

/-- Only numbers beyond the upper end are further above. -/
theorem le_roundBetween_add_half (room : roundBetween low high x < high) :
    x ≤ roundBetween low high x + 1 / 2 := by
  have below : min high (round x) ≤ roundBetween low high x := le_max_right _ _
  have rounded : round x ≤ roundBetween low high x :=
    (min_le_iff.mp below).resolve_left (not_le.mpr room)
  have cast : (round x : ℚ) ≤ roundBetween low high x := by exact_mod_cast rounded
  linarith [sub_half_le_round x]

/-- Only numbers beyond the lower end are further below. -/
theorem roundBetween_sub_half_le (room : low < roundBetween low high x) :
    roundBetween low high x - 1 / 2 ≤ x := by
  have above : roundBetween low high x ≤ max low (round x) :=
    max_le_max le_rfl (min_le_right _ _)
  have rounded : roundBetween low high x ≤ round x :=
    (le_max_iff.mp above).resolve_left (not_le.mpr room)
  have cast : (roundBetween low high x : ℚ) ≤ round x := by exact_mod_cast rounded
  linarith [round_le_add_half x]

theorem nearest_roundBetween (ordered : low ≤ high) (x : ℚ) :
    Nearest (Set.Icc low high) x (roundBetween low high x) := by
  refine ⟨mem_roundBetween ordered x, fun other among => ?_⟩
  rcases lt_trichotomy (roundBetween low high x) other with above | same | below
  · have half := le_roundBetween_add_half (above.trans_le among.2)
    have step : (roundBetween low high x : ℚ) + 1 ≤ other := by exact_mod_cast above
    have far := neg_le_abs (x - other)
    exact abs_le.mpr ⟨by linarith, by linarith⟩
  · rw [same]
  · have half := roundBetween_sub_half_le (among.1.trans_lt below)
    have step : (other : ℚ) + 1 ≤ roundBetween low high x := by exact_mod_cast below
    have far := le_abs_self (x - other)
    exact abs_le.mpr ⟨by linarith, by linarith⟩

/-- Keeping a number between two others. -/
theorem clamp_eq {exponent : ℚ → ℤ} {least most : ℚ} (ordered : least ≤ most) (x : ℚ) :
    @Scalar.clamp (Number exponent) _ least most x = max least (min most x) := by
  by_cases below : x < least
  · have clamped : @Scalar.clamp (Number exponent) _ least most x = least :=
      if_pos ((lt_iff x least).mpr below)
    rw [clamped, max_eq_left ((min_le_right most x).trans below.le)]
  have notBelow : ¬ @Scalar.lt (Number exponent) _ x least = true :=
    (lt_iff x least).not.mpr below
  by_cases above : most < x
  · have clamped : @Scalar.clamp (Number exponent) _ least most x = most :=
      (if_neg notBelow).trans (if_pos ((lt_iff most x).mpr above))
    rw [clamped, min_eq_left above.le, max_eq_right ordered]
  · have clamped : @Scalar.clamp (Number exponent) _ least most x = x :=
      (if_neg notBelow).trans (if_neg ((lt_iff most x).not.mpr above))
    rw [clamped, min_eq_right (not_lt.mp above), max_eq_right (not_lt.mp below)]

end QuantNet.Exact
