import Mathlib.Algebra.Order.Field.Rat
import QuantNet.Scalar.Exact
import QuantNet.Scalar.Total

/-!
# Laws of exact arithmetic

What the meaning of a graph rests on when no operation rounds.  Floating point has none of these
laws, rational numbers have all of them.
-/

namespace QuantNet.Scalar

/-- The laws of a field that rewriting a graph relies on. -/
structure Lawful (α : Type) [Scalar α] : Prop where
  add_assoc : ∀ x y z : α, x + y + z = x + (y + z)
  add_zero : ∀ x : α, x + 0 = x
  mul_assoc : ∀ x y z : α, x * y * z = x * (y * z)
  mul_comm : ∀ x y : α, x * y = y * x
  mul_add : ∀ x y z : α, x * (y + z) = x * y + x * z
  mul_zero : ∀ x : α, x * 0 = 0
  mul_one_div : ∀ x s : α, x * (1 / s) = x / s
  mul_div_cancel : ∀ x s : α, s ≠ 0 → s * (x / s) = x

private theorem map_blocks {β γ : Type} (f : β → γ) (size : Nat) :
    ∀ (count : Nat) (terms : List β),
      (blocks size count terms).map (List.map f) = blocks size count (terms.map f)
  | 0, _ => rfl
  | count + 1, terms => by
      rw [blocks, blocks, List.map_cons, map_blocks f size count, List.map_take, List.map_drop]

namespace Lawful

variable {α : Type} [Scalar α]

theorem one_mul (laws : Lawful α) (nonzero : (1 : α) ≠ 0) (x : α) : 1 * x = x := by
  have back : ∀ y : α, 1 * (y / 1) = y := fun y => laws.mul_div_cancel y 1 nonzero
  calc
    1 * x = x * 1 := laws.mul_comm 1 x
    _ = x * (1 / 1 * 1) := by rw [laws.mul_comm (1 / 1) 1, back]
    _ = 1 * (x * (1 / 1)) := by rw [← laws.mul_assoc, laws.mul_comm _ 1]
    _ = x := by rw [laws.mul_one_div, back]

theorem div_one (laws : Lawful α) (nonzero : (1 : α) ≠ 0) (x : α) : x / 1 = x := by
  rw [← laws.one_mul nonzero (x / 1), laws.mul_div_cancel x 1 nonzero]

/-- A factor of a product that was divided by it before. -/
theorem mul_of_undone (laws : Lawful α) {factor divided whole : α}
    (undone : factor * divided = whole) (x : α) :
    factor * (x * divided) = x * whole := by
  rw [← undone, ← laws.mul_assoc, ← laws.mul_assoc, laws.mul_comm factor x]

/-- A factor is multiplied into a sum term by term. -/
theorem mul_total (laws : Lawful α) (factor : α) (terms : List α) :
    factor * total terms = total (terms.map (factor * ·)) := by
  have from_any : ∀ (terms : List α) (sum : α),
      factor * terms.foldl (fun sum term => sum + term) sum =
        (terms.map (factor * ·)).foldl (fun sum term => sum + term) (factor * sum) := by
    intro terms
    induction terms with
    | nil =>
        intro sum
        rfl
    | cons term rest inductionHypothesis =>
        intro sum
        rw [List.foldl_cons, inductionHypothesis, laws.mul_add, List.map_cons, List.foldl_cons]
  rw [total, total, from_any, laws.mul_zero]

theorem mul_blockTotal (laws : Lawful α) (size : Nat) (factor : α) (terms : List α) :
    factor * blockTotal size terms = blockTotal size (terms.map (factor * ·)) := by
  have totals : (factor * ·) ∘ total = total ∘ List.map (factor * ·) := by
    funext block
    exact laws.mul_total factor block
  rw [blockTotal, blockTotal, laws.mul_total, List.length_map, List.map_map, totals,
    ← List.map_map, map_blocks]

end Lawful

end QuantNet.Scalar

namespace QuantNet.Exact

/-- Rational arithmetic is lawful, whatever the binary logarithm of a number is taken to be. -/
theorem lawful (exponent : ℚ → ℤ) : Scalar.Lawful (Number exponent) where
  add_assoc := Rat.add_assoc
  add_zero := Rat.add_zero
  mul_assoc := Rat.mul_assoc
  mul_comm := Rat.mul_comm
  mul_add := Rat.mul_add
  mul_zero := Rat.mul_zero
  mul_one_div := fun (x s : ℚ) => mul_one_div x s
  mul_div_cancel := fun (x _ : ℚ) nonzero => mul_div_cancel₀ x nonzero

theorem number_one_ne_zero (exponent : ℚ → ℤ) : (1 : Number exponent) ≠ 0 :=
  (one_ne_zero : (1 : ℚ) ≠ 0)

theorem eq_one (exponent : ℚ → ℤ) : Scalar.eq (1 : Number exponent) 1 = true :=
  decide_eq_true rfl

/-! ## Sums -/

variable {exponent : ℚ → ℤ}

theorem total_eq_sum (exponent : ℚ → ℤ) (terms : List ℚ) :
    @Scalar.total (Number exponent) _ terms = terms.sum := by
  have fold : terms.sum = terms.foldl (fun sum term => sum + term) 0 := List.sum_eq_foldl
  exact fold.symm

/-- Sums that do not round can be taken by blocks. -/
theorem blockTotal_eq_total {size : Nat} (positive : 0 < size) (terms : List (Number exponent)) :
    Scalar.blockTotal size terms = Scalar.total terms := by
  have sums : @Scalar.total (Number exponent) _ = @List.sum ℚ _ _ :=
    funext (total_eq_sum exponent)
  have parts : ∀ blocks : List (List ℚ), (blocks.map List.sum).sum = blocks.flatten.sum :=
    fun _ => List.sum_flatten.symm
  have whole := Scalar.flatten_blocks_blockCount positive terms
  rw [Scalar.blockTotal, sums]
  exact (parts _).trans (congrArg List.sum whole)

/-! ## Comparisons -/

theorem lt_iff (x y : ℚ) : @Scalar.lt (Number exponent) _ x y = true ↔ x < y :=
  decide_eq_true_iff

theorem le_iff (x y : ℚ) : @Scalar.le (Number exponent) _ x y = true ↔ x ≤ y :=
  decide_eq_true_iff

theorem eq_zero_of_not_lt {x : Number exponent} (notNegative : ¬ Scalar.lt x 0 = true)
    (notPositive : ¬ Scalar.lt 0 x = true) : x = 0 := by
  have between : ∀ q : ℚ, ¬ q < 0 → ¬ 0 < q → q = 0 := fun q below above =>
    le_antisymm (not_lt.mp above) (not_lt.mp below)
  exact between x (fun below => notNegative ((lt_iff x 0).mpr below)) fun above =>
    notPositive ((lt_iff 0 x).mpr above)

end QuantNet.Exact
