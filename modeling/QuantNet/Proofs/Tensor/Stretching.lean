import Mathlib.Data.List.Forall2
import QuantNet.Tensor.Shape

/-!
# Stretching shapes

A shape stretches to another if each of its axes, aligned from the last one on, has size one or the
size of its partner.  This orders the shapes, and the common shape of two shapes is the least one
that both stretch to.
-/

namespace QuantNet.Shape

/-- Whether a shape, written from the last axis on, stretches to another. -/
def StretchesReversed : Shape → Shape → Prop
  | [], _ => True
  | _ :: _, [] => False
  | l :: left, r :: right => (l = 1 ∨ l = r) ∧ StretchesReversed left right

/-- Whether a shape stretches to another. -/
def Stretches (left right : Shape) : Prop :=
  StretchesReversed left.reverse right.reverse

namespace StretchesReversed

theorem refl : ∀ shape : Shape, StretchesReversed shape shape
  | [] => trivial
  | _ :: rest => ⟨Or.inr rfl, refl rest⟩

theorem trans : ∀ {a b c : Shape},
    StretchesReversed a b → StretchesReversed b c → StretchesReversed a c
  | [], _, _, _, _ => trivial
  | _ :: _, _ :: _, _ :: _, ⟨here, rest⟩, ⟨further, others⟩ => by
      refine ⟨?_, trans rest others⟩
      rcases here with one | rfl
      · exact Or.inl one
      · exact further

theorem antisymm : ∀ {a b : Shape}, StretchesReversed a b → StretchesReversed b a → a = b
  | [], [], _, _ => rfl
  | l :: left, r :: right, ⟨here, rest⟩, ⟨back, others⟩ => by
      rw [antisymm rest others]
      congr 1
      rcases here with one | same
      · rcases back with other | same
        · rw [one, other]
        · exact same.symm
      · exact same

theorem length_le : ∀ {a b : Shape}, StretchesReversed a b → a.length ≤ b.length
  | [], _, _ => Nat.zero_le _
  | _ :: _, _ :: _, ⟨_, rest⟩ => Nat.succ_le_succ (length_le rest)

theorem of_join : ∀ {a b c : Shape}, joinReversed? a b = some c →
    StretchesReversed a c ∧ StretchesReversed b c
  | [], b, c, joined => by
      obtain rfl := Option.some.inj joined
      exact ⟨trivial, refl b⟩
  | l :: left, [], c, joined => by
      obtain rfl := Option.some.inj joined
      exact ⟨refl (l :: left), trivial⟩
  | l :: left, r :: right, c, joined => by
      obtain ⟨d, axis, joined⟩ := Option.bind_eq_some_iff.mp joined
      obtain ⟨rest, others, joined⟩ := Option.bind_eq_some_iff.mp joined
      obtain rfl := Option.some.inj joined
      obtain ⟨leftRest, rightRest⟩ := of_join others
      have sizes : (l = 1 ∨ l = d) ∧ (r = 1 ∨ r = d) := by
        unfold joinAxis? at axis
        grind
      exact ⟨⟨sizes.1, leftRest⟩, ⟨sizes.2, rightRest⟩⟩

theorem join : ∀ {a b d : Shape}, StretchesReversed a d → StretchesReversed b d →
    ∃ c, joinReversed? a b = some c ∧ StretchesReversed c d
  | [], b, _, _, second => ⟨b, rfl, second⟩
  | l :: left, [], _, first, _ => ⟨l :: left, rfl, first⟩
  | l :: left, r :: right, e :: rest, ⟨here, first⟩, ⟨there, second⟩ => by
      obtain ⟨c, joined, below⟩ := join first second
      have axis : ∃ d, joinAxis? l r = some d ∧ (d = 1 ∨ d = e) := by
        unfold joinAxis?
        grind
      obtain ⟨d, sizes, fits⟩ := axis
      exact ⟨d :: c, by simp [joinReversed?, sizes, joined], fits, below⟩

end StretchesReversed

namespace Stretches

variable {a b c d shape larger : Shape} {index : List Nat}

theorem refl (shape : Shape) : shape.Stretches shape :=
  StretchesReversed.refl shape.reverse

theorem trans (first : a.Stretches b) (second : b.Stretches c) : a.Stretches c :=
  StretchesReversed.trans first second

theorem antisymm (first : a.Stretches b) (second : b.Stretches a) : a = b :=
  List.reverse_injective (StretchesReversed.antisymm first second)

theorem length_le (stretches : a.Stretches b) : a.length ≤ b.length := by
  have reversed := StretchesReversed.length_le stretches
  rwa [List.length_reverse, List.length_reverse] at reversed

theorem of_join (joined : join? a b = some c) : a.Stretches c ∧ b.Stretches c := by
  obtain ⟨reversed, found, rfl⟩ := Option.map_eq_some_iff.mp joined
  have both := StretchesReversed.of_join found
  rwa [Stretches, Stretches, List.reverse_reverse]

/-- Two shapes have a common shape if they stretch to any shape at all, and it stretches to that
one. -/
theorem join (first : a.Stretches d) (second : b.Stretches d) :
    ∃ c, join? a b = some c ∧ c.Stretches d := by
  obtain ⟨reversed, joined, below⟩ := StretchesReversed.join first second
  refine ⟨reversed.reverse, by rw [join?, joined, Option.map_some], ?_⟩
  rwa [Stretches, List.reverse_reverse]

/-- A shape that stretches to another adds nothing to it. -/
theorem join_eq_left (below : b.Stretches a) : join? a b = some a := by
  obtain ⟨c, joined, least⟩ := join (refl a) below
  rw [joined, antisymm (of_join joined).1 least]

end Stretches

/-! ## The index that a stretched shape reads -/

/-- The position that an axis is read at. -/
def pullAxis (i d : Nat) : Nat :=
  if d = 1 then 0 else i

theorem inBounds_iff_forall₂ : ∀ {shape : Shape} {index : List Nat},
    InBounds shape index ↔ List.Forall₂ (fun d i => i < d) shape index
  | [], [] => by simp [InBounds]
  | [], _ :: _ => by simp [InBounds]
  | _ :: _, [] => by simp [InBounds]
  | d :: shape, i :: index => by
      rw [InBounds, List.forall₂_cons, inBounds_iff_forall₂]

theorem InBounds.length_eq {shape : Shape} {index : List Nat} (inside : shape.InBounds index) :
    index.length = shape.length :=
  (inBounds_iff_forall₂.mp inside).length_eq.symm

theorem pull_eq {shape : Shape} {index : List Nat} (same : index.length = shape.length) :
    shape.pull index = index.zipWith pullAxis shape := by
  rw [pull, same, Nat.sub_self, List.drop_zero]
  rfl

private theorem reverse_pull {shape : Shape} {index : List Nat}
    (covers : shape.length ≤ index.length) :
    (shape.pull index).reverse = index.reverse.zipWith pullAxis shape.reverse := by
  have same : (index.drop (index.length - shape.length)).length = shape.length := by
    rw [List.length_drop]
    omega
  have shorter : (index.drop (index.length - shape.length)).reverse =
      index.reverse.take shape.length := by
    rw [List.reverse_drop]
    congr 1
    omega
  have cut : ∀ (xs ys : List Nat), (xs.take ys.length).zipWith pullAxis ys =
      xs.zipWith pullAxis ys := by
    intro xs ys
    induction ys generalizing xs with
    | nil => simp
    | cons y ys inductionHypothesis =>
        cases xs with
        | nil => rfl
        | cons x xs => simp [inductionHypothesis]
  have pulled : shape.pull index =
      (index.drop (index.length - shape.length)).zipWith pullAxis shape :=
    rfl
  rw [pulled, List.reverse_zipWith same, shorter]
  have size : shape.length = shape.reverse.length := List.length_reverse.symm
  rw [size, cut]

theorem pull_self {shape : Shape} {index : List Nat} (inside : shape.InBounds index) :
    shape.pull index = index := by
  rw [pull_eq inside.length_eq]
  rw [inBounds_iff_forall₂] at inside
  induction inside with
  | nil => rfl
  | @cons d i shape index below _ inductionHypothesis =>
      rw [List.zipWith_cons_cons, inductionHypothesis]
      congr 1
      unfold pullAxis
      split <;> omega

private theorem zipWith_pullAxis_zipWith : ∀ {shape larger : Shape} (index : List Nat),
    StretchesReversed shape larger →
      (index.zipWith pullAxis larger).zipWith pullAxis shape = index.zipWith pullAxis shape
  | [], _, _, _ => by simp
  | _ :: _, _ :: _, [], _ => rfl
  | d :: shape, e :: larger, i :: index, ⟨here, rest⟩ => by
      rw [List.zipWith_cons_cons, List.zipWith_cons_cons, List.zipWith_cons_cons,
        zipWith_pullAxis_zipWith index rest]
      congr 1
      unfold pullAxis
      rcases here with rfl | rfl
      · simp
      · split <;> rfl

theorem length_pull {shape : Shape} {index : List Nat} (covers : shape.length ≤ index.length) :
    (shape.pull index).length = shape.length := by
  rw [pull, List.length_zipWith, List.length_drop]
  omega

/-- Reading through a larger shape reads the same index. -/
theorem pull_pull {shape larger : Shape} {index : List Nat} (stretches : shape.Stretches larger)
    (covers : larger.length ≤ index.length) :
    shape.pull (larger.pull index) = shape.pull index := by
  have shorter := stretches.length_le
  have through : shape.length ≤ (larger.pull index).length := by
    rw [length_pull covers]
    exact shorter
  apply List.reverse_injective
  rw [reverse_pull through, reverse_pull covers, reverse_pull (Nat.le_trans shorter covers),
    zipWith_pullAxis_zipWith _ stretches]

private theorem forall₂_pullAxis : ∀ {shape larger : Shape} {index : List Nat},
    StretchesReversed shape larger → List.Forall₂ (fun d i => i < d) larger index →
      List.Forall₂ (fun d i => i < d) shape (index.zipWith pullAxis shape)
  | [], _, _, _, _ => by simp
  | d :: shape, e :: larger, i :: index, ⟨here, rest⟩, .cons below inside => by
      rw [List.zipWith_cons_cons]
      refine .cons ?_ (forall₂_pullAxis rest inside)
      unfold pullAxis
      rcases here with rfl | rfl
      · simp
      · split <;> omega

/-- The index that is read lies inside the shape that is stretched. -/
theorem Stretches.inBounds_pull {shape larger : Shape} {index : List Nat}
    (stretches : shape.Stretches larger) (inside : larger.InBounds index) :
    shape.InBounds (shape.pull index) := by
  have covers : shape.length ≤ index.length := by
    rw [inside.length_eq]
    exact stretches.length_le
  have reversed := List.forall₂_reverse_iff.mpr (inBounds_iff_forall₂.mp inside)
  have pulled := forall₂_pullAxis stretches reversed
  rw [← reverse_pull covers] at pulled
  exact inBounds_iff_forall₂.mpr (List.forall₂_reverse_iff.mp pulled)

/-! ## Extents of stretched shapes -/

theorem extent_append : ∀ left right : Shape, extent (left ++ right) = extent left * extent right
  | [], right => (Nat.one_mul _).symm
  | d :: left, right => by
      rw [List.cons_append, extent, extent, extent_append left right, Nat.mul_assoc]

private theorem extent_reverse : ∀ shape : Shape, extent shape.reverse = extent shape
  | [] => rfl
  | d :: rest => by
      rw [List.reverse_cons, extent_append, extent_reverse rest]
      simp only [extent, Nat.mul_one]
      exact Nat.mul_comm _ _

theorem extent_pos : ∀ shape : Shape, 0 < extent shape
  | [] => Nat.one_pos
  | d :: rest => by
      have positive : 0 < if d = 0 then 1 else d := by
        split <;> omega
      exact Nat.mul_pos positive (extent_pos rest)

theorem StretchesReversed.extent_le : ∀ {left right : Shape},
    StretchesReversed left right → extent left ≤ extent right
  | [], right, _ => extent_pos right
  | l :: left, r :: right, ⟨here, rest⟩ => by
      rw [extent, extent]
      refine Nat.mul_le_mul ?_ (extent_le rest)
      rcases here with rfl | rfl
      · split <;> split <;> omega
      · exact Nat.le_refl _

/-- A shape that stretches to an addressable one is addressable. -/
theorem Stretches.isAddressable {shape larger : Shape} (stretches : shape.Stretches larger)
    (addressable : larger.isAddressable = true) :
    shape.isAddressable = true := by
  have extents := StretchesReversed.extent_le stretches
  rw [extent_reverse, extent_reverse] at extents
  have bound := of_decide_eq_true addressable
  exact decide_eq_true (Nat.le_trans extents bound)

end QuantNet.Shape
