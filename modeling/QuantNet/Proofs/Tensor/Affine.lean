import Mathlib.Tactic.Linarith
import QuantNet.Proofs.Scalar.Laws
import QuantNet.Proofs.Tensor.Elements
import QuantNet.Tensor.Affine

/-!
# Values of affine maps

An affine map has a value wherever its scale and its bias stretch with the tensor to a shape that
can be addressed, and the value shows at every index what the two make of the tensor there.  So two
maps of the same shapes have the same values if they show the same wherever both can be read.
-/

namespace QuantNet

/-! ## Either tensor first -/

namespace Shape

private theorem joinAxis?_comm (l r : Nat) : joinAxis? l r = joinAxis? r l := by
  unfold joinAxis?
  grind

private theorem joinReversed?_comm : ∀ left right : Shape,
    joinReversed? left right = joinReversed? right left
  | [], [] => rfl
  | [], _ :: _ => rfl
  | _ :: _, [] => rfl
  | l :: left, r :: right => by
      rw [joinReversed?, joinReversed?, joinAxis?_comm, joinReversed?_comm left right]

theorem join?_comm (left right : Shape) : join? left right = join? right left := by
  rw [join?, join?, joinReversed?_comm]

end Shape

theorem Tensor.zipWith?_swap {α : Type} [Zero α] (f : α → α → α) (left right : Tensor α) :
    zipWith? f left right = zipWith? (fun r l => f l r) right left := by
  rw [zipWith?, zipWith?, Shape.join?_comm]

/-- Two tensors can be combined if two others of their shapes can, and to the same shape. -/
theorem Tensor.zipWith?_of_shapes {α : Type} [Zero α] {f : α → α → α} (g : α → α → α)
    {left right result left' right' : Tensor α} (combined : zipWith? f left right = some result)
    (leftShape : left'.shape = left.shape) (rightShape : right'.shape = right.shape) :
    ∃ result', zipWith? g left' right' = some result' ∧ result'.shape = result.shape := by
  obtain ⟨joined, addressable⟩ := join_of_zipWith? combined
  let made := ofFn result.shape fun index => g (left'.stretched index) (right'.stretched index)
  refine ⟨made, ?_, rfl⟩
  rw [zipWith?, leftShape, rightShape, joined, Option.filter_some, if_pos addressable,
    Option.map_some]

namespace Affine

section Values

variable {α : Type} [Scalar α] {map other : Affine α} {x y : Tensor α}

theorem value?_eq_some_iff :
    map.value? x = some y ↔
      ∃ scaled, Tensor.zipWith? (fun x s => s * x) x map.scale = some scaled ∧
        Tensor.zipWith? (fun x b => x + b) scaled map.bias = some y := by
  rw [value?, Tensor.zipWith?_swap (fun s x => s * x)]
  exact Option.bind_eq_some_iff

/-- The tensor, the scale and the bias stretch to the value, which can be addressed. -/
theorem stretches_of_value? (value : map.value? x = some y) :
    x.shape.Stretches y.shape ∧ map.scale.shape.Stretches y.shape ∧
      map.bias.shape.Stretches y.shape ∧ y.shape.isAddressable = true := by
  obtain ⟨scaled, multiplied, added⟩ := value?_eq_some_iff.mp value
  obtain ⟨x_scaled, scale_scaled⟩ := Tensor.stretches_of_zipWith? multiplied
  obtain ⟨scaled_y, bias_y⟩ := Tensor.stretches_of_zipWith? added
  exact ⟨x_scaled.trans scaled_y, scale_scaled.trans scaled_y, bias_y,
    (Tensor.join_of_zipWith? added).2⟩

/-- The value stretches to everything that the tensor, the scale and the bias stretch to. -/
theorem stretches_value? (value : map.value? x = some y) {shape : Shape}
    (source : x.shape.Stretches shape) (scale : map.scale.shape.Stretches shape)
    (bias : map.bias.shape.Stretches shape) :
    y.shape.Stretches shape := by
  obtain ⟨scaled, multiplied, added⟩ := value?_eq_some_iff.mp value
  exact Tensor.stretches_zipWith? added (Tensor.stretches_zipWith? multiplied source scale) bias

/-- A map has a value if all stretches to some shape that can be addressed. -/
theorem exists_value? {shape : Shape} (addressable : shape.isAddressable = true)
    (source : x.shape.Stretches shape) (scale : map.scale.shape.Stretches shape)
    (bias : map.bias.shape.Stretches shape) :
    ∃ y, map.value? x = some y := by
  obtain ⟨scaled, multiplied⟩ :=
    Tensor.exists_zipWith? (fun x s => s * x) source scale addressable
  have scaledStretches := Tensor.stretches_zipWith? multiplied source scale
  obtain ⟨y, added⟩ :=
    Tensor.exists_zipWith? (fun x b => x + b) scaledStretches bias addressable
  exact ⟨y, value?_eq_some_iff.mpr ⟨scaled, multiplied, added⟩⟩

/-- What the value shows wherever it is stretched to. -/
theorem stretched_value? (value : map.value? x = some y) {shape : Shape} {index : List Nat}
    (stretches : y.shape.Stretches shape) (inside : shape.InBounds index) :
    y.stretched index =
      map.scale.stretched index * x.stretched index + map.bias.stretched index := by
  obtain ⟨scaled, multiplied, added⟩ := value?_eq_some_iff.mp value
  have scaledStretches := (Tensor.stretches_of_zipWith? added).1.trans stretches
  rw [Tensor.stretched_zipWith? added stretches inside,
    Tensor.stretched_zipWith? multiplied scaledStretches inside]

theorem get_value? (value : map.value? x = some y) {index : List Nat}
    (inside : y.shape.InBounds index) :
    y.get index = map.scale.stretched index * x.stretched index + map.bias.stretched index := by
  rw [← Tensor.stretched_self inside]
  exact stretched_value? value (Shape.Stretches.refl _) inside

/-! ## Maps that agree -/

/-- Scale and bias have the same shapes in both maps. -/
structure Alike (map other : Affine α) : Prop where
  scale : other.scale.shape = map.scale.shape
  bias : other.bias.shape = map.bias.shape

/-- Wherever scale and bias can be read together, both maps show the same. -/
def Agrees (map other : Affine α) : Prop :=
  ∀ ⦃shape : Shape⦄, shape.isAddressable = true → map.scale.shape.Stretches shape →
    map.bias.shape.Stretches shape → ∀ ⦃index⦄, shape.InBounds index →
      other.scale.stretched index = map.scale.stretched index ∧
        other.bias.stretched index = map.bias.stretched index

@[simp]
theorem Agrees.refl (map : Affine α) : map.Agrees map :=
  fun _ _ _ _ _ _ => ⟨rfl, rfl⟩

/-- Where a map has a value, a map of the same shapes has one of the same shape. -/
theorem Alike.exists_value? (alike : map.Alike other) (value : map.value? x = some y) :
    ∃ z, other.value? x = some z ∧ z.shape = y.shape := by
  obtain ⟨scaled, multiplied, added⟩ := value?_eq_some_iff.mp value
  obtain ⟨scaled', multiplied', same⟩ :=
    Tensor.zipWith?_of_shapes (fun x s => s * x) multiplied (rfl : x.shape = x.shape) alike.scale
  obtain ⟨z, added', shape⟩ := Tensor.zipWith?_of_shapes (fun x b => x + b) added same alike.bias
  exact ⟨z, value?_eq_some_iff.mpr ⟨scaled', multiplied', added'⟩, shape⟩

theorem Agrees.value? (agrees : map.Agrees other) (alike : map.Alike other)
    (value : map.value? x = some y) :
    other.value? x = some y := by
  obtain ⟨z, there, shape⟩ := alike.exists_value? value
  obtain ⟨_, scale, bias, addressable⟩ := stretches_of_value? value
  have same : z = y := by
    refine Tensor.ext_get shape fun index inside => ?_
    have within : y.shape.InBounds index := shape ▸ inside
    obtain ⟨sameScale, sameBias⟩ := agrees addressable scale bias within
    rw [get_value? there inside, get_value? value within, sameScale, sameBias]
  rw [there, same]

end Values

/-! ## Maps with the same values -/

section Exact

variable {exponent : ℚ → ℤ}

/-- In exact arithmetic a map is known from its values at zeros and at ones. -/
theorem agrees_of_value? {map other : Affine (Exact.Number exponent)}
    (values : ∀ x y, map.value? x = some y → other.value? x = some y) : map.Agrees other := by
  intro shape addressable scale bias index inside
  have shown : ∀ c : Exact.Number exponent,
      other.scale.stretched index * c + other.bias.stretched index =
        map.scale.stretched index * c + map.bias.stretched index := by
    intro c
    obtain ⟨y, value⟩ := exists_value? (x := .fill shape c) addressable (.refl shape) scale bias
    have stretches := stretches_value? value (.refl shape) scale bias
    have filled : (Tensor.fill shape c).stretched index = c :=
      Tensor.stretched_ofFn _ (.refl shape) inside
    have here := stretched_value? value stretches inside
    have there := stretched_value? (values _ _ value) stretches inside
    rw [filled] at here there
    exact there.symm.trans here
  have known : ∀ s b s' b' : ℚ, s * 0 + b = s' * 0 + b' → s * 1 + b = s' * 1 + b' →
      s = s' ∧ b = b' := by
    intro s b s' b' zero one
    constructor <;> linarith
  exact known _ _ _ _ (shown 0) (shown 1)

end Exact

end Affine

end QuantNet
