import QuantNet.Proofs.Tensor.Fusion

/-!
# Joint maps as composition

Two affine maps have a joint map if their scales stretch to one addressable shape, and the second
scale and both biases to another.  Whatever the maps have been applied to is such a shape, so in
exact arithmetic the joint map is their composition as partial maps: one after the other has a value
exactly where there is a joint map that has it.  This is the value that layers with a scale and a
bias have when a graph is evaluated.

Three maps ask the same of their shapes in either grouping, so that neither grouping can fail alone
and both end in the same scale and the same bias.
-/

namespace QuantNet

/-- Tensors that stretch to the same shapes and show the same there are equal. -/
theorem Tensor.ext_stretched {α : Type} [Zero α] {tensor other : Tensor α}
    (shapes : ∀ shape : Shape, tensor.shape.Stretches shape ↔ other.shape.Stretches shape)
    (elements : ∀ index, tensor.shape.InBounds index →
      tensor.stretched index = other.stretched index) :
    tensor = other := by
  have forth : tensor.shape.Stretches other.shape := (shapes _).mpr (.refl _)
  have back : other.shape.Stretches tensor.shape := (shapes _).mp (.refl _)
  have same : tensor.shape = other.shape := forth.antisymm back
  apply Tensor.ext_get same
  intro index inside
  have within : other.shape.InBounds index := same ▸ inside
  rw [← stretched_self inside, ← stretched_self within]
  exact elements index inside

namespace Affine

section Joining

variable {α : Type} [Scalar α] {first second third front back fused whole other : Affine α}
  {x middle result : Tensor α} {scale bias : Shape}

/-- Shapes that can be addressed and hold what the scale and the bias of a joint map are made of. -/
structure Hold (first second : Affine α) (scale bias : Shape) : Prop where
  scale_addressable : scale.isAddressable = true
  bias_addressable : bias.isAddressable = true
  firstScale : first.scale.shape.Stretches scale
  nextScale : second.scale.shape.Stretches scale
  factor : second.scale.shape.Stretches bias
  firstBias : first.bias.shape.Stretches bias
  nextBias : second.bias.shape.Stretches bias

/-- A joint map exists if there are shapes that hold it. -/
theorem Hold.exists_andThen (hold : Hold first second scale bias) :
    ∃ fused, first.andThen second = .ok fused := by
  obtain ⟨product, multiplied⟩ := Tensor.exists_zipWith? (fun s₀ s₁ => s₀ * s₁)
    hold.firstScale hold.nextScale hold.scale_addressable
  obtain ⟨shifted, shift⟩ := Tensor.exists_zipWith? (fun s₁ b₀ => s₁ * b₀)
    hold.factor hold.firstBias hold.bias_addressable
  have onward : shifted.shape.Stretches bias :=
    Tensor.stretches_zipWith? shift hold.factor hold.firstBias
  obtain ⟨sum, added⟩ := Tensor.exists_zipWith? (fun b₀ b₁ => b₀ + b₁)
    onward hold.nextBias hold.bias_addressable
  exact ⟨⟨product, sum⟩, andThen_eq_ok_iff.mpr ⟨shifted, multiplied, shift, added⟩⟩

/-- A joint map is held by its own shapes. -/
theorem hold_of_andThen (joint : first.andThen second = .ok fused) :
    Hold first second fused.scale.shape fused.bias.shape := by
  have scales := (scale_stretches_andThen_iff joint).mp (.refl _)
  have biases := (bias_stretches_andThen_iff joint).mp (.refl _)
  obtain ⟨_, multiplied, _, added⟩ := andThen_eq_ok_iff.mp joint
  constructor
  case scale_addressable => exact (Tensor.join_of_zipWith? multiplied).2
  case bias_addressable => exact (Tensor.join_of_zipWith? added).2
  case firstScale => exact scales.1
  case nextScale => exact scales.2
  case factor => exact biases.1
  case firstBias => exact biases.2.1
  case nextBias => exact biases.2.2

/-- Maps that have been applied one after the other have a joint map. -/
theorem exists_andThen_of_value? (firstValue : first.value? x = some middle)
    (nextValue : second.value? middle = some result) :
    ∃ fused, first.andThen second = .ok fused := by
  obtain ⟨_, firstScale, firstBias, _⟩ := stretches_of_value? firstValue
  obtain ⟨onward, nextScale, nextBias, addressable⟩ := stretches_of_value? nextValue
  have hold : Hold first second result.shape result.shape :=
    { scale_addressable := addressable
      bias_addressable := addressable
      firstScale := firstScale.trans onward
      nextScale := nextScale
      factor := nextScale
      firstBias := firstBias.trans onward
      nextBias := nextBias }
  exact hold.exists_andThen

/-! ## Either grouping -/

/-- The shapes that hold a joint map of three, in either grouping. -/
structure HoldAll (first second third : Affine α) (scale bias : Shape) : Prop where
  scale_addressable : scale.isAddressable = true
  bias_addressable : bias.isAddressable = true
  scales : first.scale.shape.Stretches scale ∧ second.scale.shape.Stretches scale ∧
    third.scale.shape.Stretches scale
  factors : second.scale.shape.Stretches bias ∧ third.scale.shape.Stretches bias
  biases : first.bias.shape.Stretches bias ∧ second.bias.shape.Stretches bias ∧
    third.bias.shape.Stretches bias

/-- What holds the joint map of a front and a third map holds all three. -/
private theorem holdAll_iff_of_front (front_eq : first.andThen second = .ok front) :
    Hold front third scale bias ↔ HoldAll first second third scale bias := by
  constructor
  · intro hold
    have scales := (scale_stretches_andThen_iff front_eq).mp hold.firstScale
    have biases := (bias_stretches_andThen_iff front_eq).mp hold.firstBias
    exact ⟨hold.scale_addressable, hold.bias_addressable, ⟨scales.1, scales.2, hold.nextScale⟩,
      ⟨biases.1, hold.factor⟩, ⟨biases.2.1, biases.2.2, hold.nextBias⟩⟩
  · intro all
    have firstScale := (scale_stretches_andThen_iff front_eq).mpr
      ⟨all.scales.1, all.scales.2.1⟩
    have firstBias := (bias_stretches_andThen_iff front_eq).mpr
      ⟨all.factors.1, all.biases.1, all.biases.2.1⟩
    exact ⟨all.scale_addressable, all.bias_addressable, firstScale, all.scales.2.2,
      all.factors.2, firstBias, all.biases.2.2⟩

/-- What holds the joint map of a first map and a back holds all three. -/
private theorem holdAll_iff_of_back (back_eq : second.andThen third = .ok back) :
    Hold first back scale bias ↔ HoldAll first second third scale bias := by
  constructor
  · intro hold
    have scales := (scale_stretches_andThen_iff back_eq).mp hold.nextScale
    have factors := (scale_stretches_andThen_iff back_eq).mp hold.factor
    have biases := (bias_stretches_andThen_iff back_eq).mp hold.nextBias
    exact ⟨hold.scale_addressable, hold.bias_addressable, ⟨hold.firstScale, scales.1, scales.2⟩,
      factors, ⟨hold.firstBias, biases.2.1, biases.2.2⟩⟩
  · intro all
    have nextScale := (scale_stretches_andThen_iff back_eq).mpr all.scales.2
    have factor := (scale_stretches_andThen_iff back_eq).mpr all.factors
    have nextBias := (bias_stretches_andThen_iff back_eq).mpr ⟨all.factors.2, all.biases.2⟩
    exact ⟨all.scale_addressable, all.bias_addressable, all.scales.1, nextScale, factor,
      all.biases.1, nextBias⟩

/-- Any two of three maps that follow each other have a joint map if all three are held. -/
private theorem HoldAll.exists_front (all : HoldAll first second third scale bias) :
    ∃ front, first.andThen second = .ok front := by
  have hold : Hold first second scale bias :=
    ⟨all.scale_addressable, all.bias_addressable, all.scales.1, all.scales.2.1, all.factors.1,
      all.biases.1, all.biases.2.1⟩
  exact hold.exists_andThen

private theorem HoldAll.exists_back (all : HoldAll first second third scale bias) :
    ∃ back, second.andThen third = .ok back := by
  have hold : Hold second third scale bias :=
    ⟨all.scale_addressable, all.bias_addressable, all.scales.2.1, all.scales.2.2, all.factors.2,
      all.biases.2.1, all.biases.2.2⟩
  exact hold.exists_andThen

/-- Both groupings of three maps stretch to the same shapes. -/
theorem stretches_iff_of_groupings (front_eq : first.andThen second = .ok front)
    (whole_eq : front.andThen third = .ok whole) (back_eq : second.andThen third = .ok back)
    (other_eq : first.andThen back = .ok other) (shape : Shape) :
    (whole.scale.shape.Stretches shape ↔ other.scale.shape.Stretches shape) ∧
      (whole.bias.shape.Stretches shape ↔ other.bias.shape.Stretches shape) := by
  constructor
  · rw [scale_stretches_andThen_iff whole_eq, scale_stretches_andThen_iff front_eq,
      scale_stretches_andThen_iff other_eq, scale_stretches_andThen_iff back_eq, and_assoc]
  · rw [bias_stretches_andThen_iff whole_eq, bias_stretches_andThen_iff front_eq,
      bias_stretches_andThen_iff other_eq, bias_stretches_andThen_iff back_eq,
      scale_stretches_andThen_iff back_eq]
    tauto

/-- Both groupings of three maps end in the same map. -/
theorem eq_of_groupings (laws : Scalar.Lawful α) (front_eq : first.andThen second = .ok front)
    (whole_eq : front.andThen third = .ok whole) (back_eq : second.andThen third = .ok back)
    (other_eq : first.andThen back = .ok other) :
    whole = other := by
  have shapes := stretches_iff_of_groupings front_eq whole_eq back_eq other_eq
  have scales : whole.scale = other.scale := by
    apply Tensor.ext_stretched fun shape => (shapes shape).1
    intro index inside
    have whole_fits : whole.scale.shape.Stretches whole.scale.shape := .refl _
    have front_fits := ((scale_stretches_andThen_iff whole_eq).mp whole_fits).1
    have other_fits := (shapes _).1.mp whole_fits
    have back_fits := ((scale_stretches_andThen_iff other_eq).mp other_fits).2
    rw [stretched_scale_andThen whole_eq whole_fits inside,
      stretched_scale_andThen front_eq front_fits inside,
      stretched_scale_andThen other_eq other_fits inside,
      stretched_scale_andThen back_eq back_fits inside]
    exact laws.mul_assoc _ _ _
  have biases : whole.bias = other.bias := by
    apply Tensor.ext_stretched fun shape => (shapes shape).2
    intro index inside
    have whole_fits : whole.bias.shape.Stretches whole.bias.shape := .refl _
    have front_fits := ((bias_stretches_andThen_iff whole_eq).mp whole_fits).2.1
    have other_fits := (shapes _).2.mp whole_fits
    have back_fits := (bias_stretches_andThen_iff other_eq).mp other_fits
    rw [stretched_bias_andThen whole_eq whole_fits inside,
      stretched_bias_andThen front_eq front_fits inside,
      stretched_bias_andThen other_eq other_fits inside,
      stretched_scale_andThen back_eq back_fits.1 inside,
      stretched_bias_andThen back_eq back_fits.2.2 inside]
    generalize first.bias.stretched index = b₀
    generalize second.scale.stretched index = s₁
    generalize second.bias.stretched index = b₁
    generalize third.scale.stretched index = s₂
    generalize third.bias.stretched index = b₂
    calc
      s₂ * (s₁ * b₀ + b₁) + b₂ = s₂ * (s₁ * b₀) + s₂ * b₁ + b₂ := by rw [laws.mul_add]
      _ = s₂ * (s₁ * b₀) + (s₂ * b₁ + b₂) := laws.add_assoc _ _ _
      _ = s₁ * s₂ * b₀ + (s₂ * b₁ + b₂) := by rw [← laws.mul_assoc, laws.mul_comm s₂ s₁]
  cases whole
  cases other
  rw [mk.injEq]
  exact ⟨scales, biases⟩

/-- Where one grouping of three maps ends in a map, so does the other, and in the same map. -/
theorem andThen_assoc (laws : Scalar.Lawful α) (first second third whole : Affine α) :
    (∃ front, first.andThen second = .ok front ∧ front.andThen third = .ok whole) ↔
      ∃ back, second.andThen third = .ok back ∧ first.andThen back = .ok whole := by
  constructor
  · intro grouped
    obtain ⟨front, front_eq, whole_eq⟩ := grouped
    have all := (holdAll_iff_of_front front_eq).mp (hold_of_andThen whole_eq)
    obtain ⟨back, back_eq⟩ := all.exists_back
    obtain ⟨other, other_eq⟩ := ((holdAll_iff_of_back back_eq).mpr all).exists_andThen
    have same := eq_of_groupings laws front_eq whole_eq back_eq other_eq
    exact ⟨back, back_eq, same ▸ other_eq⟩
  · intro grouped
    obtain ⟨back, back_eq, other_eq⟩ := grouped
    have all := (holdAll_iff_of_back back_eq).mp (hold_of_andThen other_eq)
    obtain ⟨front, front_eq⟩ := all.exists_front
    obtain ⟨other, whole_eq⟩ := ((holdAll_iff_of_front front_eq).mpr all).exists_andThen
    have same := eq_of_groupings laws front_eq whole_eq back_eq other_eq
    exact ⟨front, front_eq, same ▸ whole_eq⟩

/-- One map after the other has a value exactly where they have a joint map with that value. -/
theorem value?_bind_iff (laws : Scalar.Lawful α) (first second : Affine α) (x result : Tensor α) :
    (∃ middle, first.value? x = some middle ∧ second.value? middle = some result) ↔
      ∃ fused, first.andThen second = .ok fused ∧ fused.value? x = some result := by
  constructor
  · intro values
    obtain ⟨middle, firstValue, nextValue⟩ := values
    obtain ⟨fused, joint⟩ := exists_andThen_of_value? firstValue nextValue
    have value : (first.value? x).bind second.value? = some result :=
      Option.bind_eq_some_iff.mpr ⟨middle, firstValue, nextValue⟩
    exact ⟨fused, joint, (value?_andThen laws joint x).trans value⟩
  · intro values
    obtain ⟨fused, joint, value⟩ := values
    rw [value?_andThen laws joint x] at value
    exact Option.bind_eq_some_iff.mp value

end Joining

/-- In exact arithmetic joining is composition.  One map after the other has a value exactly where
their joint map exists and has it, and of three maps both groupings exist together and are equal. -/
theorem andThen_is_composition {exponent : ℚ → ℤ}
    (first second third : Affine (Exact.Number exponent)) :
    (∀ x result : Tensor (Exact.Number exponent),
      (∃ middle, first.value? x = some middle ∧ second.value? middle = some result) ↔
        ∃ fused, first.andThen second = .ok fused ∧ fused.value? x = some result) ∧
      ∀ whole : Affine (Exact.Number exponent),
        (∃ front, first.andThen second = .ok front ∧ front.andThen third = .ok whole) ↔
          ∃ back, second.andThen third = .ok back ∧ first.andThen back = .ok whole := by
  have laws := Exact.lawful exponent
  constructor
  · exact value?_bind_iff laws first second
  · exact andThen_assoc laws first second third

end Affine

end QuantNet
