import QuantNet.Proofs.Computation
import QuantNet.Proofs.Tensor.Affine

/-!
# Two affine maps in one

In exact arithmetic the joint map of two affine maps has the value of the second for the value of
the first, and no other values.
-/

namespace QuantNet.Affine

variable {α : Type} [Scalar α] {first second fused first' second' : Affine α}
  {x y middle result : Tensor α}

@[simp]
theorem combine_eq_ok_iff {f : α → α → α} {left right combined : Tensor α} :
    combine f left right = .ok combined ↔ Tensor.zipWith? f left right = some combined := by
  unfold combine
  cases Tensor.zipWith? f left right <;> simp

/-- The scale and the bias of a joint map, and the tensor on the way to the bias. -/
theorem andThen_eq_ok_iff :
    first.andThen second = .ok fused ↔
      ∃ shifted,
        Tensor.zipWith? (fun s₀ s₁ => s₀ * s₁) first.scale second.scale = some fused.scale ∧
          Tensor.zipWith? (fun s₁ b₀ => s₁ * b₀) second.scale first.bias = some shifted ∧
            Tensor.zipWith? (fun b₀ b₁ => b₀ + b₁) shifted second.bias = some fused.bias := by
  simp only [andThen, except_bind_eq_ok, combine_eq_ok_iff, except_pure_eq_ok]
  constructor
  · intro joint
    obtain ⟨scale, multiplied, shifted, shift, bias, added, rfl⟩ := joint
    exact ⟨shifted, multiplied, shift, added⟩
  · intro parts
    obtain ⟨shifted, multiplied, shift, added⟩ := parts
    exact ⟨_, multiplied, shifted, shift, _, added, rfl⟩

/-- Whether two maps have a joint map, and of which shapes, depends on their shapes alone. -/
theorem andThen_of_alike (alike : first.Alike first') (nextAlike : second.Alike second')
    (joint : first.andThen second = .ok fused) :
    ∃ fused', first'.andThen second' = .ok fused' ∧ fused.Alike fused' := by
  obtain ⟨shifted, multiplied, shift, added⟩ := andThen_eq_ok_iff.mp joint
  obtain ⟨scale, multiplied', scaleShape⟩ := Tensor.zipWith?_of_shapes (fun s₀ s₁ => s₀ * s₁)
    multiplied alike.scale nextAlike.scale
  obtain ⟨shifted', shift', shiftedShape⟩ := Tensor.zipWith?_of_shapes (fun s₁ b₀ => s₁ * b₀)
    shift nextAlike.scale alike.bias
  obtain ⟨bias, added', biasShape⟩ := Tensor.zipWith?_of_shapes (fun b₀ b₁ => b₀ + b₁)
    added shiftedShape nextAlike.bias
  exact ⟨⟨scale, bias⟩, andThen_eq_ok_iff.mpr ⟨shifted', multiplied', shift', added'⟩, scaleShape,
    biasShape⟩

/-- The scale of a joint map stretches wherever both scales do. -/
theorem scale_stretches_andThen_iff (joint : first.andThen second = .ok fused) {shape : Shape} :
    fused.scale.shape.Stretches shape ↔
      first.scale.shape.Stretches shape ∧ second.scale.shape.Stretches shape := by
  obtain ⟨_, multiplied, _, _⟩ := andThen_eq_ok_iff.mp joint
  have parts := Tensor.stretches_of_zipWith? multiplied
  constructor
  · intro scale
    exact ⟨parts.1.trans scale, parts.2.trans scale⟩
  · intro scales
    exact Tensor.stretches_zipWith? multiplied scales.1 scales.2

/-- The bias of a joint map stretches wherever the second scale and both biases do. -/
theorem bias_stretches_andThen_iff (joint : first.andThen second = .ok fused) {shape : Shape} :
    fused.bias.shape.Stretches shape ↔
      second.scale.shape.Stretches shape ∧ first.bias.shape.Stretches shape ∧
        second.bias.shape.Stretches shape := by
  obtain ⟨shifted, _, shift, added⟩ := andThen_eq_ok_iff.mp joint
  have factors := Tensor.stretches_of_zipWith? shift
  have summands := Tensor.stretches_of_zipWith? added
  constructor
  · intro bias
    have onward : shifted.shape.Stretches shape := summands.1.trans bias
    exact ⟨factors.1.trans onward, factors.2.trans onward, summands.2.trans bias⟩
  · intro parts
    have onward := Tensor.stretches_zipWith? shift parts.1 parts.2.1
    exact Tensor.stretches_zipWith? added onward parts.2.2

/-- A joint map stretches wherever both of its maps do. -/
theorem stretches_andThen_iff (joint : first.andThen second = .ok fused) {shape : Shape} :
    fused.scale.shape.Stretches shape ∧ fused.bias.shape.Stretches shape ↔
      (first.scale.shape.Stretches shape ∧ first.bias.shape.Stretches shape) ∧
        second.scale.shape.Stretches shape ∧ second.bias.shape.Stretches shape := by
  rw [scale_stretches_andThen_iff joint, bias_stretches_andThen_iff joint]
  constructor
  · intro parts
    exact ⟨⟨parts.1.1, parts.2.2.1⟩, parts.1.2, parts.2.2.2⟩
  · intro parts
    exact ⟨⟨parts.1.1, parts.2.1⟩, parts.2.1, parts.1.2, parts.2.2⟩

/-- What the scale of a joint map shows wherever it is stretched to. -/
theorem stretched_scale_andThen (joint : first.andThen second = .ok fused) {shape : Shape}
    {index : List Nat} (scale : fused.scale.shape.Stretches shape)
    (inside : shape.InBounds index) :
    fused.scale.stretched index =
      first.scale.stretched index * second.scale.stretched index := by
  obtain ⟨_, multiplied, _, _⟩ := andThen_eq_ok_iff.mp joint
  exact Tensor.stretched_zipWith? multiplied scale inside

/-- What the bias of a joint map shows wherever it is stretched to. -/
theorem stretched_bias_andThen (joint : first.andThen second = .ok fused) {shape : Shape}
    {index : List Nat} (bias : fused.bias.shape.Stretches shape)
    (inside : shape.InBounds index) :
    fused.bias.stretched index =
      second.scale.stretched index * first.bias.stretched index +
        second.bias.stretched index := by
  obtain ⟨shifted, _, shift, added⟩ := andThen_eq_ok_iff.mp joint
  have onward := (Tensor.stretches_of_zipWith? added).1.trans bias
  rw [Tensor.stretched_zipWith? added bias inside, Tensor.stretched_zipWith? shift onward inside]

/-- The value of a joint map is that of the second map for the value of the first. -/
theorem eq_of_andThen
    (laws : Scalar.Lawful α) (joint : first.andThen second = .ok fused)
    (value : fused.value? x = some y) (firstValue : first.value? x = some middle)
    (nextValue : second.value? middle = some result) : y = result := by
  obtain ⟨x_y, scale_y, bias_y, _⟩ := stretches_of_value? value
  obtain ⟨x_middle, s₀_middle, b₀_middle, _⟩ := stretches_of_value? firstValue
  obtain ⟨middle_result, s₁_result, b₁_result, _⟩ := stretches_of_value? nextValue
  -- The two tensors stretch to each other.
  obtain ⟨⟨s₀_y, b₀_y⟩, s₁_y, b₁_y⟩ := (stretches_andThen_iff joint).mp ⟨scale_y, bias_y⟩
  have middle_y := stretches_value? firstValue x_y s₀_y b₀_y
  have result_y := stretches_value? nextValue middle_y s₁_y b₁_y
  obtain ⟨scale_result, bias_result⟩ := (stretches_andThen_iff joint).mpr
    ⟨⟨s₀_middle.trans middle_result, b₀_middle.trans middle_result⟩, s₁_result, b₁_result⟩
  have y_result := stretches_value? value (x_middle.trans middle_result) scale_result bias_result
  have values : ∀ s₀ s₁ b₀ b₁ x : α,
      s₀ * s₁ * x + (s₁ * b₀ + b₁) = s₁ * (s₀ * x + b₀) + b₁ := by
    intro s₀ s₁ b₀ b₁ x
    rw [laws.mul_add, laws.add_assoc, laws.mul_comm s₀ s₁, laws.mul_assoc]
  have shapes := y_result.antisymm result_y
  refine Tensor.ext_get shapes fun index inside => ?_
  have within : result.shape.InBounds index := shapes ▸ inside
  have scale := stretched_scale_andThen joint scale_y inside
  have bias := stretched_bias_andThen joint bias_y inside
  calc y.get index
      = fused.scale.stretched index * x.stretched index + fused.bias.stretched index :=
        get_value? value inside
    _ = first.scale.stretched index * second.scale.stretched index * x.stretched index +
          (second.scale.stretched index * first.bias.stretched index +
            second.bias.stretched index) := by
        rw [scale, bias]
    _ = second.scale.stretched index *
            (first.scale.stretched index * x.stretched index + first.bias.stretched index) +
          second.bias.stretched index :=
        values _ _ _ _ _
    _ = second.scale.stretched index * middle.stretched index + second.bias.stretched index := by
        rw [stretched_value? firstValue middle_y inside]
    _ = result.get index :=
        (get_value? nextValue within).symm

/-- The joint map is defined wherever the two maps are, one after the other, and has the same
value. -/
theorem value?_andThen (laws : Scalar.Lawful α) (joint : first.andThen second = .ok fused)
    (x : Tensor α) :
    fused.value? x = (first.value? x).bind second.value? := by
  apply Option.ext
  intro y
  rw [Option.bind_eq_some_iff]
  constructor
  · intro value
    obtain ⟨source, scale, bias, addressable⟩ := stretches_of_value? value
    obtain ⟨⟨s₀, b₀⟩, s₁, b₁⟩ := (stretches_andThen_iff joint).mp ⟨scale, bias⟩
    obtain ⟨middle, firstValue⟩ := exists_value? addressable source s₀ b₀
    have onward := stretches_value? firstValue source s₀ b₀
    obtain ⟨result, nextValue⟩ := exists_value? addressable onward s₁ b₁
    exact ⟨middle, firstValue, eq_of_andThen laws joint value firstValue nextValue ▸ nextValue⟩
  · rintro ⟨middle, firstValue, nextValue⟩
    obtain ⟨source, s₀, b₀, _⟩ := stretches_of_value? firstValue
    obtain ⟨onward, s₁, b₁, addressable⟩ := stretches_of_value? nextValue
    obtain ⟨scale, bias⟩ := (stretches_andThen_iff joint).mpr
      ⟨⟨s₀.trans onward, b₀.trans onward⟩, s₁, b₁⟩
    obtain ⟨result, value⟩ := exists_value? addressable (source.trans onward) scale bias
    exact eq_of_andThen laws joint value firstValue nextValue ▸ value

end QuantNet.Affine
