import QuantNet.Proofs.Tensor.Rescaling

/-!
# Outcomes of a quantizer

Whether a tensor can be quantized is a matter of its shape and of the configuration alone.  The
outcome has, element by element, what the levels make of the element at its scale.
-/

namespace QuantNet

variable {α : Type} [Scalar α]

theorem Shape.isStorable_replicate_one (n : Nat) : isStorable (List.replicate n 1) = true := by
  have extent : extent (List.replicate n 1) = 1 := by
    induction n with
    | zero => rfl
    | succ n inductionHypothesis =>
        rw [List.replicate_succ, Shape.extent, inductionHypothesis]
        rfl
  have size := size_le_extent (List.replicate n 1)
  rw [extent] at size
  rw [isStorable, isAddressable, extent, Bool.and_eq_true, addressLimit]
  exact ⟨decide_eq_true (by omega), decide_eq_true (by omega)⟩

namespace QuantizerConfig

variable {config : QuantizerConfig α} {data other : Tensor α} {outcome : Quantized α}
  {index : List Nat}

theorem quantize?_eq_some (quantized : config.quantize? data = some outcome) :
    outcome.values.shape = data.shape ∧ outcome.scale = config.scale data := by
  unfold quantize? at quantized
  split at quantized
  · obtain rfl := Option.some.inj quantized
    exact ⟨rfl, rfl⟩
  · cases quantized

theorem get_of_quantize? (done : config.quantize? data = some outcome)
    (inside : data.shape.InBounds index) :
    outcome.values.get index = (config.scale data).stretched index *
      config.levels.level (data.get index / (config.scale data).stretched index) := by
  unfold quantize? at done
  split at done
  · obtain rfl := Option.some.inj done
    exact Tensor.get_ofFn _ inside
  · cases done

theorem isSome_quantize?_iff :
    (config.quantize? data).isSome ↔
      (config.scaleShape data).isStorable = true ∧ config.hasLevels data = true := by
  unfold quantize?
  split
  · next fits => simpa using fits
  · next fails => simpa using fails

theorem scaleShape_of_shape_eq (same : other.shape = data.shape) :
    config.scaleShape other = config.scaleShape data := by
  simp only [scaleShape, Tensor.rank, same]

theorem isSome_quantize?_of_shape_eq (same : other.shape = data.shape)
    (quantizable : (config.quantize? data).isSome) : (config.quantize? other).isSome := by
  rw [isSome_quantize?_iff] at quantizable ⊢
  have size : other.data.isEmpty = data.data.isEmpty := by
    rw [Bool.eq_iff_iff, Array.isEmpty_iff_size_eq_zero, Array.isEmpty_iff_size_eq_zero,
      other.size_data, data.size_data, same]
  have levels : config.hasLevels other = config.hasLevels data := by
    simp only [hasLevels, size]
  rwa [scaleShape_of_shape_eq same, levels]

/-- A fixed scale factor asks for no more levels than any other. -/
theorem hasLevels_setAlpha_one (levels : config.hasLevels data = true) :
    (config.setAlpha .one).hasLevels data = true := by
  unfold hasLevels at levels ⊢
  cases kind : config.levels with
  | binary | ternary => simp only [setAlpha, kind]
  | fixedPoint bits integer keepNegative =>
      simp only [setAlpha, kind, Bool.and_eq_true, Bool.or_eq_true] at levels ⊢
      obtain ⟨countable, ordered⟩ := levels
      exact ⟨countable.imp_right fun fixed => ⟨fixed.1, rfl⟩, ordered⟩

/-- What can be quantized can be quantized at unit scale. -/
theorem isSome_quantize?_setAlpha_one (quantizable : (config.quantize? data).isSome) :
    ((config.setAlpha .one).quantize? data).isSome := by
  rw [isSome_quantize?_iff] at quantizable ⊢
  exact ⟨Shape.isStorable_replicate_one data.rank, hasLevels_setAlpha_one quantizable.2⟩

theorem stretched_scale_setAlpha_one (inside : data.shape.InBounds index) :
    ((config.setAlpha .one).scale data).stretched index = 1 :=
  Tensor.stretched_ofFn _ ((config.setAlpha .one).stretches_scale data) inside

end QuantizerConfig

end QuantNet
