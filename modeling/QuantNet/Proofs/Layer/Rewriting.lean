import QuantNet.Proofs.Layer.Evaluation
import QuantNet.Proofs.Pass.Ownership
import QuantNet.Proofs.Quantizer.Outcome

/-!
# Layers before and after a rewrite

In exact arithmetic a layer at unit scale, followed by the node with its scale, has the value of the
layer, and modes have no bearing on a value.
-/

namespace QuantNet

/-- Whether the stored weights of a scaled layer are what its quantizer makes of the unquantized
ones. -/
def Node.Requantizes {α : Type} [Scalar α] (node : Node α) : Prop :=
  ScaleFactorization.isScaled node = true → ∀ weight unquantized quantizer outcome,
    node.weights.get? .weight = some weight → weight.unquantized = some unquantized →
      weight.quantizer = some quantizer →
        quantizer.config.quantize? unquantized = some outcome → weight.data = outcome.values

variable {α : Type} [Scalar α] {node : Node α} {x y : Tensor α}

/-- The weights that a quantizer has made are what it makes again. -/
theorem Node.requantizes_of_quantized?
    {weight : Weight α} {unquantized : Tensor α} {quantizer : WeightQuantizer α}
    (made : Weight.quantized? unquantized quantizer = some weight)
    (native : quantizer.encoding = .native) (stored : node.weights.get? .weight = some weight) :
    node.Requantizes := by
  obtain ⟨outcome, quantized, rfl⟩ := Option.map_eq_some_iff.mp made
  intro _ weight original other result there kept same requantized
  rw [stored, Option.some.injEq] at there
  subst there
  obtain rfl := Option.some.inj kept
  obtain rfl := Option.some.inj same
  obtain rfl := Option.some.inj (quantized.symm.trans requantized)
  rw [native, Encoding.encode_native]

/-! ## A layer at unit scale -/

namespace ScaleFactorization

variable {unit : Weight α} {scale data quotient : Tensor α} {bias : Option (Weight α)}

/-- A weighted layer combines its input with its weights, channel by channel. -/
private theorem exists_product (laws : Scalar.Lawful α) (weighted : node.kind.isWeighted = true) :
    ∃ product : Product α, product.Channelwise ∧
      ∀ other : Node α, other.kind = node.kind → ∀ x,
        other.evaluate x = other.applyWeight product x := by
  cases kind : node.kind with
  | dense =>
      refine ⟨.matrix, Product.channelwise_matrix laws, fun other same x => ?_⟩
      rw [Node.evaluate, same]
  | conv1D =>
      refine ⟨.convolution1D, Product.channelwise_convolution1D laws, fun other same x => ?_⟩
      rw [Node.evaluate, same]
  | conv2D =>
      refine ⟨.convolution2D, Product.channelwise_convolution2D laws, fun other same x => ?_⟩
      rw [Node.evaluate, same]
  | input | batchNormalization | applyAlpha | activation =>
      rw [kind] at weighted
      cases weighted

theorem factorized_eq_ok (factor : factorized node = .ok (unit, scale)) :
    ∃ weight unquantized quantizer outcome,
      node.weights.get? .weight = some weight ∧ weight.unquantized = some unquantized ∧
        weight.quantizer = some quantizer ∧
          quantizer.config.quantize? unquantized = some outcome ∧
            unit = unitWeight weight quantizer outcome ∧ scale = outcome.scale.flatten := by
  unfold factorized missing at factor
  split at factor
  · cases factor
  · next weight stored =>
      split at factor
      · cases factor
      · cases factor
      · next unquantized quantizer kept quantized =>
          split at factor
          · cases factor
          · next outcome result =>
              obtain ⟨rfl, rfl⟩ := Prod.mk.inj (Except.ok.inj factor)
              exact ⟨weight, unquantized, quantizer, outcome, stored, kept, quantized, result, rfl,
                rfl⟩

theorem divided_eq_ok (done : divided node scale data = .ok quotient) :
    Tensor.zipWith? (fun b s => b / s) data scale = some quotient ∧
      quotient.shape = data.shape := by
  unfold divided at done
  split at done
  · next result combined =>
      split at done
      · next same =>
          obtain rfl := Except.ok.inj done
          exact ⟨combined, same⟩
      · cases done
  · cases done

/-- A weight and the same weight divided by a scale, with its unquantized values. -/
structure DividedBy (scale : Tensor α) (old new : Weight α) : Prop where
  quantizer : new.quantizer = old.quantizer
  data : Tensor.zipWith? (fun b s => b / s) old.data scale = some new.data
  shape : new.data.shape = old.data.shape
  unquantized : old.unquantized = none ∧ new.unquantized = none ∨
    ∃ whole quotient, old.unquantized = some whole ∧ new.unquantized = some quotient ∧
      Tensor.zipWith? (fun b s => b / s) whole scale = some quotient ∧
        quotient.shape = whole.shape

theorem rescaledBias_eq_ok (done : rescaledBias node scale = .ok bias) :
    node.weights.get? .bias = none ∧ bias = none ∨
      ∃ old new, node.weights.get? .bias = some old ∧ bias = some new ∧
        DividedBy scale old new := by
  cases stored : node.weights.get? .bias with
  | none =>
      rw [rescaledBias_of_none stored] at done
      exact Or.inl ⟨rfl, (Except.ok.inj done).symm⟩
  | some old =>
      rw [rescaledBias_of_some stored] at done
      obtain ⟨data, first, rest⟩ := except_bind_eq_ok.mp done
      obtain ⟨combined, same⟩ := divided_eq_ok first
      refine Or.inr ⟨old, ?_⟩
      split at rest
      · next none =>
          obtain rfl := except_pure_eq_ok.mp rest
          exact ⟨_, rfl, rfl, rfl, combined, same, Or.inl ⟨none, none⟩⟩
      · next whole kept =>
          obtain ⟨quotient, second, result⟩ := except_bind_eq_ok.mp rest
          obtain ⟨divided, shape⟩ := divided_eq_ok second
          obtain rfl := except_pure_eq_ok.mp result
          exact ⟨_, rfl, rfl, rfl, combined, same,
            Or.inr ⟨whole, quotient, kept, rfl, divided, shape⟩⟩

theorem weight_unitNode (unit : Weight α) (bias : Option (Weight α)) :
    (unitNode node unit bias).weights.get? .weight = some unit := by
  cases bias with
  | none => exact (Table.get?_insert _ _ _ _).trans (if_pos rfl)
  | some new =>
      refine (Table.get?_insert _ _ _ _).trans ((if_neg (by decide)).trans ?_)
      exact (Table.get?_insert _ _ _ _).trans (if_pos rfl)

theorem bias_unitNode (unit : Weight α) (bias : Option (Weight α)) :
    (unitNode node unit bias).weights.get? .bias = bias.or (node.weights.get? .bias) := by
  cases bias with
  | none => exact (Table.get?_insert _ _ _ _).trans (if_neg (by decide))
  | some new => exact (Table.get?_insert _ _ _ _).trans (if_pos rfl)

theorem native_unitNode
    (native : node.Native) (factor : factorized node = .ok (unit, scale))
    (done : rescaledBias node scale = .ok bias) :
    (unitNode node unit bias).Native := by
  obtain ⟨weight, unquantized, quantizer, outcome, stored, _, quantized, _, rfl, _⟩ :=
    factorized_eq_ok factor
  have weighted : (node.withWeight .weight (unitWeight weight quantizer outcome)).Native := by
    refine native.withWeight fun other same => ?_
    obtain rfl := Option.some.inj same
    exact native .weight weight quantizer stored quantized
  rcases rescaledBias_eq_ok done with ⟨_, rfl⟩ | ⟨old, new, there, rfl, divided⟩
  · exact weighted
  · exact weighted.withWeight fun other same =>
      native .bias old other there (divided.quantizer ▸ same)

/-- The weights of the unit layer, multiplied by the scale, are the old ones. -/
private theorem mul_unscaled
    (laws : Scalar.Lawful α) {outcome : Quantized α} {rows : Shape} {channels k : Nat}
    (axes : outcome.values.shape = rows ++ [channels])
    (scaleAxes : outcome.scale.shape = List.replicate rows.length 1 ++ [k])
    (size : k = 1 ∨ k = channels) (nonzero : ∀ s ∈ outcome.scale.flatten.data, s ≠ 0)
    (leading : List Nat) (i : Nat)
    (inside : outcome.values.shape.InBounds (leading ++ [i])) :
    outcome.scale.flatten.stretched [i] * (unscaled outcome).get (leading ++ [i]) =
      outcome.values.get (leading ++ [i]) := by
  have flat : outcome.scale.flatten.shape = [k] := Tensor.shape_flatten_of_axes scaleAxes
  have same : leading.length = rows.length := by
    have length := inside.length_eq
    rw [axes, List.length_append, List.length_append] at length
    exact Nat.add_right_cancel length
  have shown : outcome.scale.stretched (leading ++ [i]) = outcome.scale.flatten.stretched [i] := by
    rw [← Tensor.stretched_flatten (same.symm ▸ scaleAxes) i, Tensor.stretched_singleton flat]
  have stretches : outcome.scale.flatten.shape.Stretches outcome.values.shape := by
    rw [flat, axes]
    exact Shape.stretches_concat size rows
  have unzero : outcome.scale.flatten.stretched [i] ≠ 0 := by
    rw [← Tensor.stretched_singleton flat leading]
    exact nonzero _ (Tensor.get_mem (stretches.inBounds_pull inside))
  rw [unscaled, Tensor.get_ofFn _ inside, shown, laws.mul_one_div, laws.mul_div_cancel _ _ unzero]

/-- The product of a layer with the weights of the unit layer, multiplied by the scale, is the old
product, and the scale has no zero where it meets the product. -/
private theorem mul_unit_product
    (laws : Scalar.Lawful α) {product : Product α} (channelwise : product.Channelwise)
    {outcome : Quantized α} {config : QuantizerConfig α} {unquantized : Tensor α}
    (quantized : config.quantize? unquantized = some outcome) {shape : Shape}
    (fits : product.shape x.shape outcome.values.shape = .ok shape)
    (nonzero : ∀ s ∈ outcome.scale.flatten.data, s ≠ 0) :
    outcome.scale.flatten.shape.Stretches shape ∧
      (∀ index, shape.InBounds index → outcome.scale.flatten.stretched index ≠ 0) ∧
        ∀ index, shape.InBounds index →
          outcome.scale.flatten.stretched index * product.element x (unscaled outcome) index =
            product.element x outcome.values index := by
  obtain ⟨rows, front, channels, axes, ends⟩ := channelwise.channels fits
  obtain ⟨sizes, made⟩ := QuantizerConfig.quantize?_eq_some quantized
  obtain ⟨k, size, scaleAxes⟩ := config.shape_scale (sizes.symm.trans axes)
  rw [← made] at scaleAxes
  have flat := Tensor.shape_flatten_of_axes scaleAxes
  have stretches : outcome.scale.flatten.shape.Stretches shape := by
    rw [flat, ends]
    exact Shape.stretches_concat size front
  refine ⟨stretches, fun index inside => ?_, fun index inside => ?_⟩
  · exact nonzero _ (Tensor.get_mem (stretches.inBounds_pull inside))
  · have concat := inside
    rw [ends] at concat
    obtain ⟨leading, i, rfl, _, _⟩ := concat.concat
    have undo := mul_unscaled laws axes scaleAxes size nonzero
    have sameShape : (unscaled outcome).shape = outcome.values.shape := rfl
    rw [Tensor.stretched_singleton flat]
    exact channelwise.factor (fun i => outcome.scale.flatten.stretched [i]) fits sameShape undo
      leading i inside

/-- What the unit layer makes of its share of a product is, multiplied by the scale, what the layer
makes of the whole product. -/
theorem addBias_unitNode
    (laws : Scalar.Lawful α) (native : node.Native)
    (unitNative : (unitNode node unit bias).Native) (done : rescaledBias node scale = .ok bias)
    {whole share : Tensor α} (shape : share.shape = whole.shape)
    (addressable : whole.shape.isAddressable = true)
    (stretches : scale.shape.Stretches whole.shape)
    (unzero : ∀ index, whole.shape.InBounds index → scale.stretched index ≠ 0)
    (shares : ∀ index, whole.shape.InBounds index →
      scale.stretched index * share.get index = whole.get index)
    (added : node.addBias whole = .ok y) :
    ∃ part, (unitNode node unit bias).addBias share = .ok part ∧
      ∃ product, Tensor.zipWith? (fun x s => s * x) part scale = some product ∧
        Tensor.zipWith? (fun x b => x + b) product (.fill scale.shape 0) = some y := by
  rw [Node.addBias_eq_ok_iff native] at added
  rcases rescaledBias_eq_ok done with ⟨absent, rfl⟩ | ⟨old, new, there, rfl, divided⟩
  · rcases added with ⟨_, rfl⟩ | ⟨_, present, _⟩
    · have sum : (unitNode node unit none).addBias share = .ok share := by
        rw [Node.addBias_eq_ok_iff unitNative, bias_unitNode]
        exact Or.inl ⟨absent, rfl⟩
      exact ⟨share, sum, Tensor.multiply_back laws shape addressable stretches shares⟩
    · rw [absent] at present
      cases present
  · rcases added with ⟨absent, _⟩ | ⟨other, present, sum⟩
    · rw [absent] at there
      cases there
    · obtain rfl := Option.some.inj (there.symm.trans present)
      obtain ⟨part, partSum, shapes, values⟩ :=
        Tensor.add_quotient laws sum shape stretches unzero shares divided.data divided.shape
      have unitSum : (unitNode node unit (some new)).addBias share = .ok part := by
        rw [Node.addBias_eq_ok_iff unitNative, bias_unitNode]
        exact Or.inr ⟨new, rfl, partSum⟩
      exact ⟨part, unitSum, Tensor.multiply_back laws shapes (Tensor.join_of_zipWith? sum).2
        (stretches.trans (Tensor.stretches_of_zipWith? sum).1) values⟩

/-- A layer at unit scale has a value wherever the layer has one, and multiplying the scale back in
gives the value of the layer. -/
theorem evaluate_unitNode
    (laws : Scalar.Lawful α) (native : node.Native) (requantizes : node.Requantizes)
    (scaled : isScaled node = true) (factor : factorized node = .ok (unit, scale))
    (done : rescaledBias node scale = .ok bias) (nonzero : ∀ s ∈ scale.data, s ≠ 0)
    (value : node.evaluate x = .ok y) :
    ∃ part, (unitNode node unit bias).evaluate x = .ok part ∧
      ∃ product, Tensor.zipWith? (fun x s => s * x) part scale = some product ∧
        Tensor.zipWith? (fun x b => x + b) product (.fill scale.shape 0) = some y := by
  have unitNative := native_unitNode native factor done
  obtain ⟨product, channelwise, evaluates⟩ := exists_product laws (isWeighted_of_scaled scaled)
  rw [evaluates node rfl, Node.applyWeight_eq_ok_iff native] at value
  obtain ⟨weight, shape, stored, fits, storable, added⟩ := value
  obtain ⟨other, unquantized, quantizer, outcome, again, kept, quantized, result, rfl, rfl⟩ :=
    factorized_eq_ok factor
  obtain rfl := Option.some.inj (stored.symm.trans again)
  have data := requantizes scaled _ _ _ _ stored kept quantized result
  have unitData : (unitWeight weight quantizer outcome).data = unscaled outcome := by
    have encoding := native .weight weight quantizer stored quantized
    unfold unitWeight
    dsimp only
    rw [encoding, Encoding.encode_native]
  rw [data] at fits added
  obtain ⟨stretches, unzero, undo⟩ := mul_unit_product laws channelwise result fits nonzero
  have addressable : shape.isAddressable = true := (Bool.and_eq_true_iff.mp storable).1
  let whole := Tensor.ofFn shape (product.element x outcome.values)
  let share := Tensor.ofFn shape (product.element x (unscaled outcome))
  have same : share.shape = whole.shape := rfl
  have shares : ∀ index, whole.shape.InBounds index →
      outcome.scale.flatten.stretched index * share.get index = whole.get index := by
    intro index inside
    have within : shape.InBounds index := inside
    have shown : share.get index = product.element x (unscaled outcome) index :=
      Tensor.get_ofFn _ within
    rw [shown, undo index within]
    exact (Tensor.get_ofFn _ within).symm
  obtain ⟨part, sum, back⟩ := addBias_unitNode laws native unitNative done same addressable
    stretches unzero shares added
  refine ⟨part, ?_, back⟩
  rw [evaluates _ (unitNode_resembles node _ bias).kind, Node.applyWeight_eq_ok_iff unitNative]
  refine ⟨_, shape, weight_unitNode _ bias, ?_, storable, ?_⟩
  · rw [unitData]
    exact fits
  · rw [unitData]
    exact sum

theorem native_alphaNode (id : NodeId) (node : Node α) (output : Output) (scale : Tensor α) :
    (alphaNode id node output scale).Native := by
  have single := Node.native_single .applyAlpha (node.name ++ suffix)
    (alphaAttrs node output.shape) [⟨id, 0⟩] output.shape output.precision
  exact (single.withWeight fun _ same => by cases same).withWeight fun _ same => by cases same

theorem scale_alphaNode (id : NodeId) (node : Node α) (output : Output) (scale : Tensor α) :
    (alphaNode id node output scale).weights.get? .scale = some { data := scale } :=
  (Table.get?_insert _ _ _ _).trans ((if_neg (by decide)).trans
    ((Table.get?_insert _ _ _ _).trans (if_pos rfl)))

@[simp]
theorem bias_alphaNode (id : NodeId) (node : Node α) (output : Output) (scale : Tensor α) :
    (alphaNode id node output scale).weights.get? .bias =
      some { data := .fill scale.shape 0 } :=
  (Table.get?_insert _ _ _ _).trans (if_pos rfl)

/-- The node with a scale multiplies it in and adds zero. -/
theorem evaluate_alphaNode (id : NodeId) (output : Output) {scale product : Tensor α}
    (multiplied : Tensor.zipWith? (fun x s => s * x) x scale = some product)
    (added : Tensor.zipWith? (fun x b => x + b) product (.fill scale.shape 0) = some y) :
    (alphaNode id node output scale).evaluate x = .ok y := by
  have native := native_alphaNode id node output scale
  have value : (alphaNode id node output scale).applyScale x = .ok y := by
    rw [Node.applyScale_eq_ok_iff native]
    refine ⟨{ data := scale }, product, scale_alphaNode id node output scale, multiplied, ?_⟩
    rw [Node.addBias_eq_ok_iff native]
    exact Or.inr ⟨_, bias_alphaNode id node output scale, added⟩
  rw [Node.evaluate_of_affine rfl, value]
  rfl

end ScaleFactorization

/-! ## A joint affine node -/

namespace AffineFusion

variable {first : Node α} {scale bias : Weight α}

omit [Scalar α] in
theorem native_fusedNode
    (native : first.Native) (hasScale : first.weights.get? .scale = some scale)
    (hasBias : first.weights.get? .bias = some bias) (fused : Affine α) :
    (fusedNode first scale bias fused).Native := by
  refine Node.Native.withWeight ?_ fun quantizer same => native .bias bias quantizer hasBias same
  exact native.withWeight fun quantizer same => native .scale scale quantizer hasScale same

end AffineFusion

/-! ## Layers with other modes -/

namespace OutputModes

variable {output : Output} {others : List Output} {precision : Precision}

theorem evaluate_withPrecision :
    (withPrecision node output others precision).evaluate x = node.evaluate x := by
  have activation : (withPrecision node output others precision).activation =
      node.activation := by
    unfold withPrecision Node.activation
    dsimp only
    split
    · rw [Node.withAttr, Table.get?_insert, if_neg (by decide)]
    · rfl
  simp only [Node.evaluate, Node.applyWeight, Node.applyScale, Node.neededWeight, Node.addBias,
    kind_withPrecision, name_withPrecision, activation, weights_withPrecision]

end OutputModes

end QuantNet
