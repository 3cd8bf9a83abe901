import QuantNet.Proofs.Layer.Evaluation
import QuantNet.Proofs.Pass.Effects
import QuantNet.Proofs.Tensor.Fusion

/-!
# Affine nodes with encoded weights

An affine node computes with what its weights decode to, and fusion computes with the weights as
they are stored.  The two go together unless a weight is stored in one bit, the only encoding in
which the stored numbers stand for others.
-/

namespace QuantNet

variable {α : Type} [Scalar α]

/-! ## Decoded weights -/

namespace Weight

variable {weight : Weight α}

/-- Whether a weight is stored as zeros and ones that stand for minus one and one. -/
def IsSingleBit {α : Type} (weight : Weight α) : Prop :=
  ∃ quantizer, weight.quantizer = some quantizer ∧ quantizer.encoding = .binary 1

@[simp]
theorem shape_decoded (weight : Weight α) : weight.decoded.shape = weight.data.shape := by
  unfold decoded
  split <;> rfl

theorem decoded_of_not_isSingleBit (more : ¬ weight.IsSingleBit) :
    weight.decoded = weight.data := by
  unfold decoded
  cases quantized : weight.quantizer with
  | none => rfl
  | some quantizer =>
      have same : (quantizer.encoding.decodeElement : α → α) = id := by
        funext x
        cases encoding : quantizer.encoding with
        | native => rfl
        | ternary => rfl
        | binary bits =>
            have several : bits ≠ 1 := fun one => more ⟨quantizer, quantized, one ▸ encoding⟩
            exact if_neg several
      dsimp only
      rw [Encoding.decode, same, Tensor.map_id]

end Weight

omit [Scalar α] in
theorem Node.Native.not_isSingleBit {node : Node α} {role : Role} {weight : Weight α}
    (native : node.Native) (stored : node.weights.get? role = some weight) :
    ¬ weight.IsSingleBit := by
  rintro ⟨quantizer, quantized, single⟩
  cases (native role weight quantizer stored quantized).symm.trans single

/-! ## Affine nodes -/

/-- The map that an affine node with a scale and a bias computes. -/
def Affine.decode (scale bias : Weight α) : Affine α :=
  ⟨scale.decoded, bias.decoded⟩

/-- Decoding keeps shapes. -/
theorem Affine.alike_decode (scale bias : Weight α) :
    Affine.Alike ⟨scale.data, bias.data⟩ (.decode scale bias) :=
  ⟨scale.shape_decoded, bias.shape_decoded⟩

variable {node first : Node α} {scale bias nextScale nextBias : Weight α} {fused : Affine α}
  {x middle y : Tensor α}

theorem Node.evaluate_affine_eq_ok_iff (affine : node.kind.isAffine = true)
    (hasScale : node.weights.get? .scale = some scale)
    (hasBias : node.weights.get? .bias = some bias) :
    node.evaluate x = .ok y ↔ (Affine.decode scale bias).value? x = some y := by
  rw [evaluate_of_affine affine, except_mapError_eq_ok, Affine.value?_eq_some_iff]
  simp only [applyScale, neededWeight, hasScale, except_ok_bind]
  simp only [addBias, hasBias, Affine.decode]
  cases Tensor.zipWith? (fun x s => s * x) x scale.decoded with
  | none => simp
  | some scaled =>
      simp only [Option.some.injEq, exists_eq_left']
      cases Tensor.zipWith? (fun x b => x + b) scaled bias.decoded <;> simp

/-! ## The joint map of encoded weights -/

/-- Whether the joint map of two scales and biases, computed from them as they are stored and put in
the place of the first ones, stands for the joint map of what they stand for. -/
def DecodesJointly (scale bias nextScale nextBias : Weight α) : Prop :=
  ∀ ⦃fused joint : Affine α⦄,
    Affine.andThen ⟨scale.data, bias.data⟩ ⟨nextScale.data, nextBias.data⟩ = .ok fused →
      (Affine.decode scale bias).andThen (.decode nextScale nextBias) = .ok joint →
        joint.Agrees
          (.decode { scale with data := fused.scale } { bias with data := fused.bias })

theorem DecodesJointly.of_not_isSingleBit
    (more : ∀ weight ∈ [scale, bias, nextScale, nextBias], ¬ weight.IsSingleBit) :
    DecodesJointly scale bias nextScale nextBias := by
  simp only [List.forall_mem_cons] at more
  obtain ⟨scaleMore, biasMore, nextScaleMore, nextBiasMore, _⟩ := more
  intro fused joint done doneDecoded
  have jointScale : ({ scale with data := fused.scale } : Weight α).decoded = fused.scale :=
    Weight.decoded_of_not_isSingleBit scaleMore
  have jointBias : ({ bias with data := fused.bias } : Weight α).decoded = fused.bias :=
    Weight.decoded_of_not_isSingleBit biasMore
  rw [Affine.decode, Affine.decode, Weight.decoded_of_not_isSingleBit scaleMore,
    Weight.decoded_of_not_isSingleBit biasMore, Weight.decoded_of_not_isSingleBit nextScaleMore,
    Weight.decoded_of_not_isSingleBit nextBiasMore] at doneDecoded
  obtain rfl := Except.ok.inj (done.symm.trans doneDecoded)
  rw [Affine.decode, jointScale, jointBias]
  exact .refl fused

theorem DecodesJointly.of_native (native : first.Native) (nextNative : node.Native)
    (hasScale : first.weights.get? .scale = some scale)
    (hasBias : first.weights.get? .bias = some bias)
    (hasNextScale : node.weights.get? .scale = some nextScale)
    (hasNextBias : node.weights.get? .bias = some nextBias) :
    DecodesJointly scale bias nextScale nextBias := by
  apply of_not_isSingleBit
  simp only [List.forall_mem_cons]
  exact ⟨native.not_isSingleBit hasScale, native.not_isSingleBit hasBias,
    nextNative.not_isSingleBit hasNextScale, nextNative.not_isSingleBit hasNextBias, nofun⟩

/-- The joint map of what the weights stand for, which has the shapes of the joint map that is
stored. -/
private theorem exists_joint_decode
    (done : Affine.andThen ⟨scale.data, bias.data⟩ ⟨nextScale.data, nextBias.data⟩ = .ok fused) :
    ∃ joint : Affine α,
      (Affine.decode scale bias).andThen (.decode nextScale nextBias) = .ok joint ∧
        joint.Alike
          (.decode { scale with data := fused.scale } { bias with data := fused.bias }) := by
  obtain ⟨joint, doneDecoded, alike⟩ := Affine.andThen_of_alike (Affine.alike_decode scale bias)
    (Affine.alike_decode nextScale nextBias) done
  have stored := Affine.alike_decode { scale with data := fused.scale }
    { bias with data := fused.bias }
  exact ⟨joint, doneDecoded, stored.scale.trans alike.scale.symm,
    stored.bias.trans alike.bias.symm⟩

/-- The stored map then has the values of the two maps, one after the other. -/
theorem DecodesJointly.value?
    (laws : Scalar.Lawful α) (decodes : DecodesJointly scale bias nextScale nextBias)
    (done : Affine.andThen ⟨scale.data, bias.data⟩ ⟨nextScale.data, nextBias.data⟩ = .ok fused)
    (value : (Affine.decode scale bias).value? x = some middle)
    (nextValue : (Affine.decode nextScale nextBias).value? middle = some y) :
    (Affine.decode { scale with data := fused.scale } { bias with data := fused.bias }).value? x =
      some y := by
  obtain ⟨joint, doneDecoded, alike⟩ := exists_joint_decode done
  refine (decodes done doneDecoded).value? alike ?_
  rw [Affine.value?_andThen laws doneDecoded, value]
  exact nextValue

/-- In exact arithmetic nothing less will do. -/
theorem DecodesJointly.of_value? {exponent : ℚ → ℤ}
    {scale bias nextScale nextBias : Weight (Exact.Number exponent)}
    (values : ∀ fused x middle y,
      Affine.andThen ⟨scale.data, bias.data⟩ ⟨nextScale.data, nextBias.data⟩ = .ok fused →
        (Affine.decode scale bias).value? x = some middle →
          (Affine.decode nextScale nextBias).value? middle = some y →
            (Affine.decode { scale with data := fused.scale }
              { bias with data := fused.bias }).value? x = some y) :
    DecodesJointly scale bias nextScale nextBias := by
  intro fused joint done doneDecoded
  refine Affine.agrees_of_value? fun x y value => ?_
  rw [Affine.value?_andThen (Exact.lawful exponent) doneDecoded] at value
  obtain ⟨middle, first, next⟩ := Option.bind_eq_some_iff.mp value
  exact values fused x middle y done first next

/-- The joint node then has the value of the second node for the value of the first. -/
theorem DecodesJointly.evaluate_fusedNode
    (laws : Scalar.Lawful α) (decodes : DecodesJointly scale bias nextScale nextBias)
    (affine : first.kind.isAffine = true) (nextAffine : node.kind.isAffine = true)
    (hasScale : first.weights.get? .scale = some scale)
    (hasBias : first.weights.get? .bias = some bias)
    (hasNextScale : node.weights.get? .scale = some nextScale)
    (hasNextBias : node.weights.get? .bias = some nextBias)
    (done : Affine.andThen ⟨scale.data, bias.data⟩ ⟨nextScale.data, nextBias.data⟩ = .ok fused)
    (value : first.evaluate x = .ok middle) (nextValue : node.evaluate middle = .ok y) :
    (AffineFusion.fusedNode first scale bias fused).evaluate x = .ok y := by
  rw [Node.evaluate_affine_eq_ok_iff affine hasScale hasBias] at value
  rw [Node.evaluate_affine_eq_ok_iff nextAffine hasNextScale hasNextBias] at nextValue
  have jointAffine : (AffineFusion.fusedNode first scale bias fused).kind.isAffine = true := affine
  exact (Node.evaluate_affine_eq_ok_iff jointAffine (AffineFusion.scale_fusedNode fused)
    (AffineFusion.bias_fusedNode fused)).mpr (decodes.value? laws done value nextValue)

end QuantNet
