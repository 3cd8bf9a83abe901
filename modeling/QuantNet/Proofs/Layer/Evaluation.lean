import QuantNet.Graph.Evaluation
import QuantNet.Proofs.Graph.Lookup

/-!
# The value of a layer

When the evaluation of a single layer succeeds, and with which value.
-/

namespace QuantNet

/-- Whether the weights of a layer are stored as they are. -/
def Node.Native {α : Type} (node : Node α) : Prop :=
  ∀ role weight quantizer, node.weights.get? role = some weight →
    weight.quantizer = some quantizer → quantizer.encoding = .native

@[simp]
theorem Tensor.map_id {α : Type} (data : Tensor α) : data.map id = data := by
  obtain ⟨shape, elements, sized⟩ := data
  simp [Tensor.map]

@[simp]
theorem Encoding.decode_native {α : Type} [Scalar α] (data : Tensor α) :
    native.decode data = data :=
  data.map_id

@[simp]
theorem Encoding.encode_native {α : Type} [Scalar α] (data : Tensor α) :
    native.encode data = data :=
  data.map_id

namespace Node

variable {α : Type} [Scalar α] {node : Node α} {role : Role} {weight : Weight α}
  {x y : Tensor α}

theorem Native.decoded (native : node.Native) (stored : node.weights.get? role = some weight) :
    weight.decoded = weight.data := by
  unfold Weight.decoded
  cases quantized : weight.quantizer with
  | none => rfl
  | some quantizer =>
      dsimp only
      rw [native role weight quantizer stored quantized, Encoding.decode_native]

omit [Scalar α] in
theorem native_single
    (kind : LayerKind) (name : String) (attrs : Table String (Attr α)) (inputs : List TensorRef)
    (shape : Shape) (precision : Precision) :
    (single kind name attrs inputs shape precision).Native := by
  intro role weight quantizer stored
  cases stored

omit [Scalar α] in
theorem Native.withWeight (native : node.Native)
    (plain : ∀ quantizer, weight.quantizer = some quantizer → quantizer.encoding = .native) :
    (node.withWeight role weight).Native := by
  intro other stored quantizer found quantized
  rw [Node.withWeight, Table.get?_insert] at found
  by_cases here : role = other
  · rw [if_pos here, Option.some.injEq] at found
    exact plain quantizer (found ▸ quantized)
  · rw [if_neg here] at found
    exact native other stored quantizer found quantized

theorem addBias_eq_ok_iff (native : node.Native) :
    node.addBias x = .ok y ↔
      node.weights.get? .bias = none ∧ x = y ∨
        ∃ bias, node.weights.get? .bias = some bias ∧
          Tensor.zipWith? (fun x b => x + b) x bias.data = some y := by
  unfold addBias
  cases stored : node.weights.get? .bias with
  | none => simp
  | some bias =>
      dsimp only
      rw [native.decoded stored]
      cases sum : Tensor.zipWith? (fun x b => x + b) x bias.data <;> simp [sum]

theorem neededWeight_eq_ok_iff (native : node.Native) {data : Tensor α} :
    node.neededWeight role = .ok data ↔
      ∃ weight, node.weights.get? role = some weight ∧ weight.data = data := by
  unfold neededWeight
  cases stored : node.weights.get? role with
  | none => simp
  | some weight => simp [native.decoded stored]

theorem applyWeight_eq_ok_iff (native : node.Native) {product : Product α} :
    node.applyWeight product x = .ok y ↔
      ∃ weight shape, node.weights.get? .weight = some weight ∧
        product.shape x.shape weight.data.shape = .ok shape ∧ shape.isStorable = true ∧
          node.addBias (.ofFn shape (product.element x weight.data)) = .ok y := by
  simp only [applyWeight, except_bind_eq_ok, except_mapError_eq_ok, neededWeight_eq_ok_iff native]
  constructor
  · intro applied
    obtain ⟨_, ⟨weight, stored, rfl⟩, rest⟩ := applied
    split at rest
    · next shape fits =>
        split at rest
        · next storable =>
            exact ⟨weight, shape, stored, fits, storable, except_mapError_eq_ok.mp rest⟩
        · exact absurd rest except_throw_ne_ok
    · exact absurd rest except_throw_ne_ok
  · intro applied
    obtain ⟨weight, shape, stored, fits, storable, added⟩ := applied
    refine ⟨weight.data, ⟨weight, stored, rfl⟩, ?_⟩
    simp only [fits, storable, if_true, except_mapError_eq_ok]
    exact added

theorem applyScale_eq_ok_iff (native : node.Native) :
    node.applyScale x = .ok y ↔
      ∃ scale scaled, node.weights.get? .scale = some scale ∧
        Tensor.zipWith? (fun x s => s * x) x scale.data = some scaled ∧
          node.addBias scaled = .ok y := by
  simp only [applyScale, except_bind_eq_ok, neededWeight_eq_ok_iff native]
  constructor
  · intro applied
    obtain ⟨_, ⟨scale, stored, rfl⟩, rest⟩ := applied
    split at rest
    · next scaled product => exact ⟨scale, scaled, stored, product, rest⟩
    · exact absurd rest except_throw_ne_ok
  · intro applied
    obtain ⟨scale, scaled, stored, product, added⟩ := applied
    refine ⟨scale.data, ⟨scale, stored, rfl⟩, ?_⟩
    simp only [product]
    exact added

/-- An affine node applies its scale. -/
theorem evaluate_of_affine (affine : node.kind.isAffine = true) :
    node.evaluate x = (node.applyScale x).mapError .error := by
  unfold evaluate
  cases kind : node.kind <;> rw [kind] at affine <;> first | rfl | cases affine

end Node

end QuantNet
