import QuantNet.Proofs.Layer.Evaluation
import QuantNet.Proofs.Tensor.Reshaping
import QuantNet.Scalar.Binary32

/-!
# Where weighted layers overlap

A convolution along one axis is one along two axes of which the first has size one.  With a kernel
of one place it is a matrix product at every place.  The first holds for the sums as they are
rounded; a matrix product is summed by blocks, so that the second needs exact arithmetic.
-/

namespace QuantNet

/-! ## Layers as partial functions -/

namespace Tensor

variable {α : Type} [Scalar α]

def addBias? (x : Tensor α) : Option (Tensor α) → Option (Tensor α)
  | none => some x
  | some bias => zipWith? (fun x b => x + b) x bias

/-- The outcome of a product with the bias added, if it can be stored. -/
def finish? (x : Tensor α) (bias : Option (Tensor α)) : Option (Tensor α) :=
  if x.shape.isStorable then x.addBias? bias else none

end Tensor

/-- The value of a layer with a weight tensor. -/
def Product.layer? {α : Type} [Scalar α] (product : Product α) (kernel : Tensor α)
    (bias : Option (Tensor α)) (x : Tensor α) : Option (Tensor α) :=
  match product.shape x.shape kernel.shape with
  | .ok shape => (Tensor.ofFn shape (product.element x kernel)).finish? bias
  | .error _ => none

/-- The product that a layer of a kind computes. -/
def LayerKind.product? {α : Type} [Scalar α] : LayerKind → Option (Product α)
  | dense => some .matrix
  | conv1D => some .convolution1D
  | conv2D => some .convolution2D
  | _ => none

/-- Whether a node is a layer with a weight tensor and a bias, their encodings undone. -/
structure Node.IsLayer {α : Type} [Scalar α] (node : Node α) (kind : LayerKind)
    (kernel : Tensor α) (bias : Option (Tensor α)) : Prop where
  kind : node.kind = kind
  weight : (node.weights.get? .weight).map Weight.decoded = some kernel
  bias : (node.weights.get? .bias).map Weight.decoded = bias

namespace Node.IsLayer

variable {α : Type} [Scalar α] {node : Node α} {kind : LayerKind} {kernel x : Tensor α}
  {bias : Option (Tensor α)}

private theorem toOption_addBias (layer : node.IsLayer kind kernel bias) (x : Tensor α) :
    (node.addBias x).toOption = x.addBias? bias := by
  rw [← layer.bias, addBias]
  cases node.weights.get? .bias with
  | none => rfl
  | some weight =>
      dsimp only [Option.map_some, Tensor.addBias?]
      cases Tensor.zipWith? (fun x b => x + b) x weight.decoded <;> rfl

theorem toOption_applyWeight (layer : node.IsLayer kind kernel bias) (product : Product α)
    (x : Tensor α) :
    (node.applyWeight product x).toOption = product.layer? kernel bias x := by
  have needed : node.neededWeight .weight = .ok kernel := by
    obtain ⟨weight, stored, decoded⟩ := Option.map_eq_some_iff.mp layer.weight
    rw [neededWeight, stored, ← decoded]
  rw [applyWeight, needed, Product.layer?]
  simp only [except_mapError_ok, except_ok_bind]
  cases product.shape x.shape kernel.shape with
  | error error => rfl
  | ok shape =>
      have finished : (Tensor.ofFn shape (product.element x kernel)).finish? bias =
          if shape.isStorable then
            (node.addBias (.ofFn shape (product.element x kernel))).toOption
          else
            none := by
        rw [layer.toOption_addBias]
        rfl
      dsimp only
      rw [finished]
      split
      · cases node.addBias (.ofFn shape (product.element x kernel)) <;> rfl
      · rfl

theorem toOption_evaluate {product : Product α} (layer : node.IsLayer kind kernel bias)
    (weighted : kind.product? = some product) (x : Tensor α) :
    (node.evaluate x).toOption = product.layer? kernel bias x := by
  have applied : node.evaluate x = node.applyWeight product x := by
    rw [evaluate, layer.kind]
    cases kind <;> cases weighted <;> rfl
  rw [applied, layer.toOption_applyWeight]

end Node.IsLayer

/-! ## Bias and reshaping -/

namespace Tensor.Regroups

variable {α : Type} [Scalar α] {front grouped : Shape} {move : Tensor α → Tensor α}
  {x result : Tensor α} {bias : Option (Tensor α)} {d : Nat}

omit [Scalar α] in
/-- Where the shape is addressable before it is reshaped, it can be stored before exactly if it can
be stored after. -/
theorem isStorable_iff (regroups : Regroups front grouped move) (n : Nat) :
    Shape.isStorable (front ++ [n]) = true ↔
      Shape.isStorable (grouped ++ [n]) = true ∧ Shape.isAddressable (front ++ [n]) = true := by
  have size : Shape.size (grouped ++ [n]) = Shape.size (front ++ [n]) := by
    rw [Shape.size_concat, Shape.size_concat, regroups.size]
  simp only [Shape.isStorable, Bool.and_eq_true, size]
  exact ⟨fun ⟨addressable, bytes⟩ => ⟨⟨regroups.isAddressable addressable, bytes⟩, addressable⟩,
    fun ⟨⟨_, bytes⟩, addressable⟩ => ⟨addressable, bytes⟩⟩

/-- A bias is added to a reshaped tensor as to the tensor itself, provided that the sum is
addressable before it is reshaped. -/
private theorem map_addBias? (regroups : Regroups front grouped move)
    (axes : x.shape = front ++ [d]) (rank : ∀ b ∈ bias, b.rank = 1)
    (addressable : Shape.isAddressable (front ++ [d]) = true) :
    (x.addBias? bias).map move =
      ((move x).addBias? bias).filter fun sum =>
        Shape.isAddressable (front ++ [Shape.channels sum.shape]) := by
  cases bias with
  | none =>
      rw [addBias?, addBias?, Option.map_some, Option.filter_some, regroups.shape x d axes,
        Shape.channels_concat, if_pos addressable]
  | some bias =>
      obtain ⟨m, single⟩ := List.length_eq_one_iff.mp (rank bias rfl)
      exact regroups.map_zipWith? (fun x b => x + b) axes single

omit [Scalar α] in
/-- A shape is addressable if it is with as many channels as its last axis stretches to. -/
private theorem isAddressable_of_stretches {larger : Shape}
    (stretches : (grouped ++ [d]).Stretches larger)
    (addressable : Shape.isAddressable (front ++ [Shape.channels larger]) = true) :
    Shape.isAddressable (front ++ [d]) = true := by
  have last : Shape.extent [d] ≤ Shape.extent [Shape.channels larger] := by
    rcases stretches.channels_eq with rfl | same
    · exact Shape.extent_pos _
    · rw [same]
  have bound := of_decide_eq_true addressable
  rw [Shape.extent_append] at bound
  refine decide_eq_true ?_
  rw [Shape.extent_append]
  exact (Nat.mul_le_mul_left _ last).trans bound

private theorem stretches_addBias? (sum : x.addBias? bias = some result) :
    x.shape.Stretches result.shape := by
  cases bias with
  | none =>
      obtain rfl := Option.some.inj sum
      exact Shape.Stretches.refl x.shape
  | some bias => exact (stretches_of_zipWith? sum).1

/-- A reshaped tensor has the outcome of the tensor itself, reshaped, provided that the outcome is
addressable before it is reshaped. -/
theorem map_finish? (regroups : Regroups front grouped move) (axes : x.shape = front ++ [d])
    (rank : ∀ b ∈ bias, b.rank = 1) :
    (x.finish? bias).map move =
      ((move x).finish? bias).filter fun result =>
        Shape.isAddressable (front ++ [Shape.channels result.shape]) := by
  have moved := regroups.shape x d axes
  rw [finish?, finish?, moved, axes]
  by_cases addressable : Shape.isAddressable (front ++ [d]) = true
  · simp only [regroups.isStorable_iff, addressable, and_true]
    split
    · exact regroups.map_addBias? axes rank addressable
    · rfl
  -- Then nothing is stored before reshaping, and what may be stored after it is filtered out:
  -- adding a bias does not make the last axis smaller.
  · rw [if_neg fun storable => addressable ((regroups.isStorable_iff d).mp storable).2,
      Option.map_none, eq_comm, Option.filter_eq_none_iff]
    intro result done larger
    split at done
    · have stretches := stretches_addBias? done
      rw [moved] at stretches
      exact addressable (isAddressable_of_stretches stretches larger)
    · cases done

/-- A bias of rank one leaves the front of a shape as it is. -/
private theorem shape_finish? (axes : x.shape = front ++ [d]) (rank : ∀ b ∈ bias, b.rank = 1)
    (done : x.finish? bias = some result) :
    result.shape = front ++ [Shape.channels result.shape] ∧ result.shape.isAddressable = true := by
  unfold finish? at done
  split at done
  · next storable =>
      cases bias with
      | none =>
          obtain rfl := Option.some.inj done
          rw [Shape.isStorable, Bool.and_eq_true] at storable
          refine ⟨?_, storable.1⟩
          rw [axes, Shape.channels_concat]
      | some bias =>
          obtain ⟨m, single⟩ := List.length_eq_one_iff.mp (rank bias rfl)
          obtain ⟨joined, addressable⟩ := join_of_zipWith? done
          rw [axes, single, Shape.join?_singleton, Option.map_eq_some_iff] at joined
          obtain ⟨n, _, shape⟩ := joined
          refine ⟨?_, addressable⟩
          rw [← shape, Shape.channels_concat]
  · cases done

/-- A reshaped tensor has the outcome of the tensor itself, reshaped, if its shape takes as many
addresses. -/
theorem finish?_move (regroups : Regroups front grouped move)
    (extent : grouped.extent = front.extent) (axes : x.shape = front ++ [d])
    (rank : ∀ b ∈ bias, b.rank = 1) :
    (move x).finish? bias = (x.finish? bias).map move := by
  rw [regroups.map_finish? axes rank]
  ext result
  rw [Option.filter_eq_some_iff]
  refine ⟨fun done => ⟨done, ?_⟩, And.left⟩
  obtain ⟨shape, addressable⟩ := shape_finish? (regroups.shape x d axes) rank done
  rw [shape] at addressable
  have bound := of_decide_eq_true addressable
  rw [Shape.extent_append, extent, ← Shape.extent_append] at bound
  exact decide_eq_true bound

end Tensor.Regroups

/-! ## Products that overlap -/

namespace Product

section Convolutions

variable {α : Type} [Scalar α] {x kernel : Tensor α} {bias : Option (Tensor α)}
  {b w c k d f i j l : Nat}

theorem element_convolution1D (kernelAxes : kernel.shape = [k, d, f]) :
    convolution1D.element x kernel [i, j, l] =
      Scalar.total ((List.range k).flatMap fun dk => (List.range d).map fun c =>
        x.get [i, j + dk, c] * kernel.get [dk, c, l]) := by
  simp only [convolution1D, kernelAxes]

/-- The products of a convolution along one axis are those of a convolution along two axes at the
only place of the first one, in the same order. -/
private theorem element_insertAxis (axes : x.shape = [b, w, c])
    (kernelAxes : kernel.shape = [k, d, f]) :
    convolution2D.element (x.insertAxis 1) (kernel.insertAxis 0) [i, 0, j, l] =
      convolution1D.element x kernel [i, j, l] := by
  have shape : (kernel.insertAxis 0).shape = [1, k, d, f] := Tensor.shape_insertAxis kernelAxes 0
  rw [element_convolution1D kernelAxes]
  simp only [convolution2D, shape, List.range_one, List.flatMap_singleton, Nat.add_zero,
    Tensor.get_insertAxis axes, Tensor.get_insertAxis_zero kernelAxes]

theorem convolution2D_insertAxis (axes : x.shape = [b, w, c])
    (kernelAxes : kernel.shape = [k, d, f]) (rank : ∀ t ∈ bias, t.rank = 1) :
    convolution2D.layer? (kernel.insertAxis 0) bias (x.insertAxis 1) =
      (convolution1D.layer? kernel bias x).map fun y => y.insertAxis 1 := by
  have shape : (x.insertAxis 1).shape = [b, 1, w, c] := Tensor.shape_insertAxis axes 1
  have kernelShape : (kernel.insertAxis 0).shape = [1, k, d, f] :=
    Tensor.shape_insertAxis kernelAxes 0
  have plane : (convolution2D : Product α).shape [b, 1, w, c] [1, k, d, f] =
      if c = d ∧ k ≤ w then
        .ok [b, 1, w - k + 1, f]
      else
        .error (.kernel [b, 1, w, c] [1, k, d, f]) := by
    simp [convolution2D]
  have line : (convolution1D : Product α).shape [b, w, c] [k, d, f] =
      if c = d ∧ k ≤ w then .ok [b, w - k + 1, f] else .error (.kernel [b, w, c] [k, d, f]) :=
    rfl
  have outcome : Tensor.ofFn [b, 1, w - k + 1, f]
      (convolution2D.element (x.insertAxis 1) (kernel.insertAxis 0)) =
        (Tensor.ofFn [b, w - k + 1, f] (convolution1D.element x kernel)).insertAxis 1 :=
    Tensor.ofFn_insertAxis fun _ _ _ _ _ _ => element_insertAxis axes kernelAxes
  rw [layer?, layer?, shape, kernelShape, axes, kernelAxes, plane, line]
  by_cases fits : c = d ∧ k ≤ w
  · rw [if_pos fits, if_pos fits]
    dsimp only
    rw [outcome]
    exact (Tensor.regroups_insertAxis b (w - k + 1)).finish?_move (by simp [Shape.extent]) rfl rank
  · rw [if_neg fits, if_neg fits]
    rfl

end Convolutions

section Matrices

open Exact

variable {exponent : ℚ → ℤ} {x kernel : Tensor (Number exponent)}
  {bias : Option (Tensor (Number exponent))} {b w c d f i j l : Nat}

/-- With a kernel of one place, a convolution adds up the terms of a matrix product, without their
blocks. -/
private theorem element_mergeAxes (axes : x.shape = [b, w, c])
    (kernelAxes : kernel.shape = [1, d, f]) :
    matrix.element x.mergeAxes kernel.mergeAxes [i * w + j, l] =
      convolution1D.element x kernel [i, j, l] := by
  have shape : kernel.mergeAxes.shape = [1 * d, f] := Tensor.shape_mergeAxes kernelAxes
  have row : ∀ r, kernel.mergeAxes.get [r, l] = kernel.get [0, r, l] := fun r => by
    rw [← Tensor.get_mergeAxes kernelAxes, Nat.zero_mul, Nat.zero_add]
  rw [element_convolution1D kernelAxes]
  simp only [matrix, shape, Nat.one_mul, List.range_one, List.flatMap_singleton, Nat.add_zero,
    Tensor.get_mergeAxes axes, row]
  exact blockTotal_eq_total (by decide) _

theorem matrix_layer? (axes : x.shape = [b, w, c]) (kernelAxes : kernel.shape = [1, d, f])
    (bias : Option (Tensor (Number exponent))) :
    matrix.layer? kernel.mergeAxes bias x.mergeAxes =
      if c = d then
        (Tensor.ofFn [b, w, f] (convolution1D.element x kernel)).mergeAxes.finish? bias
      else
        none := by
  have shape : x.mergeAxes.shape = [b * w, c] := Tensor.shape_mergeAxes axes
  have kernelShape : kernel.mergeAxes.shape = [1 * d, f] := Tensor.shape_mergeAxes kernelAxes
  have rows : (matrix : Product (Number exponent)).shape [b * w, c] [1 * d, f] =
      if c = d then .ok [b * w, f] else .error (.matrix [b * w, c] [1 * d, f]) := by
    simp [matrix]
  have outcome : Tensor.ofFn [b * w, f] (matrix.element x.mergeAxes kernel.mergeAxes) =
      (Tensor.ofFn [b, w, f] (convolution1D.element x kernel)).mergeAxes :=
    Tensor.ofFn_mergeAxes fun _ _ _ _ _ _ => element_mergeAxes axes kernelAxes
  rw [layer?, shape, kernelShape, rows]
  by_cases fits : c = d
  · rw [if_pos fits, if_pos fits, ← outcome]
  · rw [if_neg fits, if_neg fits]

theorem convolution1D_layer? (axes : x.shape = [b, w, c]) (kernelAxes : kernel.shape = [1, d, f])
    (place : 1 ≤ w) (bias : Option (Tensor (Number exponent))) :
    convolution1D.layer? kernel bias x =
      if c = d then
        (Tensor.ofFn [b, w, f] (convolution1D.element x kernel)).finish? bias
      else
        none := by
  have line : (convolution1D : Product (Number exponent)).shape [b, w, c] [1, d, f] =
      if c = d then .ok [b, w, f] else .error (.kernel [b, w, c] [1, d, f]) := by
    simp [convolution1D, place, Nat.sub_add_cancel place]
  rw [layer?, axes, kernelAxes, line]
  by_cases fits : c = d
  · rw [if_pos fits, if_pos fits]
  · rw [if_neg fits, if_neg fits]

/-- A convolution with a kernel of one place is a matrix product at every place, as far as its
outcome is addressable. -/
theorem map_mergeAxes (axes : x.shape = [b, w, c]) (kernelAxes : kernel.shape = [1, d, f])
    (place : 1 ≤ w) (rank : ∀ t ∈ bias, t.rank = 1) :
    (convolution1D.layer? kernel bias x).map Tensor.mergeAxes =
      (matrix.layer? kernel.mergeAxes bias x.mergeAxes).filter fun y =>
        Shape.isAddressable [b, w, Shape.channels y.shape] := by
  rw [matrix_layer? axes kernelAxes, convolution1D_layer? axes kernelAxes place]
  split
  · exact (Tensor.regroups_mergeAxes b w).map_finish? rfl rank
  · rfl

/-- If there is a batch, the outcome is addressable. -/
theorem layer?_mergeAxes (batch : b ≠ 0) (axes : x.shape = [b, w, c])
    (kernelAxes : kernel.shape = [1, d, f]) (place : 1 ≤ w) (rank : ∀ t ∈ bias, t.rank = 1) :
    matrix.layer? kernel.mergeAxes bias x.mergeAxes =
      (convolution1D.layer? kernel bias x).map Tensor.mergeAxes := by
  have places : w ≠ 0 := Nat.ne_of_gt place
  have extent : Shape.extent [b * w] = Shape.extent [b, w] := by
    simp [Shape.extent, batch, places]
  rw [matrix_layer? axes kernelAxes, convolution1D_layer? axes kernelAxes place]
  split
  · exact (Tensor.regroups_mergeAxes b w).finish?_move extent rfl rank
  · rfl

end Matrices

end Product

open Exact

/-- The weighted layers agree where they overlap, whether they fail or not.  Along one axis, a
convolution is the convolution along two axes of which the first has size one, whatever the
operations on numbers compute.  With a kernel of one place, in exact arithmetic, it is the dense
layer of all places, as long as its outcome is addressable.  An empty batch may have an outcome that
is not, because of the number of places, where the dense layer has an empty one. -/
theorem overlapping_layers_agree :
    (∀ {α : Type} [Scalar α] {b w c k d f : Nat} (x kernel : Tensor α) (bias : Option (Tensor α))
        (conv1D conv2D : Node α),
      x.shape = [b, w, c] → kernel.shape = [k, d, f] → (∀ t ∈ bias, t.rank = 1) →
        conv1D.IsLayer .conv1D kernel bias → conv2D.IsLayer .conv2D (kernel.insertAxis 0) bias →
          (conv2D.evaluate (x.insertAxis 1)).toOption =
            (conv1D.evaluate x).toOption.map fun y => y.insertAxis 1) ∧
    ∀ {exponent : ℚ → ℤ} {b w c d f : Nat} (x kernel : Tensor (Number exponent))
        (bias : Option (Tensor (Number exponent))) (conv1D dense : Node (Number exponent)),
      x.shape = [b, w, c] → kernel.shape = [1, d, f] → 1 ≤ w → (∀ t ∈ bias, t.rank = 1) →
        conv1D.IsLayer .conv1D kernel bias → dense.IsLayer .dense kernel.mergeAxes bias →
          (conv1D.evaluate x).toOption.map Tensor.mergeAxes =
              ((dense.evaluate x.mergeAxes).toOption.filter fun y =>
                Shape.isAddressable [b, w, Shape.channels y.shape]) ∧
            (b ≠ 0 → (dense.evaluate x.mergeAxes).toOption =
              (conv1D.evaluate x).toOption.map Tensor.mergeAxes) := by
  constructor
  · intro α _ b w c k d f x kernel bias conv1D conv2D axes kernelAxes rank line plane
    rw [line.toOption_evaluate rfl, plane.toOption_evaluate rfl]
    exact Product.convolution2D_insertAxis axes kernelAxes rank
  · intro exponent b w c d f x kernel bias conv1D dense axes kernelAxes place rank line rows
    rw [line.toOption_evaluate rfl, rows.toOption_evaluate rfl]
    exact ⟨Product.map_mergeAxes axes kernelAxes place rank,
      fun batch => Product.layer?_mergeAxes batch axes kernelAxes place rank⟩

/-- A layer that reads the first node, with a weight tensor and a bias. -/
def Node.weighted {α : Type} (kind : LayerKind) (kernel : Tensor α) (bias : Option (Tensor α)) :
    Node α :=
  let node := Node.single kind "layer" .empty [⟨⟨0, 0⟩, 0⟩] [] (.fixed 16 6 true .unset)
  let node := node.withWeight .weight { data := kernel }
  bias.elim node fun bias => node.withWeight .bias { data := bias }

theorem Node.isLayer_weighted {α : Type} [Scalar α] (kind : LayerKind) (kernel : Tensor α)
    (bias : Option (Tensor α)) : (Node.weighted kind kernel bias).IsLayer kind kernel bias := by
  cases bias <;> exact ⟨rfl, rfl, rfl⟩

/-- Sums of neighbours along one axis and along the second of two, in floating point, and multiples
of a number by a convolution and by a matrix product. -/
theorem overlapping_layers_agree_sums :
    (let x : Tensor Float32 := ⟨[1, 3, 1], #[1, 2, 4], rfl⟩
      let kernel : Tensor Float32 := ⟨[2, 1, 1], #[1, 1], rfl⟩
      let bias : Tensor Float32 := ⟨[1], #[1], rfl⟩
      (Node.weighted .conv1D kernel (some bias)).evaluate x = .ok ⟨[1, 2, 1], #[4, 7], rfl⟩ ∧
        ((Node.weighted .conv2D (kernel.insertAxis 0) (some bias)).evaluate
          (x.insertAxis 1)).toOption = some ⟨[1, 1, 2, 1], #[4, 7], rfl⟩) ∧
    (let x : Tensor (Number fun _ => 0) := ⟨[1, 2, 1], #[(3 : ℚ), (4 : ℚ)], rfl⟩
      let kernel : Tensor (Number fun _ => 0) := ⟨[1, 1, 2], #[(1 : ℚ), (5 : ℚ)], rfl⟩
      (Node.weighted .conv1D kernel none).evaluate x =
          .ok ⟨[1, 2, 2], #[(3 : ℚ), (15 : ℚ), (4 : ℚ), (20 : ℚ)], rfl⟩ ∧
        ((Node.weighted .dense kernel.mergeAxes none).evaluate x.mergeAxes).toOption =
          some ⟨[2, 2], #[(3 : ℚ), (15 : ℚ), (4 : ℚ), (20 : ℚ)], rfl⟩) := by
  constructor
  · intro x kernel bias
    have line : (Node.weighted .conv1D kernel (some bias)).evaluate x =
        .ok ⟨[1, 2, 1], #[4, 7], rfl⟩ := by
      decide +kernel
    have plane := overlapping_layers_agree.1 x kernel (some bias) _ _ rfl rfl (by decide)
      (Node.isLayer_weighted ..) (Node.isLayer_weighted ..)
    rw [line] at plane
    exact ⟨line, plane⟩
  · intro x kernel
    have line : (Node.weighted .conv1D kernel none).evaluate x =
        .ok ⟨[1, 2, 2], #[(3 : ℚ), (15 : ℚ), (4 : ℚ), (20 : ℚ)], rfl⟩ := by
      decide +kernel
    have rows := (overlapping_layers_agree.2 x kernel none _ _ rfl rfl (by decide) (by decide)
      (Node.isLayer_weighted ..) (Node.isLayer_weighted ..)).2 (by decide)
    rw [line] at rows
    exact ⟨line, rows⟩

/-- On an empty batch of more places than can be addressed with two channels each, a convolution
fails, while the dense layer of these places returns an empty tensor. -/
theorem empty_batch_beyond_addresses :
    let x : Tensor (Number fun _ => 0) := ⟨[0, 4611686018427387904, 1], #[], by decide⟩
    let kernel : Tensor (Number fun _ => 0) := ⟨[1, 1, 2], #[(1 : ℚ), (1 : ℚ)], rfl⟩
    (Node.weighted .conv1D kernel none).evaluate x =
        .error (.fault (.oversized [0, 4611686018427387904, 2])) ∧
      (Node.weighted .dense kernel.mergeAxes none).evaluate x.mergeAxes =
        .ok ⟨[0, 2], #[], by decide⟩ ∧
      ¬ ∀ (b w c d f : Nat) (x kernel : Tensor (Number fun _ => 0))
          (conv1D dense : Node (Number fun _ => 0)),
        x.shape = [b, w, c] → kernel.shape = [1, d, f] → 1 ≤ w →
          conv1D.IsLayer .conv1D kernel none → dense.IsLayer .dense kernel.mergeAxes none →
            ((dense.evaluate x.mergeAxes).toOption = none ↔
              (conv1D.evaluate x).toOption = none) := by
  intro x kernel
  have line : (Node.weighted .conv1D kernel none).evaluate x =
      .error (.fault (.oversized [0, 4611686018427387904, 2])) := by
    decide +kernel
  have rows : (Node.weighted .dense kernel.mergeAxes none).evaluate x.mergeAxes =
      .ok ⟨[0, 2], #[], by decide⟩ := by
    decide +kernel
  refine ⟨line, rows, fun agree => ?_⟩
  have fails := (agree 0 4611686018427387904 1 1 2 x kernel _ _ rfl rfl (by decide)
    (Node.isLayer_weighted ..) (Node.isLayer_weighted ..)).mpr (by rw [line]; rfl)
  rw [rows] at fails
  cases fails

end QuantNet
