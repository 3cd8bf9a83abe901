import QuantNet.Proofs.Scalar.Laws
import QuantNet.Proofs.Tensor.Elements
import QuantNet.Quantizer.Basic
import QuantNet.Tensor.Product

/-!
# A scale for every channel

A product whose weights were divided by a scale, channel by channel, gives the old product when it
is multiplied by the scale, and so it does with a bias that was divided as well.  The channels are
the last axis of the weights and of the product.
-/

namespace QuantNet

namespace Shape

/-- A shape with a single axis stretches to what ends in that axis, and so does size one. -/
theorem stretches_concat {k d : Nat} (size : k = 1 ∨ k = d) (front : Shape) :
    Stretches [k] (front ++ [d]) := by
  rw [Stretches, List.reverse_append]
  exact ⟨size, trivial⟩

private theorem stretchesReversed_replicate : ∀ shape : Shape,
    StretchesReversed (List.replicate shape.length 1) shape
  | [] => trivial
  | _ :: rest => ⟨Or.inl rfl, stretchesReversed_replicate rest⟩

/-- Axes of size one in front of the last axis stretch to any others. -/
theorem stretches_replicate {k d : Nat} (size : k = 1 ∨ k = d) (front : Shape) :
    Stretches (List.replicate front.length 1 ++ [k]) (front ++ [d]) := by
  have axes := stretchesReversed_replicate front.reverse
  rw [List.length_reverse] at axes
  rw [Stretches, List.reverse_append, List.reverse_append, List.reverse_replicate]
  exact ⟨size, axes⟩

theorem pull_concat {k : Nat} {leading : List Nat} (front : Shape) (i : Nat)
    (same : leading.length = front.length) :
    pull (front ++ [k]) (leading ++ [i]) = leading.zipWith pullAxis front ++ [pullAxis i k] := by
  have sizes : (leading ++ [i]).length = (front ++ [k]).length := by
    rw [List.length_append, List.length_append, same]
    rfl
  rw [pull_eq sizes, List.zipWith_append same]
  rfl

/-- One axis is read at the last position of an index. -/
theorem pull_singleton (k : Nat) (leading : List Nat) (i : Nat) :
    pull [k] (leading ++ [i]) = [pullAxis i k] := by
  have last : (leading ++ [i]).drop ((leading ++ [i]).length - 1) = [i] := by
    simp
  have pulled : pull [k] (leading ++ [i]) =
      ((leading ++ [i]).drop ((leading ++ [i]).length - 1)).zipWith pullAxis [k] :=
    rfl
  rw [pulled, last]
  rfl

theorem zipWith_pullAxis_replicate : ∀ leading : List Nat,
    leading.zipWith pullAxis (List.replicate leading.length 1) = List.replicate leading.length 0
  | [] => rfl
  | i :: leading => by
      rw [List.length_cons, List.replicate_succ, List.zipWith_cons_cons,
        zipWith_pullAxis_replicate leading, List.replicate_succ]
      rfl

private theorem offset_replicate (k i : Nat) :
    ∀ n : Nat, offset (List.replicate n 1 ++ [k]) (List.replicate n 0 ++ [i]) = i
  | 0 => by simp [offset, size]
  | n + 1 => by
      rw [List.replicate_succ, List.replicate_succ, List.cons_append, List.cons_append, offset,
        offset_replicate k i n, Nat.zero_mul, Nat.zero_add]

private theorem size_replicate (k : Nat) : ∀ n : Nat, size (List.replicate n 1 ++ [k]) = k
  | 0 => Nat.mul_one k
  | n + 1 => by
      rw [List.replicate_succ, List.cons_append, size, size_replicate k n, Nat.one_mul]

/-- An index of a shape that ends in some axis ends in a position on that axis. -/
theorem InBounds.concat {d : Nat} : ∀ {front : Shape} {index : List Nat},
    InBounds (front ++ [d]) index →
      ∃ leading i, index = leading ++ [i] ∧ leading.length = front.length ∧ i < d
  | [], [i], ⟨below, _⟩ => ⟨[], i, rfl, rfl, below⟩
  | e :: front, j :: index, ⟨_, inside⟩ => by
      obtain ⟨leading, i, rfl, same, below⟩ := InBounds.concat inside
      exact ⟨j :: leading, i, rfl, congrArg Nat.succ same, below⟩

end Shape

namespace Tensor

variable {α : Type} {tensor flat : Tensor α} {k : Nat}

theorem get_mem [Zero α] {index : List Nat} (inside : tensor.shape.InBounds index) :
    tensor.get index ∈ tensor.data := by
  have below : tensor.shape.offset index < tensor.data.size := by
    rw [tensor.size_data]
    exact Shape.offset_lt inside
  rw [get, Array.getD_eq_getD_getElem?, Array.getElem?_eq_getElem below, Option.getD_some]
  exact Array.getElem_mem below

@[simp]
theorem data_flatten (tensor : Tensor α) : tensor.flatten.data = tensor.data :=
  Array.toArray_toList

/-- What a tensor with one axis shows depends on the last position only. -/
theorem stretched_singleton [Zero α] (one : flat.shape = [k]) (leading : List Nat) (i : Nat) :
    flat.stretched (leading ++ [i]) = flat.stretched [i] := by
  rw [stretched, stretched, one, Shape.pull_singleton, ← List.nil_append [i],
    Shape.pull_singleton]

/-- A scale shows the same when its axes of size one are left out. -/
theorem stretched_flatten [Zero α] {leading : List Nat}
    (axes : tensor.shape = List.replicate leading.length 1 ++ [k]) (i : Nat) :
    tensor.flatten.stretched (leading ++ [i]) = tensor.stretched (leading ++ [i]) := by
  have size : tensor.data.toList.length = k := by
    rw [Array.length_toList, tensor.size_data, axes, Shape.size_replicate]
  have shape : tensor.flatten.shape = [k] := by
    rw [← size]
    rfl
  rw [stretched, stretched, shape, axes, Shape.pull_singleton,
    Shape.pull_concat _ _ List.length_replicate.symm, Shape.zipWith_pullAxis_replicate, get, get,
    data_flatten, shape, axes, Shape.offset_replicate]
  simp [Shape.offset, Shape.size]

theorem shape_flatten_of_axes {n : Nat} (axes : tensor.shape = List.replicate n 1 ++ [k]) :
    tensor.flatten.shape = [k] := by
  have size : tensor.data.toList.length = k := by
    rw [Array.length_toList, tensor.size_data, axes, Shape.size_replicate]
  rw [← size]
  rfl

end Tensor

namespace QuantizerConfig

variable {α : Type} [Scalar α] {data : Tensor α}

/-- A scale has one factor, or one for every channel. -/
theorem shape_scale
    (config : QuantizerConfig α) {rows : Shape} {channels : Nat}
    (axes : data.shape = rows ++ [channels]) :
    ∃ k, (k = 1 ∨ k = channels) ∧
      (config.scale data).shape = List.replicate rows.length 1 ++ [k] := by
  have auto : channelShape data.shape = List.replicate rows.length 1 ++ [channels] := by
    rw [axes, channelShape, List.getLast?_append]
    simp
  unfold scale
  split
  · refine ⟨1, Or.inl rfl, ?_⟩
    have rank : data.rank = rows.length + 1 := by
      rw [Tensor.rank, axes, List.length_append, List.length_singleton]
    rw [rank]
    exact List.replicate_succ'
  · exact ⟨channels, Or.inr rfl, auto⟩
  · exact ⟨channels, Or.inr rfl, auto⟩

theorem stretches_scale (config : QuantizerConfig α) (data : Tensor α) :
    (config.scale data).shape.Stretches data.shape := by
  rcases List.eq_nil_or_concat data.shape with none | ⟨rows, channels, axes⟩
  · have scalar : (config.scale data).shape = [] := by
      unfold scale
      split
      · exact congrArg (fun rank => List.replicate rank 1) (congrArg List.length none)
      all_goals exact congrArg channelShape none
    rw [scalar, none]
    exact Shape.Stretches.refl []
  · rw [List.concat_eq_append] at axes
    obtain ⟨k, size, scaleAxes⟩ := config.shape_scale axes
    rw [scaleAxes, axes]
    exact Shape.stretches_replicate size rows

end QuantizerConfig

/-! ## Products -/

namespace Product

variable {α : Type} [Scalar α] {product : Product α} {x weight divided : Tensor α} {shape : Shape}

/-- The channels of a product are the last axis of the weights, and a factor for every channel can
be multiplied into the weights as well as into the product. -/
structure Channelwise (product : Product α) : Prop where
  channels : ∀ {x weight shape : Shape}, product.shape x weight = .ok shape →
    ∃ rows front channels, weight = rows ++ [channels] ∧ shape = front ++ [channels]
  factor : ∀ {x weight divided : Tensor α} {shape : Shape} (factor : Nat → α),
    product.shape x.shape weight.shape = .ok shape → divided.shape = weight.shape →
      (∀ leading i, weight.shape.InBounds (leading ++ [i]) →
          factor i * divided.get (leading ++ [i]) = weight.get (leading ++ [i])) →
        ∀ leading i, shape.InBounds (leading ++ [i]) →
          factor i * product.element x divided (leading ++ [i]) =
            product.element x weight (leading ++ [i])

theorem channelwise_matrix (laws : Scalar.Lawful α) : (matrix : Product α).Channelwise where
  channels := by
    intro x weight shape fits
    unfold matrix at fits
    dsimp only at fits
    split at fits
    · next batch features rows columns =>
        split at fits
        · exact ⟨[rows], [batch], columns, rfl, (Except.ok.inj fits).symm⟩
        · cases fits
    · cases fits
  factor := by
    intro x weight divided shape factor fits same undo leading i inside
    unfold matrix at fits ⊢
    dsimp only at fits ⊢
    split at fits
    · next batch features rows columns _ axes =>
        split at fits
        · obtain rfl := Except.ok.inj fits
          have rank : leading.length = 1 := Nat.succ.inj (by simpa using inside.length_eq)
          obtain ⟨b, rfl⟩ := List.length_eq_one_iff.mp rank
          obtain ⟨_, below, _⟩ := inside
          rw [same, axes]
          simp only [List.singleton_append]
          rw [laws.mul_blockTotal, List.map_map]
          congr 1
          apply List.map_congr_left
          intro j member
          refine laws.mul_of_undone (undo [j] i ?_) _
          rw [axes]
          exact ⟨List.mem_range.mp member, below, trivial⟩
        · cases fits
    · cases fits

theorem channelwise_convolution1D (laws : Scalar.Lawful α) :
    (convolution1D : Product α).Channelwise where
  channels := by
    intro x weight shape fits
    unfold convolution1D at fits
    dsimp only at fits
    split at fits
    · next batch width channels k depth filters =>
        split at fits
        · exact ⟨[k, depth], [batch, width - k + 1], filters, rfl, (Except.ok.inj fits).symm⟩
        · cases fits
    · cases fits
  factor := by
    intro x weight divided shape factor fits same undo leading i inside
    unfold convolution1D at fits ⊢
    dsimp only at fits ⊢
    split at fits
    · next batch width channels k depth filters _ axes =>
        split at fits
        · obtain rfl := Except.ok.inj fits
          have rank : leading.length = 2 := Nat.succ.inj (by simpa using inside.length_eq)
          obtain ⟨b, place, rfl⟩ := List.length_eq_two.mp rank
          obtain ⟨_, _, below, _⟩ := inside
          rw [same, axes]
          simp only [List.cons_append, List.nil_append]
          rw [laws.mul_total, List.map_flatMap]
          congr 1
          apply List.flatMap_congr
          intro dk kernel
          rw [List.map_map]
          apply List.map_congr_left
          intro c member
          refine laws.mul_of_undone (undo [dk, c] i ?_) _
          rw [axes]
          exact ⟨List.mem_range.mp kernel, List.mem_range.mp member, below, trivial⟩
        · cases fits
    · cases fits

theorem channelwise_convolution2D (laws : Scalar.Lawful α) :
    (convolution2D : Product α).Channelwise where
  channels := by
    intro x weight shape fits
    unfold convolution2D at fits
    dsimp only at fits
    split at fits
    · next batch height width channels kh kw depth filters =>
        split at fits
        · exact ⟨[kh, kw, depth], [batch, height - kh + 1, width - kw + 1], filters, rfl,
            (Except.ok.inj fits).symm⟩
        · cases fits
    · cases fits
  factor := by
    intro x weight divided shape factor fits same undo leading i inside
    unfold convolution2D at fits ⊢
    dsimp only at fits ⊢
    split at fits
    · next batch height width channels kh kw depth filters _ axes =>
        split at fits
        · obtain rfl := Except.ok.inj fits
          have rank : leading.length = 3 := Nat.succ.inj (by simpa using inside.length_eq)
          obtain ⟨b, row, column, rfl⟩ := List.length_eq_three.mp rank
          obtain ⟨_, _, _, below, _⟩ := inside
          rw [same, axes]
          simp only [List.cons_append, List.nil_append]
          rw [laws.mul_total, List.map_flatMap]
          congr 1
          apply List.flatMap_congr
          intro di rows
          rw [List.map_flatMap]
          apply List.flatMap_congr
          intro dj columns
          rw [List.map_map]
          apply List.map_congr_left
          intro c member
          refine laws.mul_of_undone (undo [di, dj, c] i ?_) _
          rw [axes]
          exact ⟨List.mem_range.mp rows, List.mem_range.mp columns, List.mem_range.mp member, below,
            trivial⟩
        · cases fits
    · cases fits

end Product

/-! ## Multiplying a scale back in -/

namespace Tensor

variable {α : Type} [Scalar α] {whole part product share bias quotient scale : Tensor α}

/-- A tensor that was divided by a scale is whole again once the scale is multiplied in and zero is
added. -/
theorem multiply_back
    (laws : Scalar.Lawful α) (shapes : part.shape = whole.shape)
    (addressable : whole.shape.isAddressable = true)
    (stretches : scale.shape.Stretches whole.shape)
    (undo : ∀ index, whole.shape.InBounds index →
      scale.stretched index * part.get index = whole.get index) :
    ∃ scaled, zipWith? (fun x s => s * x) part scale = some scaled ∧
      zipWith? (fun x b => x + b) scaled (.fill scale.shape 0) = some whole := by
  have partStretches : part.shape.Stretches whole.shape := shapes ▸ Shape.Stretches.refl _
  obtain ⟨scaled, multiplied⟩ := exists_zipWith? (fun x s => s * x) partStretches stretches
    addressable
  have size := Shape.Stretches.join_eq_left (shapes ▸ stretches : scale.shape.Stretches part.shape)
  rw [(join_of_zipWith? multiplied).1, Option.some.injEq] at size
  have scaledShape : scaled.shape = whole.shape := size.trans shapes
  have scaledStretches : scaled.shape.Stretches whole.shape := scaledShape ▸ Shape.Stretches.refl _
  have zeroStretches : (fill scale.shape (0 : α)).shape.Stretches whole.shape := stretches
  obtain ⟨sum, added⟩ := exists_zipWith? (fun x b => x + b) scaledStretches zeroStretches
    addressable
  have sumSize := Shape.Stretches.join_eq_left
    (scaledShape.symm ▸ zeroStretches : (fill scale.shape (0 : α)).shape.Stretches scaled.shape)
  rw [(join_of_zipWith? added).1, Option.some.injEq] at sumSize
  have same : sum = whole := by
    apply ext_get (sumSize.trans scaledShape)
    intro index inside
    have within : whole.shape.InBounds index := (sumSize.trans scaledShape) ▸ inside
    have own : part.shape.InBounds index := shapes.symm ▸ within
    rw [get_zipWith? added inside, stretched_zipWith? multiplied scaledStretches within,
      stretched_self own, undo index within, fill, stretched_ofFn _ stretches within,
      laws.add_zero]
  exact ⟨scaled, multiplied, same ▸ added⟩

/-- Adding a bias that was divided by a scale to a product that was divided by it divides the
sum. -/
theorem add_quotient
    (laws : Scalar.Lawful α) (added : zipWith? (fun x b => x + b) product bias = some whole)
    (shapes : share.shape = product.shape)
    (stretches : scale.shape.Stretches product.shape)
    (nonzero : ∀ index, product.shape.InBounds index → scale.stretched index ≠ 0)
    (undo : ∀ index, product.shape.InBounds index →
      scale.stretched index * share.get index = product.get index)
    (divided : zipWith? (fun b s => b / s) bias scale = some quotient)
    (kept : quotient.shape = bias.shape) :
    ∃ part, zipWith? (fun x b => x + b) share quotient = some part ∧ part.shape = whole.shape ∧
      ∀ index, whole.shape.InBounds index →
        scale.stretched index * part.get index = whole.get index := by
  obtain ⟨productStretches, biasStretches⟩ := stretches_of_zipWith? added
  have shareStretches : share.shape.Stretches whole.shape := shapes ▸ productStretches
  have quotientStretches : quotient.shape.Stretches whole.shape := kept ▸ biasStretches
  obtain ⟨part, sum⟩ := exists_zipWith? (fun x b => x + b) shareStretches quotientStretches
    (join_of_zipWith? added).2
  have size := (join_of_zipWith? sum).1
  rw [shapes, kept, (join_of_zipWith? added).1, Option.some.injEq] at size
  refine ⟨part, sum, size.symm, fun index inside => ?_⟩
  have within := productStretches.inBounds_pull inside
  have through := stretched_pull stretches productStretches inside
  have factor := undo _ within
  have unzero := nonzero _ within
  rw [through] at factor unzero
  have shown : share.stretched index = share.get (product.shape.pull index) := by
    rw [stretched, shapes]
  rw [get_zipWith? sum (size ▸ inside), stretched_zipWith? divided quotientStretches inside,
    get_zipWith? added inside, laws.mul_add, laws.mul_div_cancel _ _ unzero, shown, factor]
  rfl

end Tensor

end QuantNet
