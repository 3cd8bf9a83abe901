import QuantNet.Proofs.Tensor.Stretching
import QuantNet.Tensor.Basic

/-!
# Elements of tensors

Tensors are equal if they have the same shape and the same element at every index.  A tensor that
two others were combined to shows, at an index of anything that it is stretched to, what they show
there.
-/

namespace QuantNet

namespace Shape

private theorem range_mul (k : Nat) :
    ∀ d : Nat, (List.range d).flatMap (fun i => (List.range k).map (i * k + ·)) =
      List.range (d * k)
  | 0 => by simp
  | d + 1 => by
      rw [List.range_succ, List.flatMap_append, range_mul k d, Nat.succ_mul, List.range_add]
      simp

theorem map_offset_indices : ∀ shape : Shape,
    (indices shape).map (offset shape) = List.range (size shape)
  | [] => rfl
  | d :: rest => by
      rw [indices, size]
      split
      · next empty => simp [empty]
      · rw [← range_mul (size rest) d, List.map_flatMap]
        congr 1
        funext i
        rw [← map_offset_indices rest, List.map_map, List.map_map]
        rfl

theorem inBounds_of_mem_indices : ∀ {shape : Shape} {index : List Nat},
    index ∈ indices shape → InBounds shape index
  | [], index, member => by
      rw [List.mem_singleton.mp member]
      trivial
  | d :: rest, index, member => by
      rw [indices] at member
      split at member
      · exact absurd member List.not_mem_nil
      · obtain ⟨i, below, found⟩ := List.mem_flatMap.mp member
        obtain ⟨tail, among, rfl⟩ := List.mem_map.mp found
        exact ⟨List.mem_range.mp below, inBounds_of_mem_indices among⟩

/-- Every place is that of an index. -/
theorem exists_offset_eq {shape : Shape} {place : Nat} (below : place < shape.size) :
    ∃ index, shape.InBounds index ∧ shape.offset index = place := by
  have member : place ∈ (indices shape).map (offset shape) := by
    rw [map_offset_indices]
    exact List.mem_range.mpr below
  obtain ⟨index, among, same⟩ := List.mem_map.mp member
  exact ⟨index, inBounds_of_mem_indices among, same⟩

end Shape

namespace Tensor

variable {α : Type} [Zero α] {tensor other left right result : Tensor α} {index : List Nat}
  {f : α → α → α}

theorem ext_get (shapes : tensor.shape = other.shape)
    (elements : ∀ index, tensor.shape.InBounds index → tensor.get index = other.get index) :
    tensor = other := by
  obtain ⟨shape, data, sized⟩ := tensor
  obtain ⟨_, others, sizedOther⟩ := other
  dsimp only at shapes
  subst shapes
  have same : data = others := by
    apply Array.ext (sized.trans sizedOther.symm)
    intro place below _
    obtain ⟨index, inside, rfl⟩ := Shape.exists_offset_eq (sized ▸ below)
    have element := elements index inside
    simpa [get, Array.getD_eq_getD_getElem?, sized, sizedOther, Shape.offset_lt inside] using
      element
  subst same
  rfl

/-- A tensor that two others are combined to has their common shape. -/
theorem join_of_zipWith? (combined : zipWith? f left right = some result) :
    Shape.join? left.shape right.shape = some result.shape ∧
      result.shape.isAddressable = true := by
  obtain ⟨shape, found, rfl⟩ := Option.map_eq_some_iff.mp combined
  exact Option.filter_eq_some_iff.mp found

theorem stretches_of_zipWith? (combined : zipWith? f left right = some result) :
    left.shape.Stretches result.shape ∧ right.shape.Stretches result.shape :=
  Shape.Stretches.of_join (join_of_zipWith? combined).1

/-- What two tensors are combined to stretches to everything that both stretch to. -/
theorem stretches_zipWith? (combined : zipWith? f left right = some result) {larger : Shape}
    (first : left.shape.Stretches larger) (second : right.shape.Stretches larger) :
    result.shape.Stretches larger := by
  obtain ⟨shape, joined, least⟩ := Shape.Stretches.join first second
  rw [(join_of_zipWith? combined).1, Option.some.injEq] at joined
  rwa [joined]

/-- Tensors that stretch to an addressable shape can be combined. -/
theorem exists_zipWith? (f : α → α → α) {larger : Shape} (first : left.shape.Stretches larger)
    (second : right.shape.Stretches larger) (addressable : larger.isAddressable = true) :
    ∃ result, zipWith? f left right = some result := by
  obtain ⟨shape, joined, least⟩ := Shape.Stretches.join first second
  have fits := least.isAddressable addressable
  exact ⟨_, by rw [zipWith?, joined, Option.filter_some, if_pos fits, Option.map_some]⟩

theorem get_zipWith? (combined : zipWith? f left right = some result)
    (inside : result.shape.InBounds index) :
    result.get index = f (left.stretched index) (right.stretched index) := by
  obtain ⟨shape, _, rfl⟩ := Option.map_eq_some_iff.mp combined
  exact get_ofFn _ inside

/-- A tensor shows its own elements at its own indices. -/
theorem stretched_self (inside : tensor.shape.InBounds index) :
    tensor.stretched index = tensor.get index := by
  rw [stretched, Shape.pull_self inside]

/-- A tensor shows the same at an index and at what a larger shape reads for it. -/
theorem stretched_pull {middle larger : Shape} (stretches : tensor.shape.Stretches middle)
    (further : middle.Stretches larger) (inside : larger.InBounds index) :
    tensor.stretched (middle.pull index) = tensor.stretched index := by
  have covers : middle.length ≤ index.length := by
    rw [inside.length_eq]
    exact further.length_le
  rw [stretched, stretched, Shape.pull_pull stretches covers]

theorem stretched_zipWith? (combined : zipWith? f left right = some result) {larger : Shape}
    (stretches : result.shape.Stretches larger) (inside : larger.InBounds index) :
    result.stretched index = f (left.stretched index) (right.stretched index) := by
  obtain ⟨first, second⟩ := stretches_of_zipWith? combined
  rw [stretched, get_zipWith? combined (stretches.inBounds_pull inside),
    stretched_pull first stretches inside, stretched_pull second stretches inside]

theorem get_map (f : α → α) (inside : tensor.shape.InBounds index) :
    (tensor.map f).get index = f (tensor.get index) := by
  have below : tensor.shape.offset index < tensor.data.size := by
    rw [tensor.size_data]
    exact Shape.offset_lt inside
  simp [get, map, Array.getD_eq_getD_getElem?, below]

theorem stretched_ofFn {shape larger : Shape} (element : List Nat → α)
    (stretches : shape.Stretches larger) (inside : larger.InBounds index) :
    (ofFn shape element).stretched index = element (shape.pull index) :=
  get_ofFn element (stretches.inBounds_pull inside)

end Tensor

end QuantNet
