import QuantNet.Proofs.Tensor.Slices

/-!
# Reshaping tensors

A tensor is reshaped by grouping its leading axes in another way: its elements stay in row-major
order.  Adding a tensor of rank one to it commutes with this, since the last axis stays as it is.
Only the limit on addresses may tell the two shapes apart, when there are no elements.
-/

namespace QuantNet

namespace Shape

private theorem size_insertIdx : ∀ (shape : Shape) (position : Nat),
    size (shape.insertIdx position 1) = size shape
  | shape, 0 => by rw [List.insertIdx_zero, size, Nat.one_mul]
  | [], position + 1 => by rw [List.insertIdx_succ_nil]
  | d :: shape, position + 1 => by
      rw [List.insertIdx_succ_cons, size, size, size_insertIdx shape position]

/-- The shape whose first axis runs over the first two axes. -/
def mergeAxes : Shape → Shape
  | b :: w :: rest => b * w :: rest
  | shape => shape

theorem size_mergeAxes : ∀ shape : Shape, size (mergeAxes shape) = size shape
  | [] | [_] => rfl
  | b :: w :: rest => Nat.mul_assoc b w (size rest)

/-- A tensor of rank one meets the last axis only. -/
theorem join?_singleton (front : Shape) (d m : Nat) :
    join? (front ++ [d]) [m] = (joinAxis? d m).map fun n => front ++ [n] := by
  have rest : ∀ shape : Shape, joinReversed? shape [] = some shape := fun shape => by
    cases shape <;> rfl
  have reversed : joinReversed? (d :: front.reverse) [m] =
      (joinAxis? d m).map fun n => n :: front.reverse := by
    rw [joinReversed?, rest]
    cases joinAxis? d m <;> rfl
  rw [join?, List.reverse_append, List.reverse_singleton, List.singleton_append,
    List.reverse_singleton, reversed, Option.map_map]
  congr 1
  funext n
  simp

end Shape

namespace Tensor

variable {α : Type}

/-- The tensor with one more axis of size one. -/
def insertAxis (tensor : Tensor α) (position : Nat) : Tensor α where
  shape := tensor.shape.insertIdx position 1
  data := tensor.data
  size_data := by rw [tensor.size_data, Shape.size_insertIdx]

/-- The tensor whose first axis runs over the first two axes. -/
def mergeAxes (tensor : Tensor α) : Tensor α where
  shape := tensor.shape.mergeAxes
  data := tensor.data
  size_data := by rw [tensor.size_data, Shape.size_mergeAxes]

theorem shape_insertAxis {tensor : Tensor α} {shape : Shape} (axes : tensor.shape = shape)
    (position : Nat) : (tensor.insertAxis position).shape = shape.insertIdx position 1 := by
  rw [← axes]
  rfl

theorem shape_mergeAxes {tensor : Tensor α} {shape : Shape} (axes : tensor.shape = shape) :
    tensor.mergeAxes.shape = shape.mergeAxes := by
  rw [← axes]
  rfl

private theorem eq_of_data {tensor other : Tensor α} (shape : tensor.shape = other.shape)
    (data : tensor.data = other.data) : tensor = other := by
  obtain ⟨_, _, _⟩ := tensor
  obtain ⟨_, _, _⟩ := other
  obtain rfl : _ = _ := shape
  obtain rfl : _ = _ := data
  rfl

/-! ## Elements -/

variable [Zero α] {tensor other left right : Tensor α} {front grouped : Shape}
  {leading : List Nat} {d m i : Nat}

/-- Elements at the same place in row-major order are the same. -/
private theorem get_eq_of_offset_eq {index place : List Nat} (data : other.data = tensor.data)
    (offset : other.shape.offset place = tensor.shape.offset index) :
    other.get place = tensor.get index := by
  rw [get, get, data, offset]

theorem get_insertAxis {b w c j : Nat} (axes : tensor.shape = [b, w, c]) :
    (tensor.insertAxis 1).get [i, 0, j, d] = tensor.get [i, j, d] := by
  refine get_eq_of_offset_eq rfl ?_
  simp [insertAxis, axes, Shape.offset, Shape.size]

theorem get_insertAxis_zero {b w c j : Nat} (axes : tensor.shape = [b, w, c]) :
    (tensor.insertAxis 0).get [0, i, j, d] = tensor.get [i, j, d] := by
  refine get_eq_of_offset_eq rfl ?_
  simp [insertAxis, axes, Shape.offset, Shape.size]

theorem get_mergeAxes {b w c j : Nat} (axes : tensor.shape = [b, w, c]) :
    tensor.mergeAxes.get [i * w + j, d] = tensor.get [i, j, d] := by
  refine get_eq_of_offset_eq rfl ?_
  simp only [mergeAxes, Shape.mergeAxes, axes, Shape.offset, Shape.size]
  ring

theorem ofFn_insertAxis {b w c : Nat} {element inner : List Nat → α}
    (same : ∀ i j l, i < b → j < w → l < c → element [i, 0, j, l] = inner [i, j, l]) :
    ofFn [b, 1, w, c] element = (ofFn [b, w, c] inner).insertAxis 1 := by
  refine ext_get (by rfl) ?_
  intro index inside
  obtain ⟨i, z, j, l, rfl⟩ : ∃ i z j l, index = [i, z, j, l] := by
    match index, inside.length_eq with
    | [i, z, j, l], _ => exact ⟨i, z, j, l, rfl⟩
  have shown : (ofFn [b, 1, w, c] element).get [i, z, j, l] = element [i, z, j, l] :=
    get_ofFn element inside
  obtain ⟨inBatch, first, inPlaces, inChannels, _⟩ := inside
  obtain rfl : z = 0 := Nat.lt_one_iff.mp first
  have among : Shape.InBounds [b, w, c] [i, j, l] := ⟨inBatch, inPlaces, inChannels, trivial⟩
  rw [shown, get_insertAxis rfl, get_ofFn inner among, same i j l inBatch inPlaces inChannels]

theorem ofFn_mergeAxes {b w c : Nat} {element inner : List Nat → α}
    (same : ∀ i j l, i < b → j < w → l < c → element [i * w + j, l] = inner [i, j, l]) :
    ofFn [b * w, c] element = (ofFn [b, w, c] inner).mergeAxes := by
  refine ext_get (by rfl) ?_
  intro index inside
  obtain ⟨place, l, rfl⟩ := List.length_eq_two.mp inside.length_eq
  have shown : (ofFn [b * w, c] element).get [place, l] = element [place, l] :=
    get_ofFn element inside
  obtain ⟨below, inChannels, _⟩ := inside
  have some : 0 < w := Nat.pos_of_mul_pos_left (Nat.zero_lt_of_lt below)
  have inBatch : place / w < b := Nat.div_lt_of_lt_mul (Nat.mul_comm b w ▸ below)
  have inPlaces : place % w < w := Nat.mod_lt place some
  have among : Shape.InBounds [b, w, c] [place / w, place % w, l] :=
    ⟨inBatch, inPlaces, inChannels, trivial⟩
  rw [shown, ← Nat.div_add_mod' place w, same _ _ l inBatch inPlaces inChannels, get_mergeAxes rfl,
    get_ofFn inner among]

omit [Zero α] in
/-- The elements of a tensor in row-major order, from the elements at places. -/
private theorem data_ofFn {shape : Shape} {element : List Nat → α} {place : Nat → α}
    (same : ∀ index, shape.InBounds index → element index = place (shape.offset index)) :
    (ofFn shape element).data = ((List.range shape.size).map place).toArray := by
  have elements : shape.indices.map element = (List.range shape.size).map place := by
    rw [← Shape.map_offset_indices, List.map_map]
    exact List.map_congr_left fun index member =>
      same index (Shape.inBounds_of_mem_indices member)
  simp only [ofFn, elements]

/-- What a tensor shows where its last axis is stretched, by its place in row-major order. -/
theorem stretched_concat (axes : tensor.shape = front ++ [d]) (inside : front.InBounds leading)
    (i : Nat) :
    tensor.stretched (leading ++ [i]) =
      tensor.data.getD (front.offset leading * d + Shape.pullAxis i d) 0 := by
  have pulled : leading.zipWith Shape.pullAxis front = leading := by
    rw [← Shape.pull_eq inside.length_eq, Shape.pull_self inside]
  rw [stretched, axes, Shape.pull_concat front i inside.length_eq, pulled, get, axes,
    Shape.offset_concat d _ inside.length_eq]

/-! ## Grouping the leading axes -/

/-- Whether a function reshapes tensors by grouping their leading axes in another way. -/
structure Regroups (front grouped : Shape) (move : Tensor α → Tensor α) : Prop where
  size : grouped.size = front.size
  extent : grouped.extent ≤ front.extent
  data : ∀ tensor, (move tensor).data = tensor.data
  shape : ∀ tensor n, tensor.shape = front ++ [n] → (move tensor).shape = grouped ++ [n]

variable {move : Tensor α → Tensor α}

omit [Zero α] in
theorem regroups_insertAxis (b w : Nat) :
    Regroups [b, w] [b, 1, w] fun tensor : Tensor α => tensor.insertAxis 1 where
  size := by simp [Shape.size]
  extent := by simp [Shape.extent]
  data _ := rfl
  shape _ _ axes := shape_insertAxis axes 1

omit [Zero α] in
theorem regroups_mergeAxes (b w : Nat) :
    Regroups [b, w] [b * w] (mergeAxes : Tensor α → Tensor α) where
  size := Nat.mul_assoc b w 1
  extent := by
    simp only [Shape.extent, Nat.mul_one]
    split
    · exact Nat.mul_pos (by split <;> omega) (by split <;> omega)
    · next some =>
        rw [Nat.mul_eq_zero, not_or] at some
        rw [if_neg some.1, if_neg some.2]
  data _ := rfl
  shape _ _ axes := shape_mergeAxes axes

theorem zipWith?_singleton (f : α → α → α) (axes : left.shape = front ++ [d])
    (single : right.shape = [m]) :
    zipWith? f left right =
      ((Shape.joinAxis? d m).filter fun n => Shape.isAddressable (front ++ [n])).map fun n =>
        ofFn (front ++ [n]) fun index => f (left.stretched index) (right.stretched index) := by
  rw [zipWith?, axes, single, Shape.join?_singleton]
  cases Shape.joinAxis? d m with
  | none => rfl
  | some n =>
      rw [Option.map_some, Option.filter_some, Option.filter_some]
      split <;> rfl

namespace Regroups

variable (regroups : Regroups front grouped move)

include regroups

omit [Zero α] in
theorem isAddressable {n : Nat} (addressable : Shape.isAddressable (front ++ [n]) = true) :
    Shape.isAddressable (grouped ++ [n]) = true := by
  have bound := of_decide_eq_true addressable
  rw [Shape.extent_append] at bound
  refine decide_eq_true ?_
  rw [Shape.extent_append]
  exact (Nat.mul_le_mul_right _ regroups.extent).trans bound

/-- A tensor of rank one is combined with the elements at the same places. -/
theorem ofFn_stretched (f : α → α → α) (axes : left.shape = front ++ [d])
    (single : right.shape = [m]) (n : Nat) :
    move (ofFn (front ++ [n]) fun index => f (left.stretched index) (right.stretched index)) =
      ofFn (grouped ++ [n]) fun index =>
        f ((move left).stretched index) (right.stretched index) := by
  apply eq_of_data (regroups.shape _ n rfl)
  -- What is combined at a place of the result, whatever the shape of its front.
  let element (place : Nat) : α :=
    f (left.data.getD (place / n * d + Shape.pullAxis (place % n) d) 0)
      (right.get [Shape.pullAxis (place % n) m])
  have places : ∀ (shape : Shape) (tensor : Tensor α), tensor.shape = shape ++ [d] →
      tensor.data = left.data → ∀ index, Shape.InBounds (shape ++ [n]) index →
        f (tensor.stretched index) (right.stretched index) =
          element (Shape.offset (shape ++ [n]) index) := by
    intro shape tensor axes data index inside
    obtain ⟨leading, i, rfl, same, below⟩ := inside.concat
    obtain ⟨among, _⟩ := Shape.inBounds_concat_iff.mp inside
    have whole : (Shape.offset shape leading * n + i) / n = Shape.offset shape leading := by
      rw [Nat.mul_comm, Nat.mul_add_div (by omega), Nat.div_eq_of_lt below, Nat.add_zero]
    have rest : (Shape.offset shape leading * n + i) % n = i := by
      rw [Nat.mul_comm, Nat.mul_add_mod, Nat.mod_eq_of_lt below]
    have single : right.stretched (leading ++ [i]) = right.get [Shape.pullAxis i m] := by
      rw [stretched, single, Shape.pull_singleton]
    simp only [element, Shape.offset_concat n i same, whole, rest, single,
      stretched_concat axes among, data]
  rw [regroups.data, data_ofFn (places front left axes rfl),
    data_ofFn (places grouped (move left) (regroups.shape left d axes) (regroups.data left)),
    Shape.size_concat, Shape.size_concat, regroups.size]

/-- A tensor of rank one is combined with a reshaped tensor as with the tensor itself, provided that
the common shape is addressable before it is reshaped. -/
theorem map_zipWith? (f : α → α → α) (axes : left.shape = front ++ [d])
    (single : right.shape = [m]) :
    (zipWith? f left right).map move =
      (zipWith? f (move left) right).filter fun result =>
        Shape.isAddressable (front ++ [Shape.channels result.shape]) := by
  rw [zipWith?_singleton f axes single, zipWith?_singleton f (regroups.shape left d axes) single]
  cases Shape.joinAxis? d m with
  | none => rfl
  | some n =>
      rw [Option.filter_some, Option.filter_some]
      have last : ∀ element : List Nat → α,
          Shape.channels (ofFn (grouped ++ [n]) element).shape = n := fun _ =>
        Shape.channels_concat grouped n
      by_cases addressable : Shape.isAddressable (front ++ [n]) = true
      · rw [if_pos addressable, if_pos (regroups.isAddressable addressable), Option.map_some,
          Option.map_some, Option.map_some, Option.filter_some, last, if_pos addressable,
          regroups.ofFn_stretched f axes single]
      · rw [if_neg addressable, Option.map_none, Option.map_none]
        split
        · rw [Option.map_some, Option.filter_some, last, if_neg addressable]
        · rfl

end Regroups

end Tensor

end QuantNet
