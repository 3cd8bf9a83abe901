import QuantNet.Proofs.Tensor.Reading

/-!
# Slices of the last axis

The positions on the last axis of a tensor are its output channels.  A channel has the elements at
the indices that end in its position, and a tensor can be restricted to some of its channels.
-/

namespace QuantNet

namespace Shape

variable {shape : Shape} {index : List Nat} {c : Nat}

/-! ## The last axis -/

theorem size_concat (d : Nat) : ∀ front : Shape, size (front ++ [d]) = size front * d
  | [] => Nat.mul_comm d 1
  | e :: front => by
      rw [List.cons_append, size, size, size_concat d front, Nat.mul_assoc]

theorem offset_concat (d i : Nat) : ∀ {front : Shape} {leading : List Nat},
    leading.length = front.length →
      offset (front ++ [d]) (leading ++ [i]) = offset front leading * d + i
  | [], [], _ => by simp [offset, size]
  | e :: front, j :: leading, same => by
      have rest := offset_concat d i (Nat.succ.inj same)
      rw [List.cons_append, List.cons_append, offset, offset, rest, size_concat]
      ring

theorem inBounds_concat_iff {front : Shape} {d i : Nat} {leading : List Nat} :
    InBounds (front ++ [d]) (leading ++ [i]) ↔ InBounds front leading ∧ i < d := by
  rw [inBounds_iff_forall₂, ← List.forall₂_reverse_iff, List.reverse_append, List.reverse_append,
    List.reverse_singleton, List.reverse_singleton, List.singleton_append, List.singleton_append,
    List.forall₂_cons, List.forall₂_reverse_iff, ← inBounds_iff_forall₂, and_comm]

/-- Every axis of size one has the position zero. -/
theorem inBounds_replicate : ∀ n : Nat, InBounds (List.replicate n 1) (List.replicate n 0)
  | 0 => trivial
  | n + 1 => ⟨Nat.one_pos, inBounds_replicate n⟩

theorem mem_indices_iff : index ∈ indices shape ↔ shape.InBounds index :=
  ⟨inBounds_of_mem_indices, fun inside => List.mem_of_getElem? (getElem?_indices_offset inside)⟩

/-! ## Channels -/

/-- The number of output channels.  A tensor of rank zero is one channel. -/
def channels (shape : Shape) : Nat :=
  shape.getLastD 1

@[simp]
theorem channels_concat (front : Shape) (d : Nat) : channels (front ++ [d]) = d :=
  List.getLastD_concat

/-- The last axis of a shape that stretches has size one, or stays as it is. -/
theorem Stretches.channels_eq {front larger : Shape} {d : Nat}
    (stretches : (front ++ [d]).Stretches larger) : d = 1 ∨ d = larger.channels := by
  rcases List.eq_nil_or_concat' larger with rfl | ⟨others, e, rfl⟩
  · have shorter := stretches.length_le
    simp at shorter
  · rw [Stretches, List.reverse_append, List.reverse_append] at stretches
    rw [channels_concat]
    exact stretches.1

theorem InBounds.getLastD_lt (inside : shape.InBounds index) :
    index.getLastD 0 < shape.channels := by
  rcases List.eq_nil_or_concat' shape with rfl | ⟨front, d, rfl⟩
  · obtain rfl := List.length_eq_zero_iff.mp inside.length_eq
    exact Nat.one_pos
  · obtain ⟨leading, i, rfl, _, below⟩ := inside.concat
    rw [List.getLastD_concat, channels_concat]
    exact below

/-- The indices of an output channel. -/
def channelIndices (shape : Shape) (c : Nat) : List (List Nat) :=
  match shape with
  | [] => [[]]
  | shape => (indices shape.dropLast).map fun leading => leading ++ [c]

theorem channelIndices_concat (front : Shape) (d c : Nat) :
    channelIndices (front ++ [d]) c = (indices front).map fun leading => leading ++ [c] := by
  unfold channelIndices
  split
  · next none => simp at none
  · rw [List.dropLast_concat]

theorem mem_channelIndices (below : c < shape.channels) :
    index ∈ shape.channelIndices c ↔ shape.InBounds index ∧ index.getLastD 0 = c := by
  rcases List.eq_nil_or_concat' shape with rfl | ⟨front, d, rfl⟩
  · obtain rfl : c = 0 := Nat.lt_one_iff.mp below
    constructor
    · intro member
      obtain rfl := List.mem_singleton.mp member
      exact ⟨trivial, rfl⟩
    · rintro ⟨inside, _⟩
      exact List.mem_singleton.mpr (List.length_eq_zero_iff.mp inside.length_eq)
  · rw [channels_concat] at below
    rw [channelIndices_concat, List.mem_map]
    constructor
    · rintro ⟨leading, member, rfl⟩
      exact ⟨inBounds_concat_iff.mpr ⟨mem_indices_iff.mp member, below⟩, List.getLastD_concat⟩
    · rintro ⟨inside, last⟩
      obtain ⟨leading, i, rfl, _, _⟩ := inside.concat
      rw [List.getLastD_concat] at last
      exact ⟨leading, mem_indices_iff.mpr (inBounds_concat_iff.mp inside).1, by rw [last]⟩

end Shape

namespace Tensor

variable {α : Type}

/-- A function that makes a tensor matters at the indices of the tensor only. -/
theorem ofFn_congr {shape : Shape} {f g : List Nat → α}
    (same : ∀ index, shape.InBounds index → f index = g index) : ofFn shape f = ofFn shape g := by
  have elements : shape.indices.map f = shape.indices.map g :=
    List.map_congr_left fun index member => same index (Shape.mem_indices_iff.mp member)
  simp only [ofFn, elements]

variable [Zero α] {tensor other : Tensor α} {front : Shape} {channels i : Nat}
  {leading picks : List Nat}

theorem mem_data_iff {x : α} :
    x ∈ tensor.data ↔ ∃ index, tensor.shape.InBounds index ∧ tensor.get index = x := by
  constructor
  · intro member
    obtain ⟨place, below, rfl⟩ := Array.mem_iff_getElem.mp member
    obtain ⟨index, inside, rfl⟩ := Shape.exists_offset_eq (tensor.size_data ▸ below)
    refine ⟨index, inside, ?_⟩
    rw [get, Array.getD_eq_getD_getElem?, Array.getElem?_eq_getElem below, Option.getD_some]
  · rintro ⟨index, inside, rfl⟩
    exact get_mem inside

/-! ## Chosen channels -/

/-- The tensor whose output channels are those at the given positions. -/
def select (tensor : Tensor α) (picks : List Nat) : Tensor α :=
  ofFn (tensor.shape.dropLast ++ [picks.length]) fun index =>
    tensor.get (index.dropLast ++ [picks.getD (index.getLastD 0) 0])

theorem shape_select (axes : tensor.shape = front ++ [channels]) (picks : List Nat) :
    (tensor.select picks).shape = front ++ [picks.length] := by
  have shape : (tensor.select picks).shape = tensor.shape.dropLast ++ [picks.length] := rfl
  rw [shape, axes, List.dropLast_concat]

theorem get_select (axes : tensor.shape = front ++ [channels]) (inside : front.InBounds leading)
    (below : i < picks.length) :
    (tensor.select picks).get (leading ++ [i]) = tensor.get (leading ++ [picks[i]]) := by
  have among : Shape.InBounds (tensor.shape.dropLast ++ [picks.length]) (leading ++ [i]) := by
    rw [axes, List.dropLast_concat]
    exact inside.snoc below
  rw [select, get_ofFn _ among, List.dropLast_concat, List.getLastD_concat,
    List.getD_eq_getElem?_getD, List.getElem?_eq_getElem below, Option.getD_some]

/-- A tensor consists of chosen channels if it has their elements. -/
theorem eq_select (axes : tensor.shape = front ++ [channels])
    (shape : other.shape = front ++ [picks.length])
    (elements : ∀ leading, front.InBounds leading → ∀ (i : Nat) (below : i < picks.length),
      other.get (leading ++ [i]) = tensor.get (leading ++ [picks[i]])) :
    other = tensor.select picks := by
  apply ext_get (shape.trans (shape_select axes picks).symm)
  intro index inside
  rw [shape] at inside
  obtain ⟨leading, i, rfl, _, _⟩ := inside.concat
  obtain ⟨among, below⟩ := Shape.inBounds_concat_iff.mp inside
  rw [elements leading among i below, get_select axes among below]

end Tensor

end QuantNet
