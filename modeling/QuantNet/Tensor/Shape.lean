import QuantNet.Text.Listing

/-!
# Shapes

The shape of a tensor lists its sizes per axis.  Elements are addressed by an index, one position
per axis, and stored in row-major order: the last axis runs fastest.

Two shapes are joined by aligning their last axes.  Missing leading axes count as size one, and an
axis of size one stretches to the size of its partner.

Shapes are bounded by the memory that holds tensors.  An address is a signed word of 64 bits; axes
of size zero do not count against it.
-/

namespace QuantNet

abbrev Shape :=
  List Nat

namespace Shape

def size : Shape → Nat
  | [] => 1
  | d :: rest => d * size rest

/-- All indices of a shape, in row-major order. -/
def indices : Shape → List (List Nat)
  | [] => [[]]
  | d :: rest =>
      if size rest = 0 then
        []
      else
        (List.range d).flatMap fun i => (indices rest).map fun index => i :: index

/-- The place of an index in row-major order. -/
def offset : Shape → List Nat → Nat
  | _ :: rest, i :: index => i * size rest + offset rest index
  | _, _ => 0

/-- Whether an index has a position inside every axis of a shape. -/
def InBounds : Shape → List Nat → Prop
  | [], [] => True
  | d :: rest, i :: index => i < d ∧ InBounds rest index
  | _, _ => False

/-- The product of the sizes other than zero. -/
def extent : Shape → Nat
  | [] => 1
  | d :: rest => (if d = 0 then 1 else d) * extent rest

def addressLimit : Nat :=
  9223372036854775807

/-- Whether the sizes other than zero span no more than the addresses. -/
def isAddressable (shape : Shape) : Bool :=
  shape.extent ≤ addressLimit

/-- Whether a tensor of the shape can be stored, with four bytes for each element. -/
def isStorable (shape : Shape) : Bool :=
  shape.isAddressable && 4 * shape.size ≤ addressLimit

/-- The common size of two axes. -/
def joinAxis? (l r : Nat) : Option Nat :=
  if l = r then some l else if l = 1 then some r else if r = 1 then some l else none

/-- The common shape of two shapes that are written from the last axis on. -/
def joinReversed? : Shape → Shape → Option Shape
  | [], right => some right
  | left, [] => some left
  | l :: left, r :: right => do
      let d ← joinAxis? l r
      let rest ← joinReversed? left right
      return d :: rest

/-- The shape that two shapes stretch to, if their sizes fit. -/
def join? (left right : Shape) : Option Shape :=
  (joinReversed? left.reverse right.reverse).map List.reverse

/-- The index that a stretched shape reads for an index of its target: leading axes that it lacks
are dropped, and stretched axes are read at position zero. -/
def pull (shape : Shape) (index : List Nat) : List Nat :=
  (index.drop (index.length - shape.length)).zipWith (fun i d => if d = 1 then 0 else i) shape

def text (shape : Shape) : String :=
  Text.listing (shape.map toString)

/-! ## Indices and places -/

/-- A row of blocks of one length has the length of all of them. -/
private theorem length_flatMap_range
    {β : Type} {k : Nat} (block : Nat → List β) (uniform : ∀ i, (block i).length = k) :
    ∀ d : Nat, ((List.range d).flatMap block).length = d * k
  | 0 => by simp
  | d + 1 => by
      rw [List.range_succ, List.flatMap_append, List.length_append,
        length_flatMap_range block uniform d, List.flatMap_singleton, uniform, Nat.succ_mul]

/-- In a row of blocks of one length, a place is found by block and by place inside the block. -/
private theorem getElem?_flatMap_range
    {β : Type} {k : Nat} (block : Nat → List β) (uniform : ∀ i, (block i).length = k)
    {i j : Nat} (inside : j < k) :
    ∀ d : Nat, i < d → ((List.range d).flatMap block)[i * k + j]? = (block i)[j]?
  | 0, below => absurd below (Nat.not_lt_zero i)
  | d + 1, below => by
      have total := length_flatMap_range block uniform d
      rw [List.range_succ, List.flatMap_append, List.flatMap_singleton]
      rcases Nat.lt_succ_iff_lt_or_eq.mp below with earlier | rfl
      · have fits : i * k + j < d * k := by
          have := Nat.mul_le_mul_right k earlier
          rw [Nat.succ_mul] at this
          omega
        rw [List.getElem?_append_left (total ▸ fits)]
        exact getElem?_flatMap_range block uniform inside d earlier
      · rw [List.getElem?_append_right (by omega), total, Nat.add_sub_cancel_left]

theorem length_indices : ∀ shape : Shape, (indices shape).length = size shape
  | [] => rfl
  | d :: rest => by
      rw [indices, size]
      split
      · next empty => rw [empty, List.length_nil, Nat.mul_zero]
      · rw [length_flatMap_range _ fun i => ?_]
        rw [List.length_map, length_indices rest]

theorem offset_lt : ∀ {shape : Shape} {index : List Nat},
    InBounds shape index → offset shape index < size shape
  | [], [], _ => Nat.one_pos
  | d :: rest, i :: index, ⟨below, inside⟩ => by
      have smaller := offset_lt inside
      have block := Nat.mul_le_mul_right (size rest) below
      rw [Nat.succ_mul] at block
      simp only [offset, size]
      omega

/-- An index stands at its place among all indices. -/
theorem getElem?_indices_offset : ∀ {shape : Shape} {index : List Nat},
    InBounds shape index → (indices shape)[offset shape index]? = some index
  | [], [], _ => rfl
  | d :: rest, i :: index, ⟨below, inside⟩ => by
      have place := offset_lt inside
      rw [indices, offset, if_neg (by omega), getElem?_flatMap_range _ (fun i => ?_) place d below,
        List.getElem?_map, getElem?_indices_offset inside, Option.map_some]
      rw [List.length_map, length_indices rest]

/-! ## Extents -/

/-- A shape has no more elements than its extent. -/
theorem size_le_extent : ∀ shape : Shape, size shape ≤ extent shape
  | [] => Nat.le_refl 1
  | d :: rest => by
      rw [size, extent]
      refine Nat.mul_le_mul ?_ (size_le_extent rest)
      split <;> omega

end Shape

end QuantNet
