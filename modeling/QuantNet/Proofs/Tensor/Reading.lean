import QuantNet.Proofs.Tensor.Rescaling

/-!
# Reading tensors

Reading a tensor where it has no element gives zero.  Here it gives nothing instead, and yet every
product, every stretched tensor and every quantizer finds all elements that it looks for: their
indices lie inside the tensors that they read.
-/

namespace QuantNet

namespace Shape

instance decidableInBounds : ∀ (shape : Shape) (index : List Nat), Decidable (InBounds shape index)
  | [], [] => isTrue trivial
  | [], _ :: _ => isFalse id
  | _ :: _, [] => isFalse id
  | d :: rest, i :: index =>
      have := decidableInBounds rest index
      inferInstanceAs (Decidable (i < d ∧ InBounds rest index))

/-- An index inside the front of a shape goes on with a position on its last axis. -/
theorem InBounds.snoc {d i : Nat} (below : i < d) : ∀ {front : Shape} {leading : List Nat},
    InBounds front leading → InBounds (front ++ [d]) (leading ++ [i])
  | [], [], _ => ⟨below, trivial⟩
  | _ :: _, _ :: _, ⟨here, rest⟩ => ⟨here, InBounds.snoc below rest⟩

end Shape

namespace Tensor

variable {α : Type} {tensor : Tensor α} {index : List Nat}

/-- The element at an index, if the index lies inside the tensor. -/
def at? (tensor : Tensor α) (index : List Nat) : Option α :=
  if tensor.shape.InBounds index then tensor.data[tensor.shape.offset index]? else none

theorem at?_eq_get [Zero α] (inside : tensor.shape.InBounds index) :
    tensor.at? index = some (tensor.get index) := by
  have below : tensor.shape.offset index < tensor.data.size := by
    rw [tensor.size_data]
    exact Shape.offset_lt inside
  rw [at?, if_pos inside, get, Array.getD_eq_getD_getElem?, Array.getElem?_eq_getElem below,
    Option.getD_some]

theorem at?_pull [Zero α] {shape : Shape} (stretches : tensor.shape.Stretches shape)
    (inside : shape.InBounds index) :
    tensor.at? (tensor.shape.pull index) = some (tensor.stretched index) :=
  at?_eq_get (stretches.inBounds_pull inside)

end Tensor

/-! ## Products -/

namespace Product

variable {α : Type} [Scalar α] {x weight : Tensor α}

/-- Places in an input and a weight tensor whose elements are multiplied. -/
abbrev Places :=
  List (List Nat × List Nat)

def matrixPlaces : Shape → List Nat → Places
  | [rows, _], [b, c] => (List.range rows).map fun i => ([b, i], [i, c])
  | _, _ => []

def convolution1DPlaces : Shape → List Nat → Places
  | [k, depth, _], [b, i, f] => (List.range k).flatMap fun dk =>
      (List.range depth).map fun c => ([b, i + dk, c], [dk, c, f])
  | _, _ => []

def convolution2DPlaces : Shape → List Nat → Places
  | [kh, kw, depth, _], [b, i, j, f] => (List.range kh).flatMap fun di =>
      (List.range kw).flatMap fun dj =>
        (List.range depth).map fun c => ([b, i + di, j + dj, c], [di, dj, c, f])
  | _, _ => []

/-- The products of the elements at some places, if there are elements at all of them. -/
def terms? (x weight : Tensor α) (places : Places) : Option (List α) :=
  places.mapM fun place => do return (← x.at? place.1) * (← weight.at? place.2)

/-- An element of the product can be computed from elements that are there: those at the given
places, which depend on the shape of the weight tensor and on the index of the element. -/
def Readable (product : Product α) (places : Shape → List Nat → Places) (sum : List α → α) : Prop :=
  ∀ ⦃x weight : Tensor α⦄ ⦃shape index⦄, product.shape x.shape weight.shape = .ok shape →
    shape.InBounds index →
      (terms? x weight (places weight.shape index)).map sum = some (product.element x weight index)

private theorem terms?_eq_some : ∀ places : Places,
    (∀ place ∈ places, x.shape.InBounds place.1 ∧ weight.shape.InBounds place.2) →
      terms? x weight places =
        some (places.map fun place => x.get place.1 * weight.get place.2)
  | [], _ => rfl
  | place :: rest, inside => by
      obtain ⟨⟨left, right⟩, others⟩ := List.forall_mem_cons.mp inside
      have later := terms?_eq_some rest others
      unfold terms? at later ⊢
      rw [List.mapM_cons, later, Tensor.at?_eq_get left, Tensor.at?_eq_get right]
      rfl

/-- Places inside both tensors can be read. -/
private theorem terms?_map {places : Places} {sum : List α → α} {element : α}
    (inside : ∀ place ∈ places, x.shape.InBounds place.1 ∧ weight.shape.InBounds place.2)
    (total : sum (places.map fun place => x.get place.1 * weight.get place.2) = element) :
    (terms? x weight places).map sum = some element := by
  rw [terms?_eq_some places inside, Option.map_some, total]

theorem readable_matrix :
    (matrix : Product α).Readable matrixPlaces (Scalar.blockTotal blockSize) := by
  intro x weight shape index fits inside
  unfold matrix at fits ⊢
  dsimp only at fits ⊢
  split at fits
  · next batch features rows columns axes weightAxes =>
      split at fits
      · next same =>
          obtain rfl := Except.ok.inj fits
          obtain ⟨b, c, rfl⟩ := List.length_eq_two.mp inside.length_eq
          obtain ⟨inBatch, inColumns, _⟩ := inside
          rw [weightAxes]
          apply terms?_map
          · intro place member
            obtain ⟨i, below, rfl⟩ := List.mem_map.mp member
            have inRows := List.mem_range.mp below
            rw [axes, weightAxes]
            exact ⟨⟨inBatch, same ▸ inRows, trivial⟩, inRows, inColumns, trivial⟩
          · rw [matrixPlaces, List.map_map]
            rfl
      · cases fits
  · cases fits

theorem readable_convolution1D :
    (convolution1D : Product α).Readable convolution1DPlaces Scalar.total := by
  intro x weight shape index fits inside
  unfold convolution1D at fits ⊢
  dsimp only at fits ⊢
  split at fits
  · next batch width channels k depth filters axes weightAxes =>
      split at fits
      · next same =>
          obtain rfl := Except.ok.inj fits
          obtain ⟨b, i, f, rfl⟩ := List.length_eq_three.mp inside.length_eq
          obtain ⟨inBatch, inPlaces, inFilters, _⟩ := inside
          rw [weightAxes]
          apply terms?_map
          · intro place member
            obtain ⟨dk, kernel, among⟩ := List.mem_flatMap.mp member
            obtain ⟨c, channel, rfl⟩ := List.mem_map.mp among
            have inKernel := List.mem_range.mp kernel
            have inDepth := List.mem_range.mp channel
            have inWidth : i + dk < width := by omega
            rw [axes, weightAxes]
            exact ⟨⟨inBatch, inWidth, same.1 ▸ inDepth, trivial⟩, inKernel, inDepth, inFilters,
              trivial⟩
          · simp only [convolution1DPlaces, List.map_flatMap, List.map_map]
            rfl
      · cases fits
  · cases fits

theorem readable_convolution2D :
    (convolution2D : Product α).Readable convolution2DPlaces Scalar.total := by
  intro x weight shape index fits inside
  unfold convolution2D at fits ⊢
  dsimp only at fits ⊢
  split at fits
  · next batch height width channels kh kw depth filters axes weightAxes =>
      split at fits
      · next same =>
          obtain rfl := Except.ok.inj fits
          obtain ⟨b, i, rest, rfl, pair⟩ :
              ∃ b i rest, index = b :: i :: rest ∧ rest.length = 2 := by
            have rank : index.length = 4 := inside.length_eq
            match index, rank with
            | b :: i :: rest, rank => exact ⟨b, i, rest, rfl, by simpa using rank⟩
          obtain ⟨j, f, rfl⟩ := List.length_eq_two.mp pair
          obtain ⟨inBatch, inRows, inColumns, inFilters, _⟩ := inside
          rw [weightAxes]
          apply terms?_map
          · intro place member
            obtain ⟨di, row, inner⟩ := List.mem_flatMap.mp member
            obtain ⟨dj, column, among⟩ := List.mem_flatMap.mp inner
            obtain ⟨c, channel, rfl⟩ := List.mem_map.mp among
            have inKernelRows := List.mem_range.mp row
            have inKernelColumns := List.mem_range.mp column
            have inDepth := List.mem_range.mp channel
            have inHeight : i + di < height := by omega
            have inWidth : j + dj < width := by omega
            rw [axes, weightAxes]
            exact ⟨⟨inBatch, inHeight, inWidth, same.1 ▸ inDepth, trivial⟩, inKernelRows,
              inKernelColumns, inDepth, inFilters, trivial⟩
          · simp only [convolution2DPlaces, List.map_flatMap, List.map_map]
            rfl
      · cases fits
  · cases fits

end Product

/-! ## Quantizers -/

namespace QuantizerConfig

variable {α : Type} [Scalar α]

/-- The elements of a channel are there. -/
theorem at?_channel {data : Tensor α} {index leading : List Nat}
    (inside : (channelShape data.shape).InBounds index) (axes : data.shape ≠ [])
    (member : leading ∈ Shape.indices data.shape.dropLast) :
    data.at? (leading ++ [index.getLastD 0]) = some (data.get (leading ++ [index.getLastD 0])) := by
  apply Tensor.at?_eq_get
  rcases List.eq_nil_or_concat data.shape with none | ⟨rows, channels, concat⟩
  · exact absurd none axes
  rw [List.concat_eq_append] at concat
  rw [concat] at inside member ⊢
  have shape : channelShape (rows ++ [channels]) = List.replicate rows.length 1 ++ [channels] := by
    simp [channelShape]
  rw [shape] at inside
  obtain ⟨front, c, rfl, _, below⟩ := inside.concat
  rw [List.dropLast_concat] at member
  rw [List.getLastD_concat]
  exact (Shape.inBounds_of_mem_indices member).snoc below

end QuantizerConfig

/-- Wherever an element of a tensor is looked up, by a layer, by a combination of two stretched
tensors or by a quantizer, it is there. -/
structure ReadsInside (α : Type) [Scalar α] : Prop where
  matrix : (Product.matrix : Product α).Readable Product.matrixPlaces
    (Scalar.blockTotal Product.blockSize)
  convolution1D : (Product.convolution1D : Product α).Readable Product.convolution1DPlaces
    Scalar.total
  convolution2D : (Product.convolution2D : Product α).Readable Product.convolution2DPlaces
    Scalar.total
  joined : ∀ (left right : Tensor α) shape index,
    Shape.join? left.shape right.shape = some shape → shape.InBounds index →
      left.at? (left.shape.pull index) = some (left.stretched index) ∧
        right.at? (right.shape.pull index) = some (right.stretched index)
  quantized : ∀ (config : QuantizerConfig α) (data : Tensor α) index, data.shape.InBounds index →
    data.at? index = some (data.get index) ∧
      (config.scale data).at? ((config.scale data).shape.pull index) =
        some ((config.scale data).stretched index)
  channels : ∀ (data : Tensor α) index leading,
    (QuantizerConfig.channelShape data.shape).InBounds index → data.shape ≠ [] →
      leading ∈ Shape.indices data.shape.dropLast →
        data.at? (leading ++ [index.getLastD 0]) =
          some (data.get (leading ++ [index.getLastD 0]))

theorem readsInside (α : Type) [Scalar α] : ReadsInside α where
  matrix := Product.readable_matrix
  convolution1D := Product.readable_convolution1D
  convolution2D := Product.readable_convolution2D
  joined := fun _ _ _ _ joined inside =>
    have stretches := Shape.Stretches.of_join joined
    ⟨Tensor.at?_pull stretches.1 inside, Tensor.at?_pull stretches.2 inside⟩
  quantized := fun config data _ inside =>
    ⟨Tensor.at?_eq_get inside, Tensor.at?_pull (config.stretches_scale data) inside⟩
  channels := fun _ _ _ => QuantizerConfig.at?_channel

end QuantNet
