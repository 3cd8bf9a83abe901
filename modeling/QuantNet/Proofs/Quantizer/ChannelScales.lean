import QuantNet.Proofs.Quantizer.ExactLevels
import QuantNet.Proofs.Tensor.Slices

/-!
# Scales of channels

An automatic scale shows, at every index of a tensor, the scale factor of the channel that the index
lies in.  In exact arithmetic this factor is computed from the greatest magnitude in the channel.
-/

namespace QuantNet

namespace QuantizerConfig

variable {α : Type} [Scalar α] {data other : Tensor α} {index : List Nat} {c : Nat}

theorem channel_eq (data : Tensor α) (c : Nat) :
    channel data c = (data.shape.channelIndices c).map data.get := by
  rcases List.eq_nil_or_concat' data.shape with scalar | ⟨front, d, axes⟩
  · have one : data.data.toList.length = 1 := by
      rw [Array.length_toList, data.size_data, scalar]
      rfl
    obtain ⟨x, only⟩ := List.length_eq_one_iff.mp one
    have element : data.get [] = x := by
      rw [Tensor.get, scalar, Array.getD_eq_getD_getElem?, ← Array.getElem?_toList, only]
      rfl
    have elements : channel data c = data.data.toList := by
      rw [channel, scalar]
    rw [elements, only, scalar, Shape.channelIndices, List.map_singleton, element]
  · have elements : channel data c =
        (Shape.indices data.shape.dropLast).map fun leading => data.get (leading ++ [c]) := by
      unfold channel
      split
      · next none => simp [axes] at none
      · rfl
    rw [elements, axes, List.dropLast_concat, Shape.channelIndices_concat, List.map_map]
    rfl

/-- A tensor that has, throughout a channel, the values of a function at the elements of another
one. -/
theorem channel_eq_map {f : α → α} (shape : other.shape = data.shape)
    (below : c < data.shape.channels)
    (elements : ∀ index, data.shape.InBounds index → index.getLastD 0 = c →
      other.get index = f (data.get index)) :
    channel other c = (channel data c).map f := by
  rw [channel_eq, channel_eq, shape, List.map_map]
  refine List.map_congr_left fun index member => ?_
  obtain ⟨inside, last⟩ := (Shape.mem_channelIndices below).mp member
  exact elements index inside last

/-! ## What a scale shows -/

@[simp]
theorem channelShape_concat (front : Shape) (d : Nat) :
    channelShape (front ++ [d]) = List.replicate front.length 1 ++ [d] := by
  simp [channelShape]

theorem channels_channelShape (shape : Shape) : (channelShape shape).channels = shape.channels := by
  rcases List.eq_nil_or_concat' shape with rfl | ⟨front, d, rfl⟩
  · rfl
  · rw [channelShape_concat, Shape.channels_concat, Shape.channels_concat]

/-- A tensor with one element for every channel is read at the channel of an index, whatever the
positions on the other axes. -/
private theorem pull_channelShape {shape : Shape} (same : index.length = shape.length)
    (below : index.getLastD 0 < shape.channels) :
    (channelShape shape).InBounds ((channelShape shape).pull index) ∧
      ((channelShape shape).pull index).getLastD 0 = index.getLastD 0 := by
  rcases List.eq_nil_or_concat' shape with rfl | ⟨front, d, rfl⟩
  · obtain rfl := List.length_eq_zero_iff.mp same
    exact ⟨trivial, rfl⟩
  · rcases List.eq_nil_or_concat' index with rfl | ⟨leading, i, rfl⟩
    · simp at same
    rw [List.length_append, List.length_append, List.length_singleton, List.length_singleton,
      Nat.add_right_cancel_iff] at same
    rw [List.getLastD_concat, Shape.channels_concat] at below
    have position : Shape.pullAxis i d = i := by
      rw [Shape.pullAxis]
      split <;> omega
    rw [channelShape_concat, ← same, Shape.pull_concat _ _ List.length_replicate.symm,
      Shape.zipWith_pullAxis_replicate, position, List.getLastD_concat, List.getLastD_concat]
    exact ⟨(Shape.inBounds_replicate leading.length).snoc below, rfl⟩

/-- The scale factor of a channel with the given elements. -/
def factor (config : QuantizerConfig α) (elements : List α) : α :=
  match config.alpha.getD Alpha.one with
  | .fixed value => value
  | .auto => channelScale config.levels id elements
  | .autoPowerOfTwo => channelScale config.levels Scalar.roundPow2 elements

variable {config : QuantizerConfig α}

theorem scale_eq_ofFn (config : QuantizerConfig α) (data : Tensor α) :
    config.scale data = Tensor.ofFn (config.scaleShape data) fun index =>
      config.factor (channel data (index.getLastD 0)) := by
  unfold scale scaleShape factor
  generalize config.alpha.getD Alpha.one = alpha
  cases alpha <;> rfl

/-- Wherever a scale is stretched to, it shows the scale factor of the channel. -/
theorem stretched_scale (same : index.length = data.rank)
    (below : index.getLastD 0 < data.shape.channels) :
    (config.scale data).stretched index = config.factor (channel data (index.getLastD 0)) := by
  obtain ⟨inside, last⟩ := pull_channelShape same below
  have channelwise : ∀ element : List Nat → α,
      (Tensor.ofFn (channelShape data.shape) element).stretched index =
        element ((channelShape data.shape).pull index) :=
    fun element => Tensor.get_ofFn element inside
  unfold scale factor
  generalize config.alpha.getD Alpha.one = alpha
  cases alpha with
  | fixed value =>
      have zeros : Shape.pull (List.replicate data.rank 1) index = List.replicate data.rank 0 := by
        rw [← same, Shape.pull_eq List.length_replicate.symm, Shape.zipWith_pullAxis_replicate]
      have inside : Shape.InBounds (List.replicate data.rank 1)
          (Shape.pull (List.replicate data.rank 1) index) :=
        zeros ▸ Shape.inBounds_replicate data.rank
      exact Tensor.get_ofFn (fun _ => value) inside
  | auto | autoPowerOfTwo =>
      dsimp only
      rw [channelScales, channelwise, last]

end QuantizerConfig

/-! ## Magnitudes -/

namespace Exact

/-- The magnitudes of some elements. -/
def magnitudes (elements : List ℚ) : Set ℚ :=
  {m | ∃ x ∈ elements, |x| = m}

private theorem isGreatest_foldl_max (elements : List ℚ) (least : ℚ) :
    IsGreatest (insert least (magnitudes elements))
      (elements.foldl (fun largest x => max largest |x|) least) := by
  induction elements generalizing least with
  | nil => simp [magnitudes]
  | cons x rest inductionHypothesis =>
      obtain ⟨attained, bounds⟩ := inductionHypothesis (max least |x|)
      rw [List.foldl_cons]
      constructor
      · rcases attained with first | ⟨y, member, same⟩
        · rcases max_choice least |x| with left | right
          · exact Or.inl (first.trans left)
          · exact Or.inr ⟨x, List.mem_cons_self, (first.trans right).symm⟩
        · exact Or.inr ⟨y, List.mem_cons_of_mem x member, same⟩
      · rintro m (rfl | ⟨y, member, rfl⟩)
        · exact (le_max_left _ _).trans (bounds (Or.inl rfl))
        · rcases List.mem_cons.mp member with rfl | later
          · exact (le_max_right _ _).trans (bounds (Or.inl rfl))
          · exact bounds (Or.inr ⟨y, later, rfl⟩)

/-- The largest magnitude among some rational numbers. -/
def largest (exponent : ℚ → ℤ) (elements : List ℚ) : ℚ :=
  @QuantizerConfig.largestMagnitude (Number exponent) _ elements

/-- The scale factor of a channel of rational numbers. -/
def scaleFactor (exponent : ℚ → ℤ) (levels : Levels) (adjust : ℚ → ℚ) (elements : List ℚ) : ℚ :=
  @QuantizerConfig.channelScale (Number exponent) _ levels adjust elements

variable {exponent : ℚ → ℤ} {elements : List ℚ} {levels : Levels} {adjust : ℚ → ℚ} {x : ℚ}

/-- The largest magnitude is the greatest of all, zero included. -/
theorem isGreatest_largest (exponent : ℚ → ℤ) (elements : List ℚ) :
    IsGreatest (insert 0 (magnitudes elements)) (largest exponent elements) :=
  isGreatest_foldl_max elements 0

theorem largest_nonneg (exponent : ℚ → ℤ) (elements : List ℚ) : 0 ≤ largest exponent elements :=
  (isGreatest_largest exponent elements).2 (Or.inl rfl)

theorem abs_le_largest (exponent : ℚ → ℤ) (member : x ∈ elements) :
    |x| ≤ largest exponent elements :=
  (isGreatest_largest exponent elements).2 (Or.inr ⟨x, member, rfl⟩)

theorem isGreatest_largest_of_pos (positive : 0 < largest exponent elements) :
    IsGreatest (magnitudes elements) (largest exponent elements) := by
  obtain ⟨attained, bounds⟩ := isGreatest_largest exponent elements
  exact ⟨attained.resolve_left positive.ne', fun _ member => bounds (Or.inr member)⟩

theorem scaleFactor_eq (exponent : ℚ → ℤ) (levels : Levels) (adjust : ℚ → ℚ) (elements : List ℚ) :
    scaleFactor exponent levels adjust elements =
      if 0 < largest exponent elements then
        adjust (largest exponent elements / levels.exactHighest exponent)
      else
        1 :=
  ite_congr (propext (lt_iff 0 _)) (fun _ => rfl) fun _ => rfl

/-- Scale factors are positive where the largest level is. -/
theorem scaleFactor_pos (highest : 0 < levels.exactHighest exponent)
    (positive : ∀ q, 0 < q → 0 < adjust q) (elements : List ℚ) :
    0 < scaleFactor exponent levels adjust elements := by
  rw [scaleFactor_eq]
  split
  · next some => exact positive _ (div_pos some highest)
  · exact one_pos

end Exact

end QuantNet
