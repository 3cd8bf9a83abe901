import QuantNet.Proofs.Quantizer.ChannelScales
import QuantNet.Proofs.Quantizer.Outcome
import QuantNet.Scalar.Binary32

/-!
# Channels on their own

Quantizing commutes with the choice of output channels, whatever the operations on numbers compute:
a scale factor depends on the elements of its channel only, and every element is quantized at the
scale factor of its channel.
-/

namespace QuantNet

/-- The scale factor of an output channel. -/
def Quantized.factor {α : Type} [Zero α] (outcome : Quantized α) (c : Nat) : α :=
  outcome.scale.flatten.stretched [c]

namespace QuantizerConfig

variable {α : Type} [Scalar α] {config : QuantizerConfig α} {data other : Tensor α}
  {outcome chosen : Quantized α} {front : Shape} {channels c i : Nat} {leading picks : List Nat}

theorem channel_select (axes : data.shape = front ++ [channels]) (below : i < picks.length) :
    channel (data.select picks) i = channel data picks[i] := by
  rw [channel_eq, channel_eq, Tensor.shape_select axes, axes, Shape.channelIndices_concat,
    Shape.channelIndices_concat, List.map_map, List.map_map]
  exact List.map_congr_left fun leading member =>
    Tensor.get_select axes (Shape.mem_indices_iff.mp member) below

/-! ## Scale factors -/

/-- The scale shows the factor of a channel at all places of the channel. -/
theorem stretched_eq_factor (axes : data.shape = front ++ [channels])
    (done : config.quantize? data = some outcome) (same : leading.length = front.length) (c : Nat) :
    outcome.scale.stretched (leading ++ [c]) = outcome.factor c := by
  obtain ⟨k, _, scaleAxes⟩ := config.shape_scale axes
  rw [← (quantize?_eq_some done).2, ← same] at scaleAxes
  rw [← Tensor.stretched_flatten scaleAxes, Quantized.factor,
    Tensor.stretched_singleton (Tensor.shape_flatten_of_axes scaleAxes)]

theorem factor_eq (axes : data.shape = front ++ [channels])
    (done : config.quantize? data = some outcome) (below : c < channels) :
    outcome.factor c = config.factor (channel data c) := by
  have zeros : (List.replicate front.length 0).length = front.length := List.length_replicate
  have rank : (List.replicate front.length 0 ++ [c]).length = data.rank := by
    rw [Tensor.rank, axes, List.length_append, List.length_append, zeros]
    rfl
  have last : (List.replicate front.length 0 ++ [c]).getLastD 0 = c := List.getLastD_concat
  have among : (List.replicate front.length 0 ++ [c]).getLastD 0 < data.shape.channels := by
    rw [last, axes, Shape.channels_concat]
    exact below
  rw [← stretched_eq_factor axes done zeros, (quantize?_eq_some done).2,
    stretched_scale rank among, last]

/-- An element of the outcome, from the scale factor of its channel. -/
theorem get_eq_factor (axes : data.shape = front ++ [channels])
    (done : config.quantize? data = some outcome) (inside : front.InBounds leading)
    (below : c < channels) :
    outcome.values.get (leading ++ [c]) =
      outcome.factor c * config.levels.level (data.get (leading ++ [c]) / outcome.factor c) := by
  have among : data.shape.InBounds (leading ++ [c]) := by
    rw [axes]
    exact inside.snoc below
  rw [get_of_quantize? done among, ← (quantize?_eq_some done).2,
    stretched_eq_factor axes done inside.length_eq]

/-! ## Chosen channels -/

/-- Quantized channels that were chosen before are those that are chosen after. -/
theorem values_select (axes : data.shape = front ++ [channels])
    (inside : ∀ c ∈ picks, c < channels) (done : config.quantize? data = some outcome)
    (redone : config.quantize? (data.select picks) = some chosen) :
    chosen.values = outcome.values.select picks ∧
      ∀ (i : Nat) (below : i < picks.length), chosen.factor i = outcome.factor picks[i] := by
  have axesChosen := Tensor.shape_select axes picks
  have factors : ∀ (i : Nat) (below : i < picks.length),
      chosen.factor i = outcome.factor picks[i] := fun i below => by
    rw [factor_eq axesChosen redone below, channel_select axes below,
      factor_eq axes done (inside _ (List.getElem_mem below))]
  refine ⟨?_, factors⟩
  apply Tensor.eq_select ((quantize?_eq_some done).1.trans axes)
    ((quantize?_eq_some redone).1.trans axesChosen)
  intro leading among i below
  rw [get_eq_factor axesChosen redone among below, factors i below,
    Tensor.get_select axes among below,
    get_eq_factor axes done among (inside _ (List.getElem_mem below))]

/-! ## One channel -/

theorem hasLevels_select (axes : data.shape = front ++ [channels]) (below : c < channels) :
    config.hasLevels (data.select [c]) = config.hasLevels data := by
  have size : (data.select [c]).data.size = front.size := by
    rw [Tensor.size_data, Tensor.shape_select axes, Shape.size_concat, List.length_singleton,
      Nat.mul_one]
  have some : channels ≠ 0 := by omega
  have empty : (data.select [c]).data.isEmpty = data.data.isEmpty := by
    rw [Bool.eq_iff_iff, Array.isEmpty_iff_size_eq_zero, Array.isEmpty_iff_size_eq_zero, size,
      data.size_data, axes, Shape.size_concat, Nat.mul_eq_zero, or_iff_left some]
  simp only [hasLevels, empty]

theorem scaleShape_select (axes : data.shape = front ++ [channels]) (c : Nat) :
    config.scaleShape (data.select [c]) = List.replicate data.rank 1 := by
  have shape : (data.select [c]).shape = front ++ [1] := Tensor.shape_select axes [c]
  have rank : (data.select [c]).rank = data.rank := by
    rw [Tensor.rank, Tensor.rank, shape, axes, List.length_append, List.length_append]
    rfl
  have channelwise : channelShape (data.select [c]).shape = List.replicate data.rank 1 := by
    rw [shape, channelShape_concat, Tensor.rank, axes, List.length_append, List.length_singleton,
      List.replicate_succ']
  unfold scaleShape
  split
  · rw [rank]
  · exact channelwise
  · exact channelwise

theorem isSome_quantize?_select_iff (axes : data.shape = front ++ [channels])
    (below : c < channels) :
    (config.quantize? (data.select [c])).isSome ↔ config.hasLevels data = true := by
  rw [isSome_quantize?_iff, scaleShape_select axes, hasLevels_select axes below]
  exact and_iff_right (Shape.isStorable_replicate_one data.rank)

/-- A channel on its own has the values and the scale factor that it has among the others. -/
theorem quantize?_select (axes : data.shape = front ++ [channels]) (below : c < channels)
    (done : config.quantize? data = some outcome) :
    config.quantize? (data.select [c]) =
      some ⟨outcome.values.select [c], .fill (List.replicate data.rank 1) (outcome.factor c)⟩ := by
  have levels := (isSome_quantize?_iff.mp (Option.isSome_of_eq_some done)).2
  obtain ⟨chosen, redone⟩ := Option.isSome_iff_exists.mp
    ((isSome_quantize?_select_iff axes below).mpr levels)
  obtain ⟨values, _⟩ := values_select axes (List.forall_mem_singleton.mpr below) done redone
  have scale : chosen.scale = .fill (List.replicate data.rank 1) (outcome.factor c) := by
    rw [(quantize?_eq_some redone).2, scale_eq_ofFn, scaleShape_select axes, Tensor.fill]
    refine Tensor.ofFn_congr fun index inside => ?_
    have zero : index.getLastD 0 = 0 := by
      have last := inside.getLastD_lt
      rw [Tensor.rank, axes, List.length_append, List.length_singleton, List.replicate_succ',
        Shape.channels_concat] at last
      exact Nat.lt_one_iff.mp last
    rw [zero, channel_select axes Nat.one_pos, factor_eq axes done below]
    rfl
  rw [redone, Option.some.injEq]
  obtain ⟨values', scale'⟩ := chosen
  obtain rfl : values' = _ := values
  obtain rfl : scale' = _ := scale
  rfl

/-- Elements of other channels do not matter to a channel. -/
private theorem select_eq_of_agree (axes : data.shape = front ++ [channels])
    (shape : other.shape = data.shape) (below : c < channels)
    (agree : ∀ index, data.shape.InBounds index → index.getLastD 0 = c →
      other.get index = data.get index) :
    other.select [c] = data.select [c] := by
  apply Tensor.eq_select axes (Tensor.shape_select (shape.trans axes) [c])
  intro leading inside i first
  obtain rfl := Nat.lt_one_iff.mp first
  rw [Tensor.get_select (shape.trans axes) inside first]
  refine agree _ ?_ List.getLastD_concat
  rw [axes]
  exact inside.snoc below

/-- A channel that two tensors of one shape have in common has the same outcome in both. -/
theorem outcome_eq_of_agree {changed : Quantized α} (axes : data.shape = front ++ [channels])
    (shape : other.shape = data.shape) (below : c < channels)
    (agree : ∀ index, data.shape.InBounds index → index.getLastD 0 = c →
      other.get index = data.get index)
    (done : config.quantize? data = some outcome) (redone : config.quantize? other = some changed) :
    changed.values.select [c] = outcome.values.select [c] ∧
      changed.factor c = outcome.factor c := by
  have same := select_eq_of_agree axes shape below agree
  have alone := quantize?_select (shape.trans axes) below redone
  rw [same, quantize?_select axes below done, Option.some.injEq] at alone
  have elements : channel other c = channel data c := by
    have chosen : channel (other.select [c]) 0 = channel other c :=
      channel_select (shape.trans axes) Nat.one_pos
    rw [← chosen, same]
    exact channel_select axes Nat.one_pos
  rw [factor_eq axes done below, factor_eq (shape.trans axes) redone below, elements]
  exact ⟨(congrArg Quantized.values alone).symm, rfl⟩

theorem quantize?_permuted (axes : data.shape = front ++ [channels])
    (order : picks.Perm (List.range channels)) (done : config.quantize? data = some outcome) :
    ∃ chosen, config.quantize? (data.select picks) = some chosen ∧
      chosen.values = outcome.values.select picks ∧ chosen.scale.shape = outcome.scale.shape ∧
        ∀ (i : Nat) (below : i < picks.length), chosen.factor i = outcome.factor picks[i] := by
  have shape : (data.select picks).shape = data.shape := by
    rw [Tensor.shape_select axes, order.length_eq, List.length_range, axes]
  have inside : ∀ c ∈ picks, c < channels := fun c member =>
    List.mem_range.mp (order.mem_iff.mp member)
  obtain ⟨chosen, redone⟩ := Option.isSome_iff_exists.mp
    (isSome_quantize?_of_shape_eq shape (Option.isSome_of_eq_some done))
  obtain ⟨values, factors⟩ := values_select axes inside done redone
  have scales : chosen.scale.shape = outcome.scale.shape := by
    rw [(quantize?_eq_some redone).2, (quantize?_eq_some done).2, scale_eq_ofFn, scale_eq_ofFn,
      Tensor.ofFn, Tensor.ofFn]
    exact scaleShape_of_shape_eq shape
  exact ⟨chosen, redone, values, scales, factors⟩

end QuantizerConfig

/-- Whether the output channels of a tensor are quantized independently of each other. -/
structure QuantizerConfig.IsChannelwise {α : Type} [Scalar α] (config : QuantizerConfig α)
    (data : Tensor α) : Prop where
  /-- The scale shows the scale factor of a channel at all places of the channel. -/
  factor : ∀ outcome, config.quantize? data = some outcome → ∀ index, data.shape.InBounds index →
    outcome.scale.stretched index = outcome.factor (index.getLastD 0)
  /-- On its own, a channel has the same values and the same scale factor. -/
  alone : ∀ outcome, config.quantize? data = some outcome → ∀ c < data.shape.channels,
    config.quantize? (data.select [c]) =
      some ⟨outcome.values.select [c], .fill (List.replicate data.rank 1) (outcome.factor c)⟩
  /-- A tensor that has no outcome, although its scale can be stored, has no channel with one. -/
  refused : (config.scaleShape data).isStorable = true → config.quantize? data = none →
    ∀ c < data.shape.channels, config.quantize? (data.select [c]) = none
  /-- Changes of some channels affect no other channel. -/
  unaffected : ∀ outcome other, config.quantize? data = some outcome → other.shape = data.shape →
    ∃ changed, config.quantize? other = some changed ∧ ∀ c < data.shape.channels,
      (∀ index, data.shape.InBounds index → index.getLastD 0 = c →
        other.get index = data.get index) →
          changed.values.select [c] = outcome.values.select [c] ∧
            changed.factor c = outcome.factor c
  /-- Channels in another order have their values and scale factors in that order. -/
  permuted : ∀ picks : List Nat, picks.Perm (List.range data.shape.channels) →
    ((config.quantize? (data.select picks)).isSome ↔ (config.quantize? data).isSome) ∧
      ∀ outcome, config.quantize? data = some outcome →
        ∃ chosen, config.quantize? (data.select picks) = some chosen ∧
          chosen.values = outcome.values.select picks ∧
          chosen.scale.shape = outcome.scale.shape ∧
          ∀ (i : Nat) (below : i < picks.length), chosen.factor i = outcome.factor picks[i]

/-- Every quantizer quantizes the output channels of a tensor independently of each other, whatever
the operations on numbers compute. -/
theorem channels_quantized_independently {α : Type} [Scalar α] (config : QuantizerConfig α)
    {data : Tensor α} (ranked : 1 ≤ data.rank) : config.IsChannelwise data := by
  obtain none | ⟨front, channels, axes⟩ := List.eq_nil_or_concat' data.shape
  · rw [Tensor.rank, none] at ranked
    cases ranked
  have count : data.shape.channels = channels := by
    rw [axes, Shape.channels_concat]
  constructor
  · intro outcome done index inside
    rw [axes] at inside
    obtain ⟨leading, c, rfl, same, _⟩ := inside.concat
    rw [QuantizerConfig.stretched_eq_factor axes done same, List.getLastD_concat]
  · intro outcome done c below
    exact QuantizerConfig.quantize?_select axes (count ▸ below) done
  · intro storable none c below
    have levels : config.hasLevels data ≠ true := fun levels =>
      Option.isSome_iff_ne_none.mp
        (QuantizerConfig.isSome_quantize?_iff.mpr ⟨storable, levels⟩) none
    rw [← Option.not_isSome_iff_eq_none,
      QuantizerConfig.isSome_quantize?_select_iff axes (count ▸ below)]
    exact levels
  · intro outcome other done shape
    obtain ⟨changed, redone⟩ := Option.isSome_iff_exists.mp
      (QuantizerConfig.isSome_quantize?_of_shape_eq shape (Option.isSome_of_eq_some done))
    exact ⟨changed, redone, fun c below agree =>
      QuantizerConfig.outcome_eq_of_agree axes shape (count ▸ below) agree done redone⟩
  · intro picks order
    rw [count] at order
    have shape : (data.select picks).shape = data.shape := by
      rw [Tensor.shape_select axes, order.length_eq, List.length_range, axes]
    exact ⟨⟨QuantizerConfig.isSome_quantize?_of_shape_eq shape.symm,
      QuantizerConfig.isSome_quantize?_of_shape_eq shape⟩,
      fun outcome done => QuantizerConfig.quantize?_permuted axes order done⟩

/-- The second channel of a ternary tensor, in floating point. -/
theorem channels_quantized_independently_ternary :
    let config : QuantizerConfig Float32 := ⟨.ternary, some .auto⟩
    let data : Tensor Float32 := ⟨[2, 2], #[1, -3, 0, 2], rfl⟩
    let outcome : Quantized Float32 :=
      ⟨⟨[2, 2], #[1, -3, 0, 3], rfl⟩, ⟨[1, 2], #[1, 3], rfl⟩⟩
    1 ≤ data.rank ∧ config.IsChannelwise data ∧ config.quantize? data = some outcome ∧
      config.quantize? (data.select [1]) =
        some ⟨outcome.values.select [1], .fill [1, 1] (outcome.factor 1)⟩ := by
  intro config data outcome
  have ranked : 1 ≤ data.rank := by decide
  have done : config.quantize? data = some outcome := by decide +kernel
  have channelwise := channels_quantized_independently config ranked
  exact ⟨ranked, channelwise, done, channelwise.alone outcome done 1 (by decide)⟩

end QuantNet
