import QuantNet.Proofs.Layer.Rewriting

/-!
# Weights that can be quantized again

A weight that has a quantizer and keeps its unquantized values should have the data that the
quantizer makes of these values.  In exact arithmetic, the data of a weight at unit scale are what
the unit quantizer makes of the unquantized values divided by the old scale.  The weight itself
keeps the values undivided.
-/

namespace QuantNet

variable {α : Type} [Scalar α]

private theorem Tensor.eq_of_mem_fill {α : Type} {shape : Shape} {x y : α}
    (member : y ∈ (fill shape x).data) : y = x := by
  have among : y ∈ shape.indices.map fun _ => x := List.mem_toArray.mp member
  obtain ⟨_, _, rfl⟩ := List.mem_map.mp among
  rfl

/-- What a quantizer stores for an element of a tensor. -/
def WeightQuantizer.element (quantizer : WeightQuantizer α) (data : Tensor α)
    (index : List Nat) : α :=
  let s := (quantizer.config.scale data).stretched index
  quantizer.encoding.encodeElement (s * quantizer.config.levels.level (data.get index / s))

/-- The level of every element is the same, as far as the encoding tells, whether or not the element
is divided by its scale. -/
def WeightQuantizer.SameLevels (quantizer : WeightQuantizer α) (data : Tensor α) : Prop :=
  ∀ ⦃index⦄, data.shape.InBounds index →
    quantizer.encoding.encodeElement (quantizer.config.levels.level
        (data.get index / (quantizer.config.scale data).stretched index)) =
      quantizer.encoding.encodeElement (quantizer.config.levels.level (data.get index))

namespace Weight

/-- A weight with a quantizer and unquantized values has the data that the quantizer makes of
them. -/
def Requantizable (weight : Weight α) : Prop :=
  ∀ ⦃unquantized quantizer⦄, weight.unquantized = some unquantized →
    weight.quantizer = some quantizer → quantized? unquantized quantizer = some weight

/-- The scale that the quantizer of a weight gives its unquantized values has no zero. -/
def ScalesNonzero (weight : Weight α) : Prop :=
  ∀ ⦃unquantized quantizer⦄, weight.unquantized = some unquantized →
    weight.quantizer = some quantizer → ∀ s ∈ (quantizer.config.scale unquantized).data, s ≠ 0

/-- What the quantizer of a weight stores for the unquantized values divided by a scale is what it
stores for them, divided by the scale. -/
def DividesThrough (weight : Weight α) (scale : Tensor α) : Prop :=
  ∀ ⦃unquantized quantizer quotient⦄, weight.unquantized = some unquantized →
    weight.quantizer = some quantizer →
      Tensor.zipWith? (fun b s => b / s) unquantized scale = some quotient →
        ∀ ⦃index⦄, unquantized.shape.InBounds index →
          quantizer.element quotient index =
            quantizer.element unquantized index / scale.stretched index

variable {weight old : Weight α} {unquantized : Tensor α} {quantizer : WeightQuantizer α}

theorem requantizable_of_unquantized_eq_none (none : weight.unquantized = none) :
    weight.Requantizable := by
  intro unquantized _ kept
  cases none.symm.trans kept

theorem requantizable_of_quantizer_eq_none (none : weight.quantizer = none) :
    weight.Requantizable := by
  intro _ quantizer _ quantized
  cases none.symm.trans quantized

theorem scalesNonzero_of_quantized? (made : quantized? unquantized quantizer = some weight)
    (nonzero : ∀ s ∈ (quantizer.config.scale unquantized).data, s ≠ 0) :
    weight.ScalesNonzero := by
  obtain ⟨_, _, rfl⟩ := Option.map_eq_some_iff.mp made
  intro _ _ kept quantized
  obtain rfl := Option.some.inj kept
  obtain rfl := Option.some.inj quantized
  exact nonzero

instance [DecidableEq α] (weight : Weight α) : Decidable weight.Requantizable :=
  match kept : weight.unquantized, quantized : weight.quantizer with
  | none, _ => isTrue (requantizable_of_unquantized_eq_none kept)
  | some _, none => isTrue (requantizable_of_quantizer_eq_none quantized)
  | some unquantized, some quantizer =>
      decidable_of_iff (quantized? unquantized quantizer = some weight) <| by
        constructor
        · rintro made _ _ again requantized
          obtain rfl := Option.some.inj (kept.symm.trans again)
          obtain rfl := Option.some.inj (quantized.symm.trans requantized)
          exact made
        · exact fun requantizable => requantizable kept quantized

/-- What a quantizer makes of a tensor, element by element. -/
private theorem encode_of_quantize? {outcome : Quantized α}
    (done : quantizer.config.quantize? unquantized = some outcome) :
    (quantizer.encoding.encode outcome.values).shape = unquantized.shape ∧
      ∀ ⦃index⦄, unquantized.shape.InBounds index →
        (quantizer.encoding.encode outcome.values).get index =
          quantizer.element unquantized index := by
  have shape := (QuantizerConfig.quantize?_eq_some done).1
  refine ⟨shape, fun index inside => ?_⟩
  have within : outcome.values.shape.InBounds index := shape.symm ▸ inside
  rw [Encoding.encode, Tensor.get_map _ within, QuantizerConfig.get_of_quantize? done inside]
  rfl

/-- A weight can be quantized again if its data are, element by element, what its quantizer
stores. -/
theorem requantizable_iff (kept : weight.unquantized = some unquantized)
    (quantized : weight.quantizer = some quantizer) :
    weight.Requantizable ↔
      (quantizer.config.quantize? unquantized).isSome ∧ weight.data.shape = unquantized.shape ∧
        ∀ ⦃index⦄, unquantized.shape.InBounds index →
          weight.data.get index = quantizer.element unquantized index := by
  constructor
  · intro requantizable
    obtain ⟨outcome, done, made⟩ := Option.map_eq_some_iff.mp (requantizable kept quantized)
    obtain ⟨shape, elements⟩ := encode_of_quantize? done
    rw [← made]
    exact ⟨by rw [done]; rfl, shape, elements⟩
  · rintro ⟨quantizable, shape, elements⟩ other otherQuantizer again requantized
    obtain rfl := Option.some.inj (kept.symm.trans again)
    obtain rfl := Option.some.inj (quantized.symm.trans requantized)
    obtain ⟨outcome, done⟩ := Option.isSome_iff_exists.mp quantizable
    obtain ⟨sameShape, sameElements⟩ := encode_of_quantize? done
    have data : quantizer.encoding.encode outcome.values = weight.data := by
      apply Tensor.ext_get (sameShape.trans shape.symm)
      intro index inside
      have within := sameShape ▸ inside
      rw [sameElements within, elements within]
    rw [quantized?, done, Option.map_some, data, ← kept, ← quantized]

/-- A quantizer makes one weight only of a tensor. -/
theorem Requantizable.unique (requantizable : weight.Requantizable) (others : old.Requantizable)
    (kept : weight.unquantized = some unquantized) (quantized : weight.quantizer = some quantizer)
    (sameKept : old.unquantized = weight.unquantized)
    (sameQuantizer : old.quantizer = weight.quantizer) :
    weight = old :=
  Option.some.inj ((requantizable kept quantized).symm.trans
    (others (sameKept.trans kept) (sameQuantizer.trans quantized)))

end Weight

/-! ## Weights at unit scale -/

/-- The quantizer with a scale of one. -/
def WeightQuantizer.toUnit (quantizer : WeightQuantizer α) : WeightQuantizer α :=
  { quantizer with config := quantizer.config.setAlpha .one }

section

variable {quantizer : WeightQuantizer α} {data : Tensor α} {index : List Nat}

variable (laws : Scalar.Lawful α) (one : (1 : α) ≠ 0)

include laws one

private theorem WeightQuantizer.element_toUnit (inside : data.shape.InBounds index) :
    quantizer.toUnit.element data index =
      quantizer.encoding.encodeElement (quantizer.config.levels.level (data.get index)) := by
  have unit : (quantizer.toUnit.config.scale data).stretched index = 1 :=
    QuantizerConfig.stretched_scale_setAlpha_one inside
  rw [element, unit, laws.one_mul one, laws.div_one one]
  rfl

theorem WeightQuantizer.sameLevels_toUnit : quantizer.toUnit.SameLevels data := by
  intro index inside
  have unit : (quantizer.toUnit.config.scale data).stretched index = 1 :=
    QuantizerConfig.stretched_scale_setAlpha_one inside
  rw [unit, laws.div_one one]

end

namespace ScaleFactorization

variable {weight : Weight α} {unquantized : Tensor α} {quantizer : WeightQuantizer α}
  {outcome : Quantized α}

/-- The data of a weight at unit scale are the levels of the unquantized values divided by the
scale. -/
theorem get_unitWeight (laws : Scalar.Lawful α) (weight : Weight α)
    (done : quantizer.config.quantize? unquantized = some outcome)
    (nonzero : ∀ s ∈ (quantizer.config.scale unquantized).data, s ≠ 0) :
    (unitWeight weight quantizer outcome).data.shape = unquantized.shape ∧
      ∀ ⦃index⦄, unquantized.shape.InBounds index →
        (unitWeight weight quantizer outcome).data.get index =
          quantizer.encoding.encodeElement (quantizer.config.levels.level
            (unquantized.get index / (quantizer.config.scale unquantized).stretched index)) := by
  obtain ⟨shape, scale⟩ := QuantizerConfig.quantize?_eq_some done
  refine ⟨shape, fun index inside => ?_⟩
  have within : outcome.values.shape.InBounds index := shape.symm ▸ inside
  have stretches := (quantizer.config.stretches_scale unquantized).inBounds_pull inside
  have unzero : (quantizer.config.scale unquantized).stretched index ≠ 0 :=
    nonzero _ (Tensor.get_mem stretches)
  have value := QuantizerConfig.get_of_quantize? done inside
  have stored : (unitWeight weight quantizer outcome).data.get index =
      quantizer.encoding.encodeElement ((unscaled outcome).get index) :=
    Tensor.get_map _ within
  rw [stored, unscaled, Tensor.get_ofFn _ within, value, scale, laws.mul_assoc, laws.mul_one_div,
    laws.mul_div_cancel _ _ unzero]

section

variable (laws : Scalar.Lawful α) (one : (1 : α) ≠ 0)

include laws one

/-- A weight at unit scale can be quantized again exactly if the scale made no difference to the
levels of its unquantized values. -/
theorem requantizable_unitWeight_iff (kept : weight.unquantized = some unquantized)
    (done : quantizer.config.quantize? unquantized = some outcome)
    (nonzero : ∀ s ∈ (quantizer.config.scale unquantized).data, s ≠ 0) :
    (unitWeight weight quantizer outcome).Requantizable ↔ quantizer.SameLevels unquantized := by
  have keeps : (unitWeight weight quantizer outcome).unquantized = some unquantized := kept
  have quantized : (unitWeight weight quantizer outcome).quantizer = some quantizer.toUnit := rfl
  have quantizable : (quantizer.toUnit.config.quantize? unquantized).isSome :=
    QuantizerConfig.isSome_quantize?_setAlpha_one (done ▸ rfl)
  obtain ⟨shape, elements⟩ := get_unitWeight laws weight done nonzero
  rw [Weight.requantizable_iff keeps quantized]
  constructor
  · rintro ⟨_, _, same⟩ index inside
    rw [← elements inside, same inside, WeightQuantizer.element_toUnit laws one inside]
  · intro same
    refine ⟨quantizable, shape, fun index inside => ?_⟩
    rw [elements inside, same inside, WeightQuantizer.element_toUnit laws one inside]

/-- A weight that is at unit scale already is factorized into a weight that can be quantized
again. -/
theorem requantizable_unitWeight_toUnit (kept : weight.unquantized = some unquantized)
    (done : quantizer.toUnit.config.quantize? unquantized = some outcome) :
    (unitWeight weight quantizer.toUnit outcome).Requantizable := by
  have nonzero : ∀ s ∈ (quantizer.toUnit.config.scale unquantized).data, s ≠ 0 := by
    intro s member
    have ones : s ∈ (Tensor.fill (List.replicate unquantized.rank 1) (1 : α)).data := member
    rw [Tensor.eq_of_mem_fill ones]
    exact one
  exact (requantizable_unitWeight_iff laws one kept done nonzero).mpr
    (WeightQuantizer.sameLevels_toUnit laws one)

end

/-- A divided weight can be quantized again exactly if quantizing and dividing can be exchanged. -/
theorem DividedBy.requantizable_iff {scale : Tensor α} {old new : Weight α}
    (divided : DividedBy scale old new) (requantizable : old.Requantizable) :
    new.Requantizable ↔ old.DividesThrough scale := by
  rcases divided.unquantized with ⟨none, newNone⟩ | ⟨whole, quotient, kept, newKept, parts, shape⟩
  · refine iff_of_true (Weight.requantizable_of_unquantized_eq_none newNone) ?_
    intro _ _ _ there
    cases none.symm.trans there
  cases quantized : old.quantizer with
  | none =>
      have newNone := divided.quantizer.trans quantized
      refine iff_of_true (Weight.requantizable_of_quantizer_eq_none newNone) ?_
      intro _ _ _ _ there
      cases quantized.symm.trans there
  | some quantizer =>
      obtain ⟨quantizable, size, elements⟩ :=
        (Weight.requantizable_iff kept quantized).mp requantizable
      have newSize : new.data.shape = whole.shape := divided.shape.trans size
      have stored : ∀ ⦃index⦄, whole.shape.InBounds index → new.data.get index =
          quantizer.element whole index / scale.stretched index := by
        intro index inside
        rw [Tensor.get_zipWith? divided.data (newSize.symm ▸ inside),
          Tensor.stretched_self (size.symm ▸ inside), elements inside]
      rw [Weight.requantizable_iff newKept (divided.quantizer.trans quantized)]
      constructor
      · rintro ⟨_, _, same⟩ other otherQuantizer otherParts again requantized divides index inside
        obtain rfl := Option.some.inj (kept.symm.trans again)
        obtain rfl := Option.some.inj (quantized.symm.trans requantized)
        obtain rfl := Option.some.inj (parts.symm.trans divides)
        rw [← same (shape.symm ▸ inside), stored inside]
      · intro through
        refine ⟨QuantizerConfig.isSome_quantize?_of_shape_eq shape quantizable,
          newSize.trans shape.symm, fun index inside => ?_⟩
        have within : whole.shape.InBounds index := shape ▸ inside
        rw [stored within, through kept quantized parts within]

end ScaleFactorization

/-! ## Layers -/

/-- All weights of a node can be quantized again. -/
def Node.Requantizable (node : Node α) : Prop :=
  ∀ ⦃role weight⦄, node.weights.get? role = some weight → weight.Requantizable

instance [DecidableEq α] (node : Node α) : Decidable node.Requantizable :=
  decidable_of_iff
    (∀ role ∈ Role.all, ∀ weight ∈ (node.weights.get? role).toList, weight.Requantizable) <| by
    constructor
    · intro all role weight stored
      have among : role ∈ Role.all := by
        cases role <;> decide
      exact all role among weight (Option.mem_toList.mpr stored)
    · exact fun requantizable role _ weight member =>
        requantizable (Option.mem_toList.mp member)

theorem Node.requantizable_single (kind : LayerKind) (name : String)
    (attrs : Table String (Attr α)) (inputs : List TensorRef) (shape : Shape)
    (precision : Precision) :
    (Node.single kind name attrs inputs shape precision).Requantizable := by
  intro role weight stored
  cases stored

theorem Node.Requantizable.withWeight {node : Node α} (requantizable : node.Requantizable)
    {role : Role} {weight : Weight α} (other : weight.Requantizable) :
    (node.withWeight role weight).Requantizable := by
  intro found stored there
  rw [Node.withWeight, Table.get?_insert] at there
  split at there
  · obtain rfl := Option.some.inj there
    exact other
  · exact requantizable there

namespace ScaleFactorization

variable {node : Node α} {unit weight : Weight α} {unquantized : Tensor α} {scale : Tensor α}
  {quantizer : WeightQuantizer α} {bias : Option (Weight α)}

theorem scale_unitNode (unit : Weight α) (bias : Option (Weight α)) :
    (unitNode node unit bias).weights.get? .scale = node.weights.get? .scale := by
  cases bias with
  | none => exact (Table.get?_insert _ _ _ _).trans (if_neg (by decide))
  | some new =>
      refine (Table.get?_insert _ _ _ _).trans ((if_neg (by decide)).trans ?_)
      exact (Table.get?_insert _ _ _ _).trans (if_neg (by decide))

theorem requantizable_alphaNode (id : NodeId) (node : Node α) (output : Output)
    (scale : Tensor α) : (alphaNode id node output scale).Requantizable :=
  ((Node.requantizable_single _ _ _ _ _ _).withWeight
    (Weight.requantizable_of_quantizer_eq_none rfl)).withWeight
      (Weight.requantizable_of_quantizer_eq_none rfl)

/-- The weight and the scale that a layer is taken apart into, when its weight is known. -/
theorem unit_of_factorized (factor : factorized node = .ok (unit, scale))
    (stored : node.weights.get? .weight = some weight)
    (kept : weight.unquantized = some unquantized) (quantized : weight.quantizer = some quantizer) :
    scale = (quantizer.config.scale unquantized).flatten ∧
      ∃ outcome, quantizer.config.quantize? unquantized = some outcome ∧
        unit = unitWeight weight quantizer outcome := by
  obtain ⟨_, _, _, outcome, again, there, same, result, rfl, rfl⟩ := factorized_eq_ok factor
  obtain rfl := Option.some.inj (stored.symm.trans again)
  obtain rfl := Option.some.inj (kept.symm.trans there)
  obtain rfl := Option.some.inj (quantized.symm.trans same)
  rw [(QuantizerConfig.quantize?_eq_some result).2]
  exact ⟨rfl, outcome, result, rfl⟩

/-- A layer at unit scale can be quantized again exactly if the scale made no difference to the
levels of its weights, and quantizing and dividing can be exchanged for its bias. -/
theorem requantizable_unitNode_iff (laws : Scalar.Lawful α) (one : (1 : α) ≠ 0)
    (requantizable : node.Requantizable) (factor : factorized node = .ok (unit, scale))
    (done : rescaledBias node scale = .ok bias)
    (stored : node.weights.get? .weight = some weight)
    (kept : weight.unquantized = some unquantized) (quantized : weight.quantizer = some quantizer)
    (nonzero : ∀ s ∈ (quantizer.config.scale unquantized).data, s ≠ 0) :
    (unitNode node unit bias).Requantizable ↔
      quantizer.SameLevels unquantized ∧
        ∀ old, node.weights.get? .bias = some old → old.DividesThrough scale := by
  obtain ⟨_, outcome, result, rfl⟩ := unit_of_factorized factor stored kept quantized
  have weights := requantizable_unitWeight_iff laws one kept result nonzero
  have biases : ∀ old, node.weights.get? .bias = some old → ∃ new, bias = some new ∧
      (new.Requantizable ↔ old.DividesThrough scale) := by
    intro old present
    rcases rescaledBias_eq_ok done with ⟨absent, _⟩ | ⟨first, new, found, shape, divided⟩
    · cases absent.symm.trans present
    · obtain rfl := Option.some.inj (found.symm.trans present)
      exact ⟨new, shape, divided.requantizable_iff (requantizable present)⟩
  constructor
  · intro all
    refine ⟨weights.mp (all (weight_unitNode _ bias)), fun old present => ?_⟩
    obtain ⟨new, rfl, through⟩ := biases old present
    exact through.mp (all (bias_unitNode _ (some new)))
  · rintro ⟨levels, through⟩ role entry found
    cases role with
    | weight =>
        obtain rfl := Option.some.inj ((weight_unitNode _ bias).symm.trans found)
        exact weights.mpr levels
    | bias =>
        rw [bias_unitNode] at found
        cases present : node.weights.get? .bias with
        | none =>
            rw [rescaledBias_of_none present] at done
            obtain rfl := Except.ok.inj done
            cases present.symm.trans found
        | some old =>
            obtain ⟨new, rfl, exchange⟩ := biases old present
            obtain rfl := Option.some.inj found
            exact exchange.mpr (through old present)
    | scale => exact requantizable ((scale_unitNode _ bias).symm.trans found)

end ScaleFactorization

end QuantNet
