import QuantNet.Proofs.Pass.Rewrite
import QuantNet.Proofs.Graph.Counting

/-!
# Layers and their scales

A layer at unit scale owns the node behind it that multiplies its scale back in: that node alone
reads the output of the layer.  No rewrite takes it away from the layer again.
-/

namespace QuantNet

/-! ## Which layers are scaled -/

namespace ScaleFactorization

variable {α : Type} [Scalar α] {node : Node α}

theorem hasScale_eq_true_iff {key : String} :
    hasScale node key = true ↔
      ∃ config, node.attrs.get? key = some (.quantizer config) ∧ config.isUnit = false := by
  unfold hasScale
  cases found : node.attrs.get? key with
  | none => simp
  | some value => cases value <;> simp [Attr.quantizer?]

private theorem isUnit_resetAlpha (unit : Scalar.eq (1 : α) 1 = true) (config : QuantizerConfig α) :
    config.resetAlpha.isUnit = true := by
  unfold QuantizerConfig.isUnit QuantizerConfig.resetAlpha
  cases config.alpha with
  | none => rfl
  | some alpha => exact unit

theorem hasScale_resetAttrs
    (unit : Scalar.eq (1 : α) 1 = true) {key : String} (known : key = weightKey ∨ key = biasKey) :
    hasScale (resetAttrs node) key = false := by
  rw [Bool.eq_false_iff, ne_eq, hasScale_eq_true_iff]
  rintro ⟨config, found, scaled⟩
  have reset : (resetAttrs node).attrs.get? key = (node.attrs.get? key).map resetAttr := by
    rcases known with rfl | rfl <;> simp [resetAttrs, Table.get?_modify, weightKey, biasKey]
  obtain ⟨old, _, result⟩ := Option.map_eq_some_iff.mp (reset.symm.trans found)
  cases old with
  | quantizer before =>
      rw [← Attr.quantizer.inj result, isUnit_resetAlpha unit] at scaled
      cases scaled
  | int | float | str | precision => cases result

theorem isScaled_unitNode
    (unit : Scalar.eq (1 : α) 1 = true) (weight : Weight α) (bias : Option (Weight α)) :
    isScaled (unitNode node weight bias) = false := by
  simp only [isScaled, unitNode, hasScale_resetAttrs unit (Or.inl rfl),
    hasScale_resetAttrs unit (Or.inr rfl), Bool.or_self, Bool.and_false]

theorem isWeighted_of_scaled (scaled : isScaled node = true) : node.kind.isWeighted = true :=
  (Bool.and_eq_true_iff.mp scaled).1

theorem isAffine_of_scaled (scaled : isScaled node = true) : node.kind.isAffine = false :=
  LayerKind.isAffine_of_isWeighted (isWeighted_of_scaled scaled)

theorem isScaled_of_affine (affine : node.kind.isAffine = true) : isScaled node = false := by
  by_contra scaled
  rw [isAffine_of_scaled (Bool.not_eq_false _ ▸ scaled)] at affine
  cases affine

theorem isScaled_withPrecision
    (output : Output) (others : List Output) (precision : Precision) :
    isScaled (OutputModes.withPrecision node output others precision) = isScaled node := by
  have kept : ∀ key, key = weightKey ∨ key = biasKey →
      hasScale (OutputModes.withPrecision node output others precision) key =
        hasScale node key := by
    intro key known
    have apart : OutputModes.accumulatorKey ≠ key := by
      rcases known with rfl | rfl <;> decide
    have attrs : (OutputModes.withPrecision node output others precision).attrs.get? key =
        node.attrs.get? key := by
      unfold OutputModes.withPrecision
      dsimp only
      split
      · rw [Node.withAttr, Table.get?_insert, if_neg apart]
      · rfl
    rw [hasScale, hasScale, attrs]
  rw [isScaled, isScaled, OutputModes.kind_withPrecision, kept weightKey (Or.inl rfl),
    kept biasKey (Or.inr rfl)]

end ScaleFactorization

open ScaleFactorization

namespace Graph

variable {α : Type} [Scalar α] {graph : Graph α} {layer alpha index : Nat} {node : Node α}

theorem stable_isScaled : Stable (isScaled : Node α → Bool) :=
  fun _ _ => rfl

omit [Scalar α] in
theorem stable_isAffine : Stable fun node : Node α => node.kind.isAffine :=
  fun _ _ => rfl

/-! ## Owning a scale -/

/-- A layer at unit scale, and the node that multiplies its scale back in: nothing else uses the
first output of the layer. -/
structure Owns (graph : Graph α) (layer alpha : Nat) : Prop where
  nodes : ∃ unit scale,
    graph.find? layer = some unit ∧ graph.find? alpha = some scale ∧
      unit.kind.isWeighted = true ∧ isScaled unit = false ∧ scale.kind = .applyAlpha ∧
        scale.name = unit.name ++ suffix ∧ scale.inputs = [⟨graph.handle layer, 0⟩]
  alone : ∀ ⦃index reader⦄, graph.find? index = some reader →
    ⟨graph.handle layer, 0⟩ ∈ reader.inputs → index = alpha
  unexported : ⟨graph.handle layer, 0⟩ ∉ graph.outputs

/-- A node that is placed behind a layer at unit scale belongs to it if it multiplies a scale in. -/
theorem owns_placed
    (listed : graph.find? layer = some node) (weighted : node.kind.isWeighted = true)
    (unscaled : isScaled node = false) {scale : Node α} (kind : scale.kind = .applyAlpha)
    (name : scale.name = node.name ++ suffix)
    (reads : scale.inputs = [⟨graph.handle layer, 0⟩]) :
    (graph.placed ⟨graph.handle layer, 0⟩ scale).Owns layer graph.issued := by
  let anchor : TensorRef := ⟨graph.handle layer, 0⟩
  let produced : TensorRef := ⟨graph.handle graph.issued, 0⟩
  have early := issued_of_find? listed
  have moved : produced ≠ anchor := by
    intro same
    exact absurd (handle_injective graph (congrArg TensorRef.node same)) (Nat.ne_of_gt early)
  have away : ∀ ref, anchor.instead produced ref ≠ anchor := by
    intro ref
    by_cases here : ref = anchor
    · rw [here, TensorRef.instead_self]
      exact moved
    · rw [TensorRef.instead_of_ne here]
      exact here
  refine ⟨⟨node.rename (anchor.instead produced), scale, ?_, ?_, weighted, unscaled, kind, name,
    reads⟩, ?_, ?_⟩
  · rw [find?_placed, if_neg (Nat.ne_of_lt early), listed, Option.map_some]
  · rw [find?_placed, if_pos rfl]
  · intro index reader relisted used
    rcases find?_placed_eq_some_iff.mp relisted with ⟨fresh, _⟩ | ⟨old, _, rfl⟩
    · exact fresh
    · obtain ⟨ref, _, same⟩ := List.mem_map.mp used
      exact absurd same (away ref)
  · intro used
    obtain ⟨ref, _, same⟩ := List.mem_map.mp used
    exact away ref same

/-- A renaming that neither takes the output of a layer away from its users nor gives it to others
keeps the scale of the layer. -/
theorem Owns.rename
    (owns : graph.Owns layer alpha) {f : TensorRef → TensorRef}
    (only : ∀ ref, f ref = ⟨graph.handle layer, 0⟩ ↔ ref = ⟨graph.handle layer, 0⟩) :
    (graph.rename f).Owns layer alpha := by
  obtain ⟨unit, scale, there, behind, weighted, unscaled, kind, name, reads⟩ := owns.nodes
  refine ⟨⟨unit.rename f, scale.rename f, ?_, ?_, weighted, unscaled, kind, name, ?_⟩, ?_, ?_⟩
  · rw [find?_rename, there, Option.map_some]
  · rw [find?_rename, behind, Option.map_some]
  · rw [Node.rename, reads, List.map_singleton, (only _).mpr rfl]
    rfl
  · intro index reader listed used
    obtain ⟨old, older, rfl⟩ := find?_rename_eq_some_iff.mp listed
    obtain ⟨ref, member, same⟩ := List.mem_map.mp used
    obtain rfl := (only ref).mp same
    exact owns.alone older member
  · intro used
    obtain ⟨ref, member, same⟩ := List.mem_map.mp used
    obtain rfl := (only ref).mp same
    exact owns.unexported member

theorem Owns.dropped
    (owns : graph.Owns layer alpha) (layerStays : layer ≠ index) (alphaStays : alpha ≠ index) :
    (graph.dropped (graph.handle index)).Owns layer alpha := by
  obtain ⟨unit, scale, there, behind, rest⟩ := owns.nodes
  refine ⟨⟨unit, scale, ?_, ?_, rest⟩, ?_, owns.unexported⟩
  · exact find?_dropped_eq_some_iff.mpr ⟨there, layerStays⟩
  · exact find?_dropped_eq_some_iff.mpr ⟨behind, alphaStays⟩
  · intro other reader listed used
    exact owns.alone (find?_dropped_eq_some_iff.mp listed).1 used

/-- The input of a bypassed node is not the output of the layer: such a node could only be the one
with the scale. -/
theorem Owns.bypassed
    (owns : graph.Owns layer alpha) {input : TensorRef}
    (layerStays : layer ≠ index) (alphaStays : alpha ≠ index)
    (elsewhere : input ≠ ⟨graph.handle layer, 0⟩) :
    (graph.bypassed (graph.handle index) input).Owns layer alpha := by
  have renamed : (graph.rename (TensorRef.past (graph.handle index) input)).Owns layer alpha := by
    apply owns.rename
    intro ref
    by_cases own : ref.node = graph.handle index
    · rw [TensorRef.past_of_eq own]
      refine ⟨fun same => absurd same elsewhere, fun same => ?_⟩
      rw [same] at own
      exact absurd (handle_injective graph own) layerStays
    · rw [TensorRef.past_of_ne own]
  exact renamed.dropped layerStays alphaStays

theorem Owns.placed
    (owns : graph.Owns layer alpha) {anchor : TensorRef}
    (elsewhere : anchor ≠ ⟨graph.handle layer, 0⟩) (reads : node.inputs = [anchor]) :
    (graph.placed anchor node).Owns layer alpha := by
  obtain ⟨old, oldScale, oldThere, oldBehind, _⟩ := owns.nodes
  have renamed :
      (graph.rename (anchor.instead ⟨graph.handle graph.issued, 0⟩)).Owns layer alpha := by
    apply owns.rename
    intro ref
    by_cases here : ref = anchor
    · rw [here, TensorRef.instead_self]
      refine ⟨fun same => ?_, fun same => absurd same elsewhere⟩
      have early := issued_of_find? oldThere
      have fresh := handle_injective graph (congrArg TensorRef.node same)
      exact absurd fresh (Nat.ne_of_gt early)
    · rw [TensorRef.instead_of_ne here]
  have kept : ∀ other, other < graph.issued →
      (graph.placed anchor node).find? other =
        (graph.rename (anchor.instead ⟨graph.handle graph.issued, 0⟩)).find? other := by
    intro other early
    rw [find?_placed, if_neg (Nat.ne_of_lt early), find?_rename]
  obtain ⟨unit, scale, there, behind, rest⟩ := renamed.nodes
  refine ⟨⟨unit, scale, ?_, ?_, rest⟩, ?_, renamed.unexported⟩
  · rw [kept layer (issued_of_find? oldThere), there]
  · rw [kept alpha (issued_of_find? oldBehind), behind]
  · intro other reader listed used
    rcases find?_placed_eq_some_iff.mp listed with ⟨_, rfl⟩ | ⟨before, older, rfl⟩
    · rw [reads, List.mem_singleton] at used
      exact absurd used.symm elsewhere
    · exact renamed.alone (find?_rename_eq_some_iff.mpr ⟨before, older, rfl⟩) used

theorem Owns.replace
    (owns : graph.Owns layer alpha) {new : Node α} (listed : graph.find? index = some node)
    (resembles : new.Resembles node) (unscaled : isScaled node = false → isScaled new = false) :
    (graph.replace index new).Owns layer alpha := by
  have look : ∀ ⦃other old⦄, graph.find? other = some old →
      ∃ now, (graph.replace index new).find? other = some now ∧ now.Resembles old ∧
        (isScaled old = false → isScaled now = false) := by
    intro other old there
    rw [find?_replace listed]
    by_cases here : other = index
    · have same : old = node := Option.some.inj (there.symm.trans (here ▸ listed))
      exact ⟨new, if_pos here, same ▸ resembles, same ▸ unscaled⟩
    · exact ⟨old, (if_neg here).trans there, Node.Resembles.refl old, id⟩
  obtain ⟨unit, scale, there, behind, weighted, unitScale, kind, name, reads⟩ := owns.nodes
  obtain ⟨newUnit, newThere, unitSame, stillUnit⟩ := look there
  obtain ⟨newScale, newBehind, scaleSame, _⟩ := look behind
  refine ⟨⟨newUnit, newScale, newThere, newBehind, ?_, stillUnit unitScale, ?_, ?_, ?_⟩, ?_,
    owns.unexported⟩
  · rw [unitSame.kind, weighted]
  · rw [scaleSame.kind, kind]
  · rw [scaleSame.name, unitSame.name, name]
  · rw [scaleSame.inputs, reads]
    rfl
  · intro other reader relisted used
    obtain ⟨before, older, similar⟩ := origin_of_replace listed resembles relisted
    exact owns.alone older (similar.inputs ▸ used)

end Graph

end QuantNet
