import QuantNet.Proofs.Pass.Descent
import QuantNet.Proofs.Pass.Fusing
import QuantNet.Proofs.Precision.Rereading

/-!
# How a scan settles nodes

A scan that no change of the topology cuts short leaves no work for scale factorization and affine
fusion.  Output modes may need a second scan, since a precision that is text is read again from what
was written; a third scan finds nothing to do.
-/

namespace QuantNet

open QuantNet.Graph ScaleFactorization

variable {α : Type} [Scalar α] {selection : ModeSelection} {graph changed start : Graph α}
  {id other : NodeId} {node : Node α} {pass : Pass α} {topologyChanged : Bool}
  {progress : Progress α} {output : Output} {others : List Output} {precision : Precision}

namespace Graph

/-- Neither pass that changes the topology applies to a node. -/
structure Steady (graph : Graph α) (id : NodeId) : Prop where
  unscaled : (ScaleFactorization.pass : Pass α).applies graph id = .ok false
  unfused : (AffineFusion.pass : Pass α).applies graph id = .ok false

theorem steady_iff_forall :
    graph.Steady id ↔ ∀ pass ∈ topologyPasses α, pass.applies graph id = .ok false := by
  simp only [topologyPasses, List.forall_mem_cons, List.not_mem_nil, false_implies, implies_true,
    and_true]
  exact ⟨fun steady => ⟨steady.unscaled, steady.unfused⟩, fun quiet => ⟨quiet.1, quiet.2⟩⟩

/-- A node is steady if it has no scale and is not fused into a producer. -/
theorem WellFormed.steady_iff (wf : graph.WellFormed) (found : graph.get id = .ok node) :
    graph.Steady id ↔ isScaled node = false ∧ ∀ producer, ¬ graph.Fuses producer id := by
  obtain ⟨answer, result⟩ := AffineFusion.applies_eq_ok wf found
  have unfused : AffineFusion.applies graph id = .ok false ↔
      ∀ producer, ¬ graph.Fuses producer id := by
    rw [← not_exists, ← wf.applies_iff_fuses,
      show AffineFusion.applies graph id = .ok answer from result]
    cases answer <;> simp
  constructor
  · intro steady
    exact ⟨Except.ok.inj ((applies_eq_ok found).symm.trans steady.unscaled),
      unfused.mp steady.unfused⟩
  · rintro ⟨unscaled, free⟩
    exact ⟨(applies_eq_ok found).trans (congrArg Except.ok unscaled), unfused.mpr free⟩

/-- A node that lacks modes has been given modes before. -/
def Retouched (graph : Graph α) (selection : ModeSelection) (id : NodeId) : Prop :=
  ∀ node, graph.get id = .ok node → OutputModes.lacksModes selection node = true →
    ∃ output others older, node.outputs = output :: others ∧
      Precision.setModes older selection.modes = .ok output.precision

/-- No standard pass applies to a node. -/
def Idle (graph : Graph α) (selection : ModeSelection) (id : NodeId) : Prop :=
  ∀ pass ∈ standardPasses α selection, pass.applies graph id = .ok false

theorem idle_iff :
    graph.Idle selection id ↔
      graph.Steady id ∧ (OutputModes.pass selection : Pass α).applies graph id = .ok false := by
  simp only [Idle, standardPasses, List.forall_mem_cons, List.not_mem_nil, false_implies,
    implies_true, and_true]
  constructor
  · rintro ⟨unscaled, unfused, covered⟩
    exact ⟨⟨unscaled, unfused⟩, covered⟩
  · rintro ⟨steady, covered⟩
    exact ⟨steady.unscaled, steady.unfused, covered⟩

theorem Idle.retouched (idle : graph.Idle selection id) : graph.Retouched selection id := by
  intro node found lacks
  have covered := (idle_iff.mp idle).2
  rw [OutputModes.applies_eq_ok found, lacks] at covered
  cases covered

end Graph

/-! ## Setting modes leaves the rest alone -/

omit [Scalar α] in
theorem OutputModes.lacksModes_withPrecision :
    lacksModes selection (withPrecision node output others precision) =
      (selects selection node && !selection.modes.isEmpty &&
        !precision.covers selection.modes) := by
  rw [lacksModes, selects, selects, kind_withPrecision, name_withPrecision]
  rfl

section SetModes

variable (wf : graph.WellFormed) (found : graph.get id = .ok node)
  (outputs : node.outputs = output :: others)

include wf found outputs

/-- Whether a pass that changes the topology applies to a node does not depend on modes. -/
theorem applies_withPrecision {old : Node α} (there : graph.get other = .ok old)
    (member : pass ∈ topologyPasses α) :
    pass.applies
        (graph.replace id.index (OutputModes.withPrecision node output others precision)) other =
      pass.applies graph other := by
  let changed := graph.replace id.index (OutputModes.withPrecision node output others precision)
  have resembles := OutputModes.withPrecision_resembles precision outputs
  have changedWf : changed.WellFormed := wf.replace (listed_of_get found).2 resembles
  have relisted := get_replace_eq found there
    (OutputModes.withPrecision node output others precision)
  simp only [topologyPasses, List.mem_cons, List.not_mem_nil, or_false] at member
  rcases member with rfl | rfl
  · rw [applies_eq_ok relisted, applies_eq_ok there]
    by_cases here : other = id
    · subst here
      obtain rfl := Except.ok.inj (there.symm.trans found)
      rw [if_pos rfl, isScaled_withPrecision]
    · rw [if_neg here]
  · obtain ⟨before, result⟩ := AffineFusion.applies_eq_ok wf there
    obtain ⟨after, again⟩ := AffineFusion.applies_eq_ok changedWf relisted
    have iff : AffineFusion.applies changed other = .ok true ↔
        AffineFusion.applies graph other = .ok true := by
      simp only [wf.applies_iff_fuses, changedWf.applies_iff_fuses,
        Fuses.replace_iff found resembles, changed]
    rw [show AffineFusion.applies graph other = .ok before from result,
      show AffineFusion.applies changed other = .ok after from again] at iff
    have agree : after = before := Bool.eq_iff_iff.mpr (by simpa using iff)
    rw [result, ← agree]
    exact again

theorem Graph.Steady.withPrecision (steady : graph.Steady other) {old : Node α}
    (there : graph.get other = .ok old) :
    (graph.replace id.index (OutputModes.withPrecision node output others precision)).Steady
      other := by
  refine steady_iff_forall.mpr fun pass member => ?_
  rw [applies_withPrecision wf found outputs there member]
  exact steady_iff_forall.mp steady pass member

omit [Scalar α] wf outputs in
theorem Graph.Retouched.withPrecision (retouched : graph.Retouched selection other)
    {old : Node α} (there : graph.get other = .ok old)
    (set : output.precision.setModes selection.modes = .ok precision) :
    (graph.replace id.index (OutputModes.withPrecision node output others precision)).Retouched
      selection other := by
  intro now relisted lacks
  rw [get_replace_eq found there, Except.ok.injEq] at relisted
  by_cases here : other = id
  · rw [if_pos here] at relisted
    exact ⟨{ output with precision }, others, output.precision, relisted ▸ rfl, set⟩
  · rw [if_neg here] at relisted
    exact retouched now (relisted ▸ there) lacks

/-- A node that gets modes for the second time has them then. -/
theorem Graph.Idle.of_retouched
    (steady : graph.Steady id) (retouched : graph.Retouched selection id)
    (lacks : OutputModes.lacksModes selection node = true)
    (set : output.precision.setModes selection.modes = .ok precision) :
    (graph.replace id.index (OutputModes.withPrecision node output others precision)).Idle
      selection id := by
  refine idle_iff.mpr ⟨steady.withPrecision wf found outputs found, ?_⟩
  have relisted := get_replace_eq found found
    (OutputModes.withPrecision node output others precision)
  rw [if_pos rfl] at relisted
  obtain ⟨first, rest, older, shape, once⟩ := retouched node found lacks
  obtain ⟨rfl, rfl⟩ := List.cons.inj (shape.symm.trans outputs)
  have covers := Precision.covers_of_setModes_twice once set
  rw [OutputModes.applies_eq_ok relisted, OutputModes.lacksModes_withPrecision, covers]
  simp

theorem Graph.Idle.withPrecision (idle : graph.Idle selection other) {old : Node α}
    (there : graph.get other = .ok old)
    (lacks : OutputModes.lacksModes selection node = true) :
    (graph.replace id.index (OutputModes.withPrecision node output others precision)).Idle
      selection other := by
  obtain ⟨steady, covered⟩ := idle_iff.mp idle
  have elsewhere : other ≠ id := by
    intro here
    rw [here, OutputModes.applies_eq_ok found, lacks] at covered
    cases covered
  have relisted := get_replace_eq found there
    (OutputModes.withPrecision node output others precision)
  rw [if_neg elsewhere] at relisted
  refine idle_iff.mpr ⟨steady.withPrecision wf found outputs there, ?_⟩
  rwa [OutputModes.applies_eq_ok relisted, ← OutputModes.applies_eq_ok there]

end SetModes

end QuantNet
