import QuantNet.Proofs.Pass.Settling
import QuantNet.Proofs.Precision.Dimensions

/-!
# Setting modes once

Modes that were set need not be set again: the type has them, and the pass that set them does not
apply to the node any more.  A bit count that is read as a further dimension of a text is the only
exception.
-/

namespace QuantNet

open QuantNet.Graph

namespace OutputModes

variable {α : Type} {selection : ModeSelection} {graph changed : Graph α} {id : NodeId}
  {node : Node α} {topologyChanged : Bool}

/-- The pass applies to a node that it has patched only if it added a dimension to its type. -/
theorem applies_after_iff
    (applies : (pass selection).applies graph id = .ok true)
    (done : (pass selection).patch id graph = .ok topologyChanged changed) :
    ∃ precision, graph.outputPrecision id = .ok precision ∧
      ((pass selection).applies changed id = .ok false ↔
        ¬ precision.AddsDimension selection.modes) := by
  obtain ⟨node, found, lacks⟩ := except_bind_eq_ok.mp applies
  obtain ⟨selected, configured, output, others, outputs, _⟩ :=
    lacksModes_eq_true_iff.mp (except_pure_eq_ok.mp lacks)
  have held : graph.outputPrecision id = .ok output.precision := by
    simp [outputPrecision, node_of_get found, outputs]
  refine ⟨output.precision, held, ?_⟩
  rcases patch_cases selection found outputs with
    ⟨_, _, failed⟩ | ⟨precision, set, result⟩
  · cases failed.symm.trans done
  · obtain ⟨rfl, rfl⟩ := EStateM.Result.ok.inj (result.symm.trans done)
    have again : (pass selection).applies
        (graph.replace id.index (withPrecision node output others precision)) id =
          .ok (!precision.covers selection.modes) := by
      rw [applies_eq_ok (get_replace found _), lacksModes_withPrecision, selected, configured]
      rfl
    rw [again, Except.ok.injEq, Bool.not_eq_false']
    constructor
    · intro covers adds
      rw [Precision.covers_of_addsDimension set adds] at covers
      cases covers
    · exact fun kept => (Precision.settled_of_not_addsDimension set kept).1

end OutputModes

/-- Setting modes in a type makes them present, does nothing the second time and keeps the
dimensions, and the pass that sets them does not apply to the same node again: all this unless a
dimension is added. -/
theorem modes_settle_unless_dimension_added {α : Type} :
    (∀ {precision set : Precision} {update : Modes}, precision.setModes update = .ok set →
      ((set.covers update = true ∧ set.setModes update = .ok set ∧
          precision.SameDimensions set) ↔
        ¬ precision.AddsDimension update)) ∧
      ∀ {selection : ModeSelection} {graph changed : Graph α} {id : NodeId}
        {topologyChanged : Bool}, (OutputModes.pass selection).applies graph id = .ok true →
          (OutputModes.pass selection).patch id graph = .ok topologyChanged changed →
            ∃ precision, graph.outputPrecision id = .ok precision ∧
              ((OutputModes.pass selection).applies changed id = .ok false ↔
                ¬ precision.AddsDimension selection.modes) := by
  refine ⟨fun changed => ⟨?_, Precision.settled_of_not_addsDimension changed⟩,
    OutputModes.applies_after_iff⟩
  rintro ⟨covers, _⟩ adds
  rw [Precision.covers_of_addsDimension changed adds] at covers
  cases covers

/-- A graph with an input of the given type. -/
def inputOf (text : String) : Graph Float32 :=
  (empty 0).replay [.addInput "x" [1] (.raw text)]

/-- All inputs get a bit count of eight, and the given rounding. -/
def eightBits (rounding : Option Rounding) : ModeSelection :=
  { layers := ["Input"], modes := { rounding, bits := some 8 } }

/-- Behind a rounding the bit count is read as such, although the type has a dimension free. -/
theorem modes_settle_rounded_input :
    ((Precision.raw "fixed<16>").setModes (eightBits (some .rnd)).modes =
          .ok (.raw "fixed<16,RND,8>") ∧
        (Precision.raw "fixed<16,RND,8>").setModes (eightBits (some .rnd)).modes =
          .ok (.raw "fixed<16,RND,8>")) ∧
      (OutputModes.pass (eightBits (some .rnd))).patch ⟨0, 0⟩ (inputOf "fixed<16>") =
          .ok false (inputOf "fixed<16,RND,8>") ∧
        (OutputModes.pass (eightBits (some .rnd))).applies (inputOf "fixed<16,RND,8>") ⟨0, 0⟩ =
          .ok false := by
  have set : (Precision.raw "fixed<16>").setModes (eightBits (some .rnd)).modes =
      .ok (.raw "fixed<16,RND,8>") := by
    decide +kernel
  have applies : (OutputModes.pass (eightBits (some .rnd))).applies (inputOf "fixed<16>") ⟨0, 0⟩ =
      .ok true := by
    decide +kernel
  have done : (OutputModes.pass (eightBits (some .rnd))).patch ⟨0, 0⟩ (inputOf "fixed<16>") =
      .ok false (inputOf "fixed<16,RND,8>") := by
    rfl
  have kept : ¬ (Precision.raw "fixed<16>").AddsDimension (eightBits (some .rnd)).modes := by
    rintro ⟨_, _, _, _, _, _, _, _, only, _⟩
    cases only
  have stored : (inputOf "fixed<16>").outputPrecision ⟨0, 0⟩ = .ok (.raw "fixed<16>") := by
    rfl
  obtain ⟨settled, released⟩ := @modes_settle_unless_dimension_added Float32
  obtain ⟨precision, held, iff⟩ := released applies done
  obtain rfl := Except.ok.inj (stored.symm.trans held)
  exact ⟨⟨set, ((settled set).mpr kept).2.1⟩, done, iff.mpr kept⟩

/-- A bit count can get lost among the dimensions, and the pass then finds nothing set. -/
theorem bit_count_becomes_dimension :
    ¬ (∀ {precision set : Precision} {update : Modes}, precision.setModes update = .ok set →
        set.covers update = true ∧ set.setModes update = .ok set ∧
          precision.SameDimensions set) ∧
      ¬ ∀ {selection : ModeSelection} {graph changed : Graph Float32} {id : NodeId}
        {topologyChanged : Bool}, (OutputModes.pass selection).applies graph id = .ok true →
          (OutputModes.pass selection).patch id graph = .ok topologyChanged changed →
            (OutputModes.pass selection).applies changed id = .ok false := by
  constructor
  · intro claim
    have set : (Precision.raw "fixed<16>").setModes (eightBits none).modes =
        .ok (.raw "fixed<16,8>") := by
      decide +kernel
    exact absurd (claim set).1 (by decide +kernel)
  · intro claim
    have applies : (OutputModes.pass (eightBits none)).applies (inputOf "fixed<16>") ⟨0, 0⟩ =
        .ok true := by
      decide +kernel
    have done : (OutputModes.pass (eightBits none)).patch ⟨0, 0⟩ (inputOf "fixed<16>") =
        .ok false (inputOf "fixed<16,8>") := by
      rfl
    exact absurd (claim applies done) (by decide +kernel)

end QuantNet
