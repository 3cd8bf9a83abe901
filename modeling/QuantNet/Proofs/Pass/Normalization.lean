import QuantNet.Proofs.Pass.Fixpoint
import QuantNet.Scalar.Binary32

/-!
# The normal form of a graph

Without a limit the standard passes bring every graph into a normal form, unless a pass gives an
error or the quantizer of a scaled layer cannot be applied to the weights of the layer.
-/

namespace QuantNet

open QuantNet.Graph ScaleFactorization

/-- What a run without a limit has made of a graph when it ends without a failure. -/
structure Normalized {α : Type} [Scalar α] (selection : ModeSelection) (start : Graph α)
    (run : Run α) (report : Report) : Prop where
  converged : report.converged = true
  scans : report.scans ≤
    2 * start.count isScaled + start.count (fun node => node.kind.isAffine) + 3
  factorizations : applications "scale_factorization" run.log = start.count isScaled
  fusions : applications "affine_fusion" run.log ≤
    start.count (fun node => node.kind.isAffine) + start.count isScaled
  /-- No layer has a scale factor in its weights. -/
  unit : ∀ id node, run.graph.get id = .ok node → node.kind.isWeighted = true →
    ∀ key ∈ [weightKey, biasKey], ∀ config, node.attrs.get? key = some (.quantizer config) →
      config.isUnit = true
  unfused : ∀ id ∈ run.graph.order, (AffineFusion.pass : Pass α).applies run.graph id = .ok false
  /-- Selected layers have the modes. -/
  modes : selection.modes.isEmpty = false → ∀ id node, run.graph.get id = .ok node →
    OutputModes.selects selection node = true →
      ∃ output others, node.outputs = output :: others ∧
        output.precision.covers selection.modes = true
  /-- Every layer that was scaled owns a new node, which alone reads its first output. -/
  scales : ∀ id layer, start.get id = .ok layer → isScaled layer = true →
    ∃ now alpha scale, run.graph.get id = .ok now ∧ run.graph.get alpha = .ok scale ∧
      start.knows alpha = false ∧ scale.kind = .applyAlpha ∧ scale.name = now.name ++ suffix ∧
        scale.inputs = [⟨id, 0⟩] ∧ run.graph.readers ⟨id, 0⟩ = [alpha] ∧
          run.graph.isOutput ⟨id, 0⟩ = false

variable {α : Type} [Scalar α] {selection : ModeSelection} {graph start : Graph α} {id : NodeId}
  {node : Node α} {layer alpha : Nat}

/-! ## From the account of a run to the normal form -/

theorem isUnit_of_unscaled
    (unscaled : isScaled node = false) (weighted : node.kind.isWeighted = true) :
    ∀ key ∈ [weightKey, biasKey], ∀ config, node.attrs.get? key = some (.quantizer config) →
      config.isUnit = true := by
  intro key known config found
  by_contra scaled
  have has : hasScale node key = true :=
    hasScale_eq_true_iff.mpr ⟨config, found, Bool.not_eq_true _ ▸ scaled⟩
  simp only [List.mem_cons, List.not_mem_nil, or_false] at known
  rcases known with rfl | rfl <;> simp [isScaled, weighted, has] at unscaled

theorem Graph.Idle.covers
    (idle : graph.Idle selection id) (wf : graph.WellFormed) (found : graph.get id = .ok node)
    (configured : selection.modes.isEmpty = false)
    (selected : OutputModes.selects selection node = true) :
    ∃ output others, node.outputs = output :: others ∧
      output.precision.covers selection.modes = true := by
  cases outputs : node.outputs with
  | nil => exact absurd outputs (wf.produces (listed_of_get found).2)
  | cons output others =>
      refine ⟨output, others, rfl, ?_⟩
      have lacks := (idle_iff.mp idle).2
      rw [OutputModes.applies_eq_ok found, Except.ok.injEq] at lacks
      simpa [OutputModes.lacksModes, selected, configured, outputs] using lacks

/-- The node that a layer owns is the only reader of the first output of the layer. -/
theorem Graph.Owns.readers (owns : graph.Owns layer alpha) (wf : graph.WellFormed) :
    graph.readers ⟨graph.handle layer, 0⟩ = [graph.handle alpha] := by
  obtain ⟨_, scale, _, behind, _, _, _, _, reads⟩ := owns.nodes
  have only : ∀ id, id ∈ graph.readers ⟨graph.handle layer, 0⟩ ↔ id ∈ [graph.handle alpha] := by
    intro id
    rw [List.mem_singleton]
    constructor
    · intro member
      have named := eq_handle_of_mem_readers member
      rw [named] at member
      obtain ⟨reader, listed, used⟩ := wf.lists.mem_readers_iff.mp member
      rw [named, owns.alone listed used]
    · rintro rfl
      exact wf.lists.mem_readers_iff.mpr ⟨scale, behind, by simp [reads]⟩
  have once : (graph.readers ⟨graph.handle layer, 0⟩).Nodup := by
    rw [Graph.readers, wf.linked.select_eq_filter]
    exact wf.nodup.filter _
  exact List.perm_singleton.mp
    ((List.perm_ext_iff_of_nodup once (List.nodup_singleton _)).mpr only)

/-- A scaled layer that is idle at last owns its scale. -/
theorem Fate.own_of_idle
    (fate : Fate start graph layer)
    (idle : graph.Idle selection (graph.handle layer)) :
    ∃ alpha, start.issued ≤ alpha ∧ graph.Owns layer alpha := by
  cases fate with
  | owns fresh own => exact ⟨_, fresh, own⟩
  | scaled listed still =>
      have unscaled := (idle_iff.mp idle).1.unscaled
      rw [applies_eq_ok (get_handle_eq_ok_iff.mpr listed), still] at unscaled
      cases unscaled

theorem Stage.normalized
    {final : Progress α} (stage : Stage start final) {run : Run α}
    (graph : run.graph = final.graph)
    (log : ∀ pass, applications pass run.log = applications pass final.log)
    (scans : final.scans ≤ room start + 3)
    (idle : ∀ id ∈ final.graph.order, final.graph.Idle selection id) :
    Normalized selection start run (final.report true) := by
  have live : ∀ {id : NodeId} {node : Node α}, final.graph.get id = .ok node →
      final.graph.Idle selection id :=
    fun found => idle _ (stage.wf.mem_order_iff.mpr ⟨_, found⟩)
  have unscaled : ∀ {id : NodeId} {node : Node α}, final.graph.get id = .ok node →
      isScaled node = false := by
    intro id node found
    have steady := (idle_iff.mp (live found)).1
    exact Except.ok.inj ((applies_eq_ok found).symm.trans steady.unscaled)
  have none : final.graph.count isScaled = 0 := by
    refine Nat.eq_zero_of_not_pos fun some => ?_
    obtain ⟨index, node, listed, scaled⟩ := stage.wf.linked.count_pos_iff.mp some
    rw [unscaled (get_handle_eq_ok_iff.mpr listed)] at scaled
    cases scaled
  have factorizations := stage.factorizations
  have fusions := stage.fusions
  rw [none, Nat.zero_add, ← log] at factorizations
  rw [← log, ← log, factorizations] at fusions
  refine ⟨rfl, scans, factorizations, ?_, ?_, ?_, ?_, ?_⟩
  · exact Nat.le_trans (Nat.le_add_left _ _) (Nat.le_of_eq fusions)
  · intro id node found weighted
    exact isUnit_of_unscaled (unscaled (graph ▸ found)) weighted
  · rw [graph]
    exact fun id member => (idle_iff.mp (idle id member)).1.unfused
  · intro configured id node found selected
    rw [graph] at found
    exact (live found).covers stage.wf found configured selected
  · intro id old found scaled
    obtain ⟨named, listed⟩ := listed_of_get found
    have renamed : final.graph.handle id.index = id := by
      rw [handle, stage.tagged]
      exact named.symm
    have present : ∃ node, final.graph.find? id.index = some node := by
      cases stage.fates listed scaled with
      | scaled there => exact ⟨_, there⟩
      | owns _ own =>
          obtain ⟨node, _, there, _⟩ := own.nodes
          exact ⟨node, there⟩
    obtain ⟨node, there⟩ := present
    obtain ⟨alpha, fresh, own⟩ :=
      (stage.fates listed scaled).own_of_idle (live (get_handle_eq_ok_iff.mpr there))
    have alone := own.readers stage.wf
    obtain ⟨now, scale, here, behind, _, _, kind, name, reads⟩ := own.nodes
    have unexported := own.unexported
    rw [renamed] at alone reads unexported
    rw [graph]
    refine ⟨now, final.graph.handle alpha, scale, renamed ▸ get_handle_eq_ok_iff.mpr here,
      get_handle_eq_ok_iff.mpr behind, ?_, kind, name, reads, alone, ?_⟩
    · simp [knows, handle, Nat.not_lt.mpr fresh]
    · simpa [isOutput] using unexported

/-- A run without a limit has room for all the scans that it needs. -/
private theorem room_add_three_le_allowance (selection : ModeSelection) (graph : Graph α) :
    room graph + 3 ≤ (unlimited selection).allowance graph := by
  have scaled := graph.count_le_length isScaled
  have affine := graph.count_le_length fun node => node.kind.isAffine
  have allowance : (unlimited selection).allowance graph = (3 * graph.order.length + 2) * 5 := rfl
  rw [allowance, room]
  omega

theorem Graph.WellFormed.normalized
    (unit : Scalar.eq (1 : α) 1 = true) (wf : start.WellFormed) (selection : ModeSelection) :
    ∃ run, ({ limit := none, selection } : Settings).optimize? start = some run ∧
      ((∃ failure, run.outcome = .error failure ∧ Breakdown run.graph failure) ∨
        ∃ report, run.outcome = .ok report ∧ Normalized selection start run report) := by
  have begun : (0 : Nat) + room start + 3 ≤ room start + 3 := by omega
  obtain ⟨run, ended, ends⟩ := settles selection unit
    ((unlimited selection).allowance start) (Stage.initial wf) begun
    (room_add_three_le_allowance selection start)
  refine ⟨run, ended, ?_⟩
  cases ends with
  | broken outcome cause => exact Or.inl ⟨_, outcome, cause⟩
  | settled stage graph log outcome scans idle =>
      exact Or.inr ⟨_, outcome, stage.normalized graph log scans idle⟩

/-- The standard passes bring every graph that operations can build into its normal form, unless a
pass gives an error or a quantizer cannot be applied. -/
theorem optimize_normalizes
    (tag : Nat) (history : List (Operation Float32)) (selection : ModeSelection) :
    ∃ run, ({ limit := none, selection } : Settings).optimize?
        ((Graph.empty tag).replay history) = some run ∧
      ((∃ failure, run.outcome = .error failure ∧ Breakdown run.graph failure) ∨
        ∃ report, run.outcome = .ok report ∧
          Normalized selection ((Graph.empty tag).replay history) run report) :=
  ((WellFormed.empty tag).replay history).normalized (by decide) selection

/-- A layer whose levels are beyond the reach of the arithmetic: the highest one is no number. -/
def immenseLayer : Node Float32 :=
  let config : QuantizerConfig Float32 := ⟨.fixedPoint 8 200 true, some (.fixed 2)⟩
  let data : Tensor Float32 := .fill [1, 1] 1
  (Node.single .dense "dense" (.ofList [(weightKey, .quantizer config)]) [⟨⟨0, 0⟩, 0⟩] [1, 1]
      (.fixed 16 6 true .unset)).withWeight .weight
    { data, unquantized := some data, quantizer := some ⟨config, .native⟩ }

/-- The quantizer of a layer can keep a run from ending with a report or an error. -/
theorem immense_layer_breaks_run :
    ¬ ∀ (tag : Nat) (history : List (Operation Float32)) (selection : ModeSelection),
      ∃ run, ({ limit := none, selection } : Settings).optimize?
          ((Graph.empty tag).replay history) = some run ∧
        ((∃ cause, run.outcome = .error (.error cause)) ∨
          ∃ report, run.outcome = .ok report ∧ report.converged = true) := by
  intro claim
  obtain ⟨run, ended, result⟩ := claim 0
    [.addInput "x" [1, 1] (.fixed 16 6 true .unset), .push immenseLayer] {}
  have outcome := congrArg (Option.map Run.outcome) ended
  have fault : (({ limit := none, selection := {} } : Settings).optimize?
      ((Graph.empty 0).replay
        [.addInput "x" [1, 1] (.fixed 16 6 true .unset), .push immenseLayer])).map Run.outcome =
      some (.error (.fault .unquantizable)) := by
    decide +kernel
  rw [fault, Option.map_some, Option.some.injEq] at outcome
  rw [← outcome] at result
  rcases result with ⟨cause, same⟩ | ⟨report, same, _⟩ <;> cases same

end QuantNet
