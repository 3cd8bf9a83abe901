import QuantNet.Proofs.Graph.Sorted
import QuantNet.Proofs.Pass.Consistency
import QuantNet.Proofs.Pass.Effects
import QuantNet.Scalar.Binary32

/-!
# Where a run can stop

A run of standard passes can stop with a report, with an error between two steps of a patch, or
with a fault.  Wherever it stops, a graph that was sorted is sorted, has the same input nodes, and
has the nodes that it had before and still has in their old order.
-/

namespace QuantNet

open QuantNet.Graph

variable {α : Type} {start graph : Graph α}

/-- What a run that starts at a graph leaves of it. -/
def Graph.GoesOn (start graph : Graph α) : Prop :=
  graph.Sorted ∧ start.Continues graph

theorem Graph.Sorted.goesOn (sorted : graph.Sorted) : graph.GoesOn graph :=
  ⟨sorted, .refl graph⟩

theorem Graph.GoesOn.then {changed : Graph α} (goesOn : start.GoesOn graph)
    (step : changed.Sorted ∧ graph.Continues changed) : start.GoesOn changed :=
  ⟨step.1, goesOn.2.trans step.2⟩

theorem Graph.tolerant_goesOn (start : Graph α) : Tolerant start.GoesOn :=
  fun _ _ _ _ goesOn found resembles => goesOn.then (goesOn.1.replace found resembles)

/-- A node is no input node, if it is there at all. -/
def Graph.NoInput (graph : Graph α) (id : NodeId) : Prop :=
  ∀ ⦃node⦄, graph.get id = .ok node → node.kind ≠ .input

theorem Graph.tolerant_noInput (id : NodeId) :
    Tolerant fun graph : Graph α => graph.NoInput id := by
  intro graph other old new noInput found resembles node there
  rcases (get_replace_iff found).mp there with ⟨rfl, rfl⟩ | ⟨_, older⟩
  · rw [resembles.kind]
    exact noInput found
  · exact noInput older

theorem Graph.tolerant_and {first second : Graph α → Prop} (left : Tolerant first)
    (right : Tolerant second) : Tolerant fun graph => first graph ∧ second graph :=
  fun _ _ _ _ both found resembles =>
    ⟨left both.1 found resembles, right both.2 found resembles⟩

variable [Scalar α]

theorem ScaleFactorization.goesOn_of_insert {changed : Graph α} {layer inserted : NodeId}
    {node : Node α} {output : Output} {scale : Tensor α} (goesOn : start.GoesOn graph)
    (added : graph.insert (alphaNode layer node output scale) = .ok (inserted, changed)) :
    start.GoesOn changed := by
  have kind : (alphaNode layer node output scale).kind ≠ .input := nofun
  exact goesOn.then (goesOn.1.insert rfl kind added)

/-- The node that affine fusion removes is affine, and that it stays until then. -/
theorem AffineFusion.keeps_goesOn (start : Graph α) :
    (AffineFusion.pass : Pass α).Keeps start.GoesOn := by
  intro graph id goesOn applies
  obtain ⟨node, _, _, found, _, affine, _⟩ := AffineFusion.applies_eq_ok_true_iff.mp applies
  have noInput : graph.NoInput id := by
    intro other there
    rw [Except.ok.inj (there.symm.trans found)]
    exact LayerKind.ne_input_of_isAffine affine
  -- The removal needs to know the kind of the node, so that it is carried along until then.
  have keeps : (AffineFusion.patch id : Patch α Bool).Keeps fun graph =>
      start.GoesOn graph ∧ graph.NoInput id := by
    refine AffineFusion.keeps_patch (tolerant_and (tolerant_goesOn start) (tolerant_noInput id))
      id ?_
    intro graph changed known removed
    refine ⟨known.1.then (known.1.1.remove known.2 removed), ?_⟩
    obtain ⟨old, input, named, listed, _, rfl⟩ :=
      known.1.1.toLinked.remove_rewire (fun _ _ => known.1.1.source_ne) removed
    have there : graph.get id = .ok old := named ▸ get_handle_eq_ok_iff.mpr listed
    intro other gone
    exact absurd rfl ((get_bypassed_iff there).mp gone).1
  exact (keeps ⟨goesOn, noInput⟩).1

theorem StandardPass.keeps_goesOn (start : Graph α) (kind : StandardPass) :
    (kind.pass : Pass α).Keeps start.GoesOn := by
  cases kind with
  | scaleFactorization =>
      intro graph id goesOn _
      exact ScaleFactorization.keeps_patch (tolerant_goesOn start) id
        (fun _ _ _ _ _ _ known added => ScaleFactorization.goesOn_of_insert known added) goesOn
  | affineFusion => exact AffineFusion.keeps_goesOn start
  | outputModes selection =>
      intro graph id goesOn _
      exact OutputModes.keeps_patch (tolerant_goesOn start) selection id goesOn

/-- A run of standard passes leaves a sorted graph sorted, in whatever way it ends: the input nodes
are the same, and the nodes that are there before and after stand in the same order.  With a limit
on its scans every run ends. -/
theorem run_leaves_sorted (sorted : graph.Sorted) (limit : Option Nat)
    (passes : List StandardPass) :
    (limit.isSome → ∃ run,
        Optimizer.run ⟨limit, passes.map StandardPass.pass⟩ graph = some run) ∧
      ∀ fuel run,
        Optimizer.runWithin ⟨limit, passes.map StandardPass.pass⟩ fuel graph = some run →
          run.graph.Sorted ∧ run.graph.inputs = graph.inputs ∧
            run.graph.order.filter (fun id => decide (id ∈ graph.order)) =
              graph.order.filter fun id => decide (id ∈ run.graph.order) := by
  constructor
  · intro limited
    obtain ⟨limit, rfl⟩ := Option.isSome_iff_exists.mp limited
    obtain ⟨_, _, _, concludes⟩ :=
      Optimizer.exists_concludes (passes.map StandardPass.pass) limit graph
    obtain ⟨_, ends⟩ := concludes.run_eq
    exact ⟨_, ends⟩
  · intro fuel run ended
    have keeps : ∀ pass ∈ passes.map (StandardPass.pass (α := α)), pass.Keeps graph.GoesOn := by
      intro pass member
      obtain ⟨kind, _, rfl⟩ := List.mem_map.mp member
      exact kind.keeps_goesOn graph
    obtain ⟨stopped, continues⟩ := Optimizer.kept_of_runWithin _ keeps sorted.goesOn ended
    exact ⟨stopped, continues.inputs, continues.filter_order sorted.toLinked⟩

/-! ## A run that is broken off -/

/-- A layer with two output channels and a single bias, which two scale factors would widen. -/
def narrowBias : Node Float32 :=
  let config : QuantizerConfig Float32 := ⟨.ternary, some .auto⟩
  let data : Tensor Float32 := .fill [1, 2] 2
  (Node.single .dense "dense" (.ofList [(ScaleFactorization.weightKey, .quantizer config)])
      [⟨⟨0, 0⟩, 0⟩] [1, 2] (.fixed 16 6 true .unset))
    |>.withWeight .weight { data, unquantized := some data, quantizer := some ⟨config, .native⟩ }
    |>.withWeight .bias { data := .fill [1] 1 }

def narrowModel : List (Operation Float32) :=
  [.addInput "x" [1, 1] (.fixed 16 6 true .unset), .push narrowBias, .addOutput ⟨⟨0, 1⟩, 0⟩]

/-- The bias cannot be divided by the scale, and the run fails with the weights rewritten
already. -/
theorem run_leaves_sorted_narrowModel :
    let graph := (Graph.empty 0).replay narrowModel
    let passes := [StandardPass.affineFusion, .scaleFactorization]
    ∃ run, Optimizer.runWithin ⟨some 1000, passes.map StandardPass.pass⟩ 1001 graph = some run ∧
      run.outcome = .error (.error (.shapeMismatch "dense" [1] [2])) ∧ run.graph ≠ graph ∧
      run.graph.Sorted ∧ run.graph.inputs = graph.inputs ∧
      run.graph.order.filter (fun id => decide (id ∈ graph.order)) =
        graph.order.filter fun id => decide (id ∈ run.graph.order) := by
  intro graph passes
  have observed :
      (Optimizer.runWithin ⟨some 1000, passes.map StandardPass.pass⟩ 1001 graph).map
          (fun run => (run.outcome, decide (run.graph = graph))) =
        some (.error (.error (.shapeMismatch "dense" [1] [2])), false) := by
    decide +kernel
  obtain ⟨run, ended, shown⟩ := Option.map_eq_some_iff.mp observed
  obtain ⟨outcome, different⟩ := Prod.mk.inj shown
  have sorted : graph.Sorted := .replay 0 narrowModel fun node member => by
    simp [narrowModel] at member
  exact ⟨run, ended, outcome, of_decide_eq_false different,
    (run_leaves_sorted sorted (some 1000) passes).2 1001 run ended⟩

end QuantNet
