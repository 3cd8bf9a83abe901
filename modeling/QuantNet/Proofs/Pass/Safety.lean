import QuantNet.Proofs.Graph.Answering
import QuantNet.Proofs.Pass.Consistency
import QuantNet.Proofs.Pass.Rewrite
import QuantNet.Proofs.Tensor.Reading

/-!
# Lookups that find what they look for

In a graph that was made by operations and runs of the standard passes, insertions of nodes with
several inputs included, nothing is looked up that is not there: neither by an evaluation, nor by a
pass where it applies, nor by a run.
-/

namespace QuantNet

open QuantNet.Graph Optimizer

variable {α : Type} [Scalar α] {graph final : Graph α}

/-- Some modes with which the pass is one of the three that are tried on every node. -/
def StandardPass.selection : StandardPass → ModeSelection
  | outputModes selection => selection
  | _ => {}

theorem StandardPass.pass_mem (kind : StandardPass) :
    (kind.pass : Pass α) ∈ standardPasses α kind.selection := by
  cases kind with
  | scaleFactorization => exact List.mem_cons_self
  | affineFusion => exact List.mem_cons_of_mem _ List.mem_cons_self
  | outputModes selection =>
      exact List.mem_cons_of_mem _ (List.mem_cons_of_mem _ List.mem_cons_self)

theorem StandardPass.keeps_of_mem {passes : List StandardPass} {pass : Pass α}
    (member : pass ∈ passes.map StandardPass.pass) : pass.Keeps Graph.WellFormed := by
  obtain ⟨kind, _, rfl⟩ := List.mem_map.mp member
  exact kind.keeps_wellFormed

/-! ## Scans and runs -/

/-- A change that is not one of the topology leaves the order as it was. -/
theorem Rewrite.order_eq {selection : ModeSelection} {id : NodeId} {node : Node α} {pass : Pass α}
    {topologyChanged : Bool} {changed : Graph α}
    (rewrite : Rewrite selection graph id node pass topologyChanged changed)
    (same : topologyChanged = false) : changed.order = graph.order := by
  cases rewrite with
  | factor => cases same
  | fuse => cases same
  | setModes => rfl

theorem Optimizer.FirstApplies.order_eq {passes : List StandardPass} {id : NodeId} {pass : Pass α}
    {changed : Graph α} (first : FirstApplies (passes.map StandardPass.pass) graph id pass)
    (wf : graph.WellFormed) (done : pass.patch id graph = .ok false changed) :
    changed.order = graph.order := by
  obtain ⟨node, found⟩ := first.found
  obtain ⟨kind, _, rfl⟩ := List.mem_map.mp first.mem
  rcases patch_cases_of_applies wf found kind.pass_mem first.applies with
    ⟨_, _, rewrite, same⟩ | ⟨_, _, failed⟩ | ⟨_, _, failed⟩
  · obtain ⟨rfl, rfl⟩ := EStateM.Result.ok.inj (same.symm.trans done)
    exact rewrite.order_eq rfl
  all_goals
    rw [done] at failed
    cases failed

/-- A scan over live nodes can only break down in a patch. -/
theorem Optimizer.Walk.breakdown {passes : List StandardPass} {ids : List NodeId}
    {patches : List (NodeId × Pass α)} {ended : Except (Failure PassError) Bool}
    (walk : Walk (passes.map StandardPass.pass) ids graph patches ended final)
    (wf : graph.WellFormed) (live : ∀ id ∈ ids, id ∈ graph.order) :
    ∀ failure, ended = .error failure → Breakdown final failure := by
  induction walk with
  | through => exact fun _ same => nomatch same
  | skip _ _ inductionHypothesis =>
      exact inductionHypothesis wf fun id member => live id (List.mem_cons_of_mem _ member)
  | change first done _ inductionHypothesis =>
      have changedWf := StandardPass.keeps_of_mem first.mem wf first.applies
      rw [Patch.leaves_of_ok done] at changedWf
      apply inductionHypothesis changedWf
      intro id member
      rw [first.order_eq wf done]
      exact live id (List.mem_cons_of_mem _ member)
  | restart => exact fun _ same => nomatch same
  | failure first failed =>
      intro failure same
      obtain ⟨node, found⟩ := first.found
      obtain ⟨kind, _, rfl⟩ := List.mem_map.mp first.mem
      rw [← Except.error.inj same]
      exact breakdown_of_applies wf found kind.pass_mem first.applies failed
  | @fault id _ graph fault broken =>
      obtain ⟨node, found⟩ := wf.mem_order_iff.mp (live id List.mem_cons_self)
      have answers : ∀ pass ∈ passes.map (StandardPass.pass (α := α)),
          ∃ answer, pass.applies graph id = .ok answer := by
        intro pass member
        obtain ⟨kind, _, rfl⟩ := List.mem_map.mp member
        exact applies_of_mem_standard wf found kind.pass_mem
      obtain ⟨choice, chosen⟩ := choose_eq_ok found answers
      cases broken.symm.trans chosen

/-- A run of standard passes that fails breaks down in a patch. -/
theorem Graph.WellFormed.breakdown_of_runWithin (wf : graph.WellFormed) (limit : Option Nat)
    (passes : List StandardPass) {fuel : Nat} {run : Run α} {failure : Failure PassError}
    (ended : runWithin ⟨limit, passes.map StandardPass.pass⟩ fuel graph = some run)
    (failed : run.outcome = .error failure) : Breakdown run.graph failure := by
  obtain ⟨rounds, concludes⟩ := concludes_of_runWithin _ ended
  rw [failed] at concludes
  cases concludes with
  | failed scans _ _ walk =>
      have middleWf := scans.kept (fun _ => StandardPass.keeps_of_mem) wf
      exact walk.breakdown middleWf (fun _ member => member) failure rfl

/-! ## Graphs and their uses -/

/-- Whatever a graph is used for, nothing is looked up in vain.  An evaluation gives an error or one
tensor for every output, unless memory runs out.  Whether a pass applies to a node of the graph has
an answer; where it does, the pass succeeds or breaks down, and so does a run. -/
structure Graph.Secure (graph : Graph α) : Prop where
  evaluates : ∀ inputs, Answers Fault.OutOfMemory (graph.evaluate inputs)
  outputs : ∀ inputs outs, graph.evaluate inputs = .ok outs → outs.length = graph.outputs.length
  matched : ∀ kind : StandardPass, ∀ id ∈ graph.order,
    ∃ answer, kind.pass.applies graph id = .ok answer
  patched : ∀ (kind : StandardPass) id failure left, kind.pass.applies graph id = .ok true →
    kind.pass.patch id graph = .error failure left → Breakdown left failure
  optimized : ∀ limit (passes : List StandardPass) fuel run failure,
    runWithin ⟨limit, passes.map StandardPass.pass⟩ fuel graph = some run →
      run.outcome = .error failure → Breakdown run.graph failure

/-- A pass that applies to a node has found it. -/
theorem StandardPass.exists_get_of_applies (kind : StandardPass) {id : NodeId}
    (applies : kind.pass.applies graph id = .ok true) : ∃ node, graph.get id = .ok node := by
  cases kind with
  | affineFusion =>
      obtain ⟨node, _, _, found, _⟩ := AffineFusion.applies_eq_ok_true_iff.mp applies
      exact ⟨node, found⟩
  | _ =>
      obtain ⟨node, found, _⟩ := except_bind_eq_ok.mp applies
      exact ⟨node, found⟩

theorem Graph.WellFormed.secure (wf : graph.WellFormed) : graph.Secure where
  evaluates := wf.answers_evaluate
  outputs := fun _ _ => length_of_evaluate
  matched := by
    intro kind id live
    obtain ⟨node, found⟩ := wf.mem_order_iff.mp live
    exact applies_of_mem_standard wf found kind.pass_mem
  patched := by
    intro kind id failure left applies failed
    obtain ⟨node, found⟩ := kind.exists_get_of_applies applies
    exact breakdown_of_applies wf found kind.pass_mem applies failed
  optimized := fun limit passes _ _ _ => wf.breakdown_of_runWithin limit passes

/-- No lookup in a graph or a tensor fails, after every sequence of operations and runs. -/
theorem Graph.lookups_succeed_throughout (tag : Nat) (actions : List (Action α)) :
    (actions.foldl Graph.after (Graph.empty tag)).Secure ∧ ReadsInside α :=
  ⟨(wellFormed_throughout tag actions).secure, readsInside α⟩

end QuantNet
