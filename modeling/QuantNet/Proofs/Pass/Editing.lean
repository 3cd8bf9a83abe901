import QuantNet.Pass.Pipeline
import QuantNet.Proofs.Graph.Replacement
import QuantNet.Proofs.Pass.Rounds

/-!
# What passes keep

A patch changes a graph in several steps and can fail between any two of them.  What holds of a
graph and survives every step that a pass takes holds of the graph that its patches leave, also when
they fail on the way, and of the graph that any scan and any run of such passes leaves, whichever
way it ends.
-/

namespace QuantNet

variable {α β γ : Type} {holds : Graph α → Prop}

/-! ## Patches -/

namespace Patch

/-- The graph that a patch leaves, whether it succeeds or fails. -/
def leaves (patch : Patch α β) (graph : Graph α) : Graph α :=
  match patch graph with
  | .ok _ changed => changed
  | .error _ changed => changed

/-- What holds of a graph holds of the graph that the patch leaves. -/
def Keeps (holds : Graph α → Prop) (patch : Patch α β) : Prop :=
  ∀ ⦃graph⦄, holds graph → holds (patch.leaves graph)

theorem leaves_of_ok {patch : Patch α β} {graph changed : Graph α} {answer : β}
    (done : patch graph = .ok answer changed) : patch.leaves graph = changed := by
  rw [leaves, done]

theorem leaves_of_error {patch : Patch α β} {graph left : Graph α} {failure : Failure PassError}
    (failed : patch graph = .error failure left) : patch.leaves graph = left := by
  rw [leaves, failed]

theorem eq_ok_of_run' {patch : Patch α β} {graph : Graph α} {answer : β}
    (succeeded : patch.run' graph = some answer) :
    patch graph = .ok answer (patch.leaves graph) := by
  delta EStateM.run' EStateM.run at succeeded
  cases done : patch graph with
  | ok result changed =>
      rw [done] at succeeded
      rw [leaves_of_ok done, Option.some.inj succeeded]
  | error failure left =>
      rw [done] at succeeded
      cases succeeded

private theorem keeps_of_leaves_eq {patch : Patch α β}
    (same : ∀ graph, patch.leaves graph = graph) :
    patch.Keeps holds := by
  intro graph known
  rwa [same]

theorem keeps_pure (answer : β) : (pure answer : Patch α β).Keeps holds :=
  keeps_of_leaves_eq fun _ => rfl

theorem keeps_fail (error : PassError) : (fail error : Patch α β).Keeps holds :=
  keeps_of_leaves_eq fun _ => rfl

@[simp]
theorem leaves_demand (value : Except (Failure PassError) β) (graph : Graph α) :
    (demand value : Patch α β).leaves graph = graph := by
  cases value <;> rfl

@[simp]
theorem leaves_look (query : Graph α → Except Fault β) (graph : Graph α) :
    (look query).leaves graph = graph := by
  unfold leaves look
  cases query graph <;> rfl

@[simp]
theorem leaves_ask (query : Graph α → Except (Failure GraphError) β) (graph : Graph α) :
    (ask query).leaves graph = graph := by
  unfold leaves ask
  cases query graph <;> rfl

theorem keeps_demand (value : Except (Failure PassError) β) :
    (demand value : Patch α β).Keeps holds :=
  keeps_of_leaves_eq (leaves_demand value)

theorem keeps_look (query : Graph α → Except Fault β) : (look query).Keeps holds :=
  keeps_of_leaves_eq (leaves_look query)

theorem keeps_ask (query : Graph α → Except (Failure GraphError) β) : (ask query).Keeps holds :=
  keeps_of_leaves_eq (leaves_ask query)

theorem keeps_edit {change : Graph α → Except (Failure GraphError) (Graph α)}
    (kept : ∀ ⦃graph changed⦄, holds graph → change graph = .ok changed → holds changed) :
    (edit change).Keeps holds := by
  intro graph known
  unfold leaves edit
  cases done : change graph with
  | ok changed => exact kept known done
  | error failure => exact known

theorem keeps_bind {first : Patch α β} {next : β → Patch α γ}
    (start : first.Keeps holds) (rest : ∀ answer, (next answer).Keeps holds) :
    (first >>= next).Keeps holds := by
  intro graph known
  have begun := start known
  unfold leaves at begun ⊢
  cases done : first graph with
  | error failure middle =>
      rw [done] at begun
      rw [bind_of_error next done]
      exact begun
  | ok answer middle =>
      rw [done] at begun
      rw [bind_of_ok next done]
      exact rest answer begun

end Patch

/-! ## The standard passes -/

namespace Graph

variable {graph changed : Graph α} {id : NodeId}

/-- What holds of a graph still holds when a node is replaced by one that resembles it. -/
def Tolerant (holds : Graph α → Prop) : Prop :=
  ∀ ⦃graph : Graph α⦄ ⦃id node new⦄, holds graph → graph.get id = .ok node →
    new.Resembles node → holds (graph.replace id.index new)

theorem Tolerant.modify (tolerant : Tolerant holds) {change : Node α → Node α}
    (resembles : ∀ node, (change node).Resembles node) (known : holds graph)
    (done : graph.modify id change = .ok changed) : holds changed := by
  obtain ⟨node, found, rfl⟩ := modify_eq_ok_iff.mp done
  exact tolerant known (get_eq_ok_of_node found) (resembles node)

theorem Tolerant.setWeight (tolerant : Tolerant holds) {role : Role} {data : Tensor α}
    (known : holds graph) (done : graph.setWeight id role data = .ok changed) : holds changed := by
  obtain ⟨node, weight, found, _, rfl⟩ := modifyWeight_eq_ok_iff.mp done
  exact tolerant known (get_eq_ok_of_node found) (node.resembles_withWeight role _)

theorem Tolerant.setOutputPrecision (tolerant : Tolerant holds) {precision : Precision}
    (known : holds graph) (done : graph.setOutputPrecision id precision = .ok changed) :
    holds changed := by
  obtain ⟨node, output, others, found, outputs, rfl⟩ := setOutputPrecision_eq_ok_iff.mp done
  exact tolerant known (get_eq_ok_of_node found) ⟨rfl, rfl, rfl, by simp [outputs]⟩

end Graph

namespace ScaleFactorization

theorem keeps_store (tolerant : Graph.Tolerant holds) (id : NodeId) (role : Role)
    (weight : Weight α) : (store id role weight).Keeps holds :=
  Patch.keeps_edit fun _ _ => tolerant.modify fun node => node.resembles_withWeight role weight

variable [Scalar α]

theorem resetAttrs_resembles (node : Node α) : (resetAttrs node).Resembles node :=
  ⟨rfl, rfl, rfl, rfl⟩

theorem keeps_rescaleBias (tolerant : Graph.Tolerant holds) (id : NodeId) (node : Node α)
    (scale : Tensor α) : (rescaleBias id node scale).Keeps holds := by
  unfold rescaleBias
  split
  · exact Patch.keeps_pure ()
  · refine Patch.keeps_bind (Patch.keeps_demand _) fun data => ?_
    refine Patch.keeps_bind (keeps_store tolerant id .bias _) fun _ => ?_
    split
    · exact Patch.keeps_pure ()
    · exact Patch.keeps_bind (Patch.keeps_demand _) fun quotient => keeps_store tolerant id .bias _

theorem keeps_insertAlpha (id : NodeId) (scale : Tensor α)
    (inserts : ∀ ⦃graph changed layer output inserted⦄, holds graph →
      graph.insert (alphaNode id layer output scale) = .ok (inserted, changed) → holds changed) :
    (insertAlpha id scale).Keeps holds := by
  refine Patch.keeps_bind (Patch.keeps_ask _) fun node => ?_
  split
  · exact Patch.keeps_fail _
  · refine Patch.keeps_edit fun graph changed known done => ?_
    obtain ⟨⟨inserted, result⟩, added, shape⟩ := except_bind_eq_ok.mp done
    obtain rfl := except_pure_eq_ok.mp shape
    exact inserts known added

/-- Scale factorization replaces its layer and inserts a node behind it. -/
theorem keeps_patch (tolerant : Graph.Tolerant holds) (id : NodeId)
    (inserts : ∀ ⦃graph changed layer output scale inserted⦄, holds graph →
      graph.insert (alphaNode id layer output scale) = .ok (inserted, changed) → holds changed) :
    (patch id : Patch α Bool).Keeps holds := by
  refine Patch.keeps_bind (Patch.keeps_look _) fun node => ?_
  refine Patch.keeps_bind (Patch.keeps_demand _) fun ⟨weight, scale⟩ => ?_
  refine Patch.keeps_bind (keeps_store tolerant id .weight weight) fun _ => ?_
  refine Patch.keeps_bind (keeps_rescaleBias tolerant id node scale) fun _ => ?_
  refine Patch.keeps_bind (Patch.keeps_edit fun _ _ => tolerant.modify resetAttrs_resembles)
    fun _ => ?_
  refine Patch.keeps_bind (keeps_insertAlpha id scale ?_) fun _ => Patch.keeps_pure true
  exact fun _ _ _ _ _ known added => inserts known added

end ScaleFactorization

namespace AffineFusion

variable [Scalar α]

/-- Affine fusion replaces the first of two nodes and removes the second. -/
theorem keeps_patch (tolerant : Graph.Tolerant holds) (id : NodeId)
    (removes : ∀ ⦃graph changed⦄, holds graph → graph.remove id true = .ok changed →
      holds changed) :
    (patch id : Patch α Bool).Keeps holds := by
  refine Patch.keeps_bind (Patch.keeps_look _) fun source => ?_
  split
  · exact Patch.keeps_bind (Patch.keeps_look _) fun node => Patch.keeps_fail _
  · next producer =>
      refine Patch.keeps_bind (Patch.keeps_ask _) fun first => ?_
      refine Patch.keeps_bind (Patch.keeps_ask _) fun second => ?_
      split
      · exact Patch.keeps_bind (Patch.keeps_look _) fun node => Patch.keeps_fail _
      · refine Patch.keeps_bind (Patch.keeps_edit fun _ _ => tolerant.setWeight) fun _ => ?_
        refine Patch.keeps_bind (Patch.keeps_edit fun _ _ => tolerant.setWeight) fun _ => ?_
        exact Patch.keeps_bind (Patch.keeps_edit removes) fun _ => Patch.keeps_pure true

end AffineFusion

namespace OutputModes

/-- Setting modes replaces the layer. -/
theorem keeps_patch (tolerant : Graph.Tolerant holds) (selection : ModeSelection) (id : NodeId) :
    (patch selection id : Patch α Bool).Keeps holds := by
  refine Patch.keeps_bind (Patch.keeps_ask _) fun old => ?_
  split
  · exact Patch.keeps_bind (Patch.keeps_look _) fun node => Patch.keeps_fail _
  · next precision _ =>
      have setPrecision :
          (Patch.edit fun graph : Graph α => graph.setOutputPrecision id precision).Keeps holds :=
        Patch.keeps_edit fun _ _ => tolerant.setOutputPrecision
      refine Patch.keeps_bind (Patch.keeps_look _) fun attr => ?_
      split
      · refine Patch.keeps_bind (Patch.keeps_edit fun _ _ => tolerant.modify fun node =>
          node.resembles_withAttr _ _) fun _ => ?_
        exact Patch.keeps_bind setPrecision fun _ => Patch.keeps_pure false
      · exact Patch.keeps_bind setPrecision fun _ => Patch.keeps_pure false

end OutputModes

/-! ## Scans and runs -/

/-- What holds of a graph holds of the graph that the pass leaves at a node that it applies to. -/
def Pass.Keeps (holds : Graph α → Prop) (pass : Pass α) : Prop :=
  ∀ ⦃graph id⦄, holds graph → pass.applies graph id = .ok true →
    holds ((pass.patch id).leaves graph)

namespace Optimizer

variable {passes : List (Pass α)} {graph final : Graph α}

theorem Walk.kept {ids : List NodeId} {patches : List (NodeId × Pass α)}
    {ended : Except (Failure PassError) Bool}
    (walk : Walk passes ids graph patches ended final) (keeps : ∀ pass ∈ passes, pass.Keeps holds)
    (known : holds graph) : holds final := by
  induction walk with
  | through => exact known
  | skip _ _ inductionHypothesis => exact inductionHypothesis known
  | change first done _ inductionHypothesis =>
      have patched := keeps _ first.mem known first.applies
      rw [Patch.leaves_of_ok done] at patched
      exact inductionHypothesis patched
  | restart first done =>
      have patched := keeps _ first.mem known first.applies
      rwa [Patch.leaves_of_ok done] at patched
  | failure first failed =>
      have patched := keeps _ first.mem known first.applies
      rwa [Patch.leaves_of_error failed] at patched
  | fault => exact known

theorem Rounds.kept {rounds : List (Round α)} (scans : Rounds passes graph rounds final)
    (keeps : ∀ pass ∈ passes, pass.Keeps holds) (known : holds graph) : holds final := by
  induction scans with
  | none => exact known
  | more walk _ inductionHypothesis => exact inductionHypothesis (walk.kept keeps known)

/-- What all passes keep holds of the graph that a run leaves, however it ends. -/
theorem kept_of_runWithin (optimizer : Optimizer α)
    (keeps : ∀ pass ∈ optimizer.passes, pass.Keeps holds) (known : holds graph) {fuel : Nat}
    {run : Run α} (ended : optimizer.runWithin fuel graph = some run) : holds run.graph := by
  obtain ⟨rounds, concludes⟩ := concludes_of_runWithin optimizer ended
  generalize run.outcome = outcome at concludes
  cases concludes with
  | exhausted scans => exact scans.kept keeps known
  | settled scans => exact scans.kept keeps known
  | failed scans _ _ walk => exact walk.kept keeps (scans.kept keeps known)

end Optimizer

end QuantNet
