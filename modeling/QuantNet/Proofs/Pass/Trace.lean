import QuantNet.Pass.Pipeline
import QuantNet.Proofs.Pass.Scanning

/-!
# The patches of a run

The log of a run names the passes that were applied and the nodes that they were applied to.  Here
are the passes and the nodes themselves, as they were when they were patched.
-/

namespace QuantNet

/-- The names of the pass and of the node, if an event is the application of a pass. -/
def Event.patch? : Event → Option (String × String)
  | applied pass node _ => some (pass, node)
  | _ => none

variable {α : Type}

namespace Optimizer

/-- The patches of a scan over the given nodes, up to the one that ends the scan. -/
def patchesOver (passes : List (Pass α)) : List NodeId → Graph α → List (Pass α × Node α)
  | [], _ => []
  | id :: rest, graph =>
      match choose passes graph id with
      | .error _ => []
      | .ok none => patchesOver passes rest graph
      | .ok (some (pass, node)) =>
          match pass.patch id graph with
          | .error _ _ => []
          | .ok topologyChanged graph =>
              (pass, node) :: if topologyChanged then [] else patchesOver passes rest graph

/-- The patches of a run that is continued for at most `fuel` further scans. -/
def patchesWithin (optimizer : Optimizer α) : Nat → Progress α → List (Pass α × Node α)
  | 0, _ => []
  | fuel + 1, progress =>
      if (optimizer.limit.filter fun limit => limit ≤ progress.scans).isSome then
        []
      else
        patchesOver optimizer.passes progress.graph.order progress.graph ++
          match scan optimizer.passes progress with
          | (_, .error _) => []
          | (progress, .ok result) =>
              if result = .fixpoint then []
              else patchesWithin optimizer fuel (progress.note (.scanned progress.scans result))

/-- The names of passes and nodes in the order of the patches. -/
def names (patches : List (Pass α × Node α)) : List (String × String) :=
  patches.map fun patch => (patch.1.name, patch.2.name)

variable {progress : Progress α}

theorem log_scanNodes
    (passes : List (Pass α)) (ids : List NodeId) (changed : Bool) (progress : Progress α) :
    (scanNodes passes ids changed progress).1.log.filterMap Event.patch? =
      progress.log.filterMap Event.patch? ++ names (patchesOver passes ids progress.graph) := by
  induction ids generalizing changed progress with
  | nil =>
      exact (List.append_nil _).symm
  | cons id rest inductionHypothesis =>
      rw [scanNodes, patchesOver]
      cases choose passes progress.graph id with
      | error fault =>
          exact (List.append_nil _).symm
      | ok choice =>
          cases choice with
          | none =>
              exact inductionHypothesis changed progress
          | some selected =>
              obtain ⟨pass, node⟩ := selected
              dsimp only
              cases pass.patch id progress.graph with
              | error failure graph =>
                  exact (List.append_nil _).symm
              | ok topologyChanged graph =>
                  cases topologyChanged with
                  | true =>
                      simp [Progress.note, Event.patch?, names]
                  | false =>
                      simp only [Bool.false_eq_true, if_false]
                      rw [inductionHypothesis]
                      simp [Progress.note, Event.patch?, names]

theorem log_scan (passes : List (Pass α)) (progress : Progress α) :
    (scan passes progress).1.log.filterMap Event.patch? =
      progress.log.filterMap Event.patch? ++
        names (patchesOver passes progress.graph.order progress.graph) :=
  log_scanNodes passes progress.graph.order false { progress with scans := progress.scans + 1 }

/-- The log of a run names the patches of the run, one after the other. -/
theorem log_proceed? (optimizer : Optimizer α) (fuel : Nat) {run : Run α}
    (ends : optimizer.proceed? fuel progress = some run) :
    run.log.filterMap Event.patch? =
      progress.log.filterMap Event.patch? ++ names (optimizer.patchesWithin fuel progress) := by
  induction fuel generalizing progress with
  | zero =>
      cases ends
  | succ fuel inductionHypothesis =>
      rw [proceed?] at ends
      rw [patchesWithin]
      split at ends
      · next limit reached =>
          obtain rfl := Option.some.inj ends
          simp [reached, Event.patch?, names]
      · next further =>
          rw [further]
          simp only [Option.isSome_none, Bool.false_eq_true, if_false]
          have scanned := log_scan optimizer.passes progress
          split at ends
          · next after failure failed =>
              obtain rfl := Option.some.inj ends
              simp only [failed] at scanned ⊢
              rw [scanned, List.append_nil]
          · next after result done =>
              simp only [done] at scanned ⊢
              dsimp only at ends
              split at ends
              · next settled =>
                  obtain rfl := Option.some.inj ends
                  simp [Progress.note, Event.patch?, scanned, settled]
              · next more =>
                  rw [inductionHypothesis ends, if_neg more]
                  simp [Progress.note, Event.patch?, scanned, names]

end Optimizer

variable [Scalar α]

/-- The scale that a patch by a pass takes out of a node. -/
def Pass.extracts? (pass : Pass α) (node : Node α) : Option (Tensor α) :=
  if pass.name = "scale_factorization" then
    (ScaleFactorization.factorized node).toOption.map Prod.snd
  else none

def Optimizer.scales (patches : List (Pass α × Node α)) : List (Tensor α) :=
  patches.filterMap fun patch => patch.1.extracts? patch.2

namespace Settings

variable {graph : Graph α} {run : Run α}

def patches (settings : Settings) (graph : Graph α) : List (Pass α × Node α) :=
  if settings.enabled then
    settings.optimizer.patchesWithin (settings.optimizer.allowance graph) { graph }
  else
    []

/-- The scales that an optimization extracts on its way. -/
def scales (settings : Settings) (graph : Graph α) : List (Tensor α) :=
  Optimizer.scales (settings.patches graph)

theorem log_optimize? (settings : Settings) (ends : settings.optimize? graph = some run) :
    run.log.filterMap Event.patch? = Optimizer.names (settings.patches graph) := by
  unfold optimize? at ends
  unfold patches
  split at ends
  · next enabled =>
      rw [if_pos enabled]
      exact settings.optimizer.log_proceed? _ ends
  · next disabled =>
      obtain rfl := Option.some.inj ends
      rw [if_neg disabled]
      rfl

end Settings

end QuantNet
