import QuantNet.Proofs.Graph.Handles
import QuantNet.Proofs.Pass.Effects
import QuantNet.Proofs.Pass.Rounds

/-!
# Reports

A run that ends without a failure reports what its scans have done, whatever the passes are.  It has
converged exactly if it was not cut short by its limit; then no pass applies to any node of the
graph that it leaves, and another run finds nothing to do.
-/

namespace QuantNet

variable {α : Type}

/-- What a patch of the pass leaves of a graph could have been made by operations as well. -/
def Pass.Makes (pass : Pass α) : Prop :=
  ∀ ⦃graph id topologyChanged changed⦄, graph.Made →
    pass.patch id graph = .ok topologyChanged changed → changed.Made

namespace Optimizer

/-- What a report says about a run that goes from one graph to another in some scans.  How a scan
patches its nodes, and that a change of the topology ends it, is told by `Rounds`. -/
structure Accounts (optimizer : Optimizer α) (graph final : Graph α) (report : Report)
    (rounds : List (Round α)) : Prop where
  scans : Rounds optimizer.passes graph rounds final
  counted : report.scans = rounds.length
  patched : report.patches = patchCount rounds
  limited : ∀ most ∈ optimizer.limit, report.scans ≤ most
  cut_iff : report.converged = false ↔ optimizer.limit = some report.scans ∧ Busy rounds
  /-- The last scan of a run that converges is the only one without a patch. -/
  quiet : report.converged = true →
    ∃ earlier, rounds = earlier ++ [⟨final, [], false⟩] ∧ Busy earlier
  settled : report.converged = true →
    ∀ id ∈ final.order, ∀ pass ∈ optimizer.passes, pass.applies final id = .ok false
  stable : report.converged = true →
    ∀ fuel, ∃ log, optimizer.runWithin (fuel + 1) final = some ⟨final, log, .ok ⟨1, 0, true⟩⟩
  /-- A scan goes once over the nodes that it finds at its start. -/
  inOrder : ∀ round ∈ rounds, (round.patches.map Prod.fst).Sublist round.start.order
  /-- Hence no node is patched twice in a scan. -/
  once : graph.Made → (∀ pass ∈ optimizer.passes, pass.Makes) →
    ∀ round ∈ rounds, (round.patches.map Prod.fst).Nodup

variable {passes : List (Pass α)} {graph final : Graph α} {rounds : List (Round α)}

/-! ## Nodes are patched once -/

theorem Walk.made {ids : List NodeId} {patches : List (NodeId × Pass α)} {restarted : Bool}
    (walk : Walk passes ids graph patches (.ok restarted) final) (made : graph.Made)
    (makes : ∀ pass ∈ passes, pass.Makes) : final.Made := by
  generalize fine : Except.ok restarted = ended at walk
  induction walk with
  | through => exact made
  | skip _ _ inductionHypothesis => exact inductionHypothesis made fine
  | change first done _ inductionHypothesis =>
      exact inductionHypothesis (makes _ first.mem made done) fine
  | restart first done => exact makes _ first.mem made done
  | failure => cases fine
  | fault => cases fine

theorem Rounds.inOrder (scans : Rounds passes graph rounds final) :
    ∀ round ∈ rounds, (round.patches.map Prod.fst).Sublist round.start.order := by
  induction scans with
  | none => exact List.forall_mem_nil _
  | more walk _ inductionHypothesis =>
      exact List.forall_mem_cons.mpr ⟨walk.sublist, inductionHypothesis⟩

theorem Rounds.made (scans : Rounds passes graph rounds final) (made : graph.Made)
    (makes : ∀ pass ∈ passes, pass.Makes) :
    ∀ round ∈ rounds, round.start.Made := by
  induction scans with
  | none => exact List.forall_mem_nil _
  | more walk _ inductionHypothesis =>
      exact List.forall_mem_cons.mpr ⟨made, inductionHypothesis (walk.made made makes)⟩

theorem Rounds.once (scans : Rounds passes graph rounds final) (made : graph.Made)
    (makes : ∀ pass ∈ passes, pass.Makes) :
    ∀ round ∈ rounds, (round.patches.map Prod.fst).Nodup := by
  intro round member
  have start := scans.made made makes round member
  exact (scans.inOrder round member).nodup start.registers.once

/-! ## What the report says -/

section

variable (optimizer : Optimizer α)

private theorem accounts_of_exhausted (scans : Rounds optimizer.passes graph rounds final)
    (busy : Busy rounds) (reached : optimizer.limit = some rounds.length) :
    Accounts optimizer graph final ⟨rounds.length, patchCount rounds, false⟩ rounds where
  scans := scans
  counted := rfl
  patched := rfl
  limited := fun _ member => Nat.le_of_eq (Option.some.inj (reached.symm.trans member))
  cut_iff := ⟨fun _ => ⟨reached, busy⟩, fun _ => rfl⟩
  quiet := fun converged => absurd converged Bool.false_ne_true
  settled := fun converged => absurd converged Bool.false_ne_true
  stable := fun converged => absurd converged Bool.false_ne_true
  inOrder := scans.inOrder
  once := scans.once

private theorem accounts_of_settled (scans : Rounds optimizer.passes graph rounds final)
    (busy : Busy rounds) (room : ∀ most ∈ optimizer.limit, rounds.length < most)
    (quiet : ∀ id ∈ final.order, NoneApplies optimizer.passes final id) :
    Accounts optimizer graph final ⟨rounds.length + 1, patchCount rounds, true⟩
      (rounds ++ [⟨final, [], false⟩]) := by
  have all : Rounds optimizer.passes graph (rounds ++ [⟨final, [], false⟩]) final :=
    scans.append (.single (walk_of_quiet quiet))
  have notBusy : ¬ Busy (rounds ++ [⟨final, [], false⟩]) := fun busy =>
    (busy_append_iff.mp busy).2 _ List.mem_cons_self rfl
  have again : ∀ most ∈ optimizer.limit, ([] : List (Round α)).length < most := fun most member =>
    Nat.lt_of_le_of_lt (Nat.zero_le _) (room most member)
  exact {
    scans := all
    counted := by simp
    patched := by simp [patchCount]
    limited := room
    cut_iff := by simp [notBusy]
    quiet := fun _ => ⟨rounds, rfl, busy⟩
    settled := fun _ id member => (quiet id member).quiet
    stable := fun _ fuel =>
      (Concludes.settled .none (List.forall_mem_nil _) again quiet).runWithin_eq
        (Nat.succ_pos fuel)
    inOrder := all.inOrder
    once := all.once }

/-- The report of a run is true, whatever the passes, the limit and the graph are. -/
theorem report_truthful {fuel : Nat} {run : Run α} {report : Report}
    (ended : optimizer.runWithin fuel graph = some run) (fine : run.outcome = .ok report) :
    ∃ rounds, Accounts optimizer graph run.graph report rounds := by
  obtain ⟨rounds, concludes⟩ := concludes_of_runWithin optimizer ended
  rw [fine] at concludes
  cases concludes with
  | exhausted scans busy reached =>
      exact ⟨rounds, accounts_of_exhausted optimizer scans busy reached⟩
  | settled scans busy room quiet => exact ⟨_, accounts_of_settled optimizer scans busy room quiet⟩

end

/-! ## A run that restarts -/

/-- Takes the activations out of a graph. -/
def dropActivations : Pass α where
  name := "drop_activations"
  applies graph id := return (← graph.get id).kind = .activation
  patch id := do
    Patch.edit fun graph => graph.remove id true
    return true

private theorem makes_dropActivations : (dropActivations : Pass α).Makes := by
  intro graph id topologyChanged changed made done
  simp only [dropActivations] at done
  cases removed : graph.remove id true with
  | error failure =>
      rw [bind_of_error _ (Patch.edit_of_error removed)] at done
      cases done
  | ok smaller =>
      rw [bind_of_ok _ (Patch.edit_of_ok removed)] at done
      obtain ⟨rfl, rfl⟩ := EStateM.Result.ok.inj done
      have performed := made.operation (.remove id true)
      rwa [Graph.perform_of_change (by rw [Operation.change, removed]; rfl)] at performed

/-- A model that ends with two activations. -/
def activations : List (Operation Nat) :=
  let activation (name : String) (source : Nat) : Operation Nat :=
    .push (.single .activation name .empty [⟨⟨0, source⟩, 0⟩] [1, 1] (.fixed 16 6 true .unset))
  [.addInput "x" [1, 1] (.fixed 16 6 true .unset), activation "first" 0, activation "second" 1,
    .addOutput ⟨⟨0, 2⟩, 0⟩]

/-- Both activations are taken out, each in a scan of its own, and a third scan finds none. -/
theorem report_truthful_activations :
    ∃ run rounds, runWithin ⟨some 3, [dropActivations]⟩ 4 ((Graph.empty 0).replay activations) =
        some run ∧ run.outcome = .ok ⟨3, 2, true⟩ ∧
      Accounts ⟨some 3, [dropActivations]⟩ ((Graph.empty 0).replay activations) run.graph
        ⟨3, 2, true⟩ rounds ∧
      ∀ round ∈ rounds, (round.patches.map Prod.fst).Nodup := by
  have computed : (runWithin ⟨some 3, [dropActivations]⟩ 4
      ((Graph.empty 0).replay activations)).map Run.outcome = some (.ok ⟨3, 2, true⟩) := by
    decide +kernel
  obtain ⟨run, ended, outcome⟩ := Option.map_eq_some_iff.mp computed
  obtain ⟨rounds, accounts⟩ := report_truthful _ ended outcome
  refine ⟨run, rounds, ended, outcome, accounts, accounts.once (.replay (.empty 0) _) ?_⟩
  exact List.forall_mem_singleton.mpr makes_dropActivations

end Optimizer

end QuantNet
