import QuantNet.Proofs.Graph.Lifetimes
import QuantNet.Proofs.Pass.Consistency

/-!
# Lifetimes of handles under operations and runs

A run of standard passes adds nodes by insertions, takes nodes away by removals, and otherwise
changes nodes in their places.  So a handle means the same node for as long as the node lives, over
every sequence of operations and runs, failed ones included.
-/

namespace QuantNet

open QuantNet.Graph

variable {α : Type} {start graph changed : Graph α} {id : NodeId} {node : Node α}
  {events : List Occurrence}

/-! ## Runs -/

/-- A graph that some steps lead to. -/
def Graph.Reaches (start graph : Graph α) : Prop :=
  ∃ events, start.Steps events graph

theorem Graph.Reaches.perform (reaches : start.Reaches graph) {operation : Operation α}
    {answer : Option NodeId} (done : operation.change graph = .ok (answer, changed)) :
    start.Reaches changed := by
  obtain ⟨events, steps⟩ := reaches
  have next := steps.perform operation
  rw [perform_of_change done] at next
  exact ⟨_, next⟩

theorem Graph.tolerant_reaches (start : Graph α) : Tolerant start.Reaches :=
  fun _ _ _ _ ⟨events, steps⟩ found resembles => ⟨events, steps.replace found resembles⟩

theorem Graph.Reaches.insert (reaches : start.Reaches graph)
    (added : graph.insert node = .ok (id, changed)) : start.Reaches changed := by
  have done : (Operation.insert node).change graph = .ok (some id, changed) := by
    rw [Operation.change, added]
    rfl
  exact reaches.perform done

theorem Graph.Reaches.remove (reaches : start.Reaches graph)
    (removed : graph.remove id true = .ok changed) : start.Reaches changed := by
  have done : (Operation.remove id true).change graph = .ok (none, changed) := by
    rw [Operation.change, removed]
    rfl
  exact reaches.perform done

variable [Scalar α]

theorem StandardPass.keeps_reaches (start : Graph α) (kind : StandardPass) :
    (kind.pass : Pass α).Keeps start.Reaches := by
  intro graph id reaches _
  cases kind with
  | scaleFactorization =>
      exact ScaleFactorization.keeps_patch (tolerant_reaches start) id
        (fun _ _ _ _ _ _ known added => known.insert added) reaches
  | affineFusion =>
      exact AffineFusion.keeps_patch (tolerant_reaches start) id
        (fun _ _ known removed => known.remove removed) reaches
  | outputModes selection =>
      exact OutputModes.keeps_patch (tolerant_reaches start) selection id reaches

/-- However a run ends, some steps lead to the graph that it leaves. -/
theorem Graph.reaches_optimize (graph : Graph α) (limit : Option Nat)
    (passes : List StandardPass) (fuel : Nat) :
    graph.Reaches (graph.after (.optimize limit passes fuel)) := by
  have begin : graph.Reaches graph := ⟨[], .start⟩
  have keeps : ∀ pass ∈ passes.map (StandardPass.pass (α := α)), pass.Keeps graph.Reaches := by
    intro pass member
    obtain ⟨kind, _, rfl⟩ := List.mem_map.mp member
    exact kind.keeps_reaches graph
  simp only [Graph.after]
  split
  · next run ended => exact Optimizer.kept_of_runWithin _ keeps begin ended
  · exact begin

/-! ## Sequences of operations and runs -/

/-- What happens to handles over a sequence of operations and runs: what the answers of the
operations tell, and what happens on some way through each run. -/
inductive Graph.Occurs : Graph α → List (Action α) → List Occurrence → Prop
  | none {graph : Graph α} : Occurs graph [] []
  | operate {graph : Graph α} {operation : Operation α} {rest : List (Action α)}
      {events : List Occurrence} (later : Occurs (operation.perform graph).1 rest events) :
      Occurs graph (.operate operation :: rest)
        (operation.occurrences (operation.perform graph).2 ++ events)
  | optimize {graph : Graph α} {limit : Option Nat} {passes : List StandardPass} {fuel : Nat}
      {rest : List (Action α)} {inside events : List Occurrence}
      (steps : graph.Steps inside (graph.after (.optimize limit passes fuel)))
      (later : Occurs (graph.after (.optimize limit passes fuel)) rest events) :
      Occurs graph (.optimize limit passes fuel :: rest) (inside ++ events)

theorem Graph.exists_occurs (graph : Graph α) (actions : List (Action α)) :
    ∃ events, graph.Occurs actions events := by
  induction actions generalizing graph with
  | nil => exact ⟨[], .none⟩
  | cons action rest inductionHypothesis =>
      obtain ⟨events, later⟩ := inductionHypothesis (graph.after action)
      cases action with
      | operate operation => exact ⟨_, .operate later⟩
      | optimize limit passes fuel =>
          obtain ⟨inside, steps⟩ := graph.reaches_optimize limit passes fuel
          exact ⟨_, .optimize steps later⟩

theorem Graph.Occurs.append {earlier later : List (Action α)} {past : List Occurrence}
    (first : graph.Occurs earlier past)
    (second : (earlier.foldl Graph.after graph).Occurs later events) :
    graph.Occurs (earlier ++ later) (past ++ events) := by
  induction first with
  | none => exact second
  | operate _ inductionHypothesis =>
      rw [List.append_assoc]
      exact .operate (inductionHypothesis second)
  | optimize steps _ inductionHypothesis =>
      rw [List.append_assoc]
      exact .optimize steps (inductionHypothesis second)

theorem Graph.Occurs.carries {actions : List (Action α)} (occurs : graph.Occurs actions events)
    (wf : graph.WellFormed) :
    graph.Carries events (actions.foldl Graph.after graph) := by
  induction occurs with
  | none => exact .refl _
  | @operate graph operation rest events later inductionHypothesis =>
      have between := wf.perform operation
      exact (wf.carries_perform operation).trans (inductionHypothesis between) wf.linked
        between.linked (between.foldl_after rest).linked
  | @optimize graph limit passes fuel rest inside events steps later inductionHypothesis =>
      have between := steps.wellFormed wf
      exact (steps.carries wf).trans (inductionHypothesis between) wf.linked between.linked
        (between.foldl_after rest).linked

/-- Handles are stable, over every sequence of operations and runs, failed ones included, and at
every time between.  They are issued consecutively, failures issue none, and none is issued twice.
The node of an issued handle is there until it is removed and never again.  While it is there it
keeps its kind, its name and how many inputs and outputs it has, and no two nodes that are there
change places. -/
theorem handles_stable (tag : Nat) (earlier later : List (Action α)) :
    let graph := earlier.foldl Graph.after (Graph.empty tag)
    let changed := later.foldl Graph.after graph
    (∃ past events, (Graph.empty tag).Occurs earlier past ∧ graph.Occurs later events) ∧
      ∀ past events, (Graph.empty tag).Occurs earlier past → graph.Occurs later events →
        (past ++ events).filterMap Occurrence.issued? =
            (List.range changed.issued).map (Graph.empty tag : Graph α).handle ∧
          (∀ id, Occurrence.issued id ∈ past ++ events →
            changed.contains id = .ok (decide (Occurrence.removed id ∉ past ++ events))) ∧
          (∀ id, changed.contains id = .ok true → Occurrence.issued id ∈ past ++ events) ∧
          (∀ id old new, graph.get id = .ok old → changed.get id = .ok new →
            new.form = old.form) ∧
          ∀ left right, graph.Before left right → changed.contains left = .ok true →
            changed.contains right = .ok true → changed.Before left right := by
  intro graph changed
  have wf : graph.WellFormed := wellFormed_throughout tag earlier
  have final : changed.WellFormed := wf.foldl_after later
  refine ⟨?_, fun past events before after => ?_⟩
  · obtain ⟨past, before⟩ := (Graph.empty tag).exists_occurs earlier
    obtain ⟨events, after⟩ := graph.exists_occurs later
    exact ⟨past, events, before, after⟩
  have recent : graph.Carries events changed := after.carries wf
  have whole : (Graph.empty tag).Carries (past ++ events) changed := by
    have both := (before.append after).carries (.empty tag)
    rwa [List.foldl_append] at both
  have live : ∀ id, changed.contains id = .ok true ↔ id ∈ changed.order := fun id =>
    contains_eq_ok_true_iff.trans final.mem_order_iff.symm
  refine ⟨?_, ?_, ?_, ?_, ?_⟩
  · rw [whole.issued, List.range_eq_range']
    rfl
  · intro id issued
    obtain ⟨tagged, _, below⟩ := whole.mem_issued_iff.mp issued
    rw [final.contains_eq (tagged.trans whole.tag.symm) below, Except.ok.injEq, decide_eq_decide,
      whole.live]
    exact and_iff_right (Or.inr issued)
  · intro id there
    exact ((whole.live.mp ((live id).mp there)).1).resolve_left List.not_mem_nil
  · intro id old new found again
    exact recent.form (listed_of_get found).2 (listed_of_get again).2
  · intro left right pair leftLive rightLive
    exact recent.before pair ((live left).mp leftLive) ((live right).mp rightLive)

end QuantNet
