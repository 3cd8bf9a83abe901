import QuantNet.Proofs.Pass.Fixpoint

/-!
# Runs that change the topology

Scale factorization and affine fusion without output modes.  Every scan turns the graph at the first
node that one of the two passes applies to, and the run ends when there is no such node or when the
patch there fails.
-/

namespace QuantNet

open QuantNet.Graph Optimizer

/-- Scale factorization and affine fusion, for as long as it takes. -/
def topologyOnly (α : Type) [Scalar α] : Optimizer α where
  limit := none
  passes := topologyPasses α

variable {α : Type} [Scalar α] {selection : ModeSelection} {graph middle changed final : Graph α}
  {id : NodeId} {node : Node α} {pass : Pass α} {topologyChanged : Bool} {progress : Progress α}

/-! ## One node -/

/-- A pass is chosen at a node unless it is steady. -/
private theorem exists_chosen_of_not_steady (wf : graph.WellFormed) (live : id ∈ graph.order)
    (unsteady : ¬ graph.Steady id) :
    ∃ pass node, choose (topologyPasses α) graph id = .ok (some (pass, node)) := by
  obtain ⟨node, found⟩ := wf.mem_order_iff.mp live
  obtain ⟨choice, chosen⟩ := choose_eq_ok found fun pass member =>
    applies_of_mem_standard wf found (mem_standardPasses {} member)
  rcases choice with _ | ⟨pass, node⟩
  · exact absurd (steady_iff_forall.mpr (choose_eq_none chosen)) unsteady
  · exact ⟨pass, node, chosen⟩

private theorem chosen_none_of_steady (wf : graph.WellFormed) (live : id ∈ graph.order)
    (steady : graph.Steady id) :
    choose (topologyPasses α) graph id = .ok none := by
  obtain ⟨node, found⟩ := wf.mem_order_iff.mp live
  exact choose_eq_none_of_get found (steady_iff_forall.mp steady)

theorem not_steady_of_chosen
    (chosen : choose (topologyPasses α) graph id = .ok (some (pass, node))) :
    ¬ graph.Steady id := by
  intro steady
  have member := mem_of_choose_eq_some chosen
  have applies := (choose_eq_some chosen).2.1
  cases applies.symm.trans (steady_iff_forall.mp steady pass member)

namespace Rewrite

theorem topologyChanged_eq
    (rewrite : Rewrite selection graph id node pass topologyChanged changed)
    (member : pass ∈ topologyPasses α) :
    topologyChanged = true := by
  cases rewrite with
  | factor => rfl
  | fuse => rfl
  | setModes =>
      have names := List.mem_map_of_mem (f := Pass.name) member
      simp [topologyPasses, ScaleFactorization.pass, AffineFusion.pass, OutputModes.pass] at names

/-- The patch of the pass makes the rewrite. -/
theorem patch_eq
    (rewrite : Rewrite selection graph id node pass topologyChanged changed)
    (wf : graph.WellFormed) (found : graph.get id = .ok node) :
    pass.patch id graph = .ok topologyChanged changed := by
  cases rewrite with
  | factor _ unit divided outputs =>
      exact ScaleFactorization.patch_eq_ok wf found unit divided outputs
  | fuse reads _ source _ _ _ _ hasScale hasBias hasNextScale hasNextBias joint =>
      exact AffineFusion.patch_eq_ok found reads wf source hasScale hasBias hasNextScale
        hasNextBias joint
  | setModes _ outputs set => exact OutputModes.patch_eq_ok found outputs set

end Rewrite

/-! ## Turns -/

namespace Graph

/-- The first node that is not steady, and the pass that is chosen for it. -/
structure TurnsAt (graph : Graph α) (front : List NodeId) (id : NodeId) (node : Node α)
    (pass : Pass α) : Prop where
  order : ∃ back, graph.order = front ++ id :: back
  steady : ∀ other ∈ front, graph.Steady other
  chosen : choose (topologyPasses α) graph id = .ok (some (pass, node))

/-- A pass changes the topology at the first node that is not steady. -/
inductive Turn (graph : Graph α) : Graph α → Prop
  | turn {front : List NodeId} {id : NodeId} {node : Node α} {pass : Pass α} {changed : Graph α}
      (here : graph.TurnsAt front id node pass)
      (rewrite : Rewrite {} graph id node pass true changed) :
      Turn graph changed

/-- So many turns, one after the other. -/
inductive Turns : Nat → Graph α → Graph α → Prop
  | none {graph : Graph α} : Turns 0 graph graph
  | more {count : Nat} {graph middle changed : Graph α} (first : graph.Turn middle)
      (rest : Turns count middle changed) :
      Turns (count + 1) graph changed

/-- The patch at the first node that is not steady fails. -/
def TurnFails (graph : Graph α) : Prop :=
  ∃ front id node pass failure left, graph.TurnsAt front id node pass ∧
    pass.patch id graph = .error failure left

end Graph

/-- All nodes are steady, or there is a first one that is not. -/
theorem Graph.WellFormed.steady_or_turnsAt (wf : graph.WellFormed) :
    (∀ id ∈ graph.order, graph.Steady id) ∨
      ∃ front id node pass, graph.TurnsAt front id node pass := by
  classical
  cases unsteady : graph.order.filter fun id => ¬ graph.Steady id with
  | nil =>
      refine Or.inl fun id member => ?_
      simpa using List.filter_eq_nil_iff.mp unsteady id member
  | cons id rest =>
      obtain ⟨front, back, order, earlier, first, _⟩ := List.filter_eq_cons_iff.mp unsteady
      have live : id ∈ graph.order := order ▸ List.mem_append_right front List.mem_cons_self
      obtain ⟨pass, node, chosen⟩ := exists_chosen_of_not_steady wf live (of_decide_eq_true first)
      exact Or.inr ⟨front, id, node, pass, ⟨back, order⟩,
        fun other member => by simpa using earlier other member, chosen⟩

namespace Graph.TurnsAt

variable {front : List NodeId} (here : graph.TurnsAt front id node pass)

include here

theorem found : graph.get id = .ok node :=
  (choose_eq_some here.chosen).2.2

theorem member : pass ∈ topologyPasses α :=
  mem_of_choose_eq_some here.chosen

/-- The patch there fails, or it makes a rewrite. -/
theorem patch_cases (wf : graph.WellFormed) :
    (∃ failure left, pass.patch id graph = .error failure left) ∨
      ∃ changed, Rewrite {} graph id node pass true changed := by
  have applies := (choose_eq_some here.chosen).2.1
  rcases patch_cases_of_applies wf here.found (mem_standardPasses {} here.member) applies with
    ⟨topologyChanged, changed, rewrite, _⟩ | ⟨_, left, failed⟩ | ⟨_, _, failed⟩
  · obtain rfl := rewrite.topologyChanged_eq here.member
    exact Or.inr ⟨changed, rewrite⟩
  · exact Or.inl ⟨_, left, failed⟩
  · exact Or.inl ⟨_, graph, failed⟩

end Graph.TurnsAt

theorem Graph.Turn.wellFormed (turn : graph.Turn changed) (wf : graph.WellFormed) :
    changed.WellFormed := by
  obtain ⟨here, rewrite⟩ := turn
  exact rewrite.wellFormed wf here.found

theorem Graph.Turns.wellFormed {count : Nat} (turns : Turns count graph final)
    (wf : graph.WellFormed) : final.WellFormed := by
  induction turns with
  | none => exact wf
  | more first _ inductionHypothesis => exact inductionHypothesis (first.wellFormed wf)

/-! ## Whole runs -/

/-- How a run that changes the topology ends: it has made some turns, and the next one fails or
there is none. -/
inductive TopologyEnd (start : Graph α) (patches : Nat) (run : Run α) : Prop
  | failed {count : Nat} {final : Graph α} {failure : Failure PassError}
      (turns : Turns count start final) (fails : final.TurnFails)
      (outcome : run.outcome = .error failure)
  | settled {count : Nat} {report : Report} (turns : Turns count start run.graph)
      (steady : ∀ id ∈ run.graph.order, run.graph.Steady id) (outcome : run.outcome = .ok report)
      (total : report.patches = patches + count)

theorem TopologyEnd.of_turn {patches : Nat} {run : Run α} (turn : graph.Turn middle)
    (ends : TopologyEnd middle (patches + 1) run) : TopologyEnd graph patches run := by
  cases ends with
  | failed turns fails outcome => exact .failed (.more turn turns) fails outcome
  | @settled count report turns steady outcome total =>
      exact .settled (.more turn turns) steady outcome (by omega)

/-- Each scan makes a turn, and the last one finds nothing to do. -/
theorem topologyOnly_proceeds (unit : Scalar.eq (1 : α) 1 = true) (fuel : Nat) :
    ∀ progress : Progress α, progress.graph.WellFormed → room progress.graph + 1 ≤ fuel →
      ∃ run, (topologyOnly α).proceed? fuel progress = some run ∧
        TopologyEnd progress.graph progress.patches run := by
  induction fuel with
  | zero =>
      intro progress _ enough
      omega
  | succ fuel inductionHypothesis =>
      intro progress wf enough
      rcases wf.steady_or_turnsAt with steady | ⟨front, id, node, pass, here⟩
      · have scanned : scan (topologyOnly α).passes progress =
            ({ progress with scans := progress.scans + 1 }, .ok .fixpoint) :=
          scanNodes_of_quiet fun id live => chosen_none_of_steady wf live (steady id live)
        exact ⟨_, (topologyOnly α).proceed?_of_fixpoint nofun fuel scanned,
          .settled .none steady rfl rfl⟩
      · obtain ⟨back, order⟩ := here.order
        have skipped : scan (topologyOnly α).passes progress =
            scanNodes (topologyOnly α).passes (id :: back) false
              { progress with scans := progress.scans + 1 } := by
          rw [scan, order]
          refine scanNodes_append_of_quiet fun other among => ?_
          refine chosen_none_of_steady wf ?_ (here.steady other among)
          rw [order]
          exact List.mem_append_left _ among
        rcases here.patch_cases wf with ⟨failure, left, failed⟩ | ⟨changed, rewrite⟩
        · have scanned := skipped.trans (scanNodes_of_failure here.chosen failed)
          exact ⟨_, (topologyOnly α).proceed?_of_failure nofun fuel scanned,
            .failed .none ⟨front, id, node, pass, failure, left, here, failed⟩ rfl⟩
        · have done := rewrite.patch_eq wf here.found
          have scanned := skipped.trans (scanNodes_of_restart here.chosen done)
          have less : room changed + 1 = room progress.graph := rewrite.room_add unit wf here.found
          let after := ({ progress with scans := progress.scans + 1 } : Progress α).applied pass
            node true changed
          obtain ⟨run, ended, ends⟩ := inductionHypothesis
            (after.note (.scanned after.scans .restart)) (rewrite.wellFormed wf here.found)
            (less.symm ▸ Nat.le_of_succ_le_succ enough)
          rw [(topologyOnly α).proceed?_of_further nofun fuel (by decide) scanned]
          exact ⟨run, ended, ends.of_turn (.turn here rewrite)⟩

/-- There is room in a run for all the turns that a graph can need. -/
theorem Graph.WellFormed.topologyOnly_run (unit : Scalar.eq (1 : α) 1 = true)
    (wf : graph.WellFormed) :
    ∃ run, (topologyOnly α).run graph = some run ∧ TopologyEnd graph 0 run := by
  have scaled := graph.count_le_length ScaleFactorization.isScaled
  have affine := graph.count_le_length fun node => node.kind.isAffine
  have allowance : (topologyOnly α).allowance graph = (3 * graph.order.length + 2) * 4 := rfl
  have enough : room graph + 1 ≤ (topologyOnly α).allowance graph := by
    rw [allowance, room]
    omega
  exact topologyOnly_proceeds unit _ { graph } wf enough

end QuantNet
