import QuantNet.Proofs.Pass.Settling

/-!
# The fixpoint of the standard passes

A run of the standard passes without a limit ends: with an error, at a quantizer that cannot be
applied, or at a graph to which no pass applies.
-/

namespace QuantNet

open QuantNet.Graph ScaleFactorization Optimizer

variable {α : Type} [Scalar α] {selection : ModeSelection} {graph changed start : Graph α}
  {id : NodeId} {node : Node α} {pass : Pass α} {topologyChanged : Bool}
  {progress : Progress α} {failure : Failure PassError}

/-! ## One node -/

/-- A pass that is chosen makes a rewrite or breaks down. -/
private theorem chosen_cases
    (wf : graph.WellFormed)
    (chosen : choose (standardPasses α selection) graph id = .ok (some (pass, node))) :
    graph.get id = .ok node ∧
      ((∃ topologyChanged changed, pass.patch id graph = .ok topologyChanged changed ∧
          Rewrite selection graph id node pass topologyChanged changed) ∨
        ∃ failure left, pass.patch id graph = .error failure left ∧ Breakdown left failure) := by
  have member := mem_of_choose_eq_some chosen
  obtain ⟨_, applies, found⟩ := choose_eq_some chosen
  refine ⟨found, ?_⟩
  rcases patch_cases_of_applies wf found member applies with
    ⟨topologyChanged, changed, rewrite, done⟩ | ⟨cause, left, failed⟩ | ⟨scaled, unit, failed⟩
  · exact Or.inl ⟨topologyChanged, changed, done, rewrite⟩
  · exact Or.inr ⟨_, left, failed, Or.inl ⟨cause, rfl⟩⟩
  · exact Or.inr ⟨_, graph, failed, Or.inr ⟨rfl, id, node, found, scaled, unit⟩⟩

theorem rewrite_of_chosen
    (wf : graph.WellFormed)
    (chosen : choose (standardPasses α selection) graph id = .ok (some (pass, node)))
    (done : pass.patch id graph = .ok topologyChanged changed) :
    graph.get id = .ok node ∧ Rewrite selection graph id node pass topologyChanged changed := by
  obtain ⟨found, ⟨_, _, same, rewrite⟩ | ⟨_, _, failed, _⟩⟩ := chosen_cases wf chosen
  · obtain ⟨rfl, rfl⟩ := EStateM.Result.ok.inj (same.symm.trans done)
    exact ⟨found, rewrite⟩
  · rw [done] at failed
    cases failed

theorem breakdown_of_chosen
    (wf : graph.WellFormed)
    (chosen : choose (standardPasses α selection) graph id = .ok (some (pass, node)))
    (failed : pass.patch id graph = .error failure changed) :
    Breakdown changed failure := by
  obtain ⟨_, applies, found⟩ := choose_eq_some chosen
  exact breakdown_of_applies wf found (mem_of_choose_eq_some chosen) applies failed

theorem idle_of_chosen_none
    (chosen : choose (standardPasses α selection) graph id = .ok none) :
    graph.Idle selection id :=
  choose_eq_none chosen

theorem chosen_none_of_idle (wf : graph.WellFormed) (live : id ∈ graph.order)
    (idle : graph.Idle selection id) :
    choose (standardPasses α selection) graph id = .ok none := by
  obtain ⟨node, found⟩ := wf.mem_order_iff.mp live
  exact choose_eq_none_of_get found idle

/-- Output modes are set only where the other passes do not apply. -/
theorem steady_of_chosen_setModes
    (chosen : choose (standardPasses α selection) graph id =
      .ok (some (OutputModes.pass selection, node))) :
    graph.Steady id := by
  obtain ⟨⟨behind, ahead, split, quiet⟩, _, _⟩ := choose_eq_some chosen
  rcases behind with _ | ⟨first, _ | ⟨second, rest⟩⟩
  · have same := congrArg Pass.name (List.cons.inj split).1
    simp [ScaleFactorization.pass, OutputModes.pass] at same
  · have same := congrArg Pass.name (List.cons.inj (List.cons.inj split).2).1
    simp [AffineFusion.pass, OutputModes.pass] at same
  · obtain ⟨rfl, others⟩ := List.cons.inj split
    obtain ⟨rfl, _⟩ := List.cons.inj others
    obtain ⟨unscaled, others⟩ := List.forall_mem_cons.mp quiet
    exact ⟨unscaled, (List.forall_mem_cons.mp others).1⟩

/-- A pass that leaves the topology alone has set output modes. -/
theorem setModes_of_chosen
    (wf : graph.WellFormed)
    (chosen : choose (standardPasses α selection) graph id = .ok (some (pass, node)))
    (done : pass.patch id graph = .ok false changed) :
    graph.get id = .ok node ∧ graph.Steady id ∧
      OutputModes.lacksModes selection node = true ∧
        ∃ output others precision, node.outputs = output :: others ∧
          output.precision.setModes selection.modes = .ok precision ∧
            changed = graph.replace id.index
              (OutputModes.withPrecision node output others precision) := by
  obtain ⟨found, rewrite⟩ := rewrite_of_chosen wf chosen done
  cases rewrite with
  | setModes lacks outputs set =>
      exact ⟨found, steady_of_chosen_setModes chosen, lacks, _, _, _, outputs, set, rfl⟩

/-! ## One scan -/

/-- Where a scan stands that no change of the topology has cut short: it has come from some graph
and has not yet taken any of the room. -/
structure Underway (start : Graph α) (ids : List NodeId) (space scans : Nat)
    (progress : Progress α) : Prop where
  stage : Stage start progress
  order : progress.graph.order = ids
  space : room progress.graph = space
  scans : progress.scans = scans

theorem Underway.live {ids : List NodeId} {space scans : Nat}
    (underway : Underway start ids space scans progress) (member : id ∈ ids) :
    ∃ node, progress.graph.get id = .ok node :=
  underway.stage.wf.mem_order_iff.mp (underway.order ▸ member)

theorem Underway.applied
    (unit : Scalar.eq (1 : α) 1 = true) {ids : List NodeId} {space scans : Nat}
    (underway : Underway start ids space scans progress)
    (chosen : choose (standardPasses α selection) progress.graph id = .ok (some (pass, node)))
    (done : pass.patch id progress.graph = .ok false changed) :
    Underway start ids space scans (progress.applied pass node false changed) := by
  have wf := underway.stage.wf
  obtain ⟨found, rewrite⟩ := rewrite_of_chosen wf chosen done
  have space := rewrite.room_add unit wf found
  obtain ⟨_, _, _, _, _, _, _, _, rfl⟩ := setModes_of_chosen wf chosen done
  exact ⟨underway.stage.applied unit found rewrite, underway.order, space.trans underway.space,
    underway.scans⟩

theorem Underway.choose_ne_fault
    {ids : List NodeId} {space scans : Nat} (underway : Underway start ids space scans progress)
    (member : id ∈ ids) {fault : Fault} :
    choose (standardPasses α selection) progress.graph id ≠ .error fault := by
  intro broken
  obtain ⟨node, found⟩ := underway.live member
  obtain ⟨choice, chosen⟩ := choose_standard selection underway.stage.wf found
  rw [chosen] at broken
  cases broken

/-- A scan of any graph settles every node for the passes that change the topology, unless it is cut
short and takes some of the room. -/
theorem scanRule_steady
    (unit : Scalar.eq (1 : α) 1 = true) (selection : ModeSelection) (start : Graph α)
    (ids : List NodeId) (space scans : Nat) :
    ScanRule (standardPasses α selection) ids
      (Underway start ids space scans)
      (fun progress id => progress.graph.Steady id ∧ progress.graph.Retouched selection id)
      (fun progress => Breakdown progress.graph)
      (fun progress => Stage start progress ∧ room progress.graph + 1 = space ∧
        progress.scans = scans) where
  fault := fun member underway broken => absurd broken (underway.choose_ne_fault member)
  failure := fun _ underway chosen failed => breakdown_of_chosen underway.stage.wf chosen failed
  restart := by
    intro progress id pass node graph _ underway chosen done
    obtain ⟨found, rewrite⟩ := rewrite_of_chosen underway.stage.wf chosen done
    refine ⟨underway.stage.applied unit found rewrite, ?_, underway.scans⟩
    rw [← underway.space]
    exact rewrite.room_add unit underway.stage.wf found
  skip := by
    intro progress id _ _ chosen
    have idle := idle_of_chosen_none chosen
    exact ⟨(idle_iff.mp idle).1, idle.retouched⟩
  change := by
    intro progress id pass node graph member underway chosen done
    have wf := underway.stage.wf
    refine ⟨underway.applied unit chosen done, ?_⟩
    obtain ⟨found, steady, lacks, output, others, precision, outputs, set, rfl⟩ :=
      setModes_of_chosen wf chosen done
    refine ⟨⟨steady.withPrecision wf found outputs found, ?_⟩, ?_⟩
    · intro now relisted _
      have here := get_replace_eq found found
        (OutputModes.withPrecision node output others precision)
      rw [if_pos rfl] at here
      obtain rfl := Except.ok.inj (here.symm.trans relisted)
      exact ⟨{ output with precision }, others, output.precision, rfl, set⟩
    · intro other among settled
      obtain ⟨old, there⟩ := underway.live among
      exact ⟨settled.1.withPrecision wf found outputs there,
        settled.2.withPrecision found there set⟩

/-- Once every node is settled for these passes and has got its modes, a scan leaves no work at any
node. -/
theorem scanRule_idle
    (unit : Scalar.eq (1 : α) 1 = true) (selection : ModeSelection) (start : Graph α)
    (ids : List NodeId) (space scans : Nat) :
    ScanRule (standardPasses α selection) ids
      (fun progress => Underway start ids space scans progress ∧
        ∀ id ∈ ids, progress.graph.Steady id ∧ progress.graph.Retouched selection id)
      (fun progress id => progress.graph.Idle selection id)
      (fun progress => Breakdown progress.graph)
      (fun _ => False) where
  fault := fun member underway broken => absurd broken (underway.1.choose_ne_fault member)
  failure := fun _ underway chosen failed => breakdown_of_chosen underway.1.stage.wf chosen failed
  restart := by
    intro progress id pass node graph member underway chosen done
    have wf := underway.1.stage.wf
    have steady := (underway.2 id member).1
    have applies := (choose_eq_some chosen).2.1
    obtain ⟨_, rewrite⟩ := rewrite_of_chosen wf chosen done
    cases rewrite with
    | factor => exact absurd (applies.symm.trans steady.unscaled) (by simp)
    | fuse => exact absurd (applies.symm.trans steady.unfused) (by simp)
  skip := fun _ _ chosen => idle_of_chosen_none chosen
  change := by
    intro progress id pass node graph member underway chosen done
    obtain ⟨running, settled⟩ := underway
    have wf := running.stage.wf
    have further := running.applied unit chosen done
    obtain ⟨found, steady, lacks, output, others, precision, outputs, set, rfl⟩ :=
      setModes_of_chosen wf chosen done
    refine ⟨⟨further, fun other among => ?_⟩, ?_, fun other among idle => ?_⟩
    · obtain ⟨old, there⟩ := running.live among
      obtain ⟨steadyThere, retouched⟩ := settled other among
      exact ⟨steadyThere.withPrecision wf found outputs there,
        retouched.withPrecision found there set⟩
    · exact Idle.of_retouched wf found outputs steady (settled id member).2 lacks set
    · obtain ⟨old, there⟩ := running.live among
      exact idle.withPrecision wf found outputs there lacks

/-! ## Whole runs -/

/-- The standard passes, for as long as it takes. -/
def unlimited (selection : ModeSelection) : Optimizer α where
  limit := none
  passes := standardPasses α selection

/-- How a run that has come from some graph ends: it breaks down, or no pass applies any more. -/
inductive RunEnd (selection : ModeSelection) (start : Graph α) (bound : Nat) (run : Run α) : Prop
  | broken {failure : Failure PassError} (outcome : run.outcome = .error failure)
      (cause : Breakdown run.graph failure)
  | settled {final : Progress α} (stage : Stage start final) (graph : run.graph = final.graph)
      (log : ∀ pass, applications pass run.log = applications pass final.log)
      (outcome : run.outcome = .ok (final.report true)) (scans : final.scans ≤ bound)
      (idle : ∀ id ∈ final.graph.order, final.graph.Idle selection id)

omit [Scalar α] in
private theorem applications_append (pass : String) (log : List Event) {event : Event}
    (other : event.isBy pass = false) :
    applications pass (log ++ [event]) = applications pass log := by
  simp [applications, other]

theorem Stage.scanned (stage : Stage start progress) (scan : Nat) (result : ScanResult) :
    Stage start (progress.note (.scanned scan result)) := by
  refine ⟨stage.wf, stage.tagged, stage.later, ?_, ?_, stage.fates⟩
  · rw [Progress.note, applications_append _ _ rfl]
    exact stage.factorizations
  · rw [Progress.note, applications_append _ _ rfl, applications_append _ _ rfl]
    exact stage.fusions

theorem Stage.underway (stage : Stage start progress) :
    Underway start progress.graph.order (room progress.graph) (progress.scans + 1)
      { progress with scans := progress.scans + 1 } where
  stage := ⟨stage.wf, stage.tagged, stage.later, stage.factorizations, stage.fusions, stage.fates⟩
  order := rfl
  space := rfl
  scans := rfl

section Runs

variable {bound : Nat} {after : Progress α}

private theorem settles_of_fixpoint
    (stage : Stage start progress) (below : progress.scans + 1 ≤ bound) (fuel : Nat)
    (scanned : scan (standardPasses α selection) progress = (after, .ok .fixpoint)) :
    ∃ run, (unlimited selection).proceed? (fuel + 1) progress = some run ∧
      RunEnd selection start bound run := by
  obtain ⟨rfl, none⟩ := scanNodes_eq_fixpoint progress.graph.order scanned
  refine ⟨_, (unlimited selection).proceed?_of_fixpoint nofun fuel scanned,
    .settled stage.underway.stage rfl ?_ rfl below fun id member => ?_⟩
  · intro pass
    rw [applications_append _ _ rfl, applications_append _ _ rfl]
  · exact idle_of_chosen_none (none id member)

private theorem settles_of_idle
    (stage : Stage start progress) (below : progress.scans + 1 ≤ bound) (fuel : Nat)
    (idle : ∀ id ∈ progress.graph.order, progress.graph.Idle selection id) :
    ∃ run, (unlimited selection).proceed? (fuel + 1) progress = some run ∧
      RunEnd selection start bound run := by
  refine settles_of_fixpoint stage below fuel (scanNodes_of_quiet ?_)
  intro id member
  exact chosen_none_of_idle stage.wf member (idle id member)

private theorem settles_of_steady
    (unit : Scalar.eq (1 : α) 1 = true) (stage : Stage start progress)
    (below : progress.scans + 2 ≤ bound) (fuel : Nat)
    (settled : ∀ id ∈ progress.graph.order,
      progress.graph.Steady id ∧ progress.graph.Retouched selection id) :
    ∃ run, (unlimited selection).proceed? (fuel + 2) progress = some run ∧
      RunEnd selection start bound run := by
  have rule := scanRule_idle unit selection start progress.graph.order (room progress.graph)
    (progress.scans + 1)
  have ends : ScanEnd _ _ _ _ _ (scan (standardPasses α selection) progress) :=
    rule.ends ⟨stage.underway, settled⟩
  generalize scanned : scan (standardPasses α selection) progress = result at ends
  cases ends with
  | broken cause =>
      exact ⟨_, (unlimited selection).proceed?_of_failure nofun (fuel + 1) scanned,
        .broken rfl cause⟩
  | restart impossible => exact impossible.elim
  | @full after result through holds idle =>
      by_cases more : result = .fixpoint
      · subst more
        exact settles_of_fixpoint stage (by omega) (fuel + 1) scanned
      · rw [(unlimited selection).proceed?_of_further nofun (fuel + 1) more scanned]
        have scans := holds.1.scans
        refine settles_of_idle (holds.1.stage.scanned after.scans result) ?_ fuel ?_
        · simp only [Progress.note]
          omega
        · intro id member
          exact idle id (holds.1.order ▸ member)

/-- From any graph there are as many scans as there is room, and three more. -/
theorem settles
    (selection : ModeSelection) (unit : Scalar.eq (1 : α) 1 = true) (fuel : Nat)
    (stage : Stage start progress)
    (below : progress.scans + room progress.graph + 3 ≤ bound)
    (enough : room progress.graph + 3 ≤ fuel) :
    ∃ run, (unlimited selection).proceed? fuel progress = some run ∧
      RunEnd selection start bound run := by
  induction fuel generalizing progress with
  | zero => omega
  | succ fuel inductionHypothesis =>
      have rule := scanRule_steady unit selection start progress.graph.order
        (room progress.graph) (progress.scans + 1)
      have ends : ScanEnd _ _ _ _ _ (scan (standardPasses α selection) progress) :=
        rule.ends stage.underway
      generalize scanned : scan (standardPasses α selection) progress = result at ends
      cases ends with
      | broken cause =>
          exact ⟨_, (unlimited selection).proceed?_of_failure nofun fuel scanned, .broken rfl cause⟩
      | @restart after holds =>
          obtain ⟨further, space, scans⟩ := holds
          rw [(unlimited selection).proceed?_of_further nofun fuel (by decide) scanned]
          refine inductionHypothesis (further.scanned after.scans .restart) ?_ ?_
          · simp only [Progress.note]
            omega
          · simp only [Progress.note]
            omega
      | @full after result through holds settled =>
          by_cases more : result = .fixpoint
          · subst more
            exact settles_of_fixpoint stage (by omega) fuel scanned
          · have scans := holds.scans
            obtain ⟨less, rfl⟩ : ∃ less, fuel = less + 2 := ⟨fuel - 2, by omega⟩
            rw [(unlimited selection).proceed?_of_further nofun (less + 2) more scanned]
            refine settles_of_steady unit (holds.stage.scanned after.scans result) ?_ less ?_
            · simp only [Progress.note]
              omega
            · intro id member
              exact settled id (holds.order ▸ member)

end Runs

end QuantNet
