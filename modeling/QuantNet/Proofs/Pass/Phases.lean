import QuantNet.Proofs.Pass.Interleaving

/-!
# One run or two

A run of all standard passes follows a run that only changes the topology, with modes set ahead of
it.  In the end it leaves what is left when output modes run afterwards.
-/

namespace QuantNet

open QuantNet.Graph Optimizer OutputModes

/-- Output modes alone, for as long as it takes. -/
def modesOnly {α : Type} (selection : ModeSelection) : Optimizer α where
  limit := none
  passes := [OutputModes.pass selection]

variable {α : Type} [Scalar α] {selection : ModeSelection} {graph changed final : Graph α}
  {id : NodeId} {node : Node α} {pass : Pass α} {ids front : List NodeId} {count patches : Nat}
  {progress : Progress α} {run : Run α}

/-! ## Up to the next change of the topology -/

/-- A scan fails in front of the next change of the topology, or it gets there. -/
private theorem AheadBy.scan_cases (sets : AheadBy selection graph ids patches progress)
    (here : graph.TurnsAt front id node pass) :
    (∃ after failure, scan (standardPasses α selection) progress = (after, .error failure) ∧
        Blocked selection graph) ∨
      ∃ after further back, scan (standardPasses α selection) progress =
          scanNodes (standardPasses α selection) (id :: back) further after ∧
        AheadBy selection graph front patches after := by
  obtain ⟨count, narrow, total⟩ := sets
  obtain ⟨back, order⟩ := here.order
  have state := narrow.widen (narrow.subset_front here) ⟨_, order⟩ here.steady
  let begun := { progress with scans := progress.scans + 1 }
  have split : scan (standardPasses α selection) progress =
      scanNodes (standardPasses α selection) (front ++ id :: back) false begun := by
    rw [scan, (state.sets.same state.wf).order, order]
  have ends : ScanEnd _ _ _ _ _ (scanNodes (standardPasses α selection) front false begun) :=
    (scanRule_ahead selection graph front patches).ends ⟨count, state, total⟩
  generalize walked : scanNodes (standardPasses α selection) front false begun = result at ends
  rw [split, scanNodes_append, walked]
  cases ends with
  | broken blocked => exact Or.inl ⟨_, _, rfl, blocked⟩
  | restart impossible => exact impossible.elim
  | @full after result through sets =>
      cases result with
      | restart => exact absurd rfl through
      | fixpoint => exact Or.inr ⟨after, false, back, rfl, sets⟩
      | changed => exact Or.inr ⟨after, true, back, rfl, sets⟩

/-! ## A run of all passes beside one that changes the topology -/

/-- How a run of all passes stands where the other one has got to some graph: it goes on from there,
with modes set ahead, or it fails. -/
inductive Follows (selection : ModeSelection) (graph : Graph α) (patches : Nat) (run : Run α) : Prop
  | blocked {failure : Failure PassError} (blocked : Blocked selection graph)
      (outcome : run.outcome = .error failure)
  | underway {front : List NodeId} {fuel : Nat} {progress : Progress α}
      (sets : AheadBy selection graph front patches progress)
      (ends : (unlimited selection).proceed? fuel progress = some run)

/-- A change of the topology does not help a node whose modes cannot be set. -/
private theorem Blocked.turn (blocked : Blocked selection graph) (turn : graph.Turn changed) :
    Blocked selection changed := by
  obtain ⟨ids, count, ahead, other, narrow, member, stuck⟩ := blocked
  obtain @⟨front, id, node, pass, _, here, rewrite⟩ := turn
  obtain ⟨back, order⟩ := here.order
  have among := narrow.subset_front here
  have state := narrow.widen among ⟨_, order⟩ here.steady
  have apart := state.wf.front_not_mem order
  have same := state.sets.same state.wf
  obtain ⟨both, again, after⟩ := state.turn here rewrite
  have elsewhere : other ≠ id := fun same => apart (same ▸ among member)
  exact ⟨front, count, both, other, after, among member,
    stuck.turn same.wf (same.get apart here.found) elsewhere again⟩

/-- The run gets to the next change of the topology, unless it fails before. -/
theorem AheadBy.gets_to {fuel : Nat} (sets : AheadBy selection graph ids patches progress)
    (ends : (unlimited selection).proceed? fuel progress = some run)
    (here : graph.TurnsAt front id node pass) :
    ((∃ failure, run.outcome = .error failure) ∧ Blocked selection graph) ∨
      ∃ less after further back, fuel = less + 1 ∧
        scan (standardPasses α selection) progress =
          scanNodes (standardPasses α selection) (id :: back) further after ∧
        AheadBy selection graph front patches after := by
  cases fuel with
  | zero => cases ends
  | succ less =>
      rcases sets.scan_cases here with ⟨after, failure, scanned, blocked⟩ |
        ⟨after, further, back, scanned, further_sets⟩
      · rw [(unlimited selection).proceed?_of_failure nofun less scanned] at ends
        exact Or.inl ⟨⟨failure, by rw [← Option.some.inj ends]⟩, blocked⟩
      · exact Or.inr ⟨less, after, further, back, rfl, scanned, further_sets⟩

theorem Follows.turn (follows : Follows selection graph patches run) (turn : graph.Turn changed) :
    Follows selection changed (patches + 1) run := by
  cases follows with
  | blocked blocked outcome => exact .blocked (blocked.turn turn) outcome
  | underway sets ends =>
      obtain @⟨front, id, node, pass, changed, here, rewrite⟩ := turn
      rcases sets.gets_to ends here with ⟨⟨failure, outcome⟩, blocked⟩ |
        ⟨fuel, after, further, back, rfl, scanned, count, state, total⟩
      · exact .blocked (blocked.turn (.turn here rewrite)) outcome
      · obtain ⟨_, order⟩ := here.order
        have same := state.sets.same state.wf
        have kept := same.get (state.wf.front_not_mem order) here.found
        obtain ⟨both, again, next⟩ := state.turn here rewrite
        rw [scanNodes_of_restart (state.chosen_of_turnsAt here) (again.patch_eq same.wf kept)]
          at scanned
        rw [(unlimited selection).proceed?_of_further nofun fuel (by decide) scanned] at ends
        refine .underway ⟨count, next, ?_⟩ ends
        simp only [Progress.applied, Progress.note]
        omega

theorem Follows.turns (turns : Turns count graph final) :
    ∀ {patches : Nat}, Follows selection graph patches run →
      Follows selection final (patches + count) run := by
  induction turns with
  | none => exact fun follows => follows
  | @more count _ _ _ first _ inductionHypothesis =>
      intro patches follows
      have later := inductionHypothesis (follows.turn first)
      rwa [Nat.add_assoc, Nat.add_comm 1 count] at later

/-- When the change of the topology fails, so does the run of all passes. -/
theorem Follows.fails (follows : Follows selection graph patches run) (fails : graph.TurnFails) :
    ∃ failure, run.outcome = .error failure := by
  cases follows with
  | blocked _ outcome => exact ⟨_, outcome⟩
  | underway sets ends =>
      obtain ⟨front, id, node, pass, _, _, here, failed⟩ := fails
      rcases sets.gets_to ends here with ⟨outcome, _⟩ |
        ⟨fuel, after, further, back, rfl, scanned, count, state, _⟩
      · exact outcome
      · obtain ⟨failure, left, again⟩ := state.fails here failed
        rw [scanNodes_of_failure (state.chosen_of_turnsAt here) again] at scanned
        rw [(unlimited selection).proceed?_of_failure nofun fuel scanned] at ends
        exact ⟨failure, by rw [← Option.some.inj ends]⟩

/-! ## After the last change of the topology -/

/-- How a run ends that only has modes to set: it has set them all, or it has failed at a node where
they cannot be set. -/
inductive ModesEnd (selection : ModeSelection) (graph : Graph α) (patches : Nat) (run : Run α) :
    Prop
  | blocked {failure : Failure PassError} (blocked : Blocked selection graph)
      (outcome : run.outcome = .error failure)
  | settled {count : Nat} {report : Report}
      (sets : SetsAll selection graph.order count graph run.graph)
      (covered : run.graph.Covered selection) (outcome : run.outcome = .ok report)
      (total : report.patches = patches + count)

/-- A scan of steady nodes sets modes, also when there are no other passes.  It fails, finds no
modes missing, or goes on. -/
theorem AheadBy.scan_steady (sets : AheadBy selection graph graph.order patches progress) :
    scan [OutputModes.pass selection] progress = scan (standardPasses α selection) progress ∧
      ((∃ after failure, scan (standardPasses α selection) progress = (after, .error failure) ∧
          Blocked selection graph) ∨
        ∃ after result, scan (standardPasses α selection) progress = (after, .ok result) ∧
          AheadBy selection graph graph.order patches after ∧
            (result = .fixpoint → after.graph.Covered selection)) := by
  obtain ⟨count, state, total⟩ := sets
  have same := state.sets.same state.wf
  let begun := { progress with scans := progress.scans + 1 }
  have start : AheadBy selection graph graph.order patches begun := ⟨count, state, total⟩
  have rule := scanRule_ahead selection graph graph.order patches
  have unfolded : scan (standardPasses α selection) progress =
      scanNodes (standardPasses α selection) graph.order false begun := by
    rw [scan, same.order]
  constructor
  · rw [unfolded, scan, same.order]
    refine rule.scanNodes_eq (fun member sets => ?_) (List.Subset.refl _) start
    obtain ⟨_, state, _⟩ := sets
    exact (state.chosen_eq member).symm
  · have ends : ScanEnd _ _ _ _ _
        (scanNodes (standardPasses α selection) graph.order false begun) :=
      rule.ends start
    rw [unfolded]
    generalize walked : scanNodes (standardPasses α selection) graph.order false begun = result
      at ends
    cases ends with
    | broken blocked => exact Or.inl ⟨_, _, rfl, blocked⟩
    | restart impossible => exact impossible.elim
    | @full after result _ sets =>
        refine Or.inr ⟨after, result, rfl, sets, ?_⟩
        rintro rfl id node found
        obtain ⟨rfl, none⟩ := scanNodes_eq_fixpoint graph.order walked
        have live : id ∈ graph.order := same.order ▸ same.wf.mem_order_iff.mpr ⟨node, found⟩
        have idle := (idle_iff.mp (idle_of_chosen_none (none id live))).2
        exact Except.ok.inj ((applies_eq_ok found).symm.trans idle)

/-- Where the other passes do not apply, the runs with and without them are the same. -/
theorem modesOnly_proceeds (fuel : Nat) :
    ∀ progress : Progress α, AheadBy selection graph graph.order patches progress →
      (modesOnly selection).proceed? fuel progress = (unlimited selection).proceed? fuel progress ∧
        ∀ run, (unlimited selection).proceed? fuel progress = some run →
          ModesEnd selection graph patches run := by
  induction fuel with
  | zero => exact fun _ _ => ⟨rfl, fun _ ended => by cases ended⟩
  | succ fuel inductionHypothesis =>
      intro progress sets
      obtain ⟨same, ⟨after, failure, scanned, blocked⟩ |
        ⟨after, result, scanned, further, covered⟩⟩ := sets.scan_steady
      · rw [(modesOnly selection).proceed?_of_failure nofun fuel (same.trans scanned),
          (unlimited selection).proceed?_of_failure nofun fuel scanned]
        refine ⟨rfl, fun run ended => ?_⟩
        obtain rfl := Option.some.inj ended
        exact .blocked blocked rfl
      · by_cases more : result = .fixpoint
        · subst more
          rw [(modesOnly selection).proceed?_of_fixpoint nofun fuel (same.trans scanned),
            (unlimited selection).proceed?_of_fixpoint nofun fuel scanned]
          obtain ⟨count, state, total⟩ := further
          refine ⟨rfl, fun run ended => ?_⟩
          obtain rfl := Option.some.inj ended
          exact .settled state.sets (covered rfl) rfl total
        · rw [(modesOnly selection).proceed?_of_further nofun fuel more (same.trans scanned),
            (unlimited selection).proceed?_of_further nofun fuel more scanned]
          exact inductionHypothesis _ further

theorem Graph.Ahead.all (state : graph.Ahead selection ids count changed)
    (steady : ∀ id ∈ graph.order, graph.Steady id) :
    graph.Ahead selection graph.order count changed := by
  obtain ⟨rest, order⟩ := state.order
  exact state.widen (order ▸ List.subset_append_left ids rest) ⟨[], (List.append_nil _).symm⟩ steady

theorem Follows.settled (follows : Follows selection graph patches run)
    (steady : ∀ id ∈ graph.order, graph.Steady id) :
    ModesEnd selection graph patches run := by
  cases follows with
  | blocked blocked outcome => exact .blocked blocked outcome
  | underway sets ends =>
      obtain ⟨count, state, total⟩ := sets
      exact (modesOnly_proceeds _ _ ⟨count, state.all steady, total⟩).2 run ends

/-- Modes that were set in two runs were set alike. -/
theorem ModesEnd.agree {again : Run α} {others : Nat}
    (first : ModesEnd selection graph patches run)
    (second : ModesEnd selection graph others again) :
    (∃ failure, run.outcome = .error failure) ∧ (∃ failure, again.outcome = .error failure) ∨
      ∃ count total report, run.outcome = .ok total ∧ again.outcome = .ok report ∧
        run.graph = again.graph ∧ total.patches = patches + count ∧
          report.patches = others + count := by
  cases first with
  | @blocked failure blocked outcome =>
      cases second with
      | @blocked cause _ refused => exact Or.inl ⟨⟨failure, outcome⟩, cause, refused⟩
      | settled sets covered _ _ =>
          obtain ⟨_, _, _, _, state, _, stuck⟩ := blocked
          exact absurd stuck (sets.not_stuck covered state.sets)
  | @settled count total sets covered outcome totalPatches =>
      cases second with
      | blocked blocked _ =>
          obtain ⟨_, _, _, _, state, _, stuck⟩ := blocked
          exact absurd stuck (sets.not_stuck covered state.sets)
      | @settled _ report again coveredAgain ended patches =>
          obtain ⟨same, rfl⟩ := sets.unique covered again coveredAgain
          exact Or.inr ⟨count, total, report, outcome, ended, same, totalPatches, patches⟩

/-! ## Whole runs -/

/-- There is room in a run for all the modes that are missing where the other passes do not
apply. -/
theorem Graph.WellFormed.modesOnly_run (unit : Scalar.eq (1 : α) 1 = true) (wf : graph.WellFormed)
    (selection : ModeSelection) (steady : ∀ id ∈ graph.order, graph.Steady id) :
    ∃ run, (modesOnly selection).run graph = some run ∧ ModesEnd selection graph 0 run := by
  have scaled := graph.count_le_length ScaleFactorization.isScaled
  have affine := graph.count_le_length fun node => node.kind.isAffine
  have allowance : (modesOnly selection).allowance graph = (3 * graph.order.length + 2) * 3 := rfl
  have enough : room graph + 3 ≤ (modesOnly selection).allowance graph := by
    rw [allowance, room]
    omega
  have begun : 0 + room graph + 3 ≤ room graph + 3 := by omega
  obtain ⟨run, ended, _⟩ := settles selection unit _ (Stage.initial wf) begun enough
  have sets : AheadBy selection graph graph.order 0 { graph } :=
    ⟨0, ⟨wf, ⟨[], (List.append_nil _).symm⟩, steady, .none⟩, rfl⟩
  obtain ⟨same, ends⟩ := modesOnly_proceeds ((modesOnly selection).allowance graph) { graph } sets
  exact ⟨run, same.trans ended, ends run ended⟩

/-- What a run of all passes without a limit leaves is what output modes leave when they run after
the other passes, and it fails if one of these two runs fails. -/
theorem Graph.WellFormed.phases (unit : Scalar.eq (1 : α) 1 = true) (wf : graph.WellFormed)
    (selection : ModeSelection) :
    ∃ whole first : Run α, ({ limit := none, selection } : Settings).optimize? graph = some whole ∧
      (topologyOnly α).run graph = some first ∧
        ((∃ failure, first.outcome = .error failure) ∧ (∃ failure, whole.outcome = .error failure) ∨
          ∃ turns second, first.outcome = .ok turns ∧
            (modesOnly selection).run first.graph = some second ∧
              ((∃ failure, whole.outcome = .error failure) ∧
                  (∃ failure, second.outcome = .error failure) ∨
                ∃ total sets, whole.outcome = .ok total ∧ second.outcome = .ok sets ∧
                  whole.graph = second.graph ∧ total.patches = turns.patches + sets.patches)) := by
  obtain ⟨whole, ended, _⟩ := wf.normalized unit selection
  obtain ⟨first, finished, ends⟩ := wf.topologyOnly_run unit
  have follows : Follows selection graph 0 whole :=
    .underway ⟨0, ⟨wf, ⟨graph.order, rfl⟩, fun _ member => absurd member List.not_mem_nil, .none⟩,
      rfl⟩ ended
  refine ⟨whole, first, ended, finished, ?_⟩
  cases ends with
  | failed turns fails outcome =>
      exact Or.inl ⟨⟨_, outcome⟩, (follows.turns turns).fails fails⟩
  | @settled count turns steps steady outcome patches =>
      obtain ⟨second, last, modes⟩ := (steps.wellFormed wf).modesOnly_run unit selection steady
      refine Or.inr ⟨turns, second, outcome, last, ?_⟩
      rcases ((follows.turns steps).settled steady).agree modes with
        failed | ⟨sets, total, report, wholeOutcome, secondOutcome, same, all, others⟩
      · exact Or.inl failed
      · exact Or.inr ⟨total, report, wholeOutcome, secondOutcome, same, by omega⟩

/-- It makes no difference whether modes are set between the changes of the topology or after them:
one run ends without a failure if and only if the other two do, and then it leaves the same graph
after the same number of patches. -/
theorem optimize_in_phases
    (tag : Nat) (history : List (Operation Float32)) (selection : ModeSelection) :
    ∃ whole first : Run Float32,
      ({ limit := none, selection } : Settings).optimize? ((Graph.empty tag).replay history) =
          some whole ∧
        (topologyOnly Float32).run ((Graph.empty tag).replay history) = some first ∧
          ((∃ total, whole.outcome = .ok total) ↔
            ∃ turns second sets, first.outcome = .ok turns ∧
              (modesOnly selection).run first.graph = some second ∧
                second.outcome = .ok sets) ∧
          ∀ turns, first.outcome = .ok turns →
            ∃ second, (modesOnly selection).run first.graph = some second ∧
              ∀ total sets, whole.outcome = .ok total → second.outcome = .ok sets →
                whole.graph = second.graph ∧ total.patches = turns.patches + sets.patches := by
  have wf : ((Graph.empty tag).replay history : Graph Float32).WellFormed :=
    (WellFormed.empty tag).replay history
  obtain ⟨whole, first, ended, finished, phases⟩ := wf.phases (by decide) selection
  refine ⟨whole, first, ended, finished, ?_⟩
  rcases phases with ⟨⟨_, broken⟩, _, failed⟩ | ⟨turns, second, outcome, last, phases⟩
  · refine ⟨⟨?_, ?_⟩, fun _ same => ?_⟩
    · rintro ⟨_, same⟩
      cases failed.symm.trans same
    · rintro ⟨_, _, _, same, _⟩
      cases broken.symm.trans same
    · cases broken.symm.trans same
  · rcases phases with ⟨⟨_, failed⟩, _, refused⟩ | ⟨total, sets, done, settled, same, patches⟩
    · refine ⟨⟨?_, ?_⟩, fun _ _ => ⟨second, last, fun _ _ same => ?_⟩⟩
      · rintro ⟨_, same⟩
        cases failed.symm.trans same
      · rintro ⟨_, again, _, _, rerun, same⟩
        obtain rfl := Option.some.inj (last.symm.trans rerun)
        cases refused.symm.trans same
      · cases failed.symm.trans same
    · refine ⟨⟨fun _ => ⟨turns, second, sets, outcome, last, settled⟩, fun _ => ⟨total, done⟩⟩, ?_⟩
      intro report again
      refine ⟨second, last, fun all others ends endsAgain => ⟨same, ?_⟩⟩
      obtain rfl := Except.ok.inj (outcome.symm.trans again)
      obtain rfl := Except.ok.inj (done.symm.trans ends)
      obtain rfl := Except.ok.inj (settled.symm.trans endsAgain)
      exact patches

end QuantNet
