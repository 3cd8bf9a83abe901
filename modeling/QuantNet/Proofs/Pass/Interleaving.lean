import QuantNet.Proofs.Pass.Carrying
import QuantNet.Proofs.Pass.ModeOrder
import QuantNet.Proofs.Pass.Normalization
import QuantNet.Proofs.Pass.TopologyRuns

/-!
# Modes between changes of the topology

In a run of all standard passes, modes are set before the topology has settled.  They are set only
at nodes in front of the next change of the topology, where no further change happens.  So the
changes of the topology and their failures are the same as without output modes, and so are the
modes that are missing after the last one.
-/

namespace QuantNet

open QuantNet.Graph Optimizer OutputModes

variable {α : Type} [Scalar α] {selection : ModeSelection}
  {graph changed ahead : Graph α} {id other : NodeId} {node old : Node α}
  {pass : Pass α} {ids front : List NodeId} {count : Nat}

/-! ## Setting modes leaves the other passes alone -/

namespace Graph.SetsModes

section

variable (step : graph.SetsModes selection id changed)

include step

omit [Scalar α] in
theorem order_eq : changed.order = graph.order := by
  cases step
  rfl

omit [Scalar α] in
theorem wellFormed (wf : graph.WellFormed) : changed.WellFormed := by
  obtain ⟨found, _, outputs, _⟩ := step
  exact wf.replace (listed_of_get found).2 (withPrecision_resembles _ outputs)

theorem applies_eq (wf : graph.WellFormed) (live : other ∈ graph.order)
    (member : pass ∈ topologyPasses α) :
    pass.applies changed other = pass.applies graph other := by
  obtain ⟨old, there⟩ := wf.mem_order_iff.mp live
  obtain ⟨found, _, outputs, _⟩ := step
  exact applies_withPrecision wf found outputs there member

end

/-- A change of the topology elsewhere can be made after the modes were set, and the modes after the
change. -/
theorem turn (step : graph.SetsModes selection other ahead) (wf : graph.WellFormed)
    (found : graph.get id = .ok node) (apart : other ≠ id)
    (rewrite : Rewrite {} graph id node pass true changed) :
    ∃ both, Rewrite {} ahead id node pass true both ∧ changed.SetsModes selection other both := by
  obtain @⟨old, output, rest, precision, there, lacks, outputs, done⟩ := step
  obtain ⟨carry, carries, carried, again⟩ := rewrite.carries wf found there apart
  refine ⟨_, again _ (withPrecision_resembles precision outputs) weights_withPrecision, ?_⟩
  rw [carries.withPrecision]
  exact .set carried ((carries.lacksModes_eq old).trans lacks)
    ((carries.outputs old).trans outputs) done

/-- A change of the topology that can be made after modes were set elsewhere can be made before. -/
theorem turn_before (step : graph.SetsModes selection other ahead) (wf : ahead.WellFormed)
    (found : ahead.get id = .ok node) (apart : other ≠ id)
    (rewrite : Rewrite {} ahead id node pass true changed) :
    ∃ before, Rewrite {} graph id node pass true before := by
  obtain @⟨old, output, rest, precision, there, lacks, outputs, done⟩ := step
  obtain ⟨carry, _, _, again⟩ := rewrite.carries wf found (get_replace there _) apart
  have without := again old (withPrecision_resembles precision outputs).symm
    weights_withPrecision.symm
  rw [replace_replace, replace_self there] at without
  exact ⟨_, without⟩

end Graph.SetsModes

/-! ## A graph in which modes are set ahead -/

namespace Graph

/-- Modes are set, ahead of the topology, at steady nodes in front of all others. -/
structure Ahead (selection : ModeSelection) (graph : Graph α) (front : List NodeId) (count : Nat)
    (ahead : Graph α) : Prop where
  wf : graph.WellFormed
  order : ∃ back, graph.order = front ++ back
  steady : ∀ id ∈ front, graph.Steady id
  sets : SetsAll selection front count graph ahead

/-- What setting modes at some nodes leaves alone. -/
structure Same (graph ahead : Graph α) (ids : List NodeId) : Prop where
  wf : ahead.WellFormed
  order : ahead.order = graph.order
  applies : ∀ ⦃pass⦄, pass ∈ topologyPasses α → ∀ id ∈ graph.order,
    pass.applies ahead id = pass.applies graph id
  get : ∀ ⦃id node⦄, id ∉ ids → graph.get id = .ok node → ahead.get id = .ok node

theorem SetsAll.same (all : SetsAll selection ids count graph ahead) (wf : graph.WellFormed) :
    graph.Same ahead ids := by
  induction all with
  | none => exact ⟨wf, rfl, fun _ _ _ _ => rfl, fun _ _ _ found => found⟩
  | @more count graph middle changed id member first rest inductionHypothesis =>
      obtain ⟨changedWf, order, applies, get⟩ := inductionHypothesis (first.wellFormed wf)
      refine ⟨changedWf, order.trans first.order_eq, fun pass among id live => ?_, ?_⟩
      · rw [applies among id (first.order_eq ▸ live), first.applies_eq wf live among]
      · intro other node apart found
        exact get apart (first.get_of_ne found fun same => apart (same ▸ member))

/-- A change of the topology behind the nodes can be made after all of the modes were set, and all
of the modes after the change. -/
theorem SetsAll.turn (all : SetsAll selection ids count graph ahead) (wf : graph.WellFormed)
    (found : graph.get id = .ok node) (apart : id ∉ ids)
    (rewrite : Rewrite {} graph id node pass true changed) :
    ∃ both, Rewrite {} ahead id node pass true both ∧
      SetsAll selection ids count changed both := by
  induction all generalizing changed with
  | none => exact ⟨changed, rewrite, .none⟩
  | @more count graph middle _ other member first rest inductionHypothesis =>
      have elsewhere : other ≠ id := fun same => apart (same ▸ member)
      obtain ⟨next, later, step⟩ := first.turn wf found elsewhere rewrite
      obtain ⟨both, last, steps⟩ := inductionHypothesis (first.wellFormed wf)
        (first.get_of_ne found elsewhere.symm) later
      exact ⟨both, last, .more member step steps⟩

theorem SetsAll.turn_before (all : SetsAll selection ids count graph ahead)
    (wf : graph.WellFormed) (found : graph.get id = .ok node) (apart : id ∉ ids)
    (rewrite : Rewrite {} ahead id node pass true changed) :
    ∃ before, Rewrite {} graph id node pass true before := by
  induction all generalizing changed with
  | none => exact ⟨changed, rewrite⟩
  | @more count graph middle _ other member first rest inductionHypothesis =>
      have elsewhere : other ≠ id := fun same => apart (same ▸ member)
      have kept := first.get_of_ne found elsewhere.symm
      obtain ⟨before, earlier⟩ := inductionHypothesis (first.wellFormed wf) kept rewrite
      exact first.turn_before (first.wellFormed wf) kept elsewhere earlier

theorem Stuck.turn (stuck : graph.Stuck selection other) (wf : graph.WellFormed)
    (found : graph.get id = .ok node) (apart : other ≠ id)
    (rewrite : Rewrite {} graph id node pass true changed) :
    changed.Stuck selection other := by
  obtain ⟨old, output, rest, cause, there, lacks, outputs, refused⟩ := stuck
  obtain ⟨carry, carries, carried, _⟩ := rewrite.carries wf found there apart
  exact ⟨carry old, output, rest, cause, carried, (carries.lacksModes_eq old).trans lacks,
    (carries.outputs old).trans outputs, refused⟩

namespace Ahead

theorem widen (state : graph.Ahead selection ids count ahead) (among : ids ⊆ front)
    (order : ∃ back, graph.order = front ++ back) (steady : ∀ id ∈ front, graph.Steady id) :
    graph.Ahead selection front count ahead :=
  ⟨state.wf, order, steady, state.sets.mono among⟩

/-- The nodes that have modes ahead are in front of the next change of the topology. -/
theorem subset_front (state : graph.Ahead selection ids count ahead)
    (here : graph.TurnsAt front id node pass) :
    ids ⊆ front := by
  obtain ⟨rest, order⟩ := state.order
  obtain ⟨back, split⟩ := here.order
  rcases List.append_eq_append_iff.mp (order.symm.trans split) with
    ⟨between, rfl, _⟩ | ⟨between, rfl, same⟩
  · exact List.subset_append_left ids between
  · cases between with
    | nil => simp
    | cons first others =>
        obtain ⟨rfl, _⟩ := List.cons.inj same
        have steady := state.steady id (List.mem_append_right front List.mem_cons_self)
        exact absurd steady (not_steady_of_chosen here.chosen)

/-- The next change of the topology is the same with the modes. -/
theorem turn (state : graph.Ahead selection front count ahead)
    (here : graph.TurnsAt front id node pass)
    (rewrite : Rewrite {} graph id node pass true changed) :
    ∃ both, Rewrite {} ahead id node pass true both ∧
      changed.Ahead selection front count both := by
  obtain ⟨back, order⟩ := here.order
  have apart := state.wf.front_not_mem order
  obtain ⟨both, again, sets⟩ := state.sets.turn state.wf here.found apart rewrite
  refine ⟨both, again, rewrite.wellFormed state.wf here.found,
    rewrite.order_front state.wf here.found order, fun other member => ?_, sets⟩
  exact rewrite.steady_front state.wf here.found order member (here.steady other member)

/-- At steady nodes only output modes can be chosen. -/
theorem chosen_eq (state : graph.Ahead selection front count ahead) (member : id ∈ front) :
    choose (standardPasses α selection) ahead id =
      choose [OutputModes.pass selection] ahead id := by
  obtain ⟨_, order⟩ := state.order
  have live : id ∈ graph.order := order ▸ List.mem_append_left _ member
  rw [standardPasses_eq]
  refine choose_append_of_none fun pass among => ?_
  rw [(state.sets.same state.wf).applies among id live]
  exact steady_iff_forall.mp (state.steady id member) pass among

/-- At the first node that is not steady the same pass is chosen. -/
theorem chosen_of_turnsAt (state : graph.Ahead selection front count ahead)
    (here : graph.TurnsAt front id node pass) :
    choose (standardPasses α selection) ahead id = .ok (some (pass, node)) := by
  obtain ⟨back, order⟩ := here.order
  have live : id ∈ graph.order := order ▸ List.mem_append_right front List.mem_cons_self
  have same := state.sets.same state.wf
  have kept := same.get (state.wf.front_not_mem order) here.found
  have agree := choose_congr (fun pass among => same.applies among id live) here.found kept
  exact choose_append_of_some (agree.trans here.chosen)

/-- Where the next change of the topology fails, it fails with the modes. -/
theorem fails (state : graph.Ahead selection front count ahead)
    (here : graph.TurnsAt front id node pass) {failure : Failure PassError} {left : Graph α}
    (failed : pass.patch id graph = .error failure left) :
    ∃ failure left, pass.patch id ahead = .error failure left := by
  obtain ⟨back, order⟩ := here.order
  have apart := state.wf.front_not_mem order
  have same := state.sets.same state.wf
  have kept := same.get apart here.found
  have applies := (choose_eq_some (state.chosen_of_turnsAt here)).2.1
  rcases patch_cases_of_applies same.wf kept (mem_standardPasses {} here.member) applies with
    ⟨topologyChanged, both, rewrite, _⟩ | ⟨_, left, again⟩ | ⟨_, _, again⟩
  · -- Without the modes it would then not fail either.
    obtain rfl := rewrite.topologyChanged_eq here.member
    obtain ⟨before, earlier⟩ := state.sets.turn_before state.wf here.found apart rewrite
    cases failed.symm.trans (earlier.patch_eq state.wf here.found)
  · exact ⟨_, left, again⟩
  · exact ⟨_, ahead, again⟩

end Ahead

end Graph

/-! ## Scans over steady nodes -/

/-- A run that has set modes ahead, in addition to so many patches. -/
def AheadBy (selection : ModeSelection) (graph : Graph α) (front : List NodeId) (patches : Nat)
    (progress : Progress α) : Prop :=
  ∃ count, graph.Ahead selection front count progress.graph ∧ progress.patches = patches + count

/-- Modes are set ahead until a node is met where they cannot be set. -/
def Blocked (selection : ModeSelection) (graph : Graph α) : Prop :=
  ∃ front count ahead id, graph.Ahead selection front count ahead ∧ id ∈ front ∧
    ahead.Stuck selection id

theorem scanRule_ahead (selection : ModeSelection) (graph : Graph α) (front : List NodeId)
    (patches : Nat) :
    ScanRule (standardPasses α selection) front
      (AheadBy selection graph front patches)
      (fun _ _ => True)
      (fun _ _ => Blocked selection graph)
      (fun _ => False) where
  fault := by
    rintro progress id fault member ⟨count, state, _⟩ broken
    obtain ⟨_, order⟩ := state.order
    have same := state.sets.same state.wf
    have live : id ∈ progress.graph.order := by
      rw [same.order, order]
      exact List.mem_append_left _ member
    obtain ⟨node, found⟩ := same.wf.mem_order_iff.mp live
    obtain ⟨choice, chosen⟩ := choose_standard selection same.wf found
    cases broken.symm.trans chosen
  failure := by
    rintro progress id pass node failure left member ⟨count, state, _⟩ chosen failed
    rcases setsModes_or_stuck ((state.chosen_eq member).symm.trans chosen) with
      ⟨_, done, _⟩ | ⟨_, _, stuck⟩
    · cases failed.symm.trans done
    · exact ⟨front, count, progress.graph, id, state, member, stuck⟩
  restart := by
    rintro progress id pass node changed member ⟨count, state, _⟩ chosen done
    rcases setsModes_or_stuck ((state.chosen_eq member).symm.trans chosen) with
      ⟨_, same, _⟩ | ⟨_, failed, _⟩
    · cases done.symm.trans same
    · cases done.symm.trans failed
  skip := fun _ _ _ => trivial
  change := by
    rintro progress id pass node changed member ⟨count, state, total⟩ chosen done
    rcases setsModes_or_stuck ((state.chosen_eq member).symm.trans chosen) with
      ⟨_, same, step⟩ | ⟨_, failed, _⟩
    · obtain ⟨_, rfl⟩ := EStateM.Result.ok.inj (done.symm.trans same)
      refine ⟨⟨count + 1, ⟨state.wf, state.order, state.steady, state.sets.concat member step⟩, ?_⟩,
        trivial, fun _ _ _ => trivial⟩
      simp only [Progress.applied, Progress.note]
      omega
    · cases done.symm.trans failed

end QuantNet
