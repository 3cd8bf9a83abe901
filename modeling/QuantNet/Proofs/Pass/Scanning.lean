import QuantNet.Pass.Run
import QuantNet.Proofs.Graph.Lookup

/-!
# The steps of a scan

Which pass is chosen for a node, and what a scan does there.
-/

namespace QuantNet

/-- Where a run stands after it has patched the graph at a node. -/
def Progress.applied {α : Type} (progress : Progress α) (pass : Pass α) (node : Node α)
    (topologyChanged : Bool) (graph : Graph α) : Progress α :=
  { progress with graph, patches := progress.patches + 1 }.note
    (.applied pass.name node.name topologyChanged)

namespace Optimizer

variable {α : Type} {passes : List (Pass α)} {progress : Progress α}

/-! ## The choice of a pass -/

/-- The item that is found is the first that passes the test. -/
private theorem findM?_eq_some {ε β : Type} {items : List β} {test : β → Except ε Bool} {item : β}
    (found : items.findM? test = .ok (some item)) :
    ∃ behind ahead, items = behind ++ item :: ahead ∧
      (∀ earlier ∈ behind, test earlier = .ok false) ∧ test item = .ok true := by
  induction items with
  | nil =>
      simp [List.findM?] at found
  | cons first rest inductionHypothesis =>
      obtain ⟨answer, tested, search⟩ := except_bind_eq_ok.mp found
      cases answer with
      | true =>
          obtain rfl := Option.some.inj (except_pure_eq_ok.mp search)
          exact ⟨[], rest, rfl, fun _ member => absurd member List.not_mem_nil, tested⟩
      | false =>
          obtain ⟨behind, ahead, split, quiet, holds⟩ := inductionHypothesis search
          exact ⟨first :: behind, ahead, congrArg (first :: ·) split,
            List.forall_mem_cons.mpr ⟨tested, quiet⟩, holds⟩

private theorem findM?_eq_none_iff {ε β : Type} {items : List β} {test : β → Except ε Bool} :
    items.findM? test = .ok none ↔ ∀ item ∈ items, test item = .ok false := by
  induction items with
  | nil =>
      simp [List.findM?]
  | cons first rest inductionHypothesis =>
      rw [List.forall_mem_cons, ← inductionHypothesis]
      cases tested : test first with
      | error failure =>
          simp [List.findM?, tested]
      | ok answer =>
          cases answer with
          | true => simp [List.findM?, tested]
          | false => simp [List.findM?, tested]

private theorem findM?_eq_ok {ε β : Type} {items : List β} {test : β → Except ε Bool}
    (answers : ∀ item ∈ items, ∃ answer, test item = .ok answer) :
    ∃ found, items.findM? test = .ok found := by
  induction items with
  | nil =>
      exact ⟨none, rfl⟩
  | cons first rest inductionHypothesis =>
      obtain ⟨answer, tested⟩ := answers first List.mem_cons_self
      cases answer with
      | true =>
          exact ⟨some first, except_bind_eq_ok.mpr ⟨true, tested, rfl⟩⟩
      | false =>
          obtain ⟨found, search⟩ := inductionHypothesis fun item member =>
            answers item (List.mem_cons_of_mem first member)
          exact ⟨found, except_bind_eq_ok.mpr ⟨false, tested, search⟩⟩

private theorem findM?_append_of_some {ε β : Type} {items others : List β}
    {test : β → Except ε Bool} {item : β} (found : items.findM? test = .ok (some item)) :
    (items ++ others).findM? test = .ok (some item) := by
  induction items with
  | nil =>
      simp [List.findM?] at found
  | cons first rest inductionHypothesis =>
      obtain ⟨answer, tested, search⟩ := except_bind_eq_ok.mp found
      refine except_bind_eq_ok.mpr ⟨answer, tested, ?_⟩
      cases answer with
      | true => exact search
      | false => exact inductionHypothesis search

private theorem findM?_append_of_none {ε β : Type} {items others : List β}
    {test : β → Except ε Bool} (quiet : ∀ item ∈ items, test item = .ok false) :
    (items ++ others).findM? test = others.findM? test := by
  induction items with
  | nil => rfl
  | cons first rest inductionHypothesis =>
      obtain ⟨here, later⟩ := List.forall_mem_cons.mp quiet
      rw [List.cons_append, List.findM?, here]
      exact inductionHypothesis later

private theorem findM?_congr {ε β : Type} {items : List β} {test again : β → Except ε Bool}
    (same : ∀ item ∈ items, test item = again item) :
    items.findM? test = items.findM? again := by
  induction items with
  | nil => rfl
  | cons first rest inductionHypothesis =>
      obtain ⟨here, later⟩ := List.forall_mem_cons.mp same
      rw [List.findM?, List.findM?, here, inductionHypothesis later]

/-- The pass that is chosen for a node is the first that applies to it. -/
theorem choose_eq_some {graph : Graph α} {id : NodeId} {pass : Pass α} {node : Node α}
    (chosen : choose passes graph id = .ok (some (pass, node))) :
    (∃ behind ahead, passes = behind ++ pass :: ahead ∧
        ∀ earlier ∈ behind, earlier.applies graph id = .ok false) ∧
      pass.applies graph id = .ok true ∧ graph.get id = .ok node := by
  unfold choose at chosen
  obtain ⟨live, _, rest⟩ := except_bind_eq_ok.mp chosen
  split at rest
  · obtain ⟨found, search, result⟩ := except_bind_eq_ok.mp rest
    split at result
    · simp at result
    · next other =>
        obtain ⟨old, there, shape⟩ := except_bind_eq_ok.mp result
        obtain ⟨rfl, rfl⟩ := Prod.mk.inj (Option.some.inj (except_pure_eq_ok.mp shape))
        obtain ⟨behind, ahead, split, quiet, applies⟩ := findM?_eq_some search
        exact ⟨⟨behind, ahead, split, quiet⟩, applies, there⟩
  · exact absurd rest except_throw_ne_ok

theorem mem_of_choose_eq_some {graph : Graph α} {id : NodeId} {pass : Pass α} {node : Node α}
    (chosen : choose passes graph id = .ok (some (pass, node))) :
    pass ∈ passes := by
  obtain ⟨⟨behind, ahead, rfl, _⟩, _⟩ := choose_eq_some chosen
  exact List.mem_append_right behind List.mem_cons_self

/-- When nothing is chosen for a node, no pass applies to it. -/
theorem choose_eq_none {graph : Graph α} {id : NodeId}
    (chosen : choose passes graph id = .ok none) :
    ∀ pass ∈ passes, pass.applies graph id = .ok false := by
  unfold choose at chosen
  obtain ⟨live, _, rest⟩ := except_bind_eq_ok.mp chosen
  split at rest
  · obtain ⟨found, search, result⟩ := except_bind_eq_ok.mp rest
    split at result
    · exact findM?_eq_none_iff.mp search
    · obtain ⟨old, _, shape⟩ := except_bind_eq_ok.mp result
      simp at shape
  · exact absurd rest except_throw_ne_ok

theorem choose_eq_ok {graph : Graph α} {id : NodeId} {node : Node α}
    (found : graph.get id = .ok node)
    (answers : ∀ pass ∈ passes, ∃ answer, pass.applies graph id = .ok answer) :
    ∃ choice, choose passes graph id = .ok choice := by
  have live : graph.contains id = .ok true :=
    Graph.contains_eq_ok_true_iff.mpr ⟨node, found⟩
  obtain ⟨chosen, search⟩ := findM?_eq_ok answers
  unfold choose
  cases chosen with
  | none =>
      refine ⟨none, except_bind_eq_ok.mpr ⟨true, live, ?_⟩⟩
      exact except_bind_eq_ok.mpr ⟨none, search, rfl⟩
  | some pass =>
      refine ⟨some (pass, node), except_bind_eq_ok.mpr ⟨true, live, ?_⟩⟩
      refine except_bind_eq_ok.mpr ⟨some pass, search, ?_⟩
      exact except_bind_eq_ok.mpr ⟨node, found, rfl⟩

/-- No pass is chosen for a node to which none applies. -/
theorem choose_eq_none_of_get {graph : Graph α} {id : NodeId} {node : Node α}
    (found : graph.get id = .ok node)
    (quiet : ∀ pass ∈ passes, pass.applies graph id = .ok false) :
    choose passes graph id = .ok none := by
  have live : graph.contains id = .ok true :=
    Graph.contains_eq_ok_true_iff.mpr ⟨node, found⟩
  unfold choose
  refine except_bind_eq_ok.mpr ⟨true, live, ?_⟩
  exact except_bind_eq_ok.mpr ⟨none, findM?_eq_none_iff.mpr quiet, rfl⟩

/-- A pass is chosen where it is the only one and applies. -/
theorem choose_singleton {graph : Graph α} {id : NodeId} {pass : Pass α} {node : Node α}
    (found : graph.get id = .ok node) (applies : pass.applies graph id = .ok true) :
    choose [pass] graph id = .ok (some (pass, node)) := by
  have live : graph.contains id = .ok true :=
    Graph.contains_eq_ok_true_iff.mpr ⟨node, found⟩
  have search : [pass].findM? (fun pass => pass.applies graph id) = .ok (some pass) :=
    except_bind_eq_ok.mpr ⟨true, applies, rfl⟩
  unfold choose
  refine except_bind_eq_ok.mpr ⟨true, live, ?_⟩
  refine except_bind_eq_ok.mpr ⟨some pass, search, ?_⟩
  exact except_bind_eq_ok.mpr ⟨node, found, rfl⟩

/-- What is chosen among some passes is chosen when there are others behind them. -/
theorem choose_append_of_some {graph : Graph α} {id : NodeId} {others : List (Pass α)}
    {choice : Pass α × Node α} (chosen : choose passes graph id = .ok (some choice)) :
    choose (passes ++ others) graph id = .ok (some choice) := by
  unfold choose at chosen ⊢
  obtain ⟨live, contains, rest⟩ := except_bind_eq_ok.mp chosen
  refine except_bind_eq_ok.mpr ⟨live, contains, ?_⟩
  split at rest
  · next here =>
      rw [if_pos here]
      obtain ⟨found, search, result⟩ := except_bind_eq_ok.mp rest
      cases found with
      | none => simp at result
      | some pass => exact except_bind_eq_ok.mpr ⟨some pass, findM?_append_of_some search, result⟩
  · exact absurd rest except_throw_ne_ok

/-- Passes in front that do not apply make no difference to the choice. -/
theorem choose_append_of_none {graph : Graph α} {id : NodeId} {others : List (Pass α)}
    (quiet : ∀ pass ∈ passes, pass.applies graph id = .ok false) :
    choose (passes ++ others) graph id = choose others graph id := by
  simp only [choose, findM?_append_of_none quiet]

/-- The choice depends on the node and on which passes apply to it. -/
theorem choose_congr {graph changed : Graph α} {id : NodeId} {node : Node α}
    (same : ∀ pass ∈ passes, pass.applies changed id = pass.applies graph id)
    (found : graph.get id = .ok node) (there : changed.get id = .ok node) :
    choose passes changed id = choose passes graph id := by
  have live : graph.contains id = .ok true := Graph.contains_eq_ok_true_iff.mpr ⟨node, found⟩
  have kept : changed.contains id = .ok true := Graph.contains_eq_ok_true_iff.mpr ⟨node, there⟩
  simp only [choose, live, kept, findM?_congr same, found, there]

/-! ## A step at the first of the nodes -/

section Steps

variable {id : NodeId} {rest : List NodeId} {changed : Bool} {pass : Pass α} {node : Node α}
  {graph : Graph α}

theorem scanNodes_of_fault {fault : Fault}
    (broken : choose passes progress.graph id = .error fault) :
    scanNodes passes (id :: rest) changed progress = (progress, .error (.fault fault)) := by
  rw [scanNodes, broken]

theorem scanNodes_of_none (chosen : choose passes progress.graph id = .ok none) :
    scanNodes passes (id :: rest) changed progress = scanNodes passes rest changed progress := by
  rw [scanNodes, chosen]

theorem scanNodes_of_failure {failure : Failure PassError}
    (chosen : choose passes progress.graph id = .ok (some (pass, node)))
    (failed : pass.patch id progress.graph = .error failure graph) :
    scanNodes passes (id :: rest) changed progress =
      ({ progress with graph }, .error failure) := by
  simp only [scanNodes, chosen, failed]

theorem scanNodes_of_restart
    (chosen : choose passes progress.graph id = .ok (some (pass, node)))
    (done : pass.patch id progress.graph = .ok true graph) :
    scanNodes passes (id :: rest) changed progress =
      (progress.applied pass node true graph, .ok .restart) := by
  simp only [scanNodes, chosen, done, if_true, Progress.applied]

theorem scanNodes_of_change
    (chosen : choose passes progress.graph id = .ok (some (pass, node)))
    (done : pass.patch id progress.graph = .ok false graph) :
    scanNodes passes (id :: rest) changed progress =
      scanNodes passes rest true (progress.applied pass node false graph) := by
  simp only [scanNodes, chosen, done, Bool.false_eq_true, if_false, Progress.applied]

end Steps

/-! ## Whole scans -/

/-- A rule by which to follow a scan over some nodes.  The invariant holds between patches, and what
is done at a node stays done.  The scan ends early in a state that is broken, or in one that has to
be scanned afresh. -/
structure ScanRule (passes : List (Pass α)) (ids : List NodeId)
    (invariant : Progress α → Prop) (done : Progress α → NodeId → Prop)
    (broken : Progress α → Failure PassError → Prop) (restarted : Progress α → Prop) : Prop where
  fault : ∀ {progress id fault}, id ∈ ids → invariant progress →
    choose passes progress.graph id = .error fault → broken progress (.fault fault)
  failure : ∀ {progress id pass node failure graph}, id ∈ ids → invariant progress →
    choose passes progress.graph id = .ok (some (pass, node)) →
      pass.patch id progress.graph = .error failure graph →
        broken { progress with graph } failure
  restart : ∀ {progress id pass node graph}, id ∈ ids → invariant progress →
    choose passes progress.graph id = .ok (some (pass, node)) →
      pass.patch id progress.graph = .ok true graph →
        restarted (progress.applied pass node true graph)
  skip : ∀ {progress id}, id ∈ ids → invariant progress →
    choose passes progress.graph id = .ok none → done progress id
  change : ∀ {progress id pass node graph}, id ∈ ids → invariant progress →
    choose passes progress.graph id = .ok (some (pass, node)) →
      pass.patch id progress.graph = .ok false graph →
        invariant (progress.applied pass node false graph) ∧
          done (progress.applied pass node false graph) id ∧
            ∀ other ∈ ids, done progress other → done (progress.applied pass node false graph) other

/-- How a scan ends by a rule. -/
inductive ScanEnd {α : Type} (ids : List NodeId)
    (invariant : Progress α → Prop) (done : Progress α → NodeId → Prop)
    (broken : Progress α → Failure PassError → Prop) (restarted : Progress α → Prop) :
    Progress α × Except (Failure PassError) ScanResult → Prop
  | broken {progress : Progress α} {failure : Failure PassError}
      (holds : broken progress failure) :
      ScanEnd ids invariant done broken restarted (progress, .error failure)
  | restart {progress : Progress α} (holds : restarted progress) :
      ScanEnd ids invariant done broken restarted (progress, .ok .restart)
  | full {progress : Progress α} {result : ScanResult} (through : result ≠ .restart)
      (holds : invariant progress) (all : ∀ id ∈ ids, done progress id) :
      ScanEnd ids invariant done broken restarted (progress, .ok result)

section Rules

variable {ids : List NodeId} {invariant : Progress α → Prop} {done : Progress α → NodeId → Prop}
  {broken : Progress α → Failure PassError → Prop} {restarted : Progress α → Prop}

/-- A scan that has been over some of the nodes ends by the rule when it goes on over the rest. -/
theorem ScanRule.ends_of_behind
    (rule : ScanRule passes ids invariant done broken restarted) (rest : List NodeId) :
    ∀ (behind : List NodeId) (changed : Bool) (progress : Progress α),
      ids = behind ++ rest → invariant progress → (∀ id ∈ behind, done progress id) →
        ScanEnd ids invariant done broken restarted (scanNodes passes rest changed progress) := by
  induction rest with
  | nil =>
      intro behind changed progress split holds all
      rw [List.append_nil] at split
      refine .full ?_ holds (split ▸ all)
      cases changed <;> decide
  | cons id rest inductionHypothesis =>
      intro behind changed progress split holds all
      have member : id ∈ ids := by
        rw [split]
        exact List.mem_append_right behind List.mem_cons_self
      have resplit : ids = (behind ++ [id]) ++ rest := by
        rw [split, List.append_assoc, List.singleton_append]
      have extend : ∀ {after : Progress α}, (∀ other ∈ behind, done after other) →
          done after id → ∀ other ∈ behind ++ [id], done after other := by
        intro after earlier here other among
        rcases List.mem_append.mp among with before | last
        · exact earlier other before
        · rw [List.mem_singleton.mp last]
          exact here
      cases chosen : choose passes progress.graph id with
      | error fault =>
          rw [scanNodes_of_fault chosen]
          exact .broken (rule.fault member holds chosen)
      | ok choice =>
          cases choice with
          | none =>
              rw [scanNodes_of_none chosen]
              exact inductionHypothesis (behind ++ [id]) changed progress resplit holds
                (extend all (rule.skip member holds chosen))
          | some selected =>
              obtain ⟨pass, node⟩ := selected
              cases result : pass.patch id progress.graph with
              | error failure graph =>
                  rw [scanNodes_of_failure chosen result]
                  exact .broken (rule.failure member holds chosen result)
              | ok topologyChanged graph =>
                  cases topologyChanged with
                  | true =>
                      rw [scanNodes_of_restart chosen result]
                      exact .restart (rule.restart member holds chosen result)
                  | false =>
                      obtain ⟨kept, here, stays⟩ := rule.change member holds chosen result
                      rw [scanNodes_of_change chosen result]
                      refine inductionHypothesis (behind ++ [id]) true _ resplit kept ?_
                      refine extend (fun other before => stays other ?_ (all other before)) here
                      rw [split]
                      exact List.mem_append_left (id :: rest) before

theorem ScanRule.ends
    (rule : ScanRule passes ids invariant done broken restarted)
    {changed : Bool} (start : invariant progress) :
    ScanEnd ids invariant done broken restarted (scanNodes passes ids changed progress) :=
  rule.ends_of_behind ids [] changed progress rfl start
    fun _ member => absurd member List.not_mem_nil

/-- Scans with other passes are the same where the same is chosen. -/
theorem ScanRule.scanNodes_eq
    (rule : ScanRule passes ids invariant done broken restarted) {others : List (Pass α)}
    (same : ∀ {progress id}, id ∈ ids → invariant progress →
      choose others progress.graph id = choose passes progress.graph id)
    {rest : List NodeId} (among : rest ⊆ ids) {changed : Bool} (start : invariant progress) :
    scanNodes others rest changed progress = scanNodes passes rest changed progress := by
  induction rest generalizing changed progress with
  | nil => rfl
  | cons id rest inductionHypothesis =>
      obtain ⟨member, later⟩ := List.cons_subset.mp among
      have agree := same member start
      cases chosen : choose passes progress.graph id with
      | error fault => rw [scanNodes_of_fault chosen, scanNodes_of_fault (agree.trans chosen)]
      | ok choice =>
          rcases choice with _ | ⟨pass, node⟩
          · rw [scanNodes_of_none chosen, scanNodes_of_none (agree.trans chosen)]
            exact inductionHypothesis later start
          · have again := agree.trans chosen
            cases result : pass.patch id progress.graph with
            | error failure graph =>
                rw [scanNodes_of_failure chosen result, scanNodes_of_failure again result]
            | ok topologyChanged graph =>
                cases topologyChanged with
                | true =>
                    rw [scanNodes_of_restart chosen result, scanNodes_of_restart again result]
                | false =>
                    rw [scanNodes_of_change chosen result, scanNodes_of_change again result]
                    exact inductionHypothesis later (rule.change member start chosen result).1

end Rules

/-- A scan that has patched the graph before does not end with nothing patched. -/
theorem scanNodes_true_ne_fixpoint (ids : List NodeId) (progress : Progress α) :
    (scanNodes passes ids true progress).2 ≠ .ok .fixpoint := by
  induction ids generalizing progress with
  | nil =>
      simp [scanNodes]
  | cons id rest inductionHypothesis =>
      unfold scanNodes
      split
      · simp
      · exact inductionHypothesis progress
      · split
        · simp
        · dsimp only
          split
          · simp
          · exact inductionHypothesis _

/-- Nothing has happened in a scan that ends with nothing patched, and no pass applies. -/
theorem scanNodes_eq_fixpoint {after : Progress α} (ids : List NodeId)
    (settled : scanNodes passes ids false progress = (after, .ok .fixpoint)) :
    after = progress ∧ ∀ id ∈ ids, choose passes progress.graph id = .ok none := by
  induction ids with
  | nil =>
      simp only [scanNodes, Bool.false_eq_true, if_false, Prod.mk.injEq, and_true] at settled
      exact ⟨settled.symm, fun _ member => absurd member List.not_mem_nil⟩
  | cons id rest inductionHypothesis =>
      unfold scanNodes at settled
      split at settled
      · simp at settled
      · next chosen =>
          obtain ⟨same, others⟩ := inductionHypothesis settled
          exact ⟨same, List.forall_mem_cons.mpr ⟨chosen, others⟩⟩
      · split at settled
        · simp at settled
        · dsimp only at settled
          split at settled
          · simp at settled
          · exact absurd (congrArg Prod.snd settled) (scanNodes_true_ne_fixpoint rest _)

/-- A scan over more nodes goes on where a scan over the first of them has come through. -/
theorem scanNodes_append (front rest : List NodeId) (changed : Bool) (progress : Progress α) :
    scanNodes passes (front ++ rest) changed progress =
      match scanNodes passes front changed progress with
      | (after, .error failure) => (after, .error failure)
      | (after, .ok .restart) => (after, .ok .restart)
      | (after, .ok .changed) => scanNodes passes rest true after
      | (after, .ok .fixpoint) => scanNodes passes rest false after := by
  induction front generalizing changed progress with
  | nil => cases changed <;> rfl
  | cons id others inductionHypothesis =>
      rw [List.cons_append]
      cases chosen : choose passes progress.graph id with
      | error fault => rw [scanNodes_of_fault chosen, scanNodes_of_fault chosen]
      | ok choice =>
          rcases choice with _ | ⟨pass, node⟩
          · rw [scanNodes_of_none chosen, scanNodes_of_none chosen]
            exact inductionHypothesis changed progress
          · cases result : pass.patch id progress.graph with
            | error failure graph =>
                rw [scanNodes_of_failure chosen result, scanNodes_of_failure chosen result]
            | ok topologyChanged graph =>
                cases topologyChanged with
                | true =>
                    rw [scanNodes_of_restart chosen result, scanNodes_of_restart chosen result]
                | false =>
                    rw [scanNodes_of_change chosen result, scanNodes_of_change chosen result]
                    exact inductionHypothesis true _

/-- A scan walks past the nodes for which no pass is chosen. -/
theorem scanNodes_append_of_quiet {front rest : List NodeId} {changed : Bool}
    (quiet : ∀ id ∈ front, choose passes progress.graph id = .ok none) :
    scanNodes passes (front ++ rest) changed progress =
      scanNodes passes rest changed progress := by
  induction front with
  | nil => rfl
  | cons id others inductionHypothesis =>
      obtain ⟨here, later⟩ := List.forall_mem_cons.mp quiet
      rw [List.cons_append, scanNodes_of_none here]
      exact inductionHypothesis later

/-- A scan ends with nothing patched where no pass is chosen. -/
theorem scanNodes_of_quiet {ids : List NodeId}
    (quiet : ∀ id ∈ ids, choose passes progress.graph id = .ok none) :
    scanNodes passes ids false progress = (progress, .ok .fixpoint) := by
  have past : scanNodes passes (ids ++ []) false progress = scanNodes passes [] false progress :=
    scanNodes_append_of_quiet quiet
  rw [List.append_nil] at past
  exact past

/-! ## A step of a run -/

section Runs

variable (optimizer : Optimizer α) {after : Progress α}

private theorem limit_filter_eq_none (room : ∀ most ∈ optimizer.limit, progress.scans < most) :
    (optimizer.limit.filter fun limit => limit ≤ progress.scans) = none := by
  rw [Option.filter_eq_none_iff]
  intro most member
  simpa using room most member

/-- A scan that fails ends the run. -/
theorem proceed?_of_failure
    (room : ∀ most ∈ optimizer.limit, progress.scans < most) (fuel : Nat)
    {failure : Failure PassError}
    (scanned : scan optimizer.passes progress = (after, .error failure)) :
    optimizer.proceed? (fuel + 1) progress = some ⟨after.graph, after.log, .error failure⟩ := by
  rw [proceed?, limit_filter_eq_none optimizer room, scanned]

/-- A scan that finds nothing to do ends the run. -/
theorem proceed?_of_fixpoint
    (room : ∀ most ∈ optimizer.limit, progress.scans < most) (fuel : Nat)
    (scanned : scan optimizer.passes progress = (after, .ok .fixpoint)) :
    optimizer.proceed? (fuel + 1) progress =
      some ⟨after.graph,
        after.log ++ [.scanned after.scans .fixpoint] ++ [.settled after.scans after.patches],
        .ok (after.report true)⟩ := by
  rw [proceed?, limit_filter_eq_none optimizer room, scanned]
  rfl

/-- Behind any other scan the run goes on. -/
theorem proceed?_of_further
    (room : ∀ most ∈ optimizer.limit, progress.scans < most) (fuel : Nat) {result : ScanResult}
    (more : result ≠ .fixpoint) (scanned : scan optimizer.passes progress = (after, .ok result)) :
    optimizer.proceed? (fuel + 1) progress =
      optimizer.proceed? fuel (after.note (.scanned after.scans result)) := by
  rw [proceed?, limit_filter_eq_none optimizer room, scanned]
  exact if_neg more

/-- The limit ends the run. -/
theorem proceed?_of_reached (reached : optimizer.limit = some progress.scans) (fuel : Nat) :
    optimizer.proceed? (fuel + 1) progress =
      some ⟨progress.graph, progress.log ++ [.exhausted progress.scans progress.patches],
        .ok (progress.report false)⟩ := by
  rw [proceed?, reached, Option.filter_some, if_pos (decide_eq_true (Nat.le_refl _))]

end Runs

end Optimizer

end QuantNet
