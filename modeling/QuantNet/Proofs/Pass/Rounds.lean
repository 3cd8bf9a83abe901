import QuantNet.Proofs.Pass.Scanning

/-!
# Scans and runs, step by step

What a scan may do at the nodes that it walks over, and how scans follow each other until a run
ends.  Every run of every list of passes goes this way, whatever the passes do.
-/

namespace QuantNet

variable {α : Type}

namespace Optimizer

/-! ## One scan -/

/-- The pass applies to the node and none of the passes before it does. -/
structure FirstApplies (passes : List (Pass α)) (graph : Graph α) (id : NodeId) (pass : Pass α) :
    Prop where
  found : ∃ node, graph.get id = .ok node
  first : ∃ earlier later, passes = earlier ++ pass :: later ∧
    ∀ other ∈ earlier, other.applies graph id = .ok false
  applies : pass.applies graph id = .ok true

/-- No pass applies to the node. -/
structure NoneApplies (passes : List (Pass α)) (graph : Graph α) (id : NodeId) : Prop where
  found : ∃ node, graph.get id = .ok node
  quiet : ∀ pass ∈ passes, pass.applies graph id = .ok false

/-- How a scan goes over some nodes, from one graph to another: the nodes that it patches and the
passes that it applies to them, and whether it fails, is cut short by a change of the topology, or
comes through. -/
inductive Walk (passes : List (Pass α)) : List NodeId → Graph α → List (NodeId × Pass α) →
    Except (Failure PassError) Bool → Graph α → Prop
  | through {graph : Graph α} : Walk passes [] graph [] (.ok false) graph
  | skip {id : NodeId} {rest : List NodeId} {graph final : Graph α}
      {patches : List (NodeId × Pass α)} {ended : Except (Failure PassError) Bool}
      (none : NoneApplies passes graph id) (walk : Walk passes rest graph patches ended final) :
      Walk passes (id :: rest) graph patches ended final
  | change {id : NodeId} {rest : List NodeId} {graph changed final : Graph α} {pass : Pass α}
      {patches : List (NodeId × Pass α)} {ended : Except (Failure PassError) Bool}
      (first : FirstApplies passes graph id pass) (done : pass.patch id graph = .ok false changed)
      (walk : Walk passes rest changed patches ended final) :
      Walk passes (id :: rest) graph ((id, pass) :: patches) ended final
  | restart {id : NodeId} {rest : List NodeId} {graph changed : Graph α} {pass : Pass α}
      (first : FirstApplies passes graph id pass) (done : pass.patch id graph = .ok true changed) :
      Walk passes (id :: rest) graph [(id, pass)] (.ok true) changed
  | failure {id : NodeId} {rest : List NodeId} {graph left : Graph α} {pass : Pass α}
      {failure : Failure PassError} (first : FirstApplies passes graph id pass)
      (failed : pass.patch id graph = .error failure left) :
      Walk passes (id :: rest) graph [] (.error failure) left
  | fault {id : NodeId} {rest : List NodeId} {graph : Graph α} {fault : Fault}
      (broken : choose passes graph id = .error fault) :
      Walk passes (id :: rest) graph [] (.error (.fault fault)) graph

variable {passes : List (Pass α)} {graph middle final : Graph α} {id : NodeId} {pass : Pass α}
  {ids : List NodeId} {patches : List (NodeId × Pass α)} {progress : Progress α}

theorem choose_eq_some_iff :
    (∃ node, choose passes graph id = .ok (some (pass, node))) ↔
      FirstApplies passes graph id pass := by
  constructor
  · rintro ⟨node, chosen⟩
    obtain ⟨first, applies, found⟩ := choose_eq_some chosen
    exact ⟨⟨node, found⟩, first, applies⟩
  · rintro ⟨⟨node, found⟩, ⟨earlier, later, rfl, quiet⟩, applies⟩
    have alone : choose [pass] graph id = .ok (some (pass, node)) := choose_singleton found applies
    exact ⟨node, (choose_append_of_none quiet).trans (choose_append_of_some alone)⟩

theorem FirstApplies.mem (first : FirstApplies passes graph id pass) : pass ∈ passes := by
  obtain ⟨earlier, later, rfl, _⟩ := first.first
  exact List.mem_append_right earlier List.mem_cons_self

/-- There is a choice for nodes that are there. -/
theorem get_of_choose {choice : Option (Pass α × Node α)}
    (chosen : choose passes graph id = .ok choice) :
    ∃ node, graph.get id = .ok node := by
  unfold choose at chosen
  obtain ⟨live, contains, rest⟩ := except_bind_eq_ok.mp chosen
  split at rest
  · next here =>
      rw [here] at contains
      exact Graph.contains_eq_ok_true_iff.mp contains
  · exact absurd rest except_throw_ne_ok

theorem choose_eq_none_iff : choose passes graph id = .ok none ↔ NoneApplies passes graph id := by
  constructor
  · intro chosen
    exact ⟨get_of_choose chosen, choose_eq_none chosen⟩
  · rintro ⟨⟨node, found⟩, quiet⟩
    exact choose_eq_none_of_get found quiet

/-- A scan always goes some way. -/
theorem exists_walk (passes : List (Pass α)) (ids : List NodeId) (graph : Graph α) :
    ∃ patches ended final, Walk passes ids graph patches ended final := by
  induction ids generalizing graph with
  | nil => exact ⟨[], .ok false, graph, .through⟩
  | cons id rest inductionHypothesis =>
      cases chosen : choose passes graph id with
      | error fault => exact ⟨[], _, graph, .fault chosen⟩
      | ok choice =>
          rcases choice with _ | ⟨pass, node⟩
          · obtain ⟨patches, ended, final, walk⟩ := inductionHypothesis graph
            exact ⟨patches, ended, final, .skip (choose_eq_none_iff.mp chosen) walk⟩
          · have first := choose_eq_some_iff.mp ⟨node, chosen⟩
            cases result : pass.patch id graph with
            | error failure left => exact ⟨[], _, left, .failure first result⟩
            | ok topologyChanged changed =>
                cases topologyChanged with
                | true => exact ⟨_, _, changed, .restart first result⟩
                | false =>
                    obtain ⟨patches, ended, final, walk⟩ := inductionHypothesis changed
                    exact ⟨_, ended, final, .change first result walk⟩

/-- The result of a scan that has not failed. -/
def resultOf (changed restarted : Bool) : ScanResult :=
  if restarted then .restart else if changed then .changed else .fixpoint

/-- The scan gives what it comes to on its way. -/
theorem Walk.scanNodes_eq {ended : Except (Failure PassError) Bool}
    (walk : Walk passes ids graph patches ended final) :
    ∀ (changed : Bool) (progress : Progress α), progress.graph = graph →
      ∃ log, scanNodes passes ids changed progress =
        (⟨final, progress.scans, progress.patches + patches.length, log⟩,
          ended.map fun restarted => resultOf (changed || !patches.isEmpty) restarted) := by
  induction walk with
  | through =>
      rintro changed progress rfl
      refine ⟨progress.log, ?_⟩
      cases changed <;> rfl
  | skip none _ inductionHypothesis =>
      rintro changed progress rfl
      rw [scanNodes_of_none (choose_eq_none_iff.mpr none)]
      exact inductionHypothesis changed progress rfl
  | @change id rest graph later final pass patches ended first done _ inductionHypothesis =>
      rintro changed progress rfl
      obtain ⟨node, chosen⟩ := choose_eq_some_iff.mpr first
      obtain ⟨log, scanned⟩ := inductionHypothesis true (progress.applied pass node false later) rfl
      refine ⟨log, ?_⟩
      rw [scanNodes_of_change chosen done, scanned]
      simp [Progress.applied, Progress.note, Nat.add_assoc, Nat.add_comm]
  | restart first done =>
      rintro changed progress rfl
      obtain ⟨node, chosen⟩ := choose_eq_some_iff.mpr first
      exact ⟨_, scanNodes_of_restart chosen done⟩
  | failure first failed =>
      rintro changed progress rfl
      obtain ⟨node, chosen⟩ := choose_eq_some_iff.mpr first
      exact ⟨_, scanNodes_of_failure chosen failed⟩
  | fault broken =>
      rintro changed progress rfl
      exact ⟨_, scanNodes_of_fault broken⟩

/-- A scan without patches leaves the graph alone and has found nothing to do. -/
theorem Walk.quiet {restarted : Bool} (walk : Walk passes ids graph [] (.ok restarted) final) :
    restarted = false ∧ final = graph ∧ ∀ id ∈ ids, NoneApplies passes graph id := by
  generalize nothing : [] = patches at walk
  generalize fine : Except.ok restarted = ended at walk
  induction walk with
  | through =>
      exact ⟨Except.ok.inj fine, rfl, fun _ member => absurd member List.not_mem_nil⟩
  | skip none _ inductionHypothesis =>
      obtain ⟨through, same, others⟩ := inductionHypothesis nothing fine
      exact ⟨through, same, List.forall_mem_cons.mpr ⟨none, others⟩⟩
  | change => cases nothing
  | restart => cases nothing
  | failure => cases fine
  | fault => cases fine

theorem walk_of_quiet (quiet : ∀ id ∈ ids, NoneApplies passes graph id) :
    Walk passes ids graph [] (.ok false) graph := by
  induction ids with
  | nil => exact .through
  | cons id rest inductionHypothesis =>
      obtain ⟨here, others⟩ := List.forall_mem_cons.mp quiet
      exact .skip here (inductionHypothesis others)

/-- The nodes are patched in the order in which they are walked over, each at most once. -/
theorem Walk.sublist {ended : Except (Failure PassError) Bool}
    (walk : Walk passes ids graph patches ended final) :
    (patches.map Prod.fst).Sublist ids := by
  induction walk with
  | through => exact List.Sublist.refl []
  | skip _ _ inductionHypothesis => exact inductionHypothesis.cons _
  | change _ _ _ inductionHypothesis => exact inductionHypothesis.cons_cons _
  | restart => exact (List.nil_sublist _).cons_cons _
  | failure => exact List.nil_sublist _
  | fault => exact List.nil_sublist _

/-! ## Scan after scan -/

/-- A scan that has not failed: the graph at its start, its patches, and whether a change of the
topology has cut it short. -/
structure Round (α : Type) where
  start : Graph α
  patches : List (NodeId × Pass α)
  restarted : Bool

/-- Scans that follow each other, from one graph to another.  Each goes over the nodes in the order
that they have at its start. -/
inductive Rounds (passes : List (Pass α)) : Graph α → List (Round α) → Graph α → Prop
  | none {graph : Graph α} : Rounds passes graph [] graph
  | more {graph middle final : Graph α} {patches : List (NodeId × Pass α)} {restarted : Bool}
      {rounds : List (Round α)}
      (walk : Walk passes graph.order graph patches (.ok restarted) middle)
      (rest : Rounds passes middle rounds final) :
      Rounds passes graph (⟨graph, patches, restarted⟩ :: rounds) final

/-- How many patches were made in all. -/
def patchCount (rounds : List (Round α)) : Nat :=
  (rounds.flatMap Round.patches).length

/-- There is a patch in each of the scans. -/
def Busy (rounds : List (Round α)) : Prop :=
  ∀ round ∈ rounds, round.patches ≠ []

/-- How a run ends behind scans that all have patched something: at the limit, with a scan that
finds nothing to do, or with a failure. -/
inductive Concludes (passes : List (Pass α)) (limit : Option Nat) (graph : Graph α) :
    List (Round α) → Graph α → Except (Failure PassError) Report → Prop
  | exhausted {rounds : List (Round α)} {final : Graph α} (scans : Rounds passes graph rounds final)
      (busy : Busy rounds) (reached : limit = some rounds.length) :
      Concludes passes limit graph rounds final (.ok ⟨rounds.length, patchCount rounds, false⟩)
  | settled {rounds : List (Round α)} {final : Graph α} (scans : Rounds passes graph rounds final)
      (busy : Busy rounds) (room : ∀ most ∈ limit, rounds.length < most)
      (quiet : ∀ id ∈ final.order, NoneApplies passes final id) :
      Concludes passes limit graph rounds final (.ok ⟨rounds.length + 1, patchCount rounds, true⟩)
  | failed {rounds : List (Round α)} {middle final : Graph α} {patches : List (NodeId × Pass α)}
      {failure : Failure PassError} (scans : Rounds passes graph rounds middle)
      (busy : Busy rounds) (room : ∀ most ∈ limit, rounds.length < most)
      (walk : Walk passes middle.order middle patches (.error failure) final) :
      Concludes passes limit graph rounds final (.error failure)

variable {rounds others : List (Round α)} {limit : Option Nat}
  {outcome : Except (Failure PassError) Report}

theorem Rounds.append (scans : Rounds passes graph rounds middle)
    (further : Rounds passes middle others final) :
    Rounds passes graph (rounds ++ others) final := by
  induction scans with
  | none => exact further
  | more walk _ inductionHypothesis => exact .more walk (inductionHypothesis further)

theorem Rounds.single {restarted : Bool}
    (walk : Walk passes graph.order graph patches (.ok restarted) final) :
    Rounds passes graph [⟨graph, patches, restarted⟩] final :=
  .more walk .none

@[simp]
theorem busy_append_iff : Busy (rounds ++ others) ↔ Busy rounds ∧ Busy others :=
  List.forall_mem_append

@[simp]
theorem patchCount_append :
    patchCount (rounds ++ others) = patchCount rounds + patchCount others := by
  simp [patchCount]

/-- A number of scans can be made, all of them with patches, unless the run ends before. -/
theorem rounds_or_concludes (passes : List (Pass α)) (graph : Graph α) (count : Nat) :
    (∃ rounds final, Rounds passes graph rounds final ∧ Busy rounds ∧ rounds.length = count) ∨
      ∃ rounds final outcome, rounds.length < count ∧
        Concludes passes none graph rounds final outcome := by
  induction count with
  | zero => exact Or.inl ⟨[], graph, .none, fun _ member => absurd member List.not_mem_nil, rfl⟩
  | succ count inductionHypothesis =>
      rcases inductionHypothesis with
        ⟨rounds, middle, scans, busy, length⟩ | ⟨rounds, final, outcome, few, concludes⟩
      · obtain ⟨patches, ended, final, walk⟩ := exists_walk passes middle.order middle
        cases ended with
        | error failure =>
            exact Or.inr ⟨rounds, final, _, length ▸ Nat.lt_succ_self _,
              .failed scans busy (fun _ none => by cases none) walk⟩
        | ok restarted =>
            cases patches with
            | nil =>
                exact Or.inr ⟨rounds, middle, _, length ▸ Nat.lt_succ_self _,
                  .settled scans busy (fun _ none => by cases none) walk.quiet.2.2⟩
            | cons patch patches =>
                refine Or.inl ⟨_, final, scans.append (.single walk), busy_append_iff.mpr
                  ⟨busy, ?_⟩, by simp [length]⟩
                exact List.forall_mem_singleton.mpr (List.cons_ne_nil patch patches)
      · exact Or.inr ⟨rounds, final, outcome, Nat.lt_succ_of_lt few, concludes⟩

/-- A run is cut short if its scans are as many as the limit allows, and they all have patches. -/
theorem Concludes.cut_iff (concludes : Concludes passes limit graph rounds final outcome) :
    (∃ report, outcome = .ok report ∧ report.converged = false) ↔ limit = some rounds.length := by
  have uncut : (∀ most ∈ limit, rounds.length < most) → limit ≠ some rounds.length :=
    fun room reached => Nat.lt_irrefl _ (room _ reached)
  cases concludes with
  | exhausted _ _ reached => exact ⟨fun _ => reached, fun _ => ⟨_, rfl, rfl⟩⟩
  | settled _ _ room _ => simp [uncut room]
  | failed _ _ room _ => simp [uncut room]

theorem Concludes.length_le (concludes : Concludes passes limit graph rounds final outcome) :
    ∀ most ∈ limit, rounds.length ≤ most := by
  cases concludes with
  | exhausted _ _ reached =>
      exact fun _ member => Nat.le_of_eq (Option.some.inj (reached.symm.trans member))
  | settled _ _ room _ => exact fun most member => Nat.le_of_lt (room most member)
  | failed _ _ room _ => exact fun most member => Nat.le_of_lt (room most member)

/-- A run that is not cut short ends in the same way below another limit with room for it. -/
theorem Concludes.relimit {other : Option Nat}
    (concludes : Concludes passes limit graph rounds final outcome)
    (uncut : limit ≠ some rounds.length) (room : ∀ most ∈ other, rounds.length < most) :
    Concludes passes other graph rounds final outcome := by
  cases concludes with
  | exhausted _ _ reached => exact absurd reached uncut
  | settled scans busy _ quiet => exact .settled scans busy room quiet
  | failed scans busy _ walk => exact .failed scans busy room walk

/-! ## What the run gives -/

theorem Walk.scan_eq {ended : Except (Failure PassError) Bool}
    (walk : Walk passes progress.graph.order progress.graph patches ended final) :
    ∃ log, scan passes progress =
      (⟨final, progress.scans + 1, progress.patches + patches.length, log⟩,
        ended.map fun restarted => resultOf (!patches.isEmpty) restarted) :=
  walk.scanNodes_eq false { progress with scans := progress.scans + 1 } rfl

theorem resultOf_eq_fixpoint_iff {restarted : Bool} :
    resultOf (!patches.isEmpty) restarted = .fixpoint ↔ restarted = false ∧ patches = [] := by
  cases restarted <;> cases patches <;> simp [resultOf]

section

variable (optimizer : Optimizer α)

/-- A scan over nodes to which no pass applies ends the run. -/
private theorem proceed?_of_quiet (progress : Progress α)
    (room : ∀ most ∈ optimizer.limit, progress.scans < most)
    (quiet : ∀ id ∈ progress.graph.order, NoneApplies optimizer.passes progress.graph id)
    (fuel : Nat) :
    ∃ log, optimizer.proceed? (fuel + 1) progress =
      some ⟨progress.graph, log, .ok ⟨progress.scans + 1, progress.patches, true⟩⟩ := by
  obtain ⟨log, scanned⟩ := (walk_of_quiet quiet).scan_eq
  exact ⟨_, optimizer.proceed?_of_fixpoint room fuel scanned⟩

/-- A scan that fails ends the run. -/
private theorem proceed?_of_failed {failure : Failure PassError} (progress : Progress α)
    (room : ∀ most ∈ optimizer.limit, progress.scans < most)
    (walk : Walk optimizer.passes progress.graph.order progress.graph patches (.error failure)
      final) (fuel : Nat) :
    ∃ log, optimizer.proceed? (fuel + 1) progress = some ⟨final, log, .error failure⟩ := by
  obtain ⟨log, scanned⟩ := walk.scan_eq
  exact ⟨_, optimizer.proceed?_of_failure room fuel scanned⟩

/-- Scans that patch something are made one after the other. -/
theorem Rounds.proceed?_eq (scans : Rounds optimizer.passes graph rounds final)
    (busy : Busy rounds) :
    ∀ progress : Progress α, progress.graph = graph →
      (∀ most ∈ optimizer.limit, progress.scans + rounds.length ≤ most) →
        ∃ log, ∀ fuel, optimizer.proceed? (rounds.length + fuel) progress =
          optimizer.proceed? fuel
            ⟨final, progress.scans + rounds.length, progress.patches + patchCount rounds, log⟩ := by
  generalize named : optimizer.passes = passes at scans
  induction scans with
  | none =>
      rintro progress rfl _
      exact ⟨progress.log, fun fuel => by simp [patchCount]⟩
  | @more graph middle final patches restarted rounds walk rest inductionHypothesis =>
      rintro progress rfl enough
      obtain ⟨here, later⟩ := List.forall_mem_cons.mp busy
      rw [← named] at walk
      obtain ⟨log, scanned⟩ := walk.scan_eq
      let after : Progress α :=
        ⟨middle, progress.scans + 1, progress.patches + patches.length, log⟩
      have room : ∀ most ∈ optimizer.limit, progress.scans < most := by
        intro most member
        have below := enough most member
        rw [List.length_cons] at below
        omega
      have more : resultOf (!patches.isEmpty) restarted ≠ .fixpoint := fun fixpoint =>
        here (resultOf_eq_fixpoint_iff.mp fixpoint).2
      obtain ⟨total, continued⟩ := inductionHypothesis later
        (after.note (.scanned after.scans (resultOf (!patches.isEmpty) restarted))) rfl (by
          intro most member
          have below := enough most member
          rw [List.length_cons] at below
          simp only [Progress.note, after]
          omega)
      refine ⟨total, fun fuel => ?_⟩
      have step := optimizer.proceed?_of_further room (rounds.length + fuel) more scanned
      rw [List.length_cons, Nat.add_right_comm, step]
      refine (continued fuel).trans ?_
      simp [Progress.note, after, patchCount, Nat.add_assoc, Nat.add_comm]

end

/-- A run that makes scans with patches comes to the graph behind them. -/
theorem Rounds.runWithin_eq (scans : Rounds passes graph rounds final) (busy : Busy rounds)
    (within : ∀ most ∈ limit, rounds.length ≤ most) :
    ∃ log, ∀ fuel, (⟨limit, passes⟩ : Optimizer α).runWithin (rounds.length + fuel) graph =
      (⟨limit, passes⟩ : Optimizer α).proceed? fuel
        ⟨final, rounds.length, patchCount rounds, log⟩ := by
  obtain ⟨log, continued⟩ := scans.proceed?_eq ⟨limit, passes⟩ busy { graph } rfl
    (by simpa using within)
  refine ⟨log, fun fuel => (continued fuel).trans ?_⟩
  simp

/-- The run ends in the way in which it concludes. -/
theorem Concludes.runWithin_eq (concludes : Concludes passes limit graph rounds final outcome)
    {fuel : Nat} (enough : rounds.length < fuel) :
    ∃ log, (⟨limit, passes⟩ : Optimizer α).runWithin fuel graph = some ⟨final, log, outcome⟩ := by
  obtain ⟨spare, rfl⟩ := Nat.exists_eq_add_of_lt enough
  rw [Nat.add_assoc]
  cases concludes with
  | exhausted scans busy reached =>
      obtain ⟨log, continued⟩ := scans.runWithin_eq busy fun most member =>
        Nat.le_of_eq (Option.some.inj (reached.symm.trans member))
      rw [continued]
      exact ⟨_, proceed?_of_reached _ reached spare⟩
  | settled scans busy room quiet =>
      obtain ⟨log, continued⟩ := scans.runWithin_eq busy fun most member =>
        Nat.le_of_lt (room most member)
      rw [continued]
      exact proceed?_of_quiet _ _ room quiet spare
  | failed scans busy room walk =>
      obtain ⟨log, continued⟩ := scans.runWithin_eq busy fun most member =>
        Nat.le_of_lt (room most member)
      rw [continued]
      exact proceed?_of_failed _ _ room walk spare

/-- With a limit a run is given room enough to end. -/
theorem Concludes.run_eq {limit : Nat}
    (concludes : Concludes passes (some limit) graph rounds final outcome) :
    ∃ log, (⟨some limit, passes⟩ : Optimizer α).run graph = some ⟨final, log, outcome⟩ :=
  concludes.runWithin_eq (Nat.lt_succ_of_le (concludes.length_le limit rfl))

/-- With a limit there is an end. -/
theorem exists_concludes (passes : List (Pass α)) (limit : Nat) (graph : Graph α) :
    ∃ rounds final outcome, Concludes passes (some limit) graph rounds final outcome := by
  rcases rounds_or_concludes passes graph limit with
    ⟨rounds, final, scans, busy, rfl⟩ | ⟨rounds, final, outcome, few, concludes⟩
  · exact ⟨rounds, final, _, .exhausted scans busy rfl⟩
  · exact ⟨rounds, final, outcome, concludes.relimit nofun fun _ member =>
      Option.some.inj member ▸ few⟩

/-- A run that ends has concluded. -/
theorem concludes_of_runWithin (optimizer : Optimizer α) {fuel : Nat} {run : Run α}
    (ended : optimizer.runWithin fuel graph = some run) :
    ∃ rounds, Concludes optimizer.passes optimizer.limit graph rounds run.graph run.outcome := by
  have identify : ∀ {rounds final outcome}, rounds.length < fuel →
      Concludes optimizer.passes optimizer.limit graph rounds final outcome →
        Concludes optimizer.passes optimizer.limit graph rounds run.graph run.outcome := by
    intro rounds final outcome enough concludes
    obtain ⟨log, ends⟩ := concludes.runWithin_eq enough
    obtain rfl := Option.some.inj (ends.symm.trans ended)
    exact concludes
  by_cases tight : ∃ most ∈ optimizer.limit, most < fuel
  · obtain ⟨most, limit, below⟩ := tight
    obtain ⟨rounds, final, outcome, concludes⟩ := exists_concludes optimizer.passes most graph
    have few := concludes.length_le most rfl
    exact ⟨rounds, identify (Nat.lt_of_le_of_lt few below) (limit.symm ▸ concludes)⟩
  · have wide : ∀ most ∈ optimizer.limit, fuel ≤ most := fun most member =>
      Nat.not_lt.mp fun below => tight ⟨most, member, below⟩
    rcases rounds_or_concludes optimizer.passes graph fuel with
      ⟨rounds, final, scans, busy, rfl⟩ | ⟨rounds, final, outcome, few, concludes⟩
    · obtain ⟨log, continued⟩ := scans.runWithin_eq busy wide
      cases ended.symm.trans (continued 0)
    · exact ⟨rounds, identify few (concludes.relimit nofun fun most member =>
        Nat.lt_of_lt_of_le few (wide most member))⟩

end Optimizer

end QuantNet
