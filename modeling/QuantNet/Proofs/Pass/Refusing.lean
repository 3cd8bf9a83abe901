import QuantNet.Proofs.Pass.Consistency
import QuantNet.Proofs.Pass.Inversion
import QuantNet.Scalar.Binary32

/-!
# Refused patches

A patch that is refused may have changed the graph before.  Affine fusion and output modes never
have: all that can go wrong with them goes wrong before their first edit.  The same holds of scale
factorization as long as it is a quantizer that is missing.  A run of passes of the first kind
therefore stops with the graph that its successful patches have made, and no trace of the one that
was refused.

Faults are left out.  They are no answers, and nothing is said about the graph behind them.
-/

namespace QuantNet

open QuantNet.Graph Optimizer

variable {α β γ : Type} {graph changed left : Graph α} {id : NodeId} {node : Node α}

/-! ## Patches that are refused in time -/

namespace Patch

/-- Refused for one of the given reasons, the patch leaves the graph as it was. -/
def Spares (patch : Patch α β) (graph : Graph α) (refusal : PassError → Prop) : Prop :=
  ∀ ⦃cause left⦄, refusal cause → patch graph = .error (.error cause) left → left = graph

/-- The patch is refused for none of the given reasons. -/
def Avoids (patch : Patch α β) (refusal : PassError → Prop) : Prop :=
  ∀ ⦃graph cause left⦄, patch graph = .error (.error cause) left → ¬ refusal cause

variable {patch : Patch α β} {first : Patch α β} {next : β → Patch α γ}
  {refusal : PassError → Prop}

theorem spares_of_leaves_eq (same : patch.leaves graph = graph) : patch.Spares graph refusal := by
  intro cause left _ failed
  rw [leaves_of_error failed] at same
  exact same

theorem Avoids.spares (avoids : patch.Avoids refusal) (graph : Graph α) :
    patch.Spares graph refusal := by
  intro cause left refused failed
  exact absurd refused (avoids failed)

/-- A step that only reads is no risk. -/
theorem spares_bind (reads : first.leaves graph = graph)
    (rest : ∀ answer, first graph = .ok answer graph → (next answer).Spares graph refusal) :
    (first >>= next).Spares graph refusal := by
  intro cause left refused failed
  cases begun : first graph with
  | error failure middle =>
      rw [leaves_of_error begun] at reads
      rw [bind_of_error next begun, reads] at failed
      injection failed with _ same
      exact same.symm
  | ok answer middle =>
      rw [leaves_of_ok begun] at reads
      rw [reads] at begun
      rw [bind_of_ok next begun] at failed
      exact rest answer begun refused failed

/-- A patch that ends with an edit is not refused if the edit is not. -/
private theorem last_edit_not_refused {change : Graph α → Except (Failure GraphError) (Graph α)}
    {answer : β} {cause : PassError} (accepted : ∀ cause, change graph ≠ .error (.error cause)) :
    (edit change >>= fun _ => pure answer) graph ≠ .error (.error cause) left := by
  intro failed
  cases done : change graph with
  | ok changed =>
      rw [bind_of_ok _ (edit_of_ok done)] at failed
      cases failed
  | error failure =>
      rw [bind_of_error _ (edit_of_error done)] at failed
      cases failure with
      | error refused => exact accepted refused done
      | fault fault => cases failed

/-- What the graph refuses is refused for a reason of the graph. -/
private theorem exists_of_ofGraph_eq_error {failure : Failure GraphError} {cause : PassError}
    (same : failure.ofGraph = .error cause) : ∃ refused, cause = .graph refused := by
  cases failure with
  | error refused => exact ⟨refused, (Failure.error.inj same).symm⟩
  | fault fault => cases same

theorem avoids_pure (answer : β) : (pure answer : Patch α β).Avoids refusal := by
  intro graph cause left failed
  cases failed

theorem avoids_fail {error : PassError} (other : ¬ refusal error) :
    (fail error : Patch α β).Avoids refusal := by
  intro graph cause left failed
  cases failed
  exact other

theorem avoids_demand {value : Except (Failure PassError) β}
    (others : ∀ cause, value = .error (.error cause) → ¬ refusal cause) :
    (demand value : Patch α β).Avoids refusal := by
  intro graph cause left failed
  unfold demand at failed
  cases value with
  | ok answer => cases failed
  | error failure =>
      injection failed with same
      exact others cause (congrArg Except.error same)

theorem avoids_ask (query : Graph α → Except (Failure GraphError) β)
    (others : ∀ cause, ¬ refusal (.graph cause)) : (ask query).Avoids refusal := by
  intro graph cause left failed
  unfold ask at failed
  split at failed
  · cases failed
  · injection failed with same
    obtain ⟨refused, rfl⟩ := exists_of_ofGraph_eq_error same
    exact others refused

theorem avoids_edit (change : Graph α → Except (Failure GraphError) (Graph α))
    (others : ∀ cause, ¬ refusal (.graph cause)) : (edit change).Avoids refusal := by
  intro graph cause left failed
  unfold edit at failed
  split at failed
  · cases failed
  · injection failed with same
    obtain ⟨refused, rfl⟩ := exists_of_ofGraph_eq_error same
    exact others refused

theorem Avoids.bind (start : first.Avoids refusal) (rest : ∀ answer, (next answer).Avoids refusal) :
    (first >>= next).Avoids refusal := by
  intro graph cause left failed
  cases begun : first graph with
  | error failure middle =>
      rw [bind_of_error next begun] at failed
      injection failed with same
      exact start (same ▸ begun)
  | ok answer middle =>
      rw [bind_of_ok next begun] at failed
      exact rest answer failed

end Patch

/-! ## The standard passes -/

namespace Graph

/-- A node with a single input is removed, or the order does not have it, which is a fault. -/
theorem remove_not_refused {input : TensorRef} {cause : GraphError}
    (found : graph.get id = .ok node) (reads : node.inputs = [input]) :
    graph.remove id true ≠ .error (.error cause) := by
  intro refused
  have only : node.onlyInput? = some input := onlyInput?_eq_some_iff.mpr reads
  simp only [remove, except_ok_bind, node_of_get found, if_true, only] at refused
  exact lift_ne_error refused

end Graph

namespace OutputModes

/-- A patch of output modes is refused for the precision that it reads, ahead of all edits. -/
theorem spares_patch (selection : ModeSelection) (id : NodeId) (graph : Graph α)
    (refusal : PassError → Prop) : (patch selection id).Spares graph refusal := by
  cases read : graph.outputPrecision id with
  | error failure =>
      apply Patch.spares_bind (Patch.leaves_ask _ graph)
      intro answer asked
      cases read.symm.trans (Patch.ask_eq_ok_iff.mp asked).1
  | ok old =>
      obtain ⟨node, there, shape⟩ := except_bind_eq_ok.mp read
      have found := get_eq_ok_of_node there
      cases outputs : node.outputs with
      | nil =>
          rw [outputs] at shape
          cases shape
      | cons output others =>
          intro cause left _ failed
          cases patch_cases selection found outputs with
          | inl refused =>
              obtain ⟨source, _, result⟩ := refused
              rw [result] at failed
              injection failed with _ same
              exact same.symm
          | inr succeeded =>
              obtain ⟨precision, _, result⟩ := succeeded
              cases result.symm.trans failed

end OutputModes

variable [Scalar α]

namespace AffineFusion

open Patch

omit [Scalar α] in
/-- Once two affine maps are read and joined, the joint map can be stored and the second node can be
removed. -/
theorem fuse_not_refused {producer : NodeId} {map nextMap fused : Affine α} {cause : PassError}
    (source : graph.source? id = .ok (some producer)) (read : affineOf graph producer = .ok map)
    (nextRead : affineOf graph id = .ok nextMap) :
    (do
      Patch.edit fun graph => graph.setWeight producer .scale fused.scale
      Patch.edit fun graph => graph.setWeight producer .bias fused.bias
      Patch.edit fun graph => graph.remove id true
      return true : Patch α Bool) graph ≠ .error (.error cause) left := by
  intro failed
  obtain ⟨first, there⟩ := get_of_affineOf read
  obtain ⟨node, found⟩ := get_of_affineOf nextRead
  obtain ⟨scale, bias, hasScale, hasBias, _⟩ := (affineOf_eq_ok_iff there).mp read
  obtain ⟨input, reads, _⟩ := input_of_source? found source
  obtain ⟨middle, setScale, setBias⟩ := exists_setWeight_fused there hasScale hasBias fused
  rw [bind_of_ok _ (edit_of_ok setScale), bind_of_ok _ (edit_of_ok setBias)] at failed
  -- The node still has its input, also if it is its own producer.
  have relisted := get_replace_eq there found (fusedNode first scale bias fused)
  have stillReads : (if id = producer then fusedNode first scale bias fused else node).inputs =
      [input] := by
    split
    · next own =>
        rw [own, there] at found
        rw [(fusedNode_resembles first scale bias fused).inputs, Except.ok.inj found, reads]
    · exact reads
  exact last_edit_not_refused (fun _ => remove_not_refused relisted stillReads) failed

/-- Everything that affine fusion is refused for is read before the first edit. -/
theorem spares_patch (id : NodeId) (graph : Graph α) (refusal : PassError → Prop) :
    (patch id : Patch α Bool).Spares graph refusal := by
  apply spares_bind (leaves_look _ graph)
  intro producer? looked
  have source := (look_eq_ok_iff.mp looked).1
  cases producer? with
  | none =>
      apply spares_bind (leaves_look _ graph)
      intro node _
      exact spares_of_leaves_eq rfl
  | some producer =>
      apply spares_bind (leaves_ask _ graph)
      intro map asked
      apply spares_bind (leaves_ask _ graph)
      intro nextMap askedNext
      have read := (ask_eq_ok_iff.mp asked).1
      have nextRead := (ask_eq_ok_iff.mp askedNext).1
      cases map.andThen nextMap with
      | error shapes =>
          apply spares_bind (leaves_look _ graph)
          intro node _
          exact spares_of_leaves_eq rfl
      | ok fused =>
          intro cause left _ failed
          exact absurd failed (fuse_not_refused source read nextRead)

end AffineFusion

namespace ScaleFactorization

open Patch

/-- The quantizer of a layer, or what it quantizes, is missing. -/
def LacksData (cause : PassError) : Prop :=
  ∃ name what, cause = .missingQuantizerData name what

omit [Scalar α] in
theorem avoids_store (id : NodeId) (role : Role) (weight : Weight α) :
    (store id role weight).Avoids LacksData :=
  avoids_edit _ nofun

theorem avoids_divided (node : Node α) (scale data : Tensor α) :
    (demand (divided node scale data) : Patch α (Tensor α)).Avoids LacksData := by
  apply avoids_demand
  intro cause refused
  unfold divided at refused
  split at refused
  · split at refused
    · cases refused
    · cases refused
      exact nofun
  · cases refused
    exact nofun

theorem avoids_rescaleBias (id : NodeId) (node : Node α) (scale : Tensor α) :
    (rescaleBias id node scale).Avoids LacksData := by
  unfold rescaleBias
  split
  · exact avoids_pure ()
  · apply (avoids_divided node scale _).bind
    intro data
    apply (avoids_store id .bias _).bind
    intro _
    split
    · exact avoids_pure ()
    · apply (avoids_divided node scale _).bind
      intro quotient
      exact avoids_store id .bias _

theorem avoids_insertAlpha (id : NodeId) (scale : Tensor α) :
    (insertAlpha id scale).Avoids LacksData := by
  apply (avoids_ask _ nofun).bind
  intro node
  split
  · exact avoids_fail nofun
  · exact avoids_edit _ nofun

/-- What scale factorization needs of a quantizer it has read before its first edit. -/
theorem spares_patch (id : NodeId) (graph : Graph α) :
    (patch id : Patch α Bool).Spares graph LacksData := by
  apply spares_bind (leaves_look _ graph)
  intro node _
  apply spares_bind (leaves_demand _ graph)
  intro result _
  apply Avoids.spares
  apply (avoids_store id .weight result.1).bind
  intro _
  apply (avoids_rescaleBias id node result.2).bind
  intro _
  apply (avoids_edit _ nofun).bind
  intro _
  apply (avoids_insertAlpha id result.2).bind
  intro _
  exact avoids_pure true

end ScaleFactorization

/-! ## Runs -/

namespace Optimizer

omit [Scalar α]

/-- Patches that succeed, each on the graph that the one before has made. -/
inductive Patched : Graph α → List (NodeId × Pass α) → Graph α → Prop
  | none {graph : Graph α} : Patched graph [] graph
  | more {graph middle final : Graph α} {id : NodeId} {pass : Pass α} {topologyChanged : Bool}
      {patches : List (NodeId × Pass α)} (done : pass.patch id graph = .ok topologyChanged middle)
      (rest : Patched middle patches final) :
      Patched graph ((id, pass) :: patches) final

variable {passes : List (Pass α)} {patches others : List (NodeId × Pass α)} {ids : List NodeId}
  {middle final : Graph α} {rounds : List (Round α)}

theorem Patched.append (first : Patched graph patches middle)
    (second : Patched middle others final) : Patched graph (patches ++ others) final := by
  induction first with
  | none => exact second
  | more done _ inductionHypothesis => exact .more done (inductionHypothesis second)

/-- How a scan stops: at the end, with a patch that fails, or at a node that is not there. -/
inductive Stops (passes : List (Pass α)) (graph : Graph α) :
    Except (Failure PassError) Bool → Graph α → Prop
  | ended (restarted : Bool) : Stops passes graph (.ok restarted) graph
  | failed {id : NodeId} {pass : Pass α} {failure : Failure PassError} {left : Graph α}
      (first : FirstApplies passes graph id pass)
      (result : pass.patch id graph = .error failure left) :
      Stops passes graph (.error failure) left
  | broken (fault : Fault) : Stops passes graph (.error (.fault fault)) graph

/-- A scan makes its patches on the graph and then stops. -/
theorem Walk.stops {outcome : Except (Failure PassError) Bool}
    (walk : Walk passes ids graph patches outcome final) :
    ∃ stopped, Patched graph patches stopped ∧ Stops passes stopped outcome final := by
  induction walk with
  | through => exact ⟨_, .none, .ended false⟩
  | skip _ _ inductionHypothesis => exact inductionHypothesis
  | change _ done _ inductionHypothesis =>
      obtain ⟨stopped, patched, stops⟩ := inductionHypothesis
      exact ⟨stopped, .more done patched, stops⟩
  | restart _ done => exact ⟨_, .more done .none, .ended true⟩
  | failure first failed => exact ⟨_, .none, .failed first failed⟩
  | @fault id rest graph fault broken => exact ⟨graph, .none, .broken fault⟩

theorem Rounds.patched (scans : Rounds passes graph rounds final) :
    Patched graph (rounds.flatMap Round.patches) final := by
  induction scans with
  | none => exact .none
  | more walk _ inductionHypothesis =>
      obtain ⟨stopped, patched, stops⟩ := walk.stops
      cases stops
      exact patched.append inductionHypothesis

/-- A run of passes that spare the graph stops with the graph that its successful patches have
made. -/
theorem refused_of_runWithin {limit : Option Nat} {fuel : Nat} {run : Run α} {cause : PassError}
    (spares : ∀ pass ∈ passes, ∀ (id : NodeId) (graph : Graph α),
      (pass.patch id).Spares graph fun _ => True)
    (ended : (⟨limit, passes⟩ : Optimizer α).runWithin fuel graph = some run)
    (refused : run.outcome = .error (.error cause)) :
    ∃ rounds middle patches id pass, Rounds passes graph rounds middle ∧
      Walk passes middle.order middle patches (.error (.error cause)) run.graph ∧
      Patched graph (rounds.flatMap Round.patches ++ patches) run.graph ∧
      FirstApplies passes run.graph id pass ∧
      pass.patch id run.graph = .error (.error cause) run.graph := by
  obtain ⟨rounds, concludes⟩ := concludes_of_runWithin _ ended
  rw [refused] at concludes
  cases concludes with
  | @failed middle _ patches _ scans busy room walk =>
      obtain ⟨stopped, patched, stops⟩ := walk.stops
      cases stops with
      | @failed id pass _ _ first result =>
          have same : run.graph = stopped := spares pass first.mem id stopped trivial result
          rw [same] at walk result ⊢
          exact ⟨rounds, middle, patches, id, pass, scans, walk, scans.patched.append patched,
            first, result⟩

end Optimizer

theorem StandardPass.spares {kind : StandardPass} (other : kind ≠ .scaleFactorization)
    (id : NodeId) (graph : Graph α) :
    ((kind.pass : Pass α).patch id).Spares graph fun _ => True := by
  cases kind with
  | scaleFactorization => exact absurd rfl other
  | affineFusion => exact AffineFusion.spares_patch id graph _
  | outputModes selection => exact OutputModes.spares_patch selection id graph _

/-- Affine fusion and output modes are refused before they change anything, on any graph and at any
node, and so is scale factorization where a quantizer or its data is missing.  A run without scale
factorization that is refused leaves what its patches have made, up to the one that was refused
there. -/
theorem refused_patches_leave_graph :
    (∀ (graph left : Graph α) (id : NodeId) (cause : PassError),
      AffineFusion.patch id graph = .error (.error cause) left → left = graph) ∧
    (∀ (selection : ModeSelection) (graph left : Graph α) (id : NodeId) (cause : PassError),
      OutputModes.patch selection id graph = .error (.error cause) left → left = graph) ∧
    (∀ (graph left : Graph α) (id : NodeId) (name what : String),
      ScaleFactorization.patch id graph =
        .error (.error (.missingQuantizerData name what)) left → left = graph) ∧
    ∀ (passes : List StandardPass) (limit : Option Nat) (fuel : Nat) (graph : Graph α)
      (run : Run α) (cause : PassError), StandardPass.scaleFactorization ∉ passes →
      Optimizer.runWithin ⟨limit, passes.map StandardPass.pass⟩ fuel graph = some run →
      run.outcome = .error (.error cause) →
      ∃ rounds middle patches id pass, Rounds (passes.map StandardPass.pass) graph rounds middle ∧
        Walk (passes.map StandardPass.pass) middle.order middle patches (.error (.error cause))
          run.graph ∧
        Patched graph (rounds.flatMap Round.patches ++ patches) run.graph ∧
        FirstApplies (passes.map StandardPass.pass) run.graph id pass ∧
        pass.patch id run.graph = .error (.error cause) run.graph := by
  refine ⟨?_, ?_, ?_, ?_⟩
  · intro graph left id cause failed
    exact AffineFusion.spares_patch id graph (fun _ => True) trivial failed
  · intro selection graph left id cause failed
    exact OutputModes.spares_patch selection id graph (fun _ => True) trivial failed
  · intro graph left id name what failed
    exact ScaleFactorization.spares_patch id graph ⟨name, what, rfl⟩ failed
  · intro passes limit fuel graph run cause without ended refused
    apply refused_of_runWithin _ ended refused
    intro pass member
    obtain ⟨kind, among, rfl⟩ := List.mem_map.mp member
    exact kind.spares fun same => without (same ▸ among)

/-- An input, and a layer of a type that is left to others. -/
def untyped : List (Operation Float32) :=
  [.addInput "x" [4] (.fixed 16 6 true .unset),
    .push (.single .dense "fc" .empty [⟨⟨0, 0⟩, 0⟩] [4] (.raw "auto"))]

/-- Saturation for everything in such a model. -/
def saturatingAll : ModeSelection :=
  { layers := ["Input", "Dense"], modes := { saturation := some .sat } }

/-- The input gets its modes before the layer behind it is refused. -/
theorem refused_patches_leave_graph_untyped :
    let graph := (Graph.empty 0).replay untyped
    let passes := [StandardPass.affineFusion, .outputModes saturatingAll]
    (∃ left, AffineFusion.patch ⟨0, 0⟩ graph =
        .error (.error (.graph (.notSingleInput "x" 0))) left ∧ left = graph) ∧
    (∃ left, OutputModes.patch saturatingAll ⟨0, 1⟩ graph =
        .error (.error (.precisionMismatch "fc" (.unrecognized "auto"))) left ∧ left = graph) ∧
    (∃ left, ScaleFactorization.patch ⟨0, 1⟩ graph =
        .error (.error (.missingQuantizerData "fc" "weight tensor")) left ∧ left = graph) ∧
    ∃ run, Optimizer.runWithin ⟨some 9, passes.map StandardPass.pass⟩ 10 graph = some run ∧
      run.outcome = .error (.error (.precisionMismatch "fc" (.unrecognized "auto"))) ∧
      run.graph ≠ graph ∧
      ∃ rounds middle patches id pass, Rounds (passes.map StandardPass.pass) graph rounds middle ∧
        Walk (passes.map StandardPass.pass) middle.order middle patches
          (.error (.error (.precisionMismatch "fc" (.unrecognized "auto")))) run.graph ∧
        Patched graph (rounds.flatMap Round.patches ++ patches) run.graph ∧
        FirstApplies (passes.map StandardPass.pass) run.graph id pass ∧
        pass.patch id run.graph =
          .error (.error (.precisionMismatch "fc" (.unrecognized "auto"))) run.graph := by
  intro graph passes
  obtain ⟨fusion, modes, factorization, runs⟩ := @refused_patches_leave_graph Float32 _
  have unfused : AffineFusion.patch ⟨0, 0⟩ graph =
      .error (.error (.graph (.notSingleInput "x" 0))) graph := by
    rfl
  have unset : OutputModes.patch saturatingAll ⟨0, 1⟩ graph =
      .error (.error (.precisionMismatch "fc" (.unrecognized "auto"))) graph := by
    rfl
  have unscaled : ScaleFactorization.patch ⟨0, 1⟩ graph =
      .error (.error (.missingQuantizerData "fc" "weight tensor")) graph := by
    rfl
  have observed :
      (Optimizer.runWithin ⟨some 9, passes.map StandardPass.pass⟩ 10 graph).map
          (fun run => (run.outcome, decide (run.graph = graph))) =
        some (.error (.error (.precisionMismatch "fc" (.unrecognized "auto"))), false) := by
    decide +kernel
  obtain ⟨run, ended, shown⟩ := Option.map_eq_some_iff.mp observed
  obtain ⟨outcome, different⟩ := Prod.mk.inj shown
  have without : StandardPass.scaleFactorization ∉ passes := by
    decide
  exact ⟨⟨_, unfused, fusion _ _ _ _ unfused⟩, ⟨_, unset, modes _ _ _ _ _ unset⟩,
    ⟨_, unscaled, factorization _ _ _ _ _ unscaled⟩, run, ended, outcome,
    of_decide_eq_false different, runs passes _ _ graph run _ without ended outcome⟩

end QuantNet
