import QuantNet.Proofs.Pass.Fixpoint
import QuantNet.Proofs.Pass.Meaning
import QuantNet.Proofs.Scalar.Laws

/-!
# An optimized graph computes the same outputs

Every patch of a run keeps the outputs of the graph, in exact arithmetic and as long as no
extracted scale has a zero, and so does the run.
-/

namespace QuantNet

open QuantNet.Graph Optimizer

variable {α : Type} [Scalar α] {selection : ModeSelection} {inputs outs : List (Tensor α)}

/-- No scale that patches take out of layers has a zero. -/
def Invertible (patches : List (Pass α × Node α)) : Prop :=
  ∀ scale ∈ scales patches, ∀ s ∈ scale.data, s ≠ 0

theorem invertible_cons {pass : Pass α} {node : Node α} {patches : List (Pass α × Node α)}
    (invertible : Invertible ((pass, node) :: patches)) :
    (∀ scale, pass.extracts? node = some scale → ∀ s ∈ scale.data, s ≠ 0) ∧
      Invertible patches := by
  constructor
  · intro scale extracted
    exact invertible scale (List.mem_filterMap.mpr ⟨_, List.mem_cons_self, extracted⟩)
  · intro scale member
    obtain ⟨patch, among, extracted⟩ := List.mem_filterMap.mp member
    exact invertible scale
      (List.mem_filterMap.mpr ⟨patch, List.mem_cons_of_mem _ among, extracted⟩)

@[simp]
theorem invertible_append {earlier later : List (Pass α × Node α)} :
    Invertible (earlier ++ later) ↔ Invertible earlier ∧ Invertible later := by
  simp only [Invertible, scales, List.filterMap_append, List.forall_mem_append]

/-- A scan that ends without a failure keeps the outputs of the graph. -/
theorem scanNodes_computes
    (laws : Scalar.Lawful α) (unit : Scalar.eq (1 : α) 1 = true) (ids : List NodeId) :
    ∀ (changed : Bool) (progress after : Progress α) (result : ScanResult),
      Invertible (patchesOver (standardPasses α selection) ids progress.graph) →
        progress.graph.Computes inputs outs →
          scanNodes (standardPasses α selection) ids changed progress = (after, .ok result) →
            after.graph.Computes inputs outs := by
  induction ids with
  | nil =>
      intro changed progress after result _ computes done
      obtain ⟨rfl, _⟩ := Prod.mk.inj done
      exact computes
  | cons id rest inductionHypothesis =>
      intro changed progress after result invertible computes done
      rw [patchesOver] at invertible
      cases chosen : choose (standardPasses α selection) progress.graph id with
      | error fault =>
          rw [scanNodes_of_fault chosen] at done
          cases done
      | ok choice =>
          cases choice with
          | none =>
              rw [chosen] at invertible
              rw [scanNodes_of_none chosen] at done
              exact inductionHypothesis changed progress after result invertible computes done
          | some selected =>
              obtain ⟨pass, node⟩ := selected
              cases patched : pass.patch id progress.graph with
              | error failure graph =>
                  rw [scanNodes_of_failure chosen patched] at done
                  cases done
              | ok topologyChanged graph =>
                  simp only [chosen, patched] at invertible
                  obtain ⟨nonzero, later⟩ := invertible_cons invertible
                  obtain ⟨found, rewrite⟩ := rewrite_of_chosen computes.wf chosen patched
                  have still := rewrite.computes laws unit found nonzero computes
                  cases topologyChanged with
                  | true =>
                      rw [scanNodes_of_restart chosen patched] at done
                      obtain ⟨rfl, _⟩ := Prod.mk.inj done
                      exact still
                  | false =>
                      rw [scanNodes_of_change chosen patched] at done
                      rw [if_neg (Bool.false_ne_true)] at later
                      exact inductionHypothesis true _ after result later still done

/-- A run that ends without a failure keeps the outputs of the graph. -/
theorem proceed?_computes
    (laws : Scalar.Lawful α) (unit : Scalar.eq (1 : α) 1 = true) (optimizer : Optimizer α)
    (passes : optimizer.passes = standardPasses α selection) (fuel : Nat) :
    ∀ (progress : Progress α) (run : Run α) (report : Report),
      Invertible (optimizer.patchesWithin fuel progress) →
        progress.graph.Computes inputs outs →
          optimizer.proceed? fuel progress = some run → run.outcome = .ok report →
            run.graph.Computes inputs outs := by
  induction fuel with
  | zero =>
      intro progress run report _ _ ends
      cases ends
  | succ fuel inductionHypothesis =>
      intro progress run report invertible computes ends succeeded
      rw [patchesWithin] at invertible
      rw [proceed?] at ends
      split at ends
      · obtain rfl := Option.some.inj ends
        exact computes
      · next further =>
          rw [further] at invertible
          simp only [Option.isSome_none, Bool.false_eq_true, if_false, invertible_append]
            at invertible
          obtain ⟨now, later⟩ := invertible
          split at ends
          · obtain rfl := Option.some.inj ends
            cases succeeded
          · next after result scanned =>
              rw [scanned] at later
              have still : after.graph.Computes inputs outs := by
                rw [scan, passes] at scanned
                rw [passes] at now
                exact scanNodes_computes laws unit _ false
                  { progress with scans := progress.scans + 1 } after result now computes scanned
              dsimp only at ends
              split at ends
              · obtain rfl := Option.some.inj ends
                exact still
              · next more =>
                  simp only [if_neg more] at later
                  exact inductionHypothesis _ run report later still ends succeeded

theorem Settings.computes
    (laws : Scalar.Lawful α) (unit : Scalar.eq (1 : α) 1 = true) {settings : Settings}
    {graph : Graph α} {run : Run α} {report : Report}
    (nonzero : ∀ scale ∈ settings.scales graph, ∀ s ∈ scale.data, s ≠ 0)
    (computes : graph.Computes inputs outs) (ends : settings.optimize? graph = some run)
    (succeeded : run.outcome = .ok report) :
    run.graph.Computes inputs outs := by
  unfold Settings.scales Settings.patches at nonzero
  unfold Settings.optimize? at ends
  split at ends
  · next enabled =>
      rw [if_pos enabled] at nonzero
      exact proceed?_computes laws unit settings.optimizer rfl _ _ run report nonzero computes ends
        succeeded
  · obtain rfl := Option.some.inj ends
    exact computes

/-- Optimization preserves what a graph computes in exact arithmetic, whatever power of two a
number is rounded to: a graph from any history of operations, with first outputs and native weights
only and with the weights of its scaled layers quantized, gives the same outputs for the same inputs
after a run that does not fail and extracts no scale with a zero. -/
theorem optimize_preserves_outputs
    (exponent : ℚ → ℤ) (tag : Nat) (history : List (Operation (Exact.Number exponent)))
    (settings : Settings) (inputs outs : List (Tensor (Exact.Number exponent)))
    (run : Run (Exact.Number exponent)) (report : Report)
    (plain : ((empty tag).replay history).Plain)
    (evaluated : ((empty tag).replay history).evaluate inputs = .ok outs)
    (ends : settings.optimize? ((empty tag).replay history) = some run)
    (succeeded : run.outcome = .ok report)
    (nonzero : ∀ scale ∈ settings.scales ((empty tag).replay history), ∀ s ∈ scale.data, s ≠ 0) :
    run.graph.evaluate inputs = .ok outs := by
  have wf := (WellFormed.empty tag).replay history
  have valued := wf.evaluate_eq_ok_iff_valuation.mp evaluated
  have computes : run.graph.Computes inputs outs :=
    Settings.computes (Exact.lawful exponent) (Exact.eq_one exponent) nonzero ⟨wf, plain, valued⟩
      ends succeeded
  exact computes.wf.evaluate_eq_ok_iff_valuation.mpr computes.valued

abbrev Rational : Type :=
  Exact.Number fun _ => 0

/-- A precision for every tensor of a model. -/
def wide : Precision :=
  .fixed 16 6 true .unset

/-- A quantizer with a scale of two, whose levels have five bits behind the point. -/
def doubling : WeightQuantizer Rational :=
  ⟨⟨.fixedPoint 8 2 true, some (.fixed (2 : ℚ))⟩, .native⟩

/-- The weights of a layer before and after they are quantized. -/
def roughWeights : Tensor Rational × Tensor Rational :=
  ((⟨[2, 1], #[3, 1 / 3], rfl⟩ : Tensor ℚ), (⟨[2, 1], #[3, 5 / 16], rfl⟩ : Tensor ℚ))

/-- A dense layer with a scale of two in its weights. -/
def doubledLayer : Node Rational :=
  (Node.single .dense "dense" (.ofList [("weight_quantizer", .quantizer doubling.config)])
      [⟨⟨0, 0⟩, 0⟩] [1, 1] wide)
    |>.withWeight .bias { data := .ofList [(1 : ℚ)] }
    |>.withWeight .weight
      { data := roughWeights.2, unquantized := some roughWeights.1, quantizer := some doubling }

def normalization : Node Rational :=
  (Node.single .batchNormalization "norm" .empty [⟨⟨0, 1⟩, 0⟩] [1, 1] wide)
    |>.withWeight .scale { data := .ofList [(2 : ℚ)] }
    |>.withWeight .bias { data := .ofList [(1 : ℚ)] }

/-- The operations that build a model with both. -/
def doubledOperations : List (Operation Rational) :=
  [.addInput "x" [1, 2] wide, .push doubledLayer, .push normalization, .addOutput ⟨⟨0, 2⟩, 0⟩]

/-- Its weights are those that the quantizer makes. -/
private theorem plain_doubledLayer : doubledLayer.Plain := by
  have made : Weight.quantized? roughWeights.1 doubling =
      some ⟨roughWeights.2, some roughWeights.1, some doubling⟩ := by
    decide +kernel
  refine ⟨by decide, ?_, Node.requantizes_of_quantized? made rfl rfl⟩
  have single := Node.native_single .dense "dense"
    (.ofList [("weight_quantizer", .quantizer doubling.config)]) [⟨⟨0, 0⟩, 0⟩] [1, 1] wide
  refine (single.withWeight fun _ same => by cases same).withWeight fun quantizer same => ?_
  exact Option.some.inj same ▸ rfl

private theorem plain_normalization : normalization.Plain := by
  have single := Node.native_single .batchNormalization "norm"
    (.empty : Table String (Attr Rational)) [⟨⟨0, 1⟩, 0⟩] [1, 1] wide
  refine Node.plain_of_unscaled (by decide) ?_ (ScaleFactorization.isScaled_of_affine rfl)
  exact (single.withWeight fun _ same => by cases same).withWeight fun _ same => by cases same

private theorem plain_doubledModel : ((empty 0).replay doubledOperations).Plain := by
  have slots : ((empty 0).replay doubledOperations).slots =
      [some (Node.single .input "x" .empty [] [1, 2] wide), some doubledLayer,
        some normalization] := by
    decide +kernel
  refine ⟨fun index node listed => ?_, by decide +kernel⟩
  have member := List.mem_of_getElem? (find?_eq_some_iff.mp listed)
  simp only [slots, List.mem_cons, Option.some.injEq, List.not_mem_nil, or_false] at member
  rcases member with rfl | rfl | rfl
  · exact Node.plain_of_unscaled (by decide) (Node.native_single _ _ _ _ _ _) rfl
  · exact plain_doubledLayer
  · exact plain_normalization

/-- The optimizer takes the scale out of the layer and fuses it with the batch normalization, and
the model still gives nineteen for one and sixteen. -/
theorem optimize_preserves_doubledModel :
    ∃ run, ({} : Settings).optimize? ((empty 0).replay doubledOperations) = some run ∧
      run.outcome = .ok ⟨3, 2, true⟩ ∧
        run.graph.evaluate [(⟨[1, 2], #[1, 16], rfl⟩ : Tensor ℚ)] =
          .ok [(⟨[1, 1], #[19], rfl⟩ : Tensor ℚ)] := by
  have ended : (({} : Settings).optimize? ((empty 0).replay doubledOperations)).map Run.outcome =
      some (.ok ⟨3, 2, true⟩) := by
    decide +kernel
  obtain ⟨run, ends, succeeded⟩ := Option.map_eq_some_iff.mp ended
  refine ⟨run, ends, succeeded, ?_⟩
  exact optimize_preserves_outputs (fun _ => 0) 0 doubledOperations {} _ _ run _
    plain_doubledModel (by decide +kernel) ends succeeded (by decide +kernel)

end QuantNet
