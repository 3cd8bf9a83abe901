import QuantNet.Proofs.Pass.Ownership

/-!
# What a run uses up

A factorization uses up a scaled layer and makes an affine node, a fusion uses up an affine node,
and output modes leave both numbers as they are.  With it goes an account of the run: how often
each pass was applied, and where the scales of the layers have gone.
-/

namespace QuantNet

def Event.isBy (pass : String) : Event → Bool
  | applied name _ _ => name = pass
  | _ => false

/-- How often a pass was applied, by the log. -/
def applications (pass : String) (log : List Event) : Nat :=
  log.countP (Event.isBy pass)

open QuantNet.Graph ScaleFactorization

variable {α : Type} [Scalar α] {selection : ModeSelection} {graph changed start : Graph α}
  {id : NodeId} {node : Node α} {pass : Pass α} {topologyChanged : Bool} {progress : Progress α}

omit [Scalar α] in
private theorem applications_applied (pass : Pass α) (name : String) :
    applications name (progress.applied pass node topologyChanged graph).log =
      applications name progress.log + (decide (pass.name = name)).toNat := by
  simp only [applications, Progress.applied, Progress.note, List.countP_append,
    List.countP_singleton, Event.isBy]
  by_cases same : pass.name = name <;> simp [same]

/-! ## What a rewrite leaves -/

namespace Rewrite

theorem wellFormed
    (rewrite : Rewrite selection graph id node pass topologyChanged changed)
    (wf : graph.WellFormed) (found : graph.get id = .ok node) :
    changed.WellFormed := by
  obtain ⟨named, listed⟩ := listed_of_get found
  cases rewrite with
  | @factor weight scale bias output others scaled unit divided outputs =>
      have exist := hasTensor_replace found ((unitNode_outputs node weight bias).trans outputs)
      refine (wf.replace listed (unitNode_resembles node weight bias)).placed ?_ ?_ rfl
      · exact List.cons_ne_nil _ _
      · intro input member
        rw [List.mem_singleton.mp member]
        exact exist
  | @fuse input first scale bias _ _ fused reads _ source =>
      have sourceListed := (listed_of_get source).2
      have fusedWf := wf.replace sourceListed
        (AffineFusion.fusedNode_resembles first scale bias fused)
      have apart := wf.source_index_ne found reads source
      have relisted := (find?_replace_of_ne apart
        (AffineFusion.fusedNode first scale bias fused)).trans listed
      rw [named]
      exact fusedWf.bypassed relisted reads
  | @setModes output others precision lacks outputs set =>
      exact wf.replace listed (OutputModes.withPrecision_resembles precision outputs)

theorem tag_eq (rewrite : Rewrite selection graph id node pass topologyChanged changed) :
    changed.tag = graph.tag := by
  cases rewrite <;> rfl

theorem issued_le (rewrite : Rewrite selection graph id node pass topologyChanged changed) :
    graph.issued ≤ changed.issued := by
  cases rewrite with
  | factor => simp [factored, placed, rename, replace, issued]
  | fuse => simp [bypassed, dropped, rename, replace, issued]
  | setModes => simp [replace, issued]

/-- The scaled layers and the affine nodes that a rewrite uses up. -/
theorem counts
    (unit : Scalar.eq (1 : α) 1 = true)
    (rewrite : Rewrite selection graph id node pass topologyChanged changed)
    (wf : graph.WellFormed) (found : graph.get id = .ok node) :
    changed.count isScaled +
          (decide (pass.name = (ScaleFactorization.pass : Pass α).name)).toNat =
        graph.count isScaled ∧
      changed.count (fun node => node.kind.isAffine) +
          (decide (pass.name = (AffineFusion.pass : Pass α).name)).toNat =
        graph.count (fun node => node.kind.isAffine) +
          (decide (pass.name = (ScaleFactorization.pass : Pass α).name)).toNat := by
  obtain ⟨named, listed⟩ := listed_of_get found
  cases rewrite with
  | @factor weight scale bias output others scaled factor divided outputs =>
      let layer := unitNode node weight bias
      have resembles := unitNode_resembles node weight bias
      have layerWf := wf.replace listed resembles
      have exist := hasTensor_replace found ((unitNode_outputs node weight bias).trans outputs)
      have unscaled : isScaled layer = false := isScaled_unitNode unit weight bias
      have alpha : isScaled (alphaNode id layer output scale) = false := isScaled_of_affine rfl
      have rewritten := wf.linked.count_replace listed layer isScaled
      rw [scaled, unscaled] at rewritten
      have placed :=
        layerWf.linked.count_placed exist stable_isScaled (alphaNode id layer output scale)
      rw [alpha] at placed
      have affine := wf.linked.count_replace_of_eq listed layer (fun node => node.kind.isAffine)
        (congrArg LayerKind.isAffine resembles.kind)
      have placedAffine :=
        layerWf.linked.count_placed exist stable_isAffine (alphaNode id layer output scale)
      constructor
      · exact (congrArg (· + 1) placed).trans rewritten
      · exact placedAffine.trans (congrArg (· + 1) affine)
  | @fuse input first scale bias _ _ fused reads affine source =>
      let firstFused := AffineFusion.fusedNode first scale bias fused
      have sourceListed := (listed_of_get source).2
      have fusedWf := wf.replace sourceListed
        (AffineFusion.fusedNode_resembles first scale bias fused)
      have relisted := (find?_replace_of_ne (wf.source_index_ne found reads source)
        firstFused).trans listed
      have exist := fusedWf.reads relisted input (reads ▸ List.mem_singleton_self input)
      have bypassed := fusedWf.linked.count_bypassed stable_isScaled exist relisted
      have bypassedAffine := fusedWf.linked.count_bypassed stable_isAffine exist relisted
      have same : (graph.replace input.node.index firstFused).handle id.index = id := named.symm
      rw [same, isScaled_of_affine affine] at bypassed
      rw [same, affine] at bypassedAffine
      constructor
      · exact bypassed.trans (wf.linked.count_replace_of_eq sourceListed firstFused _ rfl)
      · exact bypassedAffine.trans (wf.linked.count_replace_of_eq sourceListed firstFused _ rfl)
  | @setModes output others precision lacks outputs set =>
      have resembles := OutputModes.withPrecision_resembles precision outputs
      have affine := congrArg LayerKind.isAffine resembles.kind
      constructor
      · exact wf.linked.count_replace_of_eq listed _ isScaled
          (isScaled_withPrecision output others precision)
      · exact wf.linked.count_replace_of_eq listed _ (fun node => node.kind.isAffine) affine

end Rewrite

/-! ## Where the scales go -/

/-- What has become of a layer that is scaled at the start: it still is, or it owns a node that was
not there at the start. -/
inductive Fate (start graph : Graph α) (layer : Nat) : Prop
  | scaled {node : Node α} (listed : graph.find? layer = some node)
      (still : isScaled node = true)
  | owns {alpha : Nat} (fresh : start.issued ≤ alpha) (own : graph.Owns layer alpha)

theorem Rewrite.owns
    (unit : Scalar.eq (1 : α) 1 = true)
    (rewrite : Rewrite selection graph id node pass topologyChanged changed)
    (found : graph.get id = .ok node) {layer alpha : Nat} (own : graph.Owns layer alpha) :
    changed.Owns layer alpha := by
  obtain ⟨named, listed⟩ := listed_of_get found
  obtain ⟨old, scale, there, behind, weighted, unscaled, _, _, reads⟩ := own.nodes
  cases rewrite with
  | @factor weight _ bias output others scaled =>
      have elsewhere : (⟨id, 0⟩ : TensorRef) ≠ ⟨graph.handle layer, 0⟩ := by
        intro same
        have here : id.index = layer := congrArg (fun ref => ref.node.index) same
        rw [here, there, Option.some.injEq] at listed
        rw [listed, scaled] at unscaled
        cases unscaled
      have rewritten := own.replace listed (unitNode_resembles node weight bias) fun _ =>
        isScaled_unitNode unit weight bias
      exact rewritten.placed elsewhere rfl
  | @fuse input first firstScale firstBias _ _ fused single affine source sourceAffine =>
      have sourceListed := (listed_of_get source).2
      have elsewhere : input ≠ ⟨graph.handle layer, 0⟩ := by
        intro same
        rw [same] at sourceListed
        have here : first = old := Option.some.inj (sourceListed.symm.trans there)
        rw [here] at sourceAffine
        rw [LayerKind.isAffine_of_isWeighted weighted] at sourceAffine
        cases sourceAffine
      have layerStays : layer ≠ id.index := by
        intro same
        rw [same, listed, Option.some.injEq] at there
        rw [there, LayerKind.isAffine_of_isWeighted weighted] at affine
        cases affine
      have alphaStays : alpha ≠ id.index := by
        intro same
        rw [same, listed, Option.some.injEq] at behind
        rw [behind, reads, List.singleton_inj] at single
        exact elsewhere single.symm
      have rewritten := own.replace sourceListed
        (AffineFusion.fusedNode_resembles first firstScale firstBias fused) fun unscaled => unscaled
      rw [named]
      exact rewritten.bypassed layerStays alphaStays elsewhere
  | @setModes output others precision lacks outputs =>
      refine own.replace listed (OutputModes.withPrecision_resembles precision outputs) ?_
      intro unscaled
      rw [isScaled_withPrecision, unscaled]

/-- A layer that is factorized owns the new node. -/
private theorem owns_factored
    (unit : Scalar.eq (1 : α) 1 = true) (found : graph.get id = .ok node)
    (scaled : isScaled node = true) (weight : Weight α) (bias : Option (Weight α))
    (output : Output) (scale : Tensor α) :
    (factored graph id (unitNode node weight bias) output scale).Owns id.index graph.issued := by
  let layer := unitNode node weight bias
  obtain ⟨named, listed⟩ := listed_of_get found
  have relisted : (graph.replace id.index layer).find? id.index = some layer := by
    rw [find?_replace listed, if_pos rfl]
  have weighted : layer.kind.isWeighted = true := by
    rw [(unitNode_resembles node weight bias).kind]
    exact isWeighted_of_scaled scaled
  have here : (graph.replace id.index layer).handle id.index = id := named.symm
  have reads : (alphaNode id layer output scale).inputs =
      [⟨(graph.replace id.index layer).handle id.index, 0⟩] := by
    rw [here]
    rfl
  have own := owns_placed relisted weighted (isScaled_unitNode unit weight bias)
    (rfl : (alphaNode id layer output scale).kind = .applyAlpha) rfl reads
  rwa [here, issued_replace] at own

/-- Any other node stays, with its inputs renamed. -/
private theorem find?_factored_of_ne
    {other : Nat} {old : Node α} (there : graph.find? other = some old) (apart : other ≠ id.index)
    (layer : Node α) (output : Output) (scale : Tensor α) :
    (factored graph id layer output scale).find? other =
      some (old.rename (TensorRef.instead ⟨id, 0⟩ ⟨graph.handle graph.issued, 0⟩)) := by
  have early : other ≠ (graph.replace id.index layer).issued := by
    rw [issued_replace]
    exact Nat.ne_of_lt (issued_of_find? there)
  rw [factored, find?_placed, if_neg early, find?_replace_of_ne apart, there, Option.map_some,
    issued_replace]
  rfl

theorem Rewrite.fate
    (unit : Scalar.eq (1 : α) 1 = true)
    (rewrite : Rewrite selection graph id node pass topologyChanged changed)
    (found : graph.get id = .ok node) (later : start.issued ≤ graph.issued)
    {layer : Nat} (fate : Fate start graph layer) :
    Fate start changed layer := by
  cases fate with
  | owns fresh own =>
      exact .owns fresh (rewrite.owns unit found own)
  | @scaled old there still =>
      have listed := (listed_of_get found).2
      cases rewrite with
      | @factor weight scale bias output others scaled =>
          by_cases here : layer = id.index
          · subst here
            exact .owns later (owns_factored unit found scaled weight bias output scale)
          · exact .scaled (find?_factored_of_ne there here _ output scale) still
      | @fuse input first firstScale firstBias _ _ fused single affine source sourceAffine =>
          have apart : ∀ {index : Nat} {other : Node α}, graph.find? index = some other →
              other.kind.isAffine = true → layer ≠ index := by
            intro index other listed affine same
            rw [same, listed, Option.some.injEq] at there
            rw [there, isAffine_of_scaled still] at affine
            cases affine
          have rewritten := (find?_replace_of_ne (apart (listed_of_get source).2 sourceAffine)
            (AffineFusion.fusedNode first firstScale firstBias fused)).trans there
          have renamed := find?_rename_eq_some_iff.mpr
            ⟨old, rewritten, (rfl : old.rename (TensorRef.past id input) = _)⟩
          exact .scaled (find?_dropped_eq_some_iff.mpr ⟨renamed, apart listed affine⟩) still
      | @setModes output others precision lacks outputs =>
          by_cases here : layer = id.index
          · subst here
            have same : old = node := Option.some.inj (there.symm.trans listed)
            have relisted := find?_replace listed
              (OutputModes.withPrecision node output others precision) id.index
            rw [if_pos rfl] at relisted
            refine .scaled relisted ?_
            rw [isScaled_withPrecision, ← same, still]
          · exact .scaled ((find?_replace_of_ne here _).trans there) still

/-! ## The account of a run -/

/-- How a run stands that has come from some graph. -/
structure Stage (start : Graph α) (progress : Progress α) : Prop where
  wf : progress.graph.WellFormed
  tagged : progress.graph.tag = start.tag
  later : start.issued ≤ progress.graph.issued
  /-- Every layer that is scaled at the start is factorized once or still scaled. -/
  factorizations :
    progress.graph.count isScaled +
        applications (ScaleFactorization.pass : Pass α).name progress.log =
      start.count isScaled
  /-- Affine nodes come by factorizations and go by fusions. -/
  fusions :
    progress.graph.count (fun node => node.kind.isAffine) +
        applications (AffineFusion.pass : Pass α).name progress.log =
      start.count (fun node => node.kind.isAffine) +
        applications (ScaleFactorization.pass : Pass α).name progress.log
  fates : ∀ ⦃layer node⦄, start.find? layer = some node → isScaled node = true →
    Fate start progress.graph layer

theorem Stage.initial (wf : start.WellFormed) : Stage start { graph := start } where
  wf := wf
  tagged := rfl
  later := Nat.le_refl start.issued
  factorizations := rfl
  fusions := rfl
  fates := fun _ _ listed scaled => .scaled listed scaled

theorem Stage.applied
    (unit : Scalar.eq (1 : α) 1 = true) (stage : Stage start progress)
    (found : progress.graph.get id = .ok node)
    (rewrite : Rewrite selection progress.graph id node pass topologyChanged changed) :
    Stage start (progress.applied pass node topologyChanged changed) := by
  obtain ⟨scaled, affine⟩ := rewrite.counts unit stage.wf found
  have factorizations := stage.factorizations
  have fusions := stage.fusions
  refine ⟨rewrite.wellFormed stage.wf found, rewrite.tag_eq.trans stage.tagged,
    Nat.le_trans stage.later rewrite.issued_le, ?_, ?_, fun layer old listed old_scaled =>
      rewrite.fate unit found stage.later (stage.fates listed old_scaled)⟩
  · rw [applications_applied]
    have graph : (progress.applied pass node topologyChanged changed).graph = changed := rfl
    rw [graph]
    omega
  · rw [applications_applied, applications_applied]
    have graph : (progress.applied pass node topologyChanged changed).graph = changed := rfl
    rw [graph]
    omega

/-- How many changes of the topology a graph has room for: a scaled layer is factorized, and the
node that this makes is fused. -/
def room (graph : Graph α) : Nat :=
  2 * graph.count isScaled + graph.count fun node => node.kind.isAffine

/-- A change of the topology takes some of the room, and other rewrites leave it as it is. -/
theorem Rewrite.room_add
    (unit : Scalar.eq (1 : α) 1 = true)
    (rewrite : Rewrite selection graph id node pass topologyChanged changed)
    (wf : graph.WellFormed) (found : graph.get id = .ok node) :
    room changed + topologyChanged.toNat = room graph := by
  obtain ⟨scaled, affine⟩ := rewrite.counts unit wf found
  have names : (decide (pass.name = (ScaleFactorization.pass : Pass α).name)).toNat +
      (decide (pass.name = (AffineFusion.pass : Pass α).name)).toNat = topologyChanged.toNat := by
    cases rewrite <;> rfl
  unfold room
  omega

end QuantNet
