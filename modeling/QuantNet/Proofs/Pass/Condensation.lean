import QuantNet.Proofs.Pass.Chains
import QuantNet.Scalar.Exact

/-!
# What a run of affine fusion leaves

Affine fusion alone always finds the first node that it applies to behind a head that stays, merges
it, and starts over.  The graph that it leaves can be told from the graph at the start: every chain
is merged into its head, in the order of the chain, and nothing else has changed.
-/

namespace QuantNet

/-! ## Graphs with merged chains -/

/-- A tensor of a node that is merged into another one is the tensor of that one. -/
def TensorRef.headed (heads : NodeId → NodeId) (ref : TensorRef) : TensorRef :=
  ⟨heads ref.node, ref.output⟩

section Condensed

variable {α : Type} [Scalar α]

/-- A graph in which every chain of another one is merged into its head. -/
structure Condensed (start final : Graph α) (heads : NodeId → NodeId) : Prop where
  stays : ∀ id ∈ start.order, id ∉ start.fusable → heads id = id
  leads : ∀ id ∈ start.fusable, heads id ∉ start.fusable ∧
    ∃ chain, start.ChainFrom (heads id) chain ∧ id ∈ chain
  order : final.order = start.order.filter fun id => id ∉ start.fusable
  outputs : final.outputs = start.outputs.map (TensorRef.headed heads)
  nodes : ∀ id ∈ final.order, ∃ chain old new, start.ChainFrom id chain ∧
    start.get id = .ok old ∧ start.Joined old chain new ∧
      final.get id = .ok (new.rename (TensorRef.headed heads))

open QuantNet.Graph

variable {graph final : Graph α}

theorem Condensed.refl (wf : graph.WellFormed) (none : graph.fusable = []) :
    Condensed graph graph id := by
  have same : TensorRef.headed id = id := rfl
  have renamed : ∀ node : Node α, node.rename (TensorRef.headed id) = node := by
    intro node
    rw [same, Node.rename, List.map_id]
  refine ⟨fun _ _ _ => rfl, fun id member => ?_, ?_, ?_, fun id member => ?_⟩
  · rw [none] at member
    cases member
  · simp [none]
  · rw [same, List.map_id]
  · obtain ⟨node, found⟩ := wf.mem_order_iff.mp member
    refine ⟨[], node, node, .last fun next fuses => ?_, found, .alone, ?_⟩
    · have member := wf.mem_fusable_iff.mpr ⟨id, wf.fusesOnto_iff.mp fuses⟩
      rw [none] at member
      cases member
    · rw [renamed]
      exact found

variable {head gone : NodeId} {first new node : Node α} {scale bias : Weight α} {fused : Affine α}
  {heads : NodeId → NodeId} {chain : List NodeId}

omit [Scalar α] in
/-- After the first fusion the users of the merged node are with the head, where they stay. -/
private theorem Graph.Merge.headed_past
    (merge : graph.Merge head gone first new) (self : heads head = head) {ref : TensorRef}
    (exist : graph.hasTensor ref = true) :
    (TensorRef.past gone ⟨head, 0⟩ ref).headed heads =
      ref.headed fun id => if id = gone then head else heads id := by
  by_cases own : ref.node = gone
  · rw [TensorRef.past_of_eq own, TensorRef.headed, TensorRef.headed, self, if_pos own,
      merge.sole.output_eq_zero exist]
  · rw [TensorRef.past_of_ne own, TensorRef.headed, TensorRef.headed, if_neg own]

theorem Graph.Joined.inputs_eq (joined : graph.Joined node chain new) :
    new.inputs = node.inputs := by
  cases joined <;> rfl

omit [Scalar α] in
theorem Graph.Merge.mem_fusable_iff (merge : graph.Merge head gone first new) {id : NodeId} :
    id ∈ (graph.merged head gone new).fusable ↔ id ∈ graph.fusable ∧ id ≠ gone := by
  rw [merge.fusable, List.mem_filter, bne_iff_ne]

omit [Scalar α] in
theorem Graph.Merge.gone_mem_fusable (merge : graph.Merge head gone first new) :
    gone ∈ graph.fusable :=
  merge.wf.mem_fusable_iff.mpr ⟨head, merge.onto⟩

omit [Scalar α] in
theorem Graph.Merge.head_not_mem_fusable (merge : graph.Merge head gone first new) :
    head ∉ graph.fusable := fun member =>
  (merge.wf.mem_fusable_iff.mp member).elim merge.free

/-- The head of the first fusion stays in the end. -/
theorem Condensed.head_mem
    (merge : graph.Merge head gone first new)
    (condensed : Condensed (graph.merged head gone new) final heads) :
    head ∈ final.order ∧ heads head = head := by
  have live : head ∈ (graph.merged head gone new).order := by
    rw [merge.order, List.mem_filter, bne_iff_ne]
    exact ⟨merge.wf.mem_order_iff.mpr ⟨first, merge.source⟩, merge.onto.ne merge.wf⟩
  have unfused : head ∉ (graph.merged head gone new).fusable := fun member =>
    merge.head_not_mem_fusable (merge.mem_fusable_iff.mp member).1
  refine ⟨?_, condensed.stays head live unfused⟩
  rw [condensed.order, List.mem_filter]
  exact ⟨live, decide_eq_true unfused⟩

/-- A node that is fused later is in a chain that was there before, or in the rest of the chain from
the head. -/
private theorem Condensed.leads_of_merged
    (merge : graph.Merge head gone first new)
    (condensed : Condensed (graph.merged head gone new) final heads) {id : NodeId}
    (member : id ∈ (graph.merged head gone new).fusable) :
    heads id ∉ graph.fusable ∧ ∃ chain, graph.ChainFrom (heads id) chain ∧ id ∈ chain := by
  obtain ⟨unfused, chain, chained, among⟩ := condensed.leads id member
  have stays : heads id ≠ gone := by
    cases chained with
    | last => cases among
    | link fuses =>
        obtain ⟨_, there, _⟩ := (merge.wellFormed.fusesOnto_iff.mp fuses).source
        exact (merge.get_iff.mp there).1
  refine ⟨fun fused => unfused (merge.mem_fusable_iff.mpr ⟨fused, stays⟩), ?_⟩
  by_cases own : heads id = head
  · rw [own] at chained ⊢
    exact ⟨gone :: chain, merge.chainFrom_head chained, List.mem_cons_of_mem gone among⟩
  · exact ⟨chain, merge.chainFrom_of_ne chained own stays, among⟩

/-- What condenses the graph after the first fusion condenses the graph. -/
theorem Condensed.of_merged
    (merge : graph.Merge head gone first (AffineFusion.fusedNode first scale bias fused))
    (fusion : graph.Fusion gone first scale bias fused)
    (condensed : Condensed
      (graph.merged head gone (AffineFusion.fusedNode first scale bias fused)) final heads) :
    Condensed graph final fun id => if id = gone then head else heads id := by
  obtain ⟨headStays, self⟩ := condensed.head_mem merge
  have renamed : ∀ node : Node α, (∀ input ∈ node.inputs, graph.hasTensor input = true) →
      (node.rename (TensorRef.past gone ⟨head, 0⟩)).rename (TensorRef.headed heads) =
        node.rename (TensorRef.headed fun id => if id = gone then head else heads id) := by
    intro node exist
    simp only [Node.rename, List.map_map]
    congr 1
    exact List.map_congr_left fun input member => merge.headed_past self (exist input member)
  refine ⟨fun id member unfused => ?_, fun id member => ?_, ?_, ?_, fun id member => ?_⟩
  · have apart : id ≠ gone := by
      rintro rfl
      exact unfused merge.gone_mem_fusable
    rw [if_neg apart]
    refine condensed.stays id ?_ fun fused => unfused (merge.mem_fusable_iff.mp fused).1
    rw [merge.order, List.mem_filter, bne_iff_ne]
    exact ⟨member, apart⟩
  · by_cases here : id = gone
    · subst here
      obtain ⟨chain, _, _, chained, _⟩ := condensed.nodes head headStays
      rw [if_pos rfl]
      exact ⟨merge.head_not_mem_fusable, id :: chain, merge.chainFrom_head chained,
        List.mem_cons_self⟩
    · rw [if_neg here]
      exact condensed.leads_of_merged merge (merge.mem_fusable_iff.mpr ⟨member, here⟩)
  · rw [condensed.order, merge.order, List.filter_filter]
    apply List.filter_congr
    intro id _
    by_cases here : id = gone
    · simp [here, merge.gone_mem_fusable]
    · simp [here, merge.mem_fusable_iff]
  · have outputs : (graph.merged head gone
        (AffineFusion.fusedNode first scale bias fused)).outputs =
          graph.outputs.map (TensorRef.past gone ⟨head, 0⟩) := rfl
    rw [condensed.outputs, outputs, List.map_map]
    exact List.map_congr_left fun ref member =>
      merge.headed_past self (merge.wf.exports ref member)
  · obtain ⟨chain, _, new, chained, there, joined, result⟩ := condensed.nodes id member
    have others := merge.of_mem_chain chained
    obtain ⟨stays, old, rfl, ⟨rfl, rfl⟩ | ⟨apart, before⟩⟩ := merge.get_iff.mp there
    · obtain ⟨node, rfl, joinedBefore⟩ := merge.joined_head fusion joined others
      refine ⟨gone :: chain, first, node, merge.chainFrom_head chained, merge.source, joinedBefore,
        ?_⟩
      rw [result, renamed node]
      rw [joinedBefore.inputs_eq]
      exact merge.wf.reads (listed_of_get merge.source).2
    · obtain ⟨node, rfl, joinedBefore⟩ := merge.joined_of_ne joined others
      refine ⟨chain, old, node, merge.chainFrom_of_ne chained apart stays, before, joinedBefore, ?_⟩
      rw [result, renamed node]
      rw [joinedBefore.inputs_eq]
      exact merge.wf.reads (listed_of_get before).2

end Condensed

/-! ## Runs of affine fusion -/

section Runs

open QuantNet.Graph Optimizer

variable {α : Type} [Scalar α] {graph : Graph α}

/-- Affine fusion alone, for as long as it takes. -/
def fusionOnly (α : Type) [Scalar α] : Optimizer α where
  limit := none
  passes := [AffineFusion.pass]

private theorem choose_of_not_mem_fusable
    (wf : graph.WellFormed) {id : NodeId} (live : id ∈ graph.order) (unfused : id ∉ graph.fusable) :
    choose [(AffineFusion.pass : Pass α)] graph id = .ok none := by
  obtain ⟨node, found⟩ := wf.mem_order_iff.mp live
  obtain ⟨answer, result⟩ := AffineFusion.applies_eq_ok wf found
  refine choose_eq_none_of_get found fun pass member => ?_
  rw [List.mem_singleton.mp member, result]
  cases answer with
  | false => rfl
  | true =>
      have fused := wf.mem_fusable_iff.mpr (wf.applies_iff_fuses.mp result)
      exact absurd fused unfused

/-- The first node in the order that is fused is merged into a head that stays, or the fusion
fails. -/
theorem Graph.WellFormed.fusion_cases
    (wf : graph.WellFormed) (sole : graph.SoleOutputs) {front back : List NodeId} {gone : NodeId}
    (order : graph.order = front ++ gone :: back) (unfused : ∀ id ∈ front, id ∉ graph.fusable)
    (fused : gone ∈ graph.fusable) :
    (∃ cause, AffineFusion.patch gone graph = .error (.error cause) graph) ∨
      ∃ head first scale bias joint,
        graph.Merge head gone first (AffineFusion.fusedNode first scale bias joint) ∧
          graph.Fusion gone first scale bias joint ∧
            AffineFusion.patch gone graph = .ok true
              (graph.merged head gone (AffineFusion.fusedNode first scale bias joint)) := by
  obtain ⟨head, onto⟩ := wf.mem_fusable_iff.mp fused
  obtain ⟨node, found, reads, _⟩ := onto.reader
  obtain ⟨first, source, _⟩ := onto.source
  have earlier : head ∈ front := by
    have before := onto.before wf
    rw [Before, order] at before
    exact mem_front_of_pair (order ▸ wf.nodup) before
  have free : ∀ producer, ¬ graph.Fuses producer head := fun producer fuses =>
    unfused head earlier (wf.mem_fusable_iff.mpr ⟨producer, fuses⟩)
  rcases AffineFusion.patch_cases found reads wf source with
    ⟨cause, failed⟩ | ⟨scale, bias, nextScale, nextBias, joint, hasScale, hasBias, hasNextScale,
      hasNextBias, fusion, done⟩
  · exact Or.inl ⟨cause, failed⟩
  · refine Or.inr ⟨head, first, scale, bias, joint, ?_, ⟨hasScale, hasBias, _, ?_, fusion⟩, done⟩
    · exact ⟨wf, sole, onto, free, source, AffineFusion.fusedNode_resembles first scale bias joint⟩
    · simp [affineAt?, found, Except.toOption, Node.affine?, hasNextScale, hasNextBias]

omit [Scalar α] in
/-- The node that is merged is fused no more, and the others are fused as before. -/
private theorem Graph.Merge.fusable_of_cons {head gone : NodeId} {first new : Node α}
    {rest : List NodeId} (merge : graph.Merge head gone first new)
    (fusable : graph.fusable = gone :: rest) :
    (graph.merged head gone new).fusable = rest := by
  have nodup : (gone :: rest).Nodup := by
    rw [← fusable, Graph.fusable]
    exact merge.wf.nodup.filter _
  rw [merge.fusable, fusable, List.filter_cons_of_neg (by simp), List.filter_eq_self]
  intro id member
  rw [bne_iff_ne]
  rintro rfl
  exact (List.nodup_cons.mp nodup).1 member

/-- Each scan merges one node, and the last one finds nothing to do. -/
theorem fusionOnly_proceeds (fuel : Nat) :
    ∀ progress : Progress α,
      progress.graph.WellFormed → progress.graph.SoleOutputs →
        progress.graph.fusable.length + 1 ≤ fuel →
          ∃ run, (fusionOnly α).proceed? fuel progress = some run ∧
            ∀ report, run.outcome = .ok report →
              report = ⟨progress.scans + progress.graph.fusable.length + 1,
                  progress.patches + progress.graph.fusable.length, true⟩ ∧
                ∃ heads, Condensed progress.graph run.graph heads := by
  induction fuel with
  | zero =>
      intro progress _ _ enough
      omega
  | succ fuel inductionHypothesis =>
      intro progress wf sole enough
      have unfused : ∀ {id}, id ∈ progress.graph.order → id ∉ progress.graph.fusable →
          choose (fusionOnly α).passes progress.graph id = .ok none :=
        fun live free => choose_of_not_mem_fusable wf live free
      cases fusable : progress.graph.fusable with
      | nil =>
          have scanned : scan (fusionOnly α).passes progress =
              ({ progress with scans := progress.scans + 1 }, .ok .fixpoint) := by
            refine scanNodes_of_quiet fun id live => unfused live ?_
            rw [fusable]
            exact List.not_mem_nil
          refine ⟨_, (fusionOnly α).proceed?_of_fixpoint nofun fuel scanned, fun report ended => ?_⟩
          exact ⟨(Except.ok.inj ended).symm, id, .refl wf fusable⟩
      | cons gone rest =>
          obtain ⟨front, back, order, free, applies, _⟩ := List.filter_eq_cons_iff.mp fusable
          have earlier : ∀ id ∈ front, id ∉ progress.graph.fusable := fun id among member =>
            free id among (List.mem_filter.mp member).2
          have member : gone ∈ progress.graph.fusable := fusable ▸ List.mem_cons_self
          obtain ⟨node, found⟩ := wf.mem_order_iff.mp (List.mem_filter.mp member).1
          have chosen : choose (fusionOnly α).passes progress.graph gone =
              .ok (some (AffineFusion.pass, node)) :=
            choose_singleton found (of_decide_eq_true applies)
          have skipped : scan (fusionOnly α).passes progress =
              scanNodes (fusionOnly α).passes (gone :: back) false
                { progress with scans := progress.scans + 1 } := by
            rw [scan, order]
            refine scanNodes_append_of_quiet fun id among => unfused ?_ (earlier id among)
            rw [order]
            exact List.mem_append_left _ among
          rcases wf.fusion_cases sole order earlier member with
            ⟨cause, failed⟩ | ⟨head, first, scale, bias, joint, merge, fusion, done⟩
          · have scanned := skipped.trans (scanNodes_of_failure chosen failed)
            exact ⟨_, (fusionOnly α).proceed?_of_failure nofun fuel scanned,
              fun _ ended => by cases ended⟩
          · let middle := progress.graph.merged head gone
              (AffineFusion.fusedNode first scale bias joint)
            let after := ({ progress with scans := progress.scans + 1 } : Progress α).applied
              AffineFusion.pass node true middle
            have scanned : scan (fusionOnly α).passes progress = (after, .ok .restart) :=
              skipped.trans (scanNodes_of_restart chosen done)
            have fewer : middle.fusable.length + 1 = progress.graph.fusable.length := by
              rw [merge.fusable_of_cons fusable, fusable, List.length_cons]
            obtain ⟨run, ended, result⟩ := inductionHypothesis
              (after.note (.scanned after.scans .restart)) merge.wellFormed merge.soleOutputs
              (fewer.symm ▸ Nat.le_of_succ_le_succ enough)
            rw [(fusionOnly α).proceed?_of_further nofun fuel (by decide) scanned]
            refine ⟨run, ended, fun report outcome => ?_⟩
            obtain ⟨rfl, heads, condensed⟩ := result report outcome
            refine ⟨?_, _, condensed.of_merged merge fusion⟩
            simp only [Report.mk.injEq, and_true]
            rw [← fusable, ← fewer]
            simp only [after, Progress.note, Progress.applied]
            omega

/-- A run of affine fusion merges every chain of the graph into its head, one node a scan. -/
theorem fusion_condenses
    (tag : Nat) (history : List (Operation α))
    (sole : ((Graph.empty tag).replay history).SoleOutputs) :
    ∃ run, (fusionOnly α).run ((Graph.empty tag).replay history) = some run ∧
      ∀ report, run.outcome = .ok report →
        report = ⟨((Graph.empty tag).replay history).fusable.length + 1,
            ((Graph.empty tag).replay history).fusable.length, true⟩ ∧
          ∃ heads, Condensed ((Graph.empty tag).replay history) run.graph heads := by
  generalize start : (Graph.empty tag).replay history = graph at sole ⊢
  have wf : graph.WellFormed := start ▸ (WellFormed.empty tag).replay history
  have fewer : graph.fusable.length ≤ graph.order.length := List.length_filter_le _ _
  have room : graph.fusable.length + 1 ≤ (fusionOnly α).allowance graph := by
    have allowance : (fusionOnly α).allowance graph = (3 * graph.order.length + 2) * 3 := rfl
    omega
  obtain ⟨run, ended, result⟩ := fusionOnly_proceeds _ { graph } wf sole room
  refine ⟨run, ended, fun report outcome => ?_⟩
  obtain ⟨rfl, condensed⟩ := result report outcome
  refine ⟨?_, condensed⟩
  simp only [Nat.zero_add]

end Runs

/-- A model that normalizes its input three times over before an activation. -/
def normalizations : List (Operation (Exact.Number fun _ => 0)) :=
  let affine (name : String) (source : Nat) (scale bias : ℚ) :
      Operation (Exact.Number fun _ => 0) :=
    .push <| (Node.single .batchNormalization name .empty [⟨⟨0, source⟩, 0⟩] [1, 1]
        (.fixed 16 6 true .unset))
      |>.withWeight .scale { data := .ofList [scale] }
      |>.withWeight .bias { data := .ofList [bias] }
  [.addInput "x" [1, 1] (.fixed 16 6 true .unset), affine "first" 0 2 1, affine "second" 1 3 1,
    affine "third" 2 5 7,
    .push (Node.single .activation "last" .empty [⟨⟨0, 3⟩, 0⟩] [1, 1] (.fixed 16 6 true .unset)),
    .addOutput ⟨⟨0, 4⟩, 0⟩]

private theorem soleOutputs_normalizations :
    ((Graph.empty 0).replay normalizations).SoleOutputs := by
  intro id node found
  have single : ∀ slot ∈ ((Graph.empty 0).replay normalizations).slots,
      ∀ node, slot = some node → node.outputs.length = 1 := by
    have sizes : ((Graph.empty 0).replay normalizations).slots.all (fun slot =>
        slot.all fun node => node.outputs.length = 1) = true := by
      decide +kernel
    rintro slot member node rfl
    simpa using List.all_eq_true.mp sizes _ member
  have slot := Graph.find?_eq_some_iff.mp (Graph.listed_of_get found).2
  exact single _ (List.mem_of_getElem? slot) node rfl

/-- The second and the third normalization are merged into the first, which computes
`5 (3 (2 x + 1) + 1) + 7` then. -/
theorem fusion_condenses_normalizations :
    ((Graph.empty 0).replay normalizations).SoleOutputs ∧
      ∃ run, (fusionOnly (Exact.Number fun _ => 0)).run
          ((Graph.empty 0).replay normalizations) = some run ∧
        run.outcome = .ok ⟨3, 2, true⟩ ∧
          run.graph.affineAt? ⟨0, 1⟩ = some ⟨.ofList [(30 : ℚ)], .ofList [(27 : ℚ)]⟩ ∧
            ∃ heads, Condensed ((Graph.empty 0).replay normalizations) run.graph heads := by
  obtain ⟨run, ended, result⟩ := fusion_condenses 0 normalizations soleOutputs_normalizations
  have computed : ((fusionOnly (Exact.Number fun _ => 0)).run
      ((Graph.empty 0).replay normalizations)).map
        (fun run => (run.outcome, run.graph.affineAt? ⟨0, 1⟩)) =
      some (.ok ⟨3, 2, true⟩, some ⟨.ofList [(30 : ℚ)], .ofList [(27 : ℚ)]⟩) := by
    decide +kernel
  rw [ended, Option.map_some, Option.some.injEq, Prod.mk.injEq] at computed
  obtain ⟨outcome, map⟩ := computed
  exact ⟨soleOutputs_normalizations, run, ended, outcome, map, (result _ outcome).2⟩

end QuantNet
