import QuantNet.Proofs.Pass.Fusing

/-!
# Chains of affine nodes

A run of affine fusion alone merges every chain of affine nodes into the first of them.  Which nodes
are fused can be read off from the graph at the start: a fusion leaves all others to be fused as
before, and hands what read the node that is gone to the producer of that node.
-/

namespace QuantNet

/-! ## The joint map of a chain -/

section Chains

variable {α : Type} [Scalar α]

/-- The affine map that a node stores. -/
def Node.affine? (node : Node α) : Option (Affine α) := do
  let scale ← node.weights.get? .scale
  let bias ← node.weights.get? .bias
  return ⟨scale.data, bias.data⟩

namespace Graph

def affineAt? (graph : Graph α) (id : NodeId) : Option (Affine α) :=
  (graph.get id).toOption.bind Node.affine?

/-- A map followed by the maps of some nodes, from the first to the last. -/
def jointMap? (graph : Graph α) (first : Affine α) (chain : List NodeId) : Option (Affine α) :=
  chain.foldlM (fun map id => do (map.andThen (← graph.affineAt? id)).toOption) first

omit [Scalar α] in
/-- Affine fusion applies to a node, whose only input is produced by the given one. -/
def FusesOnto (graph : Graph α) (producer id : NodeId) : Prop :=
  AffineFusion.applies graph id = .ok true ∧ graph.source? id = .ok (some producer)

/-- The nodes that are fused, each onto the one before it and the first onto the given one. -/
inductive ChainFrom (graph : Graph α) : NodeId → List NodeId → Prop
  | last {id : NodeId} (free : ∀ next, ¬ graph.FusesOnto id next) : ChainFrom graph id []
  | link {id next : NodeId} {rest : List NodeId} (fuses : graph.FusesOnto id next)
      (more : ChainFrom graph next rest) : ChainFrom graph id (next :: rest)

/-- What becomes of a node when a chain of nodes is merged into it. -/
inductive Joined (graph : Graph α) (old : Node α) : List NodeId → Node α → Prop
  | alone : Joined graph old [] old
  | merged {next : NodeId} {rest : List NodeId} {scale bias : Weight α} {map : Affine α}
      (hasScale : old.weights.get? .scale = some scale)
      (hasBias : old.weights.get? .bias = some bias)
      (joint : graph.jointMap? ⟨scale.data, bias.data⟩ (next :: rest) = some map) :
      Joined graph old (next :: rest) (AffineFusion.fusedNode old scale bias map)

/-- Every node has exactly one output. -/
def SoleOutputs (graph : Graph α) : Prop :=
  ∀ ⦃id node⦄, graph.get id = .ok node → node.outputs.length = 1

/-- The nodes that affine fusion applies to. -/
def fusable (graph : Graph α) : List NodeId :=
  graph.order.filter fun id => AffineFusion.applies graph id = .ok true

end Graph

end Chains

namespace Graph

variable {α : Type} {graph : Graph α} {head gone : NodeId} {first new node : Node α}

theorem SoleOutputs.output_eq_zero {ref : TensorRef} (sole : graph.SoleOutputs)
    (exist : graph.hasTensor ref = true) :
    ref.output = 0 := by
  obtain ⟨node, found, below⟩ := hasTensor_iff_get.mp exist
  rw [sole found] at below
  exact Nat.lt_one_iff.mp below

theorem SoleOutputs.eq_first {ref : TensorRef} (sole : graph.SoleOutputs)
    (exist : graph.hasTensor ref = true) :
    ref = ⟨ref.node, 0⟩ := by
  rw [← sole.output_eq_zero exist]

theorem WellFormed.fusesOnto_iff (wf : graph.WellFormed) {producer id : NodeId} :
    graph.FusesOnto producer id ↔ graph.Fuses producer id := by
  constructor
  · rintro ⟨applies, source⟩
    obtain ⟨other, fuses⟩ := wf.applies_iff_fuses.mp applies
    obtain ⟨node, found, reads, _⟩ := fuses.reader
    have same := AffineFusion.source?_eq_ok found reads
    rw [source, Except.ok.injEq, Option.some.injEq] at same
    exact same ▸ fuses
  · intro fuses
    obtain ⟨node, found, reads, _⟩ := fuses.reader
    exact ⟨wf.applies_iff_fuses.mpr ⟨producer, fuses⟩, AffineFusion.source?_eq_ok found reads⟩

theorem WellFormed.mem_fusable_iff (wf : graph.WellFormed) {id : NodeId} :
    id ∈ graph.fusable ↔ ∃ producer, graph.Fuses producer id := by
  rw [fusable, List.mem_filter, decide_eq_true_eq, wf.applies_iff_fuses]
  constructor
  · exact And.right
  · rintro ⟨producer, fuses⟩
    obtain ⟨node, found, _⟩ := fuses.reader
    exact ⟨wf.mem_order_iff.mpr ⟨node, found⟩, producer, fuses⟩

theorem ChainFrom.fuses_of_mem (wf : graph.WellFormed) {id : NodeId} {chain : List NodeId}
    (chained : graph.ChainFrom id chain) :
    ∀ other ∈ chain, ∃ producer, graph.Fuses producer other := by
  induction chained with
  | last => exact fun _ member => absurd member List.not_mem_nil
  | link fuses _ inductionHypothesis =>
      exact List.forall_mem_cons.mpr ⟨⟨_, wf.fusesOnto_iff.mp fuses⟩, inductionHypothesis⟩

namespace Fuses

variable {producer id : NodeId}

section

variable (wf : graph.WellFormed) (sole : graph.SoleOutputs) (onto : graph.Fuses head gone)

include wf sole onto

/-- A node that reads from one that is merged is fused onto the head after that as it was fused onto
the node before. -/
theorem bypassed_head_iff (apart : id ≠ gone) :
    (graph.bypassed gone ⟨head, 0⟩).Fuses head id ↔ graph.Fuses gone id := by
  let f := TensorRef.past gone ⟨head, 0⟩
  obtain ⟨last, lastFound, lastReads, lastAffine⟩ := onto.reader
  have moved : f ⟨gone, 0⟩ = ⟨head, 0⟩ := TensorRef.past_of_eq rfl
  have origin : ∀ {ref : TensorRef}, graph.hasTensor ref = true → f ref = ⟨head, 0⟩ →
      ref = ⟨gone, 0⟩ ∨ ref = ⟨head, 0⟩ := by
    intro ref exist image
    by_cases own : ref.node = gone
    · exact Or.inl ((sole.eq_first exist).trans (own ▸ rfl))
    · exact Or.inr ((TensorRef.past_of_ne own).symm.trans image)
  have single : ∀ {other : NodeId} {old : Node α}, graph.get other = .ok old → other ≠ gone →
      (⟨head, 0⟩ : TensorRef) ∉ old.inputs :=
    fun older elsewhere uses => elsewhere (onto.alone older uses)
  constructor
  · intro fuses
    obtain ⟨now, relisted, reads, affine⟩ := fuses.reader
    obtain ⟨_, old, there, rfl⟩ := (get_bypassed_iff lastFound).mp relisted
    obtain ⟨input, readsBefore, image⟩ := List.map_eq_singleton_iff.mp reads
    have member : input ∈ old.inputs := readsBefore ▸ List.mem_singleton_self input
    have exist := wf.reads (listed_of_get there).2 input member
    obtain rfl : input = ⟨gone, 0⟩ := by
      rcases origin exist image with here | other
      · exact here
      · exact absurd (other ▸ member) (single there apart)
    refine ⟨⟨old, there, readsBefore, affine⟩, ⟨last, lastFound, lastAffine⟩, ?_, ?_⟩
    · intro exported
      have image : f ⟨gone, 0⟩ ∈ graph.outputs.map f := List.mem_map_of_mem exported
      rw [moved] at image
      exact fuses.unexported image
    · intro other old older uses
      have elsewhere : other ≠ gone := by
        rintro rfl
        obtain rfl := Except.ok.inj (older.symm.trans lastFound)
        rw [lastReads, List.mem_singleton] at uses
        exact onto.ne wf (congrArg TensorRef.node uses).symm
      have image : f ⟨gone, 0⟩ ∈ old.inputs.map f := List.mem_map_of_mem uses
      rw [moved] at image
      exact fuses.alone (get_bypassed_of_get lastFound older elsewhere _) image
  · intro fuses
    obtain ⟨node, found, reads, affine⟩ := fuses.reader
    obtain ⟨first, source, sourceAffine⟩ := onto.source
    refine ⟨⟨_, get_bypassed_of_get lastFound found apart _, ?_, affine⟩,
      ⟨_, get_bypassed_of_get lastFound source (onto.ne wf) _, sourceAffine⟩, ?_, ?_⟩
    · exact (congrArg (List.map f) reads).trans (congrArg (fun ref => [ref]) moved)
    · intro exported
      obtain ⟨ref, member, image⟩ := List.mem_map.mp exported
      rcases origin (wf.exports ref member) image with rfl | rfl
      · exact fuses.unexported member
      · exact onto.unexported member
    · intro other now relisted uses
      obtain ⟨elsewhere, old, older, rfl⟩ := (get_bypassed_iff lastFound).mp relisted
      obtain ⟨ref, member, image⟩ := List.mem_map.mp uses
      rcases origin (wf.reads (listed_of_get older).2 ref member) image with rfl | rfl
      · exact fuses.alone older member
      · exact absurd member (single older elsewhere)

omit wf sole in
/-- Other fusions are as they were. -/
theorem bypassed_iff_of_ne (apart : id ≠ gone) (other : producer ≠ head) :
    (graph.bypassed gone ⟨head, 0⟩).Fuses producer id ↔
      producer ≠ gone ∧ graph.Fuses producer id := by
  let f := TensorRef.past gone ⟨head, 0⟩
  obtain ⟨last, lastFound, lastReads, lastAffine⟩ := onto.reader
  constructor
  · intro fuses
    obtain ⟨now, relisted, reads, _⟩ := fuses.reader
    obtain ⟨first, source, _⟩ := fuses.source
    obtain ⟨stays, _⟩ := (get_bypassed_iff lastFound).mp source
    obtain ⟨_, old, there, rfl⟩ := (get_bypassed_iff lastFound).mp relisted
    refine ⟨stays, of_bypassed onto fuses there fun input member own => ?_⟩
    -- A node that reads from the one that is gone reads from the head now.
    have image : f input ∈ old.inputs.map f := List.mem_map_of_mem member
    rw [show old.inputs.map f = [⟨producer, 0⟩] from reads, List.mem_singleton,
      show f input = ⟨head, 0⟩ from TensorRef.past_of_eq own] at image
    exact other (congrArg TensorRef.node image).symm
  · rintro ⟨stays, fuses⟩
    have fixed : f ⟨producer, 0⟩ = ⟨producer, 0⟩ := TensorRef.past_of_ne stays
    have origin : ∀ {ref : TensorRef}, f ref = ⟨producer, 0⟩ → ref = ⟨producer, 0⟩ := by
      intro ref image
      by_cases own : ref.node = gone
      · rw [show f ref = ⟨head, 0⟩ from TensorRef.past_of_eq own] at image
        exact absurd (congrArg TensorRef.node image).symm other
      · exact (TensorRef.past_of_ne own).symm.trans image
    obtain ⟨node, found, reads, affine⟩ := fuses.reader
    obtain ⟨first, source, sourceAffine⟩ := fuses.source
    refine ⟨⟨_, get_bypassed_of_get lastFound found apart _, ?_, affine⟩,
      ⟨_, get_bypassed_of_get lastFound source stays _, sourceAffine⟩, ?_, ?_⟩
    · exact (congrArg (List.map f) reads).trans (congrArg (fun ref => [ref]) fixed)
    · intro exported
      obtain ⟨ref, member, image⟩ := List.mem_map.mp exported
      exact fuses.unexported (origin image ▸ member)
    · intro place now relisted uses
      obtain ⟨_, old, older, rfl⟩ := (get_bypassed_iff lastFound).mp relisted
      obtain ⟨ref, member, image⟩ := List.mem_map.mp uses
      exact fuses.alone older (origin image ▸ member)

end

end Fuses

/-! ## One fusion -/

/-- The first fusion onto a head: one node is merged into its producer, which is not fused itself
and becomes another node in the same place. -/
structure Merge (graph : Graph α) (head gone : NodeId) (first new : Node α) : Prop where
  wf : graph.WellFormed
  sole : graph.SoleOutputs
  onto : graph.Fuses head gone
  free : ∀ producer, ¬ graph.Fuses producer head
  source : graph.get head = .ok first
  resembles : new.Resembles first

/-- The graph after a node was merged into its producer. -/
def merged (graph : Graph α) (head gone : NodeId) (new : Node α) : Graph α :=
  (graph.replace head.index new).bypassed gone ⟨head, 0⟩

namespace Merge

variable (merge : graph.Merge head gone first new) {producer id : NodeId} {chain : List NodeId}

include merge

theorem wellFormed : (graph.merged head gone new).WellFormed := by
  obtain ⟨node, found, reads, _⟩ := merge.onto.reader
  obtain ⟨named, listed⟩ := listed_of_get found
  have sourceListed := (listed_of_get merge.source).2
  have apart := merge.wf.source_index_ne found reads merge.source
  have result := (merge.wf.replace sourceListed merge.resembles).bypassed
    ((find?_replace_of_ne apart new).trans listed) reads
  rwa [show (graph.replace head.index new).handle gone.index = gone from named.symm] at result

theorem get_iff {other : NodeId} {now : Node α} :
    (graph.merged head gone new).get other = .ok now ↔
      other ≠ gone ∧ ∃ old, now = old.rename (TensorRef.past gone ⟨head, 0⟩) ∧
        (other = head ∧ old = new ∨ other ≠ head ∧ graph.get other = .ok old) := by
  obtain ⟨_, found, _⟩ := (merge.onto.replace merge.source merge.resembles).reader
  rw [merged, get_bypassed_iff found]
  refine and_congr_right fun _ => exists_congr fun old => ?_
  rw [get_replace_iff merge.source, and_comm]

theorem order : (graph.merged head gone new).order = graph.order.filter fun id => id != gone := by
  have nodup := (merge.wf.replace (listed_of_get merge.source).2 merge.resembles).nodup
  have same := order_dropped nodup gone
  exact same

theorem soleOutputs : (graph.merged head gone new).SoleOutputs := by
  intro id now found
  obtain ⟨_, old, rfl, ⟨_, rfl⟩ | ⟨_, there⟩⟩ := merge.get_iff.mp found
  · exact merge.resembles.outputs.trans (merge.sole merge.source)
  · have size := merge.sole there
    exact size

/-! ### Which nodes are fused after it -/

private theorem fuses_head_iff (apart : id ≠ gone) :
    (graph.merged head gone new).Fuses head id ↔ graph.Fuses gone id := by
  have soleNow : (graph.replace head.index new).SoleOutputs := by
    intro other now relisted
    rcases (get_replace_iff merge.source).mp relisted with ⟨_, rfl⟩ | ⟨_, there⟩
    · exact merge.resembles.outputs.trans (merge.sole merge.source)
    · exact merge.sole there
  have replacedWf := merge.wf.replace (listed_of_get merge.source).2 merge.resembles
  have onto := merge.onto.replace merge.source merge.resembles
  rw [merged, onto.bypassed_head_iff replacedWf soleNow apart,
    Fuses.replace_iff merge.source merge.resembles]

private theorem fuses_iff_of_ne (apart : id ≠ gone) (other : producer ≠ head) :
    (graph.merged head gone new).Fuses producer id ↔
      producer ≠ gone ∧ graph.Fuses producer id := by
  have onto := merge.onto.replace merge.source merge.resembles
  rw [merged, onto.bypassed_iff_of_ne apart other,
    Fuses.replace_iff merge.source merge.resembles]

private theorem ne_gone_of_fuses (fuses : (graph.merged head gone new).Fuses producer id) :
    id ≠ gone := by
  obtain ⟨_, relisted, _⟩ := fuses.reader
  exact (merge.get_iff.mp relisted).1

/-- All nodes but the one that is gone are fused or not just as before. -/
theorem fuses_iff :
    (∃ producer, (graph.merged head gone new).Fuses producer id) ↔
      id ≠ gone ∧ ∃ producer, graph.Fuses producer id := by
  constructor
  · rintro ⟨producer, fuses⟩
    have apart := merge.ne_gone_of_fuses fuses
    refine ⟨apart, ?_⟩
    by_cases own : producer = head
    · subst own
      exact ⟨gone, (merge.fuses_head_iff apart).mp fuses⟩
    · exact ⟨producer, ((merge.fuses_iff_of_ne apart own).mp fuses).2⟩
  · rintro ⟨apart, producer, fuses⟩
    by_cases here : producer = gone
    · subst here
      exact ⟨head, (merge.fuses_head_iff apart).mpr fuses⟩
    · have own : producer ≠ head := by
        rintro rfl
        exact apart (merge.onto.reader_eq fuses).symm
      exact ⟨producer, (merge.fuses_iff_of_ne apart own).mpr ⟨here, fuses⟩⟩

theorem fusable :
    (graph.merged head gone new).fusable = graph.fusable.filter fun id => id != gone := by
  rw [Graph.fusable, merge.order, Graph.fusable, List.filter_filter, List.filter_filter]
  apply List.filter_congr
  intro id _
  rw [Bool.eq_iff_iff, Bool.and_eq_true, Bool.and_eq_true, decide_eq_true_eq, decide_eq_true_eq,
    merge.wellFormed.applies_iff_fuses, merge.wf.applies_iff_fuses, bne_iff_ne, merge.fuses_iff]
  constructor
  · rintro ⟨⟨apart, fuses⟩, _⟩
    exact ⟨apart, fuses⟩
  · rintro ⟨apart, fuses⟩
    exact ⟨⟨apart, fuses⟩, apart⟩

/-- A chain from a node that the fusion has not changed was there before. -/
theorem chainFrom_of_ne (chained : (graph.merged head gone new).ChainFrom id chain) :
    id ≠ head → id ≠ gone → graph.ChainFrom id chain := by
  induction chained with
  | @last id idle =>
      intro unchanged stays
      refine .last fun next fuses => idle next ?_
      rw [merge.wf.fusesOnto_iff] at fuses
      have apart : next ≠ gone := by
        rintro rfl
        exact unchanged (fuses.source_eq merge.onto)
      exact merge.wellFormed.fusesOnto_iff.mpr
        ((merge.fuses_iff_of_ne apart unchanged).mpr ⟨stays, fuses⟩)
  | @link id next rest fuses _ inductionHypothesis =>
      intro unchanged _
      rw [merge.wellFormed.fusesOnto_iff] at fuses
      have apart := merge.ne_gone_of_fuses fuses
      have before := ((merge.fuses_iff_of_ne apart unchanged).mp fuses).2
      refine .link (merge.wf.fusesOnto_iff.mpr before) (inductionHypothesis ?_ apart)
      rintro rfl
      exact merge.free id before

/-- The chain from the head had one node more, the one that is gone. -/
theorem chainFrom_head (chained : (graph.merged head gone new).ChainFrom head chain) :
    graph.ChainFrom head (gone :: chain) := by
  refine .link (merge.wf.fusesOnto_iff.mpr merge.onto) ?_
  cases chained with
  | last idle =>
      refine .last fun next fuses => idle next ?_
      rw [merge.wf.fusesOnto_iff] at fuses
      exact merge.wellFormed.fusesOnto_iff.mpr
        ((merge.fuses_head_iff (fuses.ne merge.wf).symm).mpr fuses)
  | @link _ next rest fuses more =>
      rw [merge.wellFormed.fusesOnto_iff] at fuses
      have apart := merge.ne_gone_of_fuses fuses
      have before := (merge.fuses_head_iff apart).mp fuses
      refine .link (merge.wf.fusesOnto_iff.mpr before) (merge.chainFrom_of_ne more ?_ apart)
      rintro rfl
      exact merge.free gone before

/-- The nodes of a chain after the fusion are there, and the head is none of them. -/
theorem of_mem_chain (chained : (graph.merged head gone new).ChainFrom id chain) :
    ∀ other ∈ chain, other ≠ head ∧ ∃ now, (graph.merged head gone new).get other = .ok now := by
  intro other member
  obtain ⟨producer, fuses⟩ := chained.fuses_of_mem merge.wellFormed other member
  obtain ⟨now, there, _⟩ := fuses.reader
  refine ⟨?_, now, there⟩
  rintro rfl
  obtain ⟨_, source, before⟩ := merge.fuses_iff.mp ⟨producer, fuses⟩
  exact merge.free source before

end Merge

end Graph

/-! ## What the fusion stores -/

namespace AffineFusion

variable {α : Type} {first : Node α} {scale bias : Weight α}

/-- Of two joint maps that are stored in a node only the second remains. -/
private theorem fusedNode_fusedNode (fused joint : Affine α) :
    fusedNode (fusedNode first scale bias fused) { scale with data := fused.scale }
        { bias with data := fused.bias } joint =
      fusedNode first scale bias joint := by
  simp only [fusedNode, Node.withWeight]
  rw [Table.insert_insert_insert (by decide), Table.insert_insert_insert (by decide)]

end AffineFusion

namespace Graph

variable {α : Type} [Scalar α] {graph : Graph α} {head gone : NodeId}
  {first last new old node : Node α} {chain : List NodeId}

namespace Merge

variable (merge : graph.Merge head gone first new)

include merge

omit [Scalar α] in
theorem affineAt? {id : NodeId} {now : Node α}
    (there : (graph.merged head gone new).get id = .ok now) (apart : id ≠ head) :
    (graph.merged head gone new).affineAt? id = graph.affineAt? id := by
  obtain ⟨_, old, rfl, ⟨here, _⟩ | ⟨_, before⟩⟩ := merge.get_iff.mp there
  · exact absurd here apart
  · rw [Graph.affineAt?, Graph.affineAt?, there, before]
    rfl

theorem jointMap? (map : Affine α)
    (others : ∀ id ∈ chain, id ≠ head ∧ ∃ now, (graph.merged head gone new).get id = .ok now) :
    (graph.merged head gone new).jointMap? map chain = graph.jointMap? map chain := by
  induction chain generalizing map with
  | nil => rfl
  | cons id rest inductionHypothesis =>
      obtain ⟨⟨apart, now, there⟩, later⟩ := List.forall_mem_cons.mp others
      have step : ∀ map, (graph.merged head gone new).jointMap? map rest =
          graph.jointMap? map rest := fun map => inductionHypothesis map later
      unfold Graph.jointMap? at step ⊢
      simp only [List.foldlM_cons, merge.affineAt? there apart, step]

/-- What becomes of another node is what would have become of it before. -/
theorem joined_of_ne
    (joined : (graph.merged head gone new).Joined
      (old.rename (TensorRef.past gone ⟨head, 0⟩)) chain node)
    (others : ∀ id ∈ chain, id ≠ head ∧ ∃ now, (graph.merged head gone new).get id = .ok now) :
    ∃ before, node = before.rename (TensorRef.past gone ⟨head, 0⟩) ∧
      graph.Joined old chain before := by
  cases joined with
  | alone => exact ⟨old, rfl, .alone⟩
  | merged hasScale hasBias joint =>
      rw [merge.jointMap? _ others] at joint
      exact ⟨_, rfl, .merged hasScale hasBias joint⟩

end Merge

/-- The joint map of a node and its producer, if both store one. -/
structure Fusion (graph : Graph α) (gone : NodeId) (first : Node α) (scale bias : Weight α)
    (fused : Affine α) : Prop where
  hasScale : first.weights.get? .scale = some scale
  hasBias : first.weights.get? .bias = some bias
  joint : ∃ next, graph.affineAt? gone = some next ∧
    Affine.andThen ⟨scale.data, bias.data⟩ next = .ok fused

variable {scale bias : Weight α} {fused : Affine α}

/-- What becomes of the head begins with the map that the fusion has stored in it. -/
theorem Merge.joined_head
    (merge : graph.Merge head gone first (AffineFusion.fusedNode first scale bias fused))
    (fusion : graph.Fusion gone first scale bias fused)
    (joined : (graph.merged head gone (AffineFusion.fusedNode first scale bias fused)).Joined
      ((AffineFusion.fusedNode first scale bias fused).rename (TensorRef.past gone ⟨head, 0⟩))
      chain node)
    (others : ∀ id ∈ chain, id ≠ head ∧
      ∃ now, (graph.merged head gone (AffineFusion.fusedNode first scale bias fused)).get id =
        .ok now) :
    ∃ before, node = before.rename (TensorRef.past gone ⟨head, 0⟩) ∧
      graph.Joined first (gone :: chain) before := by
  obtain ⟨hasScale, hasBias, next, there, joint⟩ := fusion
  have step : ∀ rest, graph.jointMap? ⟨scale.data, bias.data⟩ (gone :: rest) =
      graph.jointMap? fused rest := by
    intro rest
    simp [Graph.jointMap?, List.foldlM_cons, there, joint, Except.toOption]
  cases joined with
  | alone =>
      exact ⟨_, rfl, .merged hasScale hasBias (step [])⟩
  | merged storedScale storedBias joint =>
      obtain rfl := Option.some.inj ((AffineFusion.scale_fusedNode fused).symm.trans storedScale)
      obtain rfl := Option.some.inj ((AffineFusion.bias_fusedNode fused).symm.trans storedBias)
      rw [merge.jointMap? _ others] at joint
      refine ⟨_, ?_, .merged hasScale hasBias ((step _).trans joint)⟩
      exact congrArg (Node.rename _) (AffineFusion.fusedNode_fusedNode fused _)

end Graph

end QuantNet
