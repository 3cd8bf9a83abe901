import QuantNet.Proofs.Pass.Consistency
import QuantNet.Proofs.Pass.Phases
import QuantNet.Proofs.Precision.Agreement

/-!
# The effect of output modes

What a run of output modes does to a graph, no more and no less.  The modes of every layer that
wants them are merged into the type of its first output, and its accumulator follows if it has one.
Everything else stays: the other nodes, the order, the edges, and whatever else there is about the
layers themselves.

Types are taken to be readable.  Merged modes are then found again, so that one scan sets them all
and another one finds nothing to do.
-/

namespace QuantNet

open QuantNet.Graph Optimizer OutputModes

/-! ## Types -/

namespace Precision

/-- Modes are merged into a type and all else about it is kept.  A text becomes a text of what it
is read as, with the modes merged there. -/
inductive Retuned (update : Modes) : Precision → Precision → Prop
  | int (width : UInt32) (signed : Bool) (modes : Modes) :
      Retuned update (int width signed modes) (int width signed (modes.merge update))
  | fixed (width : UInt32) (integer : Int32) (signed : Bool) (modes : Modes) :
      Retuned update (fixed width integer signed modes)
        (fixed width integer signed (modes.merge update))
  | text {text changed : String} {old new : Precision} (read : parse text = .ok old)
      (reread : parse changed = .ok new) (retuned : Retuned update old new) :
      Retuned update (raw text) (raw changed)

variable {precision typed old new : Precision} {update : Modes}

/-- What a text is read as is no text. -/
theorem retuned_of_parse {text : String} (read : parse text = .ok typed) (update : Modes) :
    ∃ set, typed.setModes update = .ok set ∧ Retuned update typed set := by
  obtain ⟨parts, _, denotes⟩ := parse_eq_ok_iff.mp read
  cases ofBracketed?_eq_some_iff.mp denotes with
  | inl integer =>
      obtain ⟨signed, _, width, _, _, _, same⟩ := integer
      rw [same]
      exact ⟨_, rfl, .int width signed parts.modes⟩
  | inr fixedPoint =>
      obtain ⟨signed, _, width, integer, _, _, _, _, same⟩ := fixedPoint
      rw [same]
      exact ⟨_, rfl, .fixed width integer signed parts.modes⟩

/-- Modes can be set in every type that is structured or can be read as such. -/
theorem exists_retuned (readable : precision.structured = .ok typed) (update : Modes) :
    ∃ set, precision.setModes update = .ok set ∧ Retuned update precision set := by
  cases precision with
  | int width signed modes => exact ⟨_, rfl, .int width signed modes⟩
  | fixed width integer signed modes => exact ⟨_, rfl, .fixed width integer signed modes⟩
  | raw text =>
      have read : parse text = .ok typed := readable
      obtain ⟨_, changed, set, structured, textual, reread, _⟩ :=
        setModes_text_agrees read update update
      obtain ⟨same, structured', retuned⟩ := retuned_of_parse read update
      have agree : set = same := Except.ok.inj (structured.symm.trans structured')
      exact ⟨raw changed, textual, .text read (agree ▸ reread) retuned⟩

/-- Merged modes are found again. -/
theorem Retuned.covers (retuned : Retuned update old new) : new.covers update = true := by
  induction retuned with
  | int width signed modes => exact Modes.merge_covers modes update
  | fixed width integer signed modes => exact Modes.merge_covers modes update
  | text read reread retuned inductionHypothesis =>
      have agrees := (setModes_text_agrees reread update update).1
      exact agrees.trans inductionHypothesis

/-- A type covers modes if it does so where it is structured. -/
theorem covers_of_structured (readable : precision.structured = .ok typed) (wanted : Modes) :
    precision.covers wanted = typed.covers wanted := by
  cases precision with
  | int width signed modes => rw [← Except.ok.inj readable]
  | fixed width integer signed modes => rw [← Except.ok.inj readable]
  | raw text => exact (setModes_text_agrees readable wanted wanted).1

end Precision

/-! ## Layers -/

variable {α : Type}

/-- The layer is selected by its kind or by its name, and the type of its first output does not have
all of the modes that are to be set. -/
structure Node.Wants (node : Node α) (selection : ModeSelection) : Prop where
  selected : node.kind.name ∈ selection.layers ∨ node.name ∈ selection.layers
  configured : selection.modes ≠ .unset
  lacks : ∃ output others typed, node.outputs = output :: others ∧
    output.precision.structured = .ok typed ∧ typed.covers selection.modes = false

/-- Modes are merged into the type of the first output, and an accumulator gets the same type.  All
else about the layer is kept. -/
structure Node.Retuned (update : Modes) (old new : Node α) : Prop where
  kind : new.kind = old.kind
  name : new.name = old.name
  inputs : new.inputs = old.inputs
  weights : new.weights = old.weights
  outputs : ∃ output others precision, old.outputs = output :: others ∧
    Precision.Retuned update output.precision precision ∧
    new.outputs = { output with precision } :: others ∧
    new.attrs.get? accumulatorKey =
      (old.attrs.get? accumulatorKey).map fun _ => .precision precision
  keys : new.attrs.keys = old.attrs.keys
  attrs : ∀ key, key ≠ accumulatorKey → new.attrs.get? key = old.attrs.get? key

namespace OutputModes

variable {selection : ModeSelection} {node : Node α} {output : Output} {others : List Output}
  {precision typed : Precision} {update : Modes}

theorem selects_eq_true_iff :
    selects selection node = true ↔
      node.kind.name ∈ selection.layers ∨ node.name ∈ selection.layers := by
  rw [selects, Bool.or_eq_true, List.contains_iff_mem, List.contains_iff_mem]

/-- A readable layer lacks modes if it wants them. -/
theorem lacksModes_iff_wants (outputs : node.outputs = output :: others)
    (readable : output.precision.structured = .ok typed) :
    lacksModes selection node = true ↔ node.Wants selection := by
  have covers := Precision.covers_of_structured readable selection.modes
  rw [lacksModes_eq_true_iff, selects_eq_true_iff]
  constructor
  · intro lacks
    obtain ⟨selected, configured, first, rest, shape, uncovered⟩ := lacks
    obtain ⟨rfl, rfl⟩ := List.cons.inj (shape.symm.trans outputs)
    constructor
    case selected => exact selected
    case configured => exact of_decide_eq_false configured
    case lacks => exact ⟨first, rest, typed, outputs, readable, covers.symm.trans uncovered⟩
  · intro wants
    obtain ⟨first, rest, type, shape, read, uncovered⟩ := wants.lacks
    have first_covers := Precision.covers_of_structured read selection.modes
    exact ⟨wants.selected, decide_eq_false wants.configured, first, rest, shape,
      first_covers.trans uncovered⟩

@[simp]
theorem attrs_withPrecision :
    (withPrecision node output others precision).attrs =
      if (node.attrs.get? accumulatorKey).isSome then
        node.attrs.insert accumulatorKey (.precision precision)
      else node.attrs := by
  unfold withPrecision
  split <;> rfl

/-- Setting the precision of a layer changes what it should change. -/
theorem retuned_withPrecision (outputs : node.outputs = output :: others)
    (retuned : Precision.Retuned update output.precision precision) :
    Node.Retuned update node (withPrecision node output others precision) := by
  have resembles := withPrecision_resembles precision outputs
  constructor
  case kind => exact kind_withPrecision
  case name => exact name_withPrecision
  case inputs => exact resembles.inputs
  case weights => exact weights_withPrecision
  case outputs =>
    refine ⟨output, others, precision, outputs, retuned, rfl, ?_⟩
    rw [attrs_withPrecision]
    cases present : node.attrs.get? accumulatorKey with
    | none => simpa using present
    | some value => simp
  case keys =>
    rw [attrs_withPrecision]
    split
    · next present => exact Table.keys_insert present _
    · rfl
  case attrs =>
    intro key other
    rw [attrs_withPrecision]
    split
    · rw [Table.get?_insert, if_neg (Ne.symm other)]
    · rfl

/-- A layer does not lack modes that it has been given. -/
theorem lacksModes_of_retuned {old new : Node α}
    (retuned : Node.Retuned selection.modes old new) :
    lacksModes selection new = false := by
  obtain ⟨_, _, precision, _, merged, outputs, _⟩ := retuned.outputs
  simp only [lacksModes, outputs, merged.covers, Bool.not_true, Bool.and_false]

end OutputModes

/-! ## Graphs -/

namespace Graph

variable {graph middle changed : Graph α} {id other : NodeId} {node : Node α}
  {ids : List NodeId} {update : Modes}

/-- Modes are merged at the given nodes, and all else about the graph is kept. -/
structure RetunedAt (update : Modes) (ids : List NodeId) (graph changed : Graph α) : Prop where
  tag : changed.tag = graph.tag
  issued : changed.issued = graph.issued
  order : changed.order = graph.order
  outputs : changed.outputs = graph.outputs
  retuned : ∀ id ∈ ids, ∃ old new, graph.get id = .ok old ∧ changed.get id = .ok new ∧
    Node.Retuned update old new
  others : ∀ id, id ∉ ids → changed.get? id = graph.get? id

private theorem get_eq_of_get?_eq (same : changed.get? id = graph.get? id) :
    changed.get id = graph.get id := by
  rw [get, get, same]

/-- The slot of any other handle stays as it is. -/
theorem get?_replace_of_ne (found : graph.get id = .ok node) (new : Node α) (apart : other ≠ id) :
    (graph.replace id.index new).get? other = graph.get? other := by
  have knows : (graph.replace id.index new).knows other = graph.knows other := by
    rw [Graph.knows, Graph.knows, issued_replace]
    rfl
  unfold get?
  rw [knows]
  split
  · next known =>
      have different : other.index ≠ id.index := by
        intro same
        apply apart
        rw [eq_handle_of_knows known, (listed_of_get found).1, same]
      rw [find?_replace_of_ne different]
  · rfl

private theorem RetunedAt.nothing : RetunedAt update [] graph graph where
  tag := rfl
  issued := rfl
  order := rfl
  outputs := rfl
  retuned := fun _ member => absurd member List.not_mem_nil
  others := fun _ _ => rfl

/-- One more node, ahead of the others. -/
private theorem RetunedAt.cons (found : graph.get id = .ok node) {new : Node α}
    (first : Node.Retuned update node new)
    (rest : RetunedAt update ids (graph.replace id.index new) changed) (fresh : id ∉ ids) :
    RetunedAt update (id :: ids) graph changed where
  tag := rest.tag
  issued := rest.issued.trans (issued_replace graph id.index new)
  order := rest.order
  outputs := rest.outputs
  retuned := by
    intro other member
    cases List.mem_cons.mp member with
    | inl here =>
        have kept := get_eq_of_get?_eq (rest.others id fresh)
        rw [get_replace found new] at kept
        rw [here]
        exact ⟨node, new, found, kept, first⟩
    | inr later =>
        obtain ⟨old, now, listed, relisted, retuned⟩ := rest.retuned other later
        have apart : other ≠ id := fun same => fresh (same ▸ later)
        have there := get_eq_of_get?_eq (get?_replace_of_ne found new apart)
        exact ⟨old, now, there.symm.trans listed, relisted, retuned⟩
  others := by
    intro other outside
    have apart : other ≠ id := fun same => outside (same ▸ List.mem_cons_self)
    have behind : other ∉ ids := fun member => outside (List.mem_cons_of_mem id member)
    exact (rest.others other behind).trans (get?_replace_of_ne found new apart)

/-! ## One scan -/

variable {selection : ModeSelection}

/-- The types of all selected layers are structured or can be read as such. -/
def Readable (graph : Graph α) (selection : ModeSelection) : Prop :=
  ∀ id node, graph.get id = .ok node → selects selection node = true →
    ∃ output others typed, node.outputs = output :: others ∧
      output.precision.structured = .ok typed

theorem Readable.lacksModes_iff (readable : graph.Readable selection)
    (found : graph.get id = .ok node) :
    lacksModes selection node = true ↔ node.Wants selection := by
  by_cases selected : selects selection node = true
  · obtain ⟨output, others, typed, outputs, read⟩ := readable id node found selected
    exact lacksModes_iff_wants outputs read
  · constructor
    · intro lacks
      exact absurd (lacksModes_eq_true_iff.mp lacks).1 selected
    · intro wants
      exact absurd (selects_eq_true_iff.mpr wants.selected) selected

/-- There is a node, and if it lacks modes they can be set. -/
def ReadableAt (graph : Graph α) (selection : ModeSelection) (id : NodeId) : Prop :=
  ∃ node, graph.get id = .ok node ∧ (lacksModes selection node = true →
    ∃ output others typed, node.outputs = output :: others ∧
      output.precision.structured = .ok typed)

theorem Readable.at_live (readable : graph.Readable selection) (found : graph.get id = .ok node) :
    graph.ReadableAt selection id :=
  ⟨node, found, fun lacks => readable id node found (lacksModes_eq_true_iff.mp lacks).1⟩

/-- Whether modes are to be set at a node. -/
def lacksAt (graph : Graph α) (selection : ModeSelection) (id : NodeId) : Bool :=
  match graph.get id with
  | .ok node => lacksModes selection node
  | .error _ => false

theorem lacksAt_eq (found : graph.get id = .ok node) :
    graph.lacksAt selection id = lacksModes selection node := by
  rw [lacksAt, found]

theorem lacksAt_eq_true_iff :
    graph.lacksAt selection id = true ↔
      ∃ node, graph.get id = .ok node ∧ lacksModes selection node = true := by
  unfold lacksAt
  cases graph.get id <;> simp

theorem firstApplies_of_lacksAt (lacks : graph.lacksAt selection id = true) :
    FirstApplies [OutputModes.pass selection] graph id (OutputModes.pass selection) := by
  obtain ⟨node, found, lacking⟩ := lacksAt_eq_true_iff.mp lacks
  constructor
  case found => exact ⟨node, found⟩
  case first => exact ⟨[], [], rfl, fun _ member => absurd member List.not_mem_nil⟩
  case applies => rw [applies_eq_ok found, lacking]

theorem noneApplies_of_lacksAt (found : graph.get id = .ok node)
    (covered : graph.lacksAt selection id = false) :
    NoneApplies [OutputModes.pass selection] graph id := by
  constructor
  case found => exact ⟨node, found⟩
  case quiet =>
    intro pass member
    rw [List.mem_singleton.mp member, applies_eq_ok found, ← lacksAt_eq found, covered]

/-- A node that lacks modes is replaced by one that has them. -/
theorem ReadableAt.patch_eq_ok (readable : graph.ReadableAt selection id)
    (lacks : graph.lacksAt selection id = true) :
    ∃ old new, graph.get id = .ok old ∧ Node.Retuned selection.modes old new ∧
      OutputModes.patch selection id graph = .ok false (graph.replace id.index new) := by
  obtain ⟨node, found, read⟩ := readable
  obtain ⟨output, others, typed, outputs, structured⟩ := read ((lacksAt_eq found).symm.trans lacks)
  obtain ⟨precision, set, merged⟩ := Precision.exists_retuned structured selection.modes
  exact ⟨node, _, found, retuned_withPrecision outputs merged,
    OutputModes.patch_eq_ok found outputs set⟩

/-- A scan sets the modes of those nodes that lack them when it starts, and of no others. -/
theorem exists_retuning_walk (once : ids.Nodup)
    (readable : ∀ id ∈ ids, graph.ReadableAt selection id) :
    ∃ changed,
      Walk [OutputModes.pass selection] ids graph
        ((ids.filter (graph.lacksAt selection)).map fun id => (id, OutputModes.pass selection))
        (.ok false) changed ∧
      RetunedAt selection.modes (ids.filter (graph.lacksAt selection)) graph changed := by
  induction ids generalizing graph with
  | nil => exact ⟨graph, .through, .nothing⟩
  | cons id rest inductionHypothesis =>
      obtain ⟨fresh, restOnce⟩ := List.nodup_cons.mp once
      obtain ⟨here, restReadable⟩ := List.forall_mem_cons.mp readable
      cases lacks : graph.lacksAt selection id with
      | false =>
          obtain ⟨node, found, _⟩ := here
          obtain ⟨changed, walk, retuned⟩ := inductionHypothesis restOnce restReadable
          rw [List.filter_cons_of_neg (by simp [lacks])]
          exact ⟨changed, .skip (noneApplies_of_lacksAt found lacks) walk, retuned⟩
      | true =>
          obtain ⟨old, new, found, first, patched⟩ := here.patch_eq_ok lacks
          -- The nodes that are still to come are as they were.
          have kept : ∀ other ∈ rest, (graph.replace id.index new).get other = graph.get other := by
            intro other member
            apply get_eq_of_get?_eq
            exact get?_replace_of_ne found new fun same => fresh (same ▸ member)
          have same : rest.filter ((graph.replace id.index new).lacksAt selection) =
              rest.filter (graph.lacksAt selection) := by
            apply List.filter_congr
            intro other member
            rw [lacksAt, lacksAt, kept other member]
          obtain ⟨changed, walk, retuned⟩ := inductionHypothesis restOnce (by
            intro other member
            rw [ReadableAt, kept other member]
            exact restReadable other member)
          rw [same] at walk retuned
          have untouched : id ∉ rest.filter (graph.lacksAt selection) :=
            fun member => fresh (List.mem_of_mem_filter member)
          rw [List.filter_cons_of_pos lacks]
          exact ⟨changed, .change (firstApplies_of_lacksAt lacks) patched walk,
            .cons found first retuned untouched⟩

/-! ## A run -/

/-- No node lacks modes once they are merged wherever they were lacking. -/
theorem RetunedAt.lacksAt_eq_false (retuned : RetunedAt selection.modes ids graph changed)
    (all : ∀ id, graph.lacksAt selection id = true → id ∈ ids) (id : NodeId) :
    changed.lacksAt selection id = false := by
  by_cases member : id ∈ ids
  · obtain ⟨_, _, _, now, merged⟩ := retuned.retuned id member
    rw [lacksAt_eq now]
    exact lacksModes_of_retuned merged
  · have before := get_eq_of_get?_eq (retuned.others id member)
    rw [lacksAt, before]
    exact Bool.eq_false_iff.mpr fun lacks => member (all id lacks)

theorem RetunedAt.live (retuned : RetunedAt update ids graph changed)
    (found : graph.get id = .ok node) :
    ∃ new, changed.get id = .ok new := by
  by_cases member : id ∈ ids
  · obtain ⟨_, new, _, now, _⟩ := retuned.retuned id member
    exact ⟨new, now⟩
  · exact ⟨node, (get_eq_of_get?_eq (retuned.others id member)).trans found⟩

/-- A run of output modes has room for two scans. -/
private theorem modesOnly_run_of_concludes {rounds : List (Round α)}
    {outcome : Except (Failure PassError) Report}
    (concludes : Concludes [OutputModes.pass selection] none graph rounds changed outcome)
    (few : rounds.length ≤ 1) :
    ∃ log, (modesOnly selection).run graph = some ⟨changed, log, outcome⟩ := by
  have room : rounds.length < (modesOnly selection).allowance graph := by
    have allowance : (modesOnly selection).allowance graph = (3 * graph.order.length + 2) * 3 := rfl
    omega
  exact concludes.runWithin_eq room

/-- A run scans a well-formed graph once to set modes, if any are lacking, and once more to find
nothing to do. -/
theorem WellFormed.modesOnly_retunes (wf : graph.WellFormed)
    (readable : graph.Readable selection) :
    ∃ run, (modesOnly selection).run graph = some run ∧
      run.outcome = .ok
        ⟨if graph.order.filter (graph.lacksAt selection) = [] then 1 else 2,
          (graph.order.filter (graph.lacksAt selection)).length, true⟩ ∧
      RetunedAt selection.modes (graph.order.filter (graph.lacksAt selection)) graph run.graph := by
  have live : ∀ id ∈ graph.order, ∃ node, graph.get id = .ok node :=
    fun id member => wf.mem_order_iff.mp member
  have allReadable : ∀ id ∈ graph.order, graph.ReadableAt selection id := by
    intro id member
    obtain ⟨_, found⟩ := live id member
    exact readable.at_live found
  obtain ⟨changed, walk, retuned⟩ := exists_retuning_walk wf.nodup allReadable
  cases lacking : graph.order.filter (graph.lacksAt selection) with
  | nil =>
      rw [lacking] at walk retuned
      obtain ⟨_, same, quiet⟩ := walk.quiet
      rw [same] at retuned
      have concludes : Concludes [OutputModes.pass selection] none graph [] graph
          (.ok ⟨1, 0, true⟩) :=
        .settled .none (fun _ member => absurd member List.not_mem_nil) nofun quiet
      obtain ⟨log, ended⟩ := modesOnly_run_of_concludes concludes (Nat.zero_le 1)
      exact ⟨_, ended, rfl, retuned⟩
  | cons first others =>
      rw [lacking] at walk retuned
      have all : ∀ id, graph.lacksAt selection id = true → id ∈ first :: others := by
        intro id lacks
        obtain ⟨node, found, _⟩ := lacksAt_eq_true_iff.mp lacks
        have member : id ∈ graph.order := wf.mem_order_iff.mpr ⟨node, found⟩
        exact lacking ▸ List.mem_filter.mpr ⟨member, lacks⟩
      have quiet : ∀ id ∈ changed.order, NoneApplies [OutputModes.pass selection] changed id := by
        intro id member
        obtain ⟨node, found⟩ := live id (retuned.order ▸ member)
        obtain ⟨new, now⟩ := retuned.live found
        exact noneApplies_of_lacksAt now (retuned.lacksAt_eq_false all id)
      let patches := (first :: others).map fun id => (id, OutputModes.pass (α := α) selection)
      have busy : Busy [⟨graph, patches, false⟩] :=
        List.forall_mem_singleton.mpr (List.cons_ne_nil _ _)
      have concludes : Concludes [OutputModes.pass selection] none graph [⟨graph, patches, false⟩]
          changed (.ok ⟨2, patchCount [⟨graph, patches, false⟩], true⟩) :=
        .settled (.single walk) busy nofun quiet
      obtain ⟨log, ended⟩ := modesOnly_run_of_concludes concludes (Nat.le_refl 1)
      refine ⟨_, ended, ?_, retuned⟩
      simp [patchCount, patches]

end Graph

variable [Scalar α]

/-- The exact effect of a run of output modes alone, on any graph that operations and standard
passes can make and in which all selected types are readable.  The run settles, with a patch for
each layer that wants modes and with a second scan if there is one.  It merges the modes there, and
leaves everything else as it was. -/
theorem modes_run_exactly (tag : Nat) (actions : List (Action α)) (selection : ModeSelection)
    (readable : (actions.foldl Graph.after (Graph.empty tag)).Readable selection) :
    ∃ run ids, (modesOnly selection).run (actions.foldl Graph.after (Graph.empty tag)) = some run ∧
      run.outcome = .ok ⟨if ids = [] then 1 else 2, ids.length, true⟩ ∧
      ids.Nodup ∧
      (∀ id, id ∈ ids ↔ ∃ node, (actions.foldl Graph.after (Graph.empty tag)).get id = .ok node ∧
        node.Wants selection) ∧
      Graph.RetunedAt selection.modes ids (actions.foldl Graph.after (Graph.empty tag))
        run.graph := by
  have wf := Graph.wellFormed_throughout tag actions
  generalize actions.foldl Graph.after (Graph.empty tag) = graph at wf readable ⊢
  obtain ⟨run, ended, outcome, retuned⟩ := wf.modesOnly_retunes readable
  refine ⟨run, _, ended, outcome, wf.nodup.filter _, ?_, retuned⟩
  intro id
  rw [List.mem_filter, Graph.lacksAt_eq_true_iff, wf.mem_order_iff]
  constructor
  · intro member
    obtain ⟨_, node, found, lacks⟩ := member
    exact ⟨node, found, (readable.lacksModes_iff found).mp lacks⟩
  · intro exist
    obtain ⟨node, found, wants⟩ := exist
    exact ⟨⟨node, found⟩, node, found, (readable.lacksModes_iff found).mpr wants⟩

/-- An input, a layer with a text for a type and an accumulator, and an activation. -/
def accumulating : List (Action Float32) :=
  let attrs : Table String (Attr Float32) :=
    .ofList [("n_in", .int 4), (accumulatorKey, .str "auto")]
  let text : Precision := .raw "ap_fixed<16,6,AP_RND>"
  [.operate (.addInput "x" [4] (.fixed 16 6 true .unset)),
    .operate (.push (.single .dense "fc" attrs [⟨⟨0, 0⟩, 0⟩] [4] text)),
    .operate (.push (.single .activation "relu" .empty [⟨⟨0, 1⟩, 0⟩] [4] text))]

/-- Saturation for inputs and for dense layers. -/
def saturating : ModeSelection :=
  { layers := ["fc", "Input"], modes := { saturation := some .sat } }

theorem modes_run_exactly_accumulating :
    (accumulating.foldl Graph.after (Graph.empty 0)).Readable saturating ∧
      (∃ node, (accumulating.foldl Graph.after (Graph.empty 0)).get ⟨0, 1⟩ = .ok node ∧
        node.Wants saturating) ∧
      ∃ run ids, (modesOnly saturating).run (accumulating.foldl Graph.after (Graph.empty 0)) =
          some run ∧
        run.outcome = .ok ⟨if ids = [] then 1 else 2, ids.length, true⟩ ∧
        ids.Nodup ∧
        (∀ id, id ∈ ids ↔
          ∃ node, (accumulating.foldl Graph.after (Graph.empty 0)).get id = .ok node ∧
            node.Wants saturating) ∧
        Graph.RetunedAt saturating.modes ids (accumulating.foldl Graph.after (Graph.empty 0))
          run.graph := by
  have readable : (accumulating.foldl Graph.after (Graph.empty 0)).Readable saturating := by
    intro id node found selected
    have slot := Graph.find?_eq_some_iff.mp (Graph.listed_of_get found).2
    generalize id.index = index at slot
    match index with
    | 0 =>
      cases slot
      exact ⟨_, _, .fixed 16 6 true .unset, rfl, rfl⟩
    | 1 =>
      cases slot
      exact ⟨_, _, .fixed 16 6 true { rounding := some .rnd }, rfl, by decide +kernel⟩
    | 2 =>
      cases slot
      exact absurd selected (by decide +kernel)
    | _ + 3 => cases slot
  have lacks : ∃ node, (accumulating.foldl Graph.after (Graph.empty 0)).get ⟨0, 1⟩ = .ok node ∧
      lacksModes saturating node = true :=
    ⟨_, rfl, by decide +kernel⟩
  obtain ⟨node, found, lacking⟩ := lacks
  exact ⟨readable, ⟨node, found, (readable.lacksModes_iff found).mp lacking⟩,
    modes_run_exactly 0 accumulating saturating readable⟩

end QuantNet
