import QuantNet.Proofs.Graph.Counting
import QuantNet.Proofs.Pass.Rewrite

/-!
# Which nodes are fused

Affine fusion applies to a node because of the tensor that the node reads: an affine node produces
it, and nothing else uses it.  How these conditions fare when a node is replaced, placed or
bypassed somewhere else.
-/

namespace QuantNet

theorem Node.Resembles.symm {α : Type} {new old : Node α} (resembles : new.Resembles old) :
    old.Resembles new :=
  ⟨resembles.kind.symm, resembles.name.symm, resembles.inputs.symm, resembles.outputs.symm⟩

namespace Graph

variable {α : Type} {graph : Graph α} {id producer : NodeId} {node : Node α} {ref : TensorRef}

/-! ## The conditions of a fusion -/

theorem WellFormed.readers_eq_singleton_iff (wf : graph.WellFormed) :
    graph.readers ref = [id] ↔
      (∃ node, graph.get id = .ok node ∧ ref ∈ node.inputs) ∧
        ∀ ⦃other node⦄, graph.get other = .ok node → ref ∈ node.inputs → other = id := by
  constructor
  · intro alone
    refine ⟨(mem_readers_iff_get wf.lists).mp (alone ▸ List.mem_singleton_self id), ?_⟩
    intro other node found reads
    have member := (mem_readers_iff_get wf.lists).mpr ⟨node, found, reads⟩
    exact List.mem_singleton.mp (alone ▸ member)
  · rintro ⟨reads, only⟩
    have nodup : (graph.readers ref).Nodup := by
      rw [readers, wf.linked.select_eq_filter]
      exact wf.nodup.filter _
    refine List.perm_singleton.mp ((List.perm_ext_iff_of_nodup nodup (List.nodup_singleton id)).mpr
      fun other => ?_)
    rw [mem_readers_iff_get wf.lists, List.mem_singleton]
    constructor
    · rintro ⟨node, found, uses⟩
      exact only found uses
    · rintro rfl
      exact reads

/-- An affine node alone uses the first tensor of an affine producer. -/
structure Fuses (graph : Graph α) (producer id : NodeId) : Prop where
  reader : ∃ node, graph.get id = .ok node ∧ node.inputs = [⟨producer, 0⟩] ∧
    node.kind.isAffine = true
  source : ∃ first, graph.get producer = .ok first ∧ first.kind.isAffine = true
  unexported : (⟨producer, 0⟩ : TensorRef) ∉ graph.outputs
  alone : ∀ ⦃other node⦄, graph.get other = .ok node → ⟨producer, 0⟩ ∈ node.inputs → other = id

theorem WellFormed.applies_iff_fuses (wf : graph.WellFormed) :
    AffineFusion.applies graph id = .ok true ↔ ∃ producer, graph.Fuses producer id := by
  rw [AffineFusion.applies_eq_ok_true_iff]
  constructor
  · rintro ⟨node, ⟨producer, output⟩, first, found, reads, affine, source, sourceAffine, rfl,
      unexported, alone⟩
    have only := (wf.readers_eq_singleton_iff.mp alone).2
    exact ⟨producer, ⟨node, found, reads, affine⟩, ⟨first, source, sourceAffine⟩,
      by simpa [isOutput] using unexported, only⟩
  · rintro ⟨producer, ⟨node, found, reads, affine⟩, ⟨first, source, sourceAffine⟩, unexported, only⟩
    refine ⟨node, ⟨producer, 0⟩, first, found, reads, affine, source, sourceAffine, rfl, ?_, ?_⟩
    · simpa [isOutput] using unexported
    · exact wf.readers_eq_singleton_iff.mpr
        ⟨⟨node, found, reads ▸ List.mem_singleton_self _⟩, only⟩

namespace Fuses

theorem source_eq {other : NodeId} (fuses : graph.Fuses producer id)
    (again : graph.Fuses other id) :
    producer = other := by
  obtain ⟨node, found, reads, _⟩ := fuses.reader
  obtain ⟨same, there, readsOther, _⟩ := again.reader
  obtain rfl := Except.ok.inj (found.symm.trans there)
  exact congrArg TensorRef.node (List.singleton_inj.mp (reads.symm.trans readsOther))

theorem reader_eq {other : NodeId} (fuses : graph.Fuses producer id)
    (again : graph.Fuses producer other) :
    id = other := by
  obtain ⟨node, found, reads, _⟩ := fuses.reader
  exact again.alone found (reads ▸ List.mem_singleton_self _)

/-- A node that is fused stands behind the producer that it is merged into. -/
theorem before (fuses : graph.Fuses producer id) (wf : graph.WellFormed) :
    graph.Before producer id := by
  obtain ⟨node, found, reads, _⟩ := fuses.reader
  obtain ⟨named, listed⟩ := listed_of_get found
  exact named ▸ wf.sources listed reads

theorem ne (fuses : graph.Fuses producer id) (wf : graph.WellFormed) : producer ≠ id :=
  (fuses.before wf).ne wf.nodup

/-! ## Edits elsewhere -/

/-- Fusion looks only at kinds, inputs and outputs. -/
theorem replace
    (fuses : graph.Fuses producer id) {other : NodeId} {old new : Node α}
    (found : graph.get other = .ok old) (resembles : new.Resembles old) :
    (graph.replace other.index new).Fuses producer id := by
  have image : ∀ {place : NodeId} {node : Node α}, graph.get place = .ok node →
      ∃ now, (graph.replace other.index new).get place = .ok now ∧ now.Resembles node := by
    intro place node there
    rw [get_replace_eq found there]
    by_cases here : place = other
    · subst here
      obtain rfl := Except.ok.inj (found.symm.trans there)
      exact ⟨new, by rw [if_pos rfl], resembles⟩
    · exact ⟨node, by rw [if_neg here], Node.Resembles.refl node⟩
  obtain ⟨node, there, reads, affine⟩ := fuses.reader
  obtain ⟨first, source, sourceAffine⟩ := fuses.source
  obtain ⟨now, here, similar⟩ := image there
  obtain ⟨firstNow, sourceHere, firstSimilar⟩ := image source
  refine ⟨⟨now, here, similar.inputs.trans reads, similar.kind ▸ affine⟩,
    ⟨firstNow, sourceHere, firstSimilar.kind ▸ sourceAffine⟩, fuses.unexported, ?_⟩
  intro place node relisted uses
  rcases (get_replace_iff found).mp relisted with ⟨rfl, rfl⟩ | ⟨_, before⟩
  · exact fuses.alone found (resembles.inputs ▸ uses)
  · exact fuses.alone before uses

theorem replace_iff
    {other : NodeId} {old new : Node α} (found : graph.get other = .ok old)
    (resembles : new.Resembles old) :
    (graph.replace other.index new).Fuses producer id ↔ graph.Fuses producer id := by
  refine ⟨fun fuses => ?_, fun fuses => fuses.replace found resembles⟩
  have back := fuses.replace (get_replace found new) resembles.symm
  rwa [replace_replace, replace_self found] at back

/-- A node that was fused when another one had been placed was so before, if it did not read the
tensor whose users were redirected. -/
theorem of_placed
    (wf : graph.WellFormed) {anchor : TensorRef} {new : Node α}
    (fuses : (graph.placed anchor new).Fuses producer id) (found : graph.get id = .ok node)
    (unread : anchor ∉ node.inputs) :
    graph.Fuses producer id := by
  let f := anchor.instead ⟨graph.handle graph.issued, 0⟩
  obtain ⟨now, relisted, reads, affine⟩ := fuses.reader
  obtain rfl := Except.ok.inj ((get_placed_of_get found anchor new).symm.trans relisted)
  rw [rename_instead_of_not_mem unread] at reads affine
  have mem : (⟨producer, 0⟩ : TensorRef) ∈ node.inputs := reads ▸ List.mem_singleton_self _
  have fixed : f ⟨producer, 0⟩ = ⟨producer, 0⟩ :=
    TensorRef.instead_of_ne fun same => unread (same ▸ mem)
  obtain ⟨before, there, _⟩ := hasTensor_iff_get.mp (wf.reads (listed_of_get found).2 _ mem)
  obtain ⟨first, source, sourceAffine⟩ := fuses.source
  obtain rfl := Except.ok.inj ((get_placed_of_get there anchor new).symm.trans source)
  refine ⟨⟨node, found, reads, affine⟩, ⟨before, there, sourceAffine⟩, ?_, ?_⟩
  · intro exported
    exact fuses.unexported (fixed ▸ List.mem_map_of_mem (f := f) exported)
  · intro other old older uses
    refine fuses.alone (get_placed_of_get older anchor new) ?_
    exact fixed ▸ List.mem_map_of_mem (f := f) uses

section Bypassed

variable {head gone : NodeId} (onto : graph.Fuses head gone)

include onto

/-- A node that is fused when another one has been merged into its producer was so before, if it did
not read from the node that is gone. -/
theorem of_bypassed
    (fuses : (graph.bypassed gone ⟨head, 0⟩).Fuses producer id) (found : graph.get id = .ok node)
    (apart : ∀ input ∈ node.inputs, input.node ≠ gone) :
    graph.Fuses producer id := by
  let f := TensorRef.past gone ⟨head, 0⟩
  obtain ⟨last, lastFound, lastReads, _⟩ := onto.reader
  obtain ⟨now, relisted, reads, affine⟩ := fuses.reader
  obtain ⟨elsewhere, old, there, rfl⟩ := (get_bypassed_iff lastFound).mp relisted
  obtain rfl := Except.ok.inj (found.symm.trans there)
  obtain ⟨first, source, sourceAffine⟩ := fuses.source
  obtain ⟨producerStays, before, sourceThere, rfl⟩ := (get_bypassed_iff lastFound).mp source
  have fixed : f ⟨producer, 0⟩ = ⟨producer, 0⟩ := TensorRef.past_of_ne producerStays
  have same : node.inputs.map f = node.inputs := by
    rw [List.map_congr_left fun input member => TensorRef.past_of_ne (apart input member)]
    exact List.map_id' node.inputs
  have readsBefore : node.inputs = [⟨producer, 0⟩] := same.symm.trans reads
  refine ⟨⟨node, found, readsBefore, affine⟩, ⟨before, sourceThere, sourceAffine⟩, ?_, ?_⟩
  · intro exported
    exact fuses.unexported (fixed ▸ List.mem_map_of_mem (f := f) exported)
  · intro other old older uses
    by_cases here : other = gone
    · -- The node that is gone read the head alone, which is then read by nothing else.
      subst here
      obtain rfl := Except.ok.inj (older.symm.trans lastFound)
      have ofHead : (⟨producer, 0⟩ : TensorRef) = ⟨head, 0⟩ :=
        List.mem_singleton.mp (lastReads ▸ uses)
      exact (onto.alone found (ofHead ▸ readsBefore ▸ List.mem_singleton_self _)).symm
    · refine fuses.alone (get_bypassed_of_get lastFound older here _) ?_
      exact fixed ▸ List.mem_map_of_mem (f := f) uses

end Bypassed

end Fuses

end Graph

end QuantNet
