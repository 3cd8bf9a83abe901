import QuantNet.Proofs.Graph.Entries

/-!
# Lifetimes of handles

A handle is issued when a node is added, and lives until a removal of its node succeeds.  All that
operations do, failed ones included, and all changes of a node in its place keep to this: handles
are issued consecutively, no handle comes back, a node keeps its form, and two nodes that live stand
in the same order.
-/

namespace QuantNet

/-- What can happen to a handle. -/
inductive Occurrence where
  | issued (id : NodeId)
  | removed (id : NodeId)
deriving DecidableEq, Repr

def Occurrence.issued? : Occurrence → Option NodeId
  | issued id => some id
  | removed _ => none

variable {α : Type}

/-- What an operation has done to a handle, by its answer. -/
def Operation.occurrences (operation : Operation α) : Answer → List Occurrence
  | .error _ => []
  | .ok (some id) => [.issued id]
  | .ok none =>
      match operation with
      | .remove id _ => [.removed id]
      | _ => []

/-- What about a node does not change while it lives: its kind, its name, and how many inputs and
outputs it has. -/
def Node.form (node : Node α) : LayerKind × String × Nat × Nat :=
  (node.kind, node.name, node.inputs.length, node.outputs.length)

private theorem Node.form_rename (f : TensorRef → TensorRef) (node : Node α) :
    (node.rename f).form = node.form := by
  rw [form, form]
  exact congrArg (fun inputs => (node.kind, node.name, inputs, node.outputs.length))
    (List.length_map f)

private theorem Node.Resembles.form {new old : Node α} (resembles : new.Resembles old) :
    new.form = old.form := by
  rw [Node.form, Node.form, resembles.kind, resembles.name, resembles.inputs, resembles.outputs]

namespace Graph

variable {graph middle changed : Graph α} {id : NodeId} {node : Node α}
  {events earlier later : List Occurrence}

/-- What has become of the handles of a graph, given all that has happened to them in between. -/
structure Carries (graph : Graph α) (events : List Occurrence) (changed : Graph α) : Prop where
  tag : changed.tag = graph.tag
  reach : graph.issued ≤ changed.issued
  issued : events.filterMap Occurrence.issued? =
    (List.range' graph.issued (changed.issued - graph.issued)).map graph.handle
  removed : ∀ ⦃id⦄, Occurrence.removed id ∈ events → id.index < changed.issued
  live : ∀ ⦃id⦄, id ∈ changed.order ↔
    (id ∈ graph.order ∨ Occurrence.issued id ∈ events) ∧ Occurrence.removed id ∉ events
  form : ∀ ⦃index old new⦄, graph.find? index = some old → changed.find? index = some new →
    new.form = old.form
  before : ∀ ⦃left right⦄, graph.Before left right → left ∈ changed.order →
    right ∈ changed.order → changed.Before left right

namespace Carries

/-- Nothing happens to the nodes that stay where they are. -/
private theorem of_unmoved (tag : changed.tag = graph.tag) (issued : changed.issued = graph.issued)
    (order : changed.order = graph.order)
    (form : ∀ ⦃index old new⦄, graph.find? index = some old → changed.find? index = some new →
      new.form = old.form) :
    graph.Carries [] changed where
  tag := tag
  reach := Nat.le_of_eq issued.symm
  issued := by
    rw [issued, Nat.sub_self]
    rfl
  removed := fun _ member => absurd member List.not_mem_nil
  live := by
    intro id
    simp [order]
  form := form
  before := fun _ _ pair _ _ => by rwa [Before, order]

theorem refl (graph : Graph α) : graph.Carries [] graph :=
  .of_unmoved rfl rfl rfl fun index old new listed relisted => by
    rw [Option.some.inj (listed.symm.trans relisted)]

theorem mem_issued_iff (carries : graph.Carries events changed) :
    Occurrence.issued id ∈ events ↔
      id.graph = graph.tag ∧ graph.issued ≤ id.index ∧ id.index < changed.issued := by
  have among : Occurrence.issued id ∈ events ↔ id ∈ events.filterMap Occurrence.issued? := by
    rw [List.mem_filterMap]
    constructor
    · exact fun member => ⟨_, member, rfl⟩
    · rintro ⟨event, member, found⟩
      cases event with
      | issued other =>
          obtain rfl := Option.some.inj found
          exact member
      | removed => cases found
  have reach := carries.reach
  rw [among, carries.issued, List.mem_map]
  constructor
  · rintro ⟨index, inside, rfl⟩
    have range := List.mem_range'_1.mp inside
    exact ⟨rfl, range.1, by simp only [handle]; omega⟩
  · rintro ⟨tagged, early, late⟩
    exact ⟨id.index, List.mem_range'_1.mpr ⟨early, by omega⟩, by rw [handle, ← tagged]⟩

/-- An old handle that lives has lived before. -/
theorem mem_of_live (carries : graph.Carries events changed) (old : id.index < graph.issued)
    (live : id ∈ changed.order) : id ∈ graph.order := by
  rcases (carries.live.mp live).1 with there | fresh
  · exact there
  · exact absurd old (Nat.not_lt.mpr (carries.mem_issued_iff.mp fresh).2.1)

/-- What has happened in two stretches of time. -/
theorem trans (first : graph.Carries earlier middle) (second : middle.Carries later changed)
    (start : graph.Linked) (between : middle.Linked) (final : changed.Linked) :
    graph.Carries (earlier ++ later) changed where
  tag := second.tag.trans first.tag
  reach := Nat.le_trans first.reach second.reach
  issued := by
    have handles : middle.handle = graph.handle := by
      funext index
      rw [handle, first.tag, handle]
    have reach := first.reach
    have further := second.reach
    have sum : changed.issued - graph.issued =
        (middle.issued - graph.issued) + (changed.issued - middle.issued) := by
      omega
    have place : graph.issued + (middle.issued - graph.issued) = middle.issued := by
      omega
    rw [List.filterMap_append, first.issued, second.issued, handles, ← List.map_append, sum,
      ← List.range'_append_1, place]
  removed := by
    intro id member
    rcases List.mem_append.mp member with old | new
    · exact Nat.lt_of_lt_of_le (first.removed old) second.reach
    · exact second.removed new
  live := by
    intro id
    have fresh : Occurrence.issued id ∈ later → Occurrence.removed id ∉ earlier :=
      fun new gone => Nat.not_lt.mpr (second.mem_issued_iff.mp new).2.1 (first.removed gone)
    rw [second.live, first.live, List.mem_append, List.mem_append]
    constructor
    · rintro ⟨⟨there, stays⟩ | new, remains⟩
      · exact ⟨there.imp_right Or.inl, fun gone => gone.elim stays remains⟩
      · exact ⟨Or.inr (Or.inr new), fun gone => gone.elim (fresh new) remains⟩
    · rintro ⟨there, remains⟩
      refine ⟨?_, fun gone => remains (Or.inr gone)⟩
      rcases there with old | old | new
      · exact Or.inl ⟨Or.inl old, fun gone => remains (Or.inl gone)⟩
      · exact Or.inl ⟨Or.inr old, fun gone => remains (Or.inl gone)⟩
      · exact Or.inr new
  form := by
    intro index old new listed relisted
    have early := Nat.lt_of_lt_of_le (issued_of_find? listed) first.reach
    have live := second.mem_of_live early (final.handle_mem_order relisted)
    obtain ⟨_, node, there⟩ := between.mem_order.mp live
    exact (second.form there relisted).trans (first.form listed there)
  before := by
    intro left right pair leftLive rightLive
    have stays : ∀ id ∈ graph.order, id ∈ changed.order → id ∈ middle.order := by
      intro id member live
      obtain ⟨_, node, listed⟩ := start.mem_order.mp member
      exact second.mem_of_live (Nat.lt_of_lt_of_le (issued_of_find? listed) first.reach) live
    have leftThere := stays left (pair.subset (by simp)) leftLive
    have rightThere := stays right (pair.subset (by simp)) rightLive
    exact second.before (first.before pair leftThere rightThere) leftLive rightLive

end Carries

/-! ## Single steps -/

/-- A node comes in with the next handle, somewhere in the order. -/
private theorem Carries.of_grown (tag : changed.tag = graph.tag)
    (issued : changed.issued = graph.issued + 1)
    (order : changed.order.Perm (graph.handle graph.issued :: graph.order))
    (form : ∀ ⦃index old new⦄, graph.find? index = some old → changed.find? index = some new →
      new.form = old.form)
    (before : ∀ ⦃left right⦄, graph.Before left right → changed.Before left right) :
    graph.Carries [.issued (graph.handle graph.issued)] changed where
  tag := tag
  reach := issued ▸ Nat.le_succ _
  issued := by
    rw [issued, Nat.add_sub_cancel_left]
    rfl
  removed := fun id member => by simp at member
  live := by
    intro id
    rw [order.mem_iff]
    simp [or_comm]
  form := form
  before := fun _ _ order _ _ => before order

/-- A node goes. -/
private theorem Carries.of_shrunk (linked : graph.Linked) (live : id ∈ graph.order)
    (tag : changed.tag = graph.tag) (issued : changed.issued = graph.issued)
    (order : changed.order = graph.order.erase id)
    (form : ∀ ⦃index old new⦄, graph.find? index = some old → changed.find? index = some new →
      new.form = old.form) :
    graph.Carries [.removed id] changed where
  tag := tag
  reach := Nat.le_of_eq issued.symm
  issued := by
    rw [issued, Nat.sub_self]
    rfl
  removed := by
    intro other member
    obtain rfl := Occurrence.removed.inj (List.mem_singleton.mp member)
    obtain ⟨_, node, listed⟩ := linked.mem_order.mp live
    exact issued ▸ issued_of_find? listed
  live := by
    intro other
    rw [order, linked.nodup.mem_erase_iff]
    simp [and_comm]
  form := form
  before := by
    intro left right pair leftLive rightLive
    rw [order, linked.nodup.mem_erase_iff] at leftLive rightLive
    rw [Before, order, linked.nodup.erase_eq_filter]
    exact pair_filter pair (by simpa using leftLive.1) (by simpa using rightLive.1)

/-! ## Operations -/

theorem carries_append (graph : Graph α) (node : Node α) :
    graph.Carries [.issued (graph.handle graph.issued)] (graph.append node).2 := by
  refine .of_grown rfl List.length_append (List.perm_append_singleton _ _) ?_ fun _ _ pair =>
    pair.trans (List.sublist_append_left _ _)
  intro index old new listed relisted
  rw [find?_append, if_neg (Nat.ne_of_lt (issued_of_find? listed)), listed] at relisted
  rw [Option.some.inj relisted]

section

variable (linked : graph.Linked)

include linked

theorem Linked.carries_placed {anchor : TensorRef} (exist : graph.hasTensor anchor = true)
    (node : Node α) :
    graph.Carries [.issued (graph.handle graph.issued)] (graph.placed anchor node) := by
  have issued : (graph.placed anchor node).issued = graph.issued + 1 := by
    simp [Graph.issued, Graph.placed, Graph.rename]
  refine .of_grown rfl issued (linked.order_placed_perm exist node) ?_ fun _ _ pair =>
    linked.before_placed exist pair
  intro index old new listed relisted
  rw [find?_placed, if_neg (Nat.ne_of_lt (issued_of_find? listed)), listed] at relisted
  rw [← Option.some.inj relisted, Node.form_rename]

theorem Linked.carries_dropped (live : id ∈ graph.order) :
    graph.Carries [.removed id] (graph.dropped id) := by
  refine .of_shrunk linked live rfl List.length_set rfl ?_
  intro index old new listed relisted
  obtain ⟨again, _⟩ := find?_dropped_eq_some_iff.mp relisted
  rw [Option.some.inj (listed.symm.trans again)]

theorem Linked.carries_bypassed (live : id ∈ graph.order) (input : TensorRef) :
    graph.Carries [.removed id] (graph.bypassed id input) := by
  have issued : (graph.bypassed id input).issued = graph.issued := by
    simp [Graph.issued, Graph.bypassed, Graph.dropped, Graph.rename]
  refine .of_shrunk linked live rfl issued rfl ?_
  intro index old new listed relisted
  obtain ⟨⟨before, again, rfl⟩, _⟩ := find?_bypassed_eq_some_iff.mp relisted
  rw [Option.some.inj (listed.symm.trans again), Node.form_rename]

end

theorem carries_replace {old new : Node α} (found : graph.get id = .ok old)
    (resembles : new.Resembles old) : graph.Carries [] (graph.replace id.index new) := by
  refine .of_unmoved rfl (issued_replace _ _ _) rfl ?_
  intro index before now listed relisted
  obtain ⟨again, older, similar⟩ := origin_of_replace (listed_of_get found).2 resembles relisted
  obtain rfl := Option.some.inj (listed.symm.trans older)
  exact similar.form

/-- An operation that succeeds does to handles what its answer tells. -/
theorem WellFormed.carries_of_change (wf : graph.WellFormed) {operation : Operation α}
    {answer : Option NodeId} (done : operation.change graph = .ok (answer, changed)) :
    graph.Carries (operation.occurrences (.ok answer)) changed := by
  cases performs_of_change done with
  | append => exact graph.carries_append _
  | insert added =>
      obtain ⟨checked, anchor, rest, reads, _, rfl, rfl⟩ := wf.lists.insert_eq_ok_iff.mp added
      have exist := (checkNew_eq_ok_iff.mp checked).2 anchor (reads ▸ List.mem_cons_self)
      exact wf.linked.carries_placed exist _
  | @remove id rewire _ removed =>
      cases rewire with
      | true =>
          obtain ⟨node, input, named, listed, _, rfl⟩ :=
            wf.linked.remove_rewire (fun _ _ => wf.source_ne) removed
          exact wf.linked.carries_bypassed (named ▸ wf.linked.handle_mem_order listed) input
      | false =>
          obtain ⟨node, found, _⟩ := except_bind_eq_ok.mp removed
          obtain ⟨_, _, _, rfl⟩ := wf.remove_unused removed
          exact wf.linked.carries_dropped
            (wf.mem_order_iff.mpr ⟨node, get_eq_ok_of_node found⟩)
  | replace stays found resembles =>
      have quiet : operation.occurrences (.ok none) = [] := by
        cases operation <;> first | rfl | exact absurd rfl (stays _ _)
      exact quiet ▸ carries_replace (get_eq_ok_of_node found) resembles
  | expose =>
      refine .of_unmoved rfl rfl rfl fun index old new listed relisted => ?_
      rw [Option.some.inj (listed.symm.trans relisted)]

theorem WellFormed.carries_perform (wf : graph.WellFormed) (operation : Operation α) :
    graph.Carries (operation.occurrences (operation.perform graph).2)
      (operation.perform graph).1 := by
  cases done : operation.change graph with
  | ok result =>
      obtain ⟨answer, changed⟩ := result
      rw [Operation.perform, done, Operation.settle]
      exact wf.carries_of_change done
  | error failure =>
      rw [Operation.perform, done, Operation.settle]
      exact .refl graph

/-! ## Sequences of steps -/

/-- A sequence of operations and of changes of nodes in their places, with all that happens to
handles on the way. -/
inductive Steps (start : Graph α) : List Occurrence → Graph α → Prop
  | start : Steps start [] start
  | perform {events : List Occurrence} {graph : Graph α} (steps : Steps start events graph)
      (operation : Operation α) :
      Steps start (events ++ operation.occurrences (operation.perform graph).2)
        (operation.perform graph).1
  | replace {events : List Occurrence} {graph : Graph α} {id : NodeId} {old new : Node α}
      (steps : Steps start events graph) (found : graph.get id = .ok old)
      (resembles : new.Resembles old) :
      Steps start events (graph.replace id.index new)

theorem Steps.wellFormed (steps : graph.Steps events changed) (wf : graph.WellFormed) :
    changed.WellFormed := by
  induction steps with
  | start => exact wf
  | perform _ operation inductionHypothesis => exact inductionHypothesis.perform operation
  | replace _ found resembles inductionHypothesis =>
      exact inductionHypothesis.replace (listed_of_get found).2 resembles

theorem Steps.carries (steps : graph.Steps events changed) (wf : graph.WellFormed) :
    graph.Carries events changed := by
  induction steps with
  | start => exact .refl graph
  | perform steps operation inductionHypothesis =>
      have between := steps.wellFormed wf
      exact inductionHypothesis.trans (between.carries_perform operation) wf.linked between.linked
        (between.perform operation).linked
  | replace steps found resembles inductionHypothesis =>
      have between := steps.wellFormed wf
      have final := between.replace (listed_of_get found).2 resembles
      have both := inductionHypothesis.trans (carries_replace found resembles) wf.linked
        between.linked final.linked
      rwa [List.append_nil] at both

/-- A graph has an answer for the handles that it has issued, also after their nodes have gone. -/
theorem WellFormed.contains_eq (wf : graph.WellFormed) (tagged : id.graph = graph.tag)
    (below : id.index < graph.issued) : graph.contains id = .ok (decide (id ∈ graph.order)) := by
  have known : graph.knows id = true := by
    simp [knows, tagged, below]
  have live : (graph.find? id.index).isSome = decide (id ∈ graph.order) := by
    rw [Bool.eq_iff_iff, Option.isSome_iff_exists, decide_eq_true_iff, wf.mem_order]
    exact (and_iff_right tagged).symm
  exact except_bind_eq_ok.mpr ⟨_, get?_eq_ok_iff.mpr ⟨known, rfl⟩, congrArg Except.ok live⟩

end Graph

end QuantNet
