import QuantNet.Proofs.Graph.WellFormed

/-!
# Edits keep graphs well formed

For each edit: the order and the nodes that it leaves, and that it leaves a well-formed graph.
-/

namespace QuantNet.Graph

variable {α : Type} {graph changed : Graph α} {index : Nat} {node : Node α} {ref : TensorRef}

/-! ## A node at the end -/

@[simp]
theorem order_append (graph : Graph α) (node : Node α) :
    (graph.append node).2.order = graph.order ++ [graph.handle graph.issued] :=
  rfl

theorem find?_append (graph : Graph α) (node : Node α) (index : Nat) :
    (graph.append node).2.find? index =
      if index = graph.issued then some node else graph.find? index := by
  have slots : (graph.append node).2.slots = graph.slots ++ [some node] := rfl
  rw [find?, find?, slots, issued, List.getElem?_append]
  by_cases early : index < graph.slots.length
  · rw [if_pos early, if_neg (Nat.ne_of_lt early)]
  · by_cases here : index = graph.slots.length
    · subst here
      simp
    · have beyond : graph.slots[index]? = none :=
        List.getElem?_eq_none (Nat.le_of_not_lt early)
      have later : ([some node] : List (Option (Node α)))[index - graph.slots.length]? = none := by
        apply List.getElem?_eq_none
        simp only [List.length_singleton]
        omega
      rw [if_neg early, if_neg here, beyond, later]

theorem find?_append_eq_some_iff {new : Node α} :
    (graph.append node).2.find? index = some new ↔
      graph.find? index = some new ∨ index = graph.issued ∧ new = node := by
  rw [find?_append]
  by_cases here : index = graph.issued
  · subst here
    simp [eq_comm]
  · simp [here]

theorem OrderedAt.append
    {counts : Nat → Prop} (ordered : graph.OrderedAt counts)
    (produced : ∀ input ∈ node.inputs, input.node ∈ graph.order) :
    (graph.append node).2.OrderedAt counts := by
  intro index new listed counted input member
  rw [Before, order_append]
  rcases find?_append_eq_some_iff.mp listed with old | ⟨rfl, rfl⟩
  · exact (ordered old counted input member).trans (List.sublist_append_left _ _)
  · exact (List.singleton_sublist.mpr (produced input member)).append (List.Sublist.refl [_])

theorem Linked.append
    (linked : graph.Linked) (exist : ∀ input ∈ node.inputs, graph.hasTensor input = true) :
    (graph.append node).2.Linked := by
  have nodup : (graph.append node).2.order.Nodup := by
    rw [order_append]
    exact linked.nodup.append (List.nodup_singleton _)
      (List.disjoint_singleton.mpr linked.fresh_not_mem)
  have persists :
      ∀ ⦃ref⦄, graph.hasTensor ref = true → (graph.append node).2.hasTensor ref = true := by
    intro ref exist
    refine hasTensor_of_find? exist rfl fun old listed => ?_
    exact ⟨old, find?_append_eq_some_iff.mpr (Or.inl listed), rfl⟩
  refine ⟨nodup, ?_, ?_, fun ref member => persists (linked.exports ref member)⟩
  · intro id
    rw [order_append, List.mem_append, List.mem_singleton, linked.mem_order]
    constructor
    · rintro (⟨tagged, old, listed⟩ | rfl)
      · exact ⟨tagged, old, find?_append_eq_some_iff.mpr (Or.inl listed)⟩
      · exact ⟨rfl, node, find?_append_eq_some_iff.mpr (Or.inr ⟨rfl, rfl⟩)⟩
    · rintro ⟨tagged, new, listed⟩
      rcases find?_append_eq_some_iff.mp listed with old | ⟨fresh, _⟩
      · exact Or.inl ⟨tagged, new, old⟩
      · exact Or.inr (by rw [handle, ← fresh, ← show id.graph = graph.tag from tagged])
  · intro index new listed input member
    rcases find?_append_eq_some_iff.mp listed with old | ⟨rfl, rfl⟩
    · exact persists (linked.reads old input member)
    · exact persists (exist input member)

theorem WellFormed.append
    (wf : graph.WellFormed) (produces : node.outputs ≠ [])
    (exist : ∀ input ∈ node.inputs, graph.hasTensor input = true) :
    (graph.append node).2.WellFormed := by
  refine (wf.linked.append exist).wellFormed ?_ ?_
  · intro index new listed
    rcases find?_append_eq_some_iff.mp listed with old | ⟨rfl, rfl⟩
    · exact wf.produces old
    · exact produces
  · exact wf.single.append fun input member => wf.linked.producer_mem (exist input member)

/-! ## A node behind a producer -/

private theorem behind_append {anchor : NodeId} (id : NodeId) (back : List NodeId) :
    ∀ front : List NodeId,
      anchor ∉ front → behind anchor id (front ++ anchor :: back) = front ++ anchor :: id :: back
  | [], _ => by
      simp [behind]
  | first :: rest, absent => by
      have different : first ≠ anchor := fun same => absent (same ▸ List.mem_cons_self)
      have later := behind_append id back rest fun member =>
        absent (List.mem_cons_of_mem first member)
      unfold behind at later ⊢
      rw [List.cons_append, List.idxOf_cons_ne _ different, List.insertIdx_succ_cons, later,
        List.cons_append]

/-- The new node comes directly behind the producer of its first input. -/
theorem order_placed
    (linked : graph.Linked) {anchor : TensorRef} (exist : graph.hasTensor anchor = true)
    (node : Node α) :
    ∃ front back,
      graph.order = front ++ anchor.node :: back ∧
        (graph.placed anchor node).order =
          front ++ anchor.node :: graph.handle graph.issued :: back := by
  obtain ⟨front, back, shape⟩ := List.append_of_mem (linked.producer_mem exist)
  have absent : anchor.node ∉ front := by
    have nodup := linked.nodup
    rw [shape] at nodup
    intro member
    exact (List.nodup_append.mp nodup).2.2 _ member _ List.mem_cons_self rfl
  refine ⟨front, back, shape, ?_⟩
  have placedOrder : (graph.placed anchor node).order =
      behind anchor.node (graph.handle graph.issued) graph.order :=
    rfl
  rw [placedOrder, shape, behind_append _ _ front absent]

theorem find?_placed (graph : Graph α) (anchor : TensorRef) (node : Node α) (index : Nat) :
    (graph.placed anchor node).find? index =
      if index = graph.issued then some node
      else (graph.find? index).map
        (Node.rename (anchor.instead ⟨graph.handle graph.issued, 0⟩)) := by
  let renamed := graph.rename (anchor.instead ⟨graph.handle graph.issued, 0⟩)
  have same : (graph.placed anchor node).find? index = (renamed.append node).2.find? index := rfl
  have issued : renamed.issued = graph.issued := List.length_map _
  rw [same, find?_append, issued, find?_rename]

theorem find?_placed_eq_some_iff {anchor : TensorRef} {new : Node α} :
    (graph.placed anchor node).find? index = some new ↔
      index = graph.issued ∧ new = node ∨
        ∃ old, graph.find? index = some old ∧
          new = old.rename (anchor.instead ⟨graph.handle graph.issued, 0⟩) := by
  rw [find?_placed]
  by_cases here : index = graph.issued
  · subst here
    simp [eq_comm]
  · rw [if_neg here, Option.map_eq_some_iff]
    simp [here, eq_comm]

theorem Linked.order_placed_perm
    (linked : graph.Linked) {anchor : TensorRef} (exist : graph.hasTensor anchor = true)
    (node : Node α) :
    (graph.placed anchor node).order.Perm (graph.handle graph.issued :: graph.order) := by
  obtain ⟨front, back, oldOrder, newOrder⟩ := order_placed linked exist node
  have step :
      ((front ++ [anchor.node]) ++ graph.handle graph.issued :: back).Perm
        (graph.handle graph.issued :: ((front ++ [anchor.node]) ++ back)) :=
    List.perm_middle
  rw [newOrder, oldOrder]
  simpa using step

theorem Linked.nodup_placed
    (linked : graph.Linked) {anchor : TensorRef} (exist : graph.hasTensor anchor = true)
    (node : Node α) :
    (graph.placed anchor node).order.Nodup :=
  (linked.order_placed_perm exist node).nodup_iff.mpr
    (List.nodup_cons.mpr ⟨linked.fresh_not_mem, linked.nodup⟩)

theorem Linked.mem_order_placed
    (linked : graph.Linked) {anchor : TensorRef} (exist : graph.hasTensor anchor = true)
    (node : Node α) ⦃id : NodeId⦄ :
    id ∈ (graph.placed anchor node).order ↔
      id.graph = graph.tag ∧ ∃ new, (graph.placed anchor node).find? id.index = some new := by
  rw [(linked.order_placed_perm exist node).mem_iff, List.mem_cons, linked.mem_order]
  constructor
  · rintro (rfl | ⟨tagged, old, listed⟩)
    · exact ⟨rfl, node, find?_placed_eq_some_iff.mpr (Or.inl ⟨rfl, rfl⟩)⟩
    · exact ⟨tagged, _, find?_placed_eq_some_iff.mpr (Or.inr ⟨old, listed, rfl⟩)⟩
  · rintro ⟨tagged, new, listed⟩
    rcases find?_placed_eq_some_iff.mp listed with ⟨fresh, _⟩ | ⟨old, older, _⟩
    · exact Or.inl (by rw [handle, ← fresh, ← tagged])
    · exact Or.inr ⟨tagged, old, older⟩

/-- Precedence among the old nodes stays when a node is placed. -/
theorem Linked.before_placed
    (linked : graph.Linked) {anchor : TensorRef} (exist : graph.hasTensor anchor = true)
    {left right : NodeId} (order : graph.Before left right) :
    (graph.placed anchor node).Before left right := by
  obtain ⟨front, back, oldOrder, newOrder⟩ := order_placed linked exist node
  rw [Before, newOrder]
  rw [Before, oldOrder] at order
  exact order.trans <| (List.Sublist.refl front).append
    (List.Sublist.cons_cons _ (List.sublist_cons_self _ back))

/-- The new node stands behind the producer of its first input. -/
private theorem Linked.anchor_before_placed
    (linked : graph.Linked) {anchor : TensorRef} (exist : graph.hasTensor anchor = true)
    (node : Node α) :
    (graph.placed anchor node).Before anchor.node (graph.handle graph.issued) := by
  obtain ⟨front, back, _, newOrder⟩ := order_placed linked exist node
  have nodup := linked.nodup_placed exist node
  rw [newOrder] at nodup
  rw [Before, newOrder]
  exact (pair_sublist_iff nodup).mpr List.mem_cons_self

/-- What stands behind the producer of the first input stands behind the new node. -/
private theorem Linked.placed_before
    (linked : graph.Linked) {anchor : TensorRef} (exist : graph.hasTensor anchor = true)
    {right : NodeId} (order : graph.Before anchor.node right) :
    (graph.placed anchor node).Before (graph.handle graph.issued) right := by
  obtain ⟨front, back, oldOrder, newOrder⟩ := order_placed linked exist node
  have later : right ∈ back := by
    rw [Before, oldOrder] at order
    exact (pair_sublist_iff (oldOrder ▸ linked.nodup)).mp order
  have split : front ++ anchor.node :: graph.handle graph.issued :: back =
      (front ++ [anchor.node]) ++ graph.handle graph.issued :: back := by
    simp
  have nodup := linked.nodup_placed exist node
  rw [newOrder, split] at nodup
  rw [Before, newOrder, split]
  exact (pair_sublist_iff nodup).mpr later

/-- Nodes stay behind what they read when a node is placed that is not counted, or that reads
nothing from behind the producer of its first input. -/
theorem OrderedAt.placed
    {counts : Nat → Prop} (ordered : graph.OrderedAt counts) (linked : graph.Linked)
    {anchor : TensorRef} (exist : graph.hasTensor anchor = true)
    (fits : counts node.inputs.length →
      ∀ input ∈ node.inputs, input.node = anchor.node ∨ graph.Before input.node anchor.node) :
    (graph.placed anchor node).OrderedAt counts := by
  intro index new listed counted input member
  rcases find?_placed_eq_some_iff.mp listed with ⟨rfl, rfl⟩ | ⟨old, older, rfl⟩
  · have behind := linked.anchor_before_placed exist new
    rcases fits counted input member with same | order
    · rw [same]
      exact behind
    · exact pair_trans (linked.nodup_placed exist new) (linked.before_placed exist order) behind
  · obtain ⟨before, used, rfl⟩ := List.mem_map.mp member
    have sized :
        (old.rename (anchor.instead ⟨graph.handle graph.issued, 0⟩)).inputs.length =
          old.inputs.length :=
      List.length_map _
    have order := ordered older (sized ▸ counted) before used
    by_cases own : before = anchor
    · rw [own, TensorRef.instead_self]
      rw [own] at order
      exact linked.placed_before exist order
    · rw [TensorRef.instead_of_ne own]
      exact linked.before_placed exist order

theorem Linked.placed
    (linked : graph.Linked) {anchor : TensorRef} {rest : List TensorRef}
    (produces : node.outputs ≠ []) (exist : ∀ input ∈ node.inputs, graph.hasTensor input = true)
    (reads : node.inputs = anchor :: rest) :
    (graph.placed anchor node).Linked := by
  have anchored : graph.hasTensor anchor = true := exist anchor (reads ▸ List.mem_cons_self)
  have persists :
      ∀ ⦃ref⦄, graph.hasTensor ref = true → (graph.placed anchor node).hasTensor ref = true := by
    intro ref exist
    refine hasTensor_of_find? exist rfl fun old listed => ?_
    exact ⟨_, find?_placed_eq_some_iff.mpr (Or.inr ⟨old, listed, rfl⟩), rfl⟩
  have produced :
      (graph.placed anchor node).hasTensor ⟨graph.handle graph.issued, 0⟩ = true :=
    hasTensor_iff.mpr ⟨rfl, node, find?_placed_eq_some_iff.mpr (Or.inl ⟨rfl, rfl⟩),
      List.length_pos_iff.mpr produces⟩
  have redirected :
      ∀ ⦃ref⦄, graph.hasTensor ref = true →
        (graph.placed anchor node).hasTensor
          (TensorRef.instead anchor ⟨graph.handle graph.issued, 0⟩ ref) = true := by
    intro ref exist
    by_cases own : ref = anchor
    · rw [own, TensorRef.instead_self]
      exact produced
    · rw [TensorRef.instead_of_ne own]
      exact persists exist
  refine ⟨linked.nodup_placed anchored node, linked.mem_order_placed anchored node, ?_, ?_⟩
  · intro index new listed input member
    rcases find?_placed_eq_some_iff.mp listed with ⟨rfl, rfl⟩ | ⟨old, older, rfl⟩
    · exact persists (exist input member)
    · obtain ⟨before, used, rfl⟩ := List.mem_map.mp member
      exact redirected (linked.reads older before used)
  · intro ref member
    obtain ⟨before, used, rfl⟩ := List.mem_map.mp member
    exact redirected (linked.exports before used)

theorem WellFormed.placed
    (wf : graph.WellFormed) {anchor : TensorRef} {rest : List TensorRef}
    (produces : node.outputs ≠ []) (exist : ∀ input ∈ node.inputs, graph.hasTensor input = true)
    (reads : node.inputs = anchor :: rest) :
    (graph.placed anchor node).WellFormed := by
  refine (wf.linked.placed produces exist reads).wellFormed ?_ ?_
  · intro index new listed
    rcases find?_placed_eq_some_iff.mp listed with ⟨rfl, rfl⟩ | ⟨old, older, rfl⟩
    · exact produces
    · have kept := wf.produces older
      exact kept
  · -- A node with a single input reads its anchor and nothing else.
    refine wf.single.placed wf.linked (exist anchor (reads ▸ List.mem_cons_self)) ?_
    intro counted input member
    rw [reads, List.length_cons, Nat.add_eq_right, List.length_eq_zero_iff] at counted
    rw [reads, counted, List.mem_singleton] at member
    exact Or.inl (congrArg TensorRef.node member)

/-! ## A node that is gone -/

theorem order_dropped (nodup : graph.order.Nodup) (id : NodeId) :
    (graph.dropped id).order = graph.order.filter fun other => other != id :=
  nodup.erase_eq_filter id

theorem find?_dropped (graph : Graph α) (id : NodeId) (index : Nat) :
    (graph.dropped id).find? index = if index = id.index then none else graph.find? index := by
  simp only [find?, dropped, List.getElem?_set]
  by_cases here : id.index = index
  · by_cases below : index < graph.slots.length
    · simp [here, below]
    · simp [here, below]
  · simp [here, Ne.symm here]

theorem find?_dropped_eq_some_iff {id : NodeId} :
    (graph.dropped id).find? index = some node ↔
      graph.find? index = some node ∧ index ≠ id.index := by
  rw [find?_dropped]
  by_cases here : index = id.index <;> simp [here]

theorem OrderedAt.dropped
    {counts : Nat → Prop} (ordered : graph.OrderedAt counts) (nodup : graph.order.Nodup)
    (unread : ∀ ⦃other node⦄, graph.find? other = some node →
      ∀ input ∈ node.inputs, input.node ≠ graph.handle index) :
    (graph.dropped (graph.handle index)).OrderedAt counts := by
  intro other node listed counted input member
  obtain ⟨older, different⟩ := find?_dropped_eq_some_iff.mp listed
  have produced : input.node ≠ graph.handle index := unread older input member
  have itself : (graph.dropped (graph.handle index)).handle other ≠ graph.handle index :=
    fun same => different (handle_injective graph same)
  rw [Before, order_dropped nodup]
  exact pair_filter (ordered older counted input member) (by simpa using produced)
    (by simpa using itself)

theorem Linked.dropped
    (linked : graph.Linked)
    (unread : ∀ ⦃other node⦄, graph.find? other = some node →
      ∀ input ∈ node.inputs, input.node ≠ graph.handle index)
    (unexported : ∀ ref ∈ graph.outputs, ref.node ≠ graph.handle index) :
    (graph.dropped (graph.handle index)).Linked := by
  have nodup : (graph.dropped (graph.handle index)).order.Nodup := by
    rw [order_dropped linked.nodup]
    exact linked.nodup.filter _
  have persists :
      ∀ ⦃ref⦄, graph.hasTensor ref = true → ref.node ≠ graph.handle index →
        (graph.dropped (graph.handle index)).hasTensor ref = true := by
    intro ref exist different
    refine hasTensor_of_find? exist rfl fun old listed => ?_
    refine ⟨old, find?_dropped_eq_some_iff.mpr ⟨listed, fun same => different ?_⟩, rfl⟩
    obtain ⟨tagged, _⟩ := hasTensor_iff.mp exist
    rw [handle, ← show ref.node.index = index from same, ← tagged]
  refine ⟨nodup, ?_, ?_, ?_⟩
  · intro id
    rw [order_dropped linked.nodup, List.mem_filter, linked.mem_order, bne_iff_ne]
    constructor
    · rintro ⟨⟨tagged, old, listed⟩, different⟩
      refine ⟨tagged, old, find?_dropped_eq_some_iff.mpr ⟨listed, fun same => different ?_⟩⟩
      rw [handle, ← show id.index = index from same, ← tagged]
    · rintro ⟨tagged, old, listed⟩
      obtain ⟨older, different⟩ := find?_dropped_eq_some_iff.mp listed
      exact ⟨⟨tagged, old, older⟩, fun same => different (congrArg NodeId.index same)⟩
  · intro other node listed input member
    have older := (find?_dropped_eq_some_iff.mp listed).1
    exact persists (linked.reads older input member) (unread older input member)
  · intro ref member
    exact persists (linked.exports ref member) (unexported ref member)

theorem WellFormed.dropped
    (wf : graph.WellFormed)
    (unread : ∀ ⦃other node⦄, graph.find? other = some node →
      ∀ input ∈ node.inputs, input.node ≠ graph.handle index)
    (unexported : ∀ ref ∈ graph.outputs, ref.node ≠ graph.handle index) :
    (graph.dropped (graph.handle index)).WellFormed :=
  (wf.linked.dropped unread unexported).wellFormed
    (fun _ _ listed => wf.produces (find?_dropped_eq_some_iff.mp listed).1)
    (wf.single.dropped wf.nodup unread)

/-! ## A node that is bypassed -/

theorem find?_bypassed_eq_some_iff {id : NodeId} {input : TensorRef} {new : Node α} :
    (graph.bypassed id input).find? index = some new ↔
      (∃ old, graph.find? index = some old ∧ new = old.rename (TensorRef.past id input)) ∧
        index ≠ id.index := by
  rw [bypassed, find?_dropped_eq_some_iff, find?_rename_eq_some_iff]

theorem OrderedAt.rename_past
    {counts : Nat → Prop} (ordered : graph.OrderedAt counts) (nodup : graph.order.Nodup)
    {input : TensorRef} (source : graph.Before input.node (graph.handle index)) :
    (graph.rename (TensorRef.past (graph.handle index) input)).OrderedAt counts := by
  intro other new relisted counted ref member
  obtain ⟨old, older, rfl⟩ := find?_rename_eq_some_iff.mp relisted
  obtain ⟨before, used, rfl⟩ := List.mem_map.mp member
  have sized : (old.rename (TensorRef.past (graph.handle index) input)).inputs.length =
      old.inputs.length :=
    List.length_map _
  have behind := ordered older (sized ▸ counted) before used
  rw [Before]
  by_cases own : before.node = graph.handle index
  · rw [TensorRef.past_of_eq own]
    rw [own] at behind
    exact pair_trans nodup source behind
  · rw [TensorRef.past_of_ne own]
    exact behind

theorem Linked.rename_past
    (linked : graph.Linked) {input : TensorRef} (exist : graph.hasTensor input = true) :
    (graph.rename (TensorRef.past (graph.handle index) input)).Linked := by
  let f := TensorRef.past (graph.handle index) input
  have persists :
      ∀ ⦃ref⦄, graph.hasTensor ref = true → (graph.rename f).hasTensor ref = true := by
    intro ref there
    refine hasTensor_of_find? there rfl fun old older => ?_
    exact ⟨_, find?_rename_eq_some_iff.mpr ⟨old, older, rfl⟩, rfl⟩
  have renamed :
      ∀ ⦃ref⦄, graph.hasTensor ref = true → 
        (graph.rename f).hasTensor (TensorRef.past (graph.handle index) input ref) = true := by
    intro ref there
    by_cases own : ref.node = graph.handle index
    · rw [TensorRef.past_of_eq own]
      exact persists exist
    · rw [TensorRef.past_of_ne own]
      exact persists there
  refine ⟨linked.nodup, ?_, ?_, ?_⟩
  · intro id
    refine linked.mem_order.trans (and_congr_right fun _ => ?_)
    rw [find?_rename]
    constructor
    · rintro ⟨old, older⟩
      exact ⟨old.rename f, by rw [older, Option.map_some]⟩
    · rintro ⟨new, relisted⟩
      obtain ⟨old, older, _⟩ := Option.map_eq_some_iff.mp relisted
      exact ⟨old, older⟩
  · intro other new relisted ref member
    obtain ⟨old, older, rfl⟩ := find?_rename_eq_some_iff.mp relisted
    obtain ⟨before, used, rfl⟩ := List.mem_map.mp member
    exact renamed (linked.reads older before used)
  · intro ref member
    obtain ⟨before, used, rfl⟩ := List.mem_map.mp member
    exact renamed (linked.exports before used)

/-- Once the uses of a node are renamed to a tensor of another one, nothing uses it. -/
private theorem past_ne {input : TensorRef} (apart : input.node ≠ graph.handle index)
    (ref : TensorRef) :
    (TensorRef.past (graph.handle index) input ref).node ≠ graph.handle index := by
  by_cases own : ref.node = graph.handle index
  · rw [TensorRef.past_of_eq own]
    exact apart
  · rw [TensorRef.past_of_ne own]
    exact own

private theorem unread_past {input : TensorRef} (apart : input.node ≠ graph.handle index) :
    ∀ ⦃other new⦄,
      (graph.rename (TensorRef.past (graph.handle index) input)).find? other = some new →
        ∀ ref ∈ new.inputs, ref.node ≠ graph.handle index := by
  intro other new relisted ref member
  obtain ⟨old, _, rfl⟩ := find?_rename_eq_some_iff.mp relisted
  obtain ⟨before, _, rfl⟩ := List.mem_map.mp member
  exact past_ne apart before

theorem OrderedAt.bypassed
    {counts : Nat → Prop} (ordered : graph.OrderedAt counts) (nodup : graph.order.Nodup)
    {input : TensorRef} (source : graph.Before input.node (graph.handle index)) :
    (graph.bypassed (graph.handle index) input).OrderedAt counts :=
  (ordered.rename_past nodup source).dropped nodup (unread_past (source.ne nodup))

theorem Linked.bypassed
    (linked : graph.Linked) {input : TensorRef} (exist : graph.hasTensor input = true)
    (apart : input.node ≠ graph.handle index) :
    (graph.bypassed (graph.handle index) input).Linked := by
  refine (linked.rename_past exist).dropped (unread_past apart) ?_
  intro ref member
  obtain ⟨before, _, rfl⟩ := List.mem_map.mp member
  exact past_ne apart before

theorem WellFormed.bypassed
    (wf : graph.WellFormed) {input : TensorRef} (listed : graph.find? index = some node)
    (reads : node.inputs = [input]) :
    (graph.bypassed (graph.handle index) input).WellFormed := by
  have exist := wf.reads listed input (reads ▸ List.mem_singleton_self input)
  refine (wf.linked.bypassed exist (wf.source_ne listed reads)).wellFormed ?_
    (wf.single.bypassed wf.nodup (wf.sources listed reads))
  intro other new relisted
  obtain ⟨⟨old, older, rfl⟩, _⟩ := find?_bypassed_eq_some_iff.mp relisted
  have kept := wf.produces older
  exact kept

/-! ## A node that is rewritten -/

theorem find?_replace (listed : graph.find? index = some node) (new : Node α) (other : Nat) :
    (graph.replace index new).find? other =
      if other = index then some new else graph.find? other := by
  have below : index < graph.slots.length := issued_of_find? listed
  simp only [find?, replace, List.getElem?_set]
  by_cases here : index = other
  · subst here
    simp [below]
  · simp [here, Ne.symm here]

/-- What is found after a node was rewritten resembles what was found there before. -/
theorem origin_of_replace
    {old new : Node α} (listed : graph.find? index = some old) (resembles : new.Resembles old)
    ⦃other : Nat⦄ ⦃now : Node α⦄ (relisted : (graph.replace index new).find? other = some now) :
    ∃ before, graph.find? other = some before ∧ now.Resembles before := by
  rw [find?_replace listed] at relisted
  by_cases here : other = index
  · rw [if_pos here, Option.some.injEq] at relisted
    exact ⟨old, here ▸ listed, relisted ▸ resembles⟩
  · rw [if_neg here] at relisted
    exact ⟨now, relisted, ⟨rfl, rfl, rfl, rfl⟩⟩

/-- Where a node was found before another was rewritten, one that resembles it is found after. -/
private theorem image_of_replace
    {old new : Node α} (listed : graph.find? index = some old) (resembles : new.Resembles old)
    ⦃other : Nat⦄ ⦃before : Node α⦄ (older : graph.find? other = some before) :
    ∃ now, (graph.replace index new).find? other = some now ∧ now.Resembles before := by
  rw [find?_replace listed]
  by_cases here : other = index
  · have same : before = old := Option.some.inj (older.symm.trans (here ▸ listed))
    exact ⟨new, if_pos here, same ▸ resembles⟩
  · exact ⟨before, (if_neg here).trans older, ⟨rfl, rfl, rfl, rfl⟩⟩

theorem OrderedAt.replace
    {counts : Nat → Prop} (ordered : graph.OrderedAt counts) {old new : Node α}
    (listed : graph.find? index = some old) (resembles : new.Resembles old) :
    (graph.replace index new).OrderedAt counts := by
  intro other now relisted counted input member
  obtain ⟨before, older, similar⟩ := origin_of_replace listed resembles relisted
  rw [similar.inputs] at counted member
  exact ordered older counted input member

theorem Linked.replace
    (linked : graph.Linked) {old new : Node α} (listed : graph.find? index = some old)
    (resembles : new.Resembles old) :
    (graph.replace index new).Linked := by
  have origin := origin_of_replace listed resembles
  have image := image_of_replace listed resembles
  have persists :
      ∀ ⦃ref⦄, graph.hasTensor ref = true → (graph.replace index new).hasTensor ref = true := by
    intro ref exist
    refine hasTensor_of_find? exist rfl fun before older => ?_
    obtain ⟨now, relisted, similar⟩ := image older
    exact ⟨now, relisted, similar.outputs⟩
  refine ⟨linked.nodup, ?_, ?_, fun ref member => persists (linked.exports ref member)⟩
  · intro id
    refine linked.mem_order.trans (and_congr_right fun _ => ?_)
    constructor
    · rintro ⟨before, older⟩
      obtain ⟨now, relisted, _⟩ := image older
      exact ⟨now, relisted⟩
    · rintro ⟨now, relisted⟩
      obtain ⟨before, older, _⟩ := origin relisted
      exact ⟨before, older⟩
  · intro other now relisted input member
    obtain ⟨before, older, similar⟩ := origin relisted
    exact persists (linked.reads older input (similar.inputs ▸ member))

theorem WellFormed.replace
    (wf : graph.WellFormed) {old new : Node α} (listed : graph.find? index = some old)
    (resembles : new.Resembles old) :
    (graph.replace index new).WellFormed := by
  refine (wf.linked.replace listed resembles).wellFormed ?_ (wf.single.replace listed resembles)
  intro other now relisted empty
  obtain ⟨before, older, similar⟩ := origin_of_replace listed resembles relisted
  have size := similar.outputs
  rw [empty] at size
  exact wf.produces older (List.eq_nil_of_length_eq_zero size.symm)

/-! ## A new output of the graph -/

theorem WellFormed.expose
    (wf : graph.WellFormed) (exist : graph.hasTensor ref = true) :
    ({ graph with outputs := graph.outputs ++ [ref] } : Graph α).WellFormed := by
  refine ⟨wf.nodup, wf.mem_order, wf.produces, wf.reads, ?_, wf.single⟩
  intro other member
  rcases List.mem_append.mp member with old | new
  · exact wf.exports other old
  · rw [List.mem_singleton.mp new]
    exact exist

/-! ## All edits -/

/-- Nodes stay behind what they read under every edit but the insertion of a node. -/
theorem OrderedAt.plain
    {counts : Nat → Prop} (ordered : graph.OrderedAt counts) (wf : graph.WellFormed)
    (edit : PlainEdit graph changed) :
    changed.OrderedAt counts := by
  cases edit with
  | append produces exist =>
      exact ordered.append fun input member => wf.linked.producer_mem (exist input member)
  | bypass listed reads => exact ordered.bypassed wf.nodup (wf.sources listed reads)
  | drop unread unexported => exact ordered.dropped wf.nodup unread
  | rewrite listed resembles => exact ordered.replace listed resembles
  | expose exist => exact ordered

theorem WellFormed.plain (wf : graph.WellFormed) (edit : PlainEdit graph changed) :
    changed.WellFormed := by
  cases edit with
  | append produces exist => exact wf.append produces exist
  | bypass listed reads => exact wf.bypassed listed reads
  | drop unread unexported => exact wf.dropped unread unexported
  | rewrite listed resembles => exact wf.replace listed resembles
  | expose exist => exact wf.expose exist

theorem WellFormed.edit (wf : graph.WellFormed) (edit : Edit graph changed) :
    changed.WellFormed := by
  cases edit with
  | plain edit => exact wf.plain edit
  | place produces exist reads => exact wf.placed produces exist reads

end QuantNet.Graph
