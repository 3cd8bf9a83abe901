import QuantNet.Proofs.Graph.Lookup

/-!
# Renamed uses of tensors

Insertion and removal of a node give other tensors to its users.  Both are a renaming of all uses
in a graph, by its nodes and as outputs, together with one node that comes or goes.
-/

namespace QuantNet

/-- A tensor, or another one in the place of a given one. -/
def TensorRef.instead (old new ref : TensorRef) : TensorRef :=
  if ref = old then new else ref

/-- A tensor, or another one in the place of all that a given node produces. -/
def TensorRef.past (id : NodeId) (input ref : TensorRef) : TensorRef :=
  if ref.node = id then input else ref

namespace TensorRef

variable {id : NodeId} {old new input ref : TensorRef}

@[simp]
theorem instead_self (old new : TensorRef) : old.instead new old = new :=
  if_pos rfl

theorem instead_of_ne (different : ref ≠ old) : old.instead new ref = ref :=
  if_neg different

theorem past_of_eq (own : ref.node = id) : past id input ref = input :=
  if_pos own

theorem past_of_ne (different : ref.node ≠ id) : past id input ref = ref :=
  if_neg different

end TensorRef

/-- The node with renamed inputs. -/
def Node.rename {α : Type} (f : TensorRef → TensorRef) (node : Node α) : Node α :=
  { node with inputs := node.inputs.map f }

private theorem Node.redirect_redirect {α : Type} (node : Node α) (old new : TensorRef) :
    (node.redirect old new).redirect old new = node.redirect old new := by
  have twice : ∀ ref : TensorRef,
      (old.instead new (old.instead new ref)) = old.instead new ref := by
    intro ref
    by_cases here : ref = old
    · rw [here, TensorRef.instead_self]
      by_cases same : new = old
      · rw [same, TensorRef.instead_self]
      · rw [TensorRef.instead_of_ne same]
    · rw [TensorRef.instead_of_ne here, TensorRef.instead_of_ne here]
  unfold Node.redirect
  simp only [List.map_map]
  congr 1
  exact List.map_congr_left fun ref _ => twice ref

namespace Graph

variable {α : Type} {graph : Graph α} {f g : TensorRef → TensorRef} {index : Nat}

/-- The graph with every use of a tensor renamed. -/
def rename (graph : Graph α) (f : TensorRef → TensorRef) : Graph α :=
  { graph with
    slots := graph.slots.map (Option.map (Node.rename f))
    outputs := graph.outputs.map f }

theorem find?_rename :
    (graph.rename f).find? index = (graph.find? index).map (Node.rename f) := by
  simp only [find?, rename, List.getElem?_map]
  cases graph.slots[index]? with
  | none => rfl
  | some slot => rfl

theorem find?_rename_eq_some_iff {node : Node α} :
    (graph.rename f).find? index = some node ↔
      ∃ old, graph.find? index = some old ∧ node = old.rename f := by
  rw [find?_rename, Option.map_eq_some_iff]
  exact exists_congr fun old => and_congr_right fun _ => eq_comm

theorem rename_rename (graph : Graph α) (f g : TensorRef → TensorRef) :
    (graph.rename f).rename g = graph.rename (g ∘ f) := by
  have both : Node.rename (α := α) g ∘ Node.rename f = Node.rename (g ∘ f) := by
    funext node
    simp [Node.rename]
  simp [rename, both]

@[simp]
theorem rename_id (graph : Graph α) : graph.rename id = graph := by
  have same : Node.rename (α := α) id = id := by
    funext node
    simp [Node.rename]
  simp [rename, same]

/-- Only what happens to the tensors in use matters. -/
theorem rename_congr
    (read : ∀ ⦃index node⦄, graph.find? index = some node →
      ∀ input ∈ node.inputs, f input = g input)
    (exported : ∀ ref ∈ graph.outputs, f ref = g ref) :
    graph.rename f = graph.rename g := by
  have slots :
      graph.slots.map (Option.map (Node.rename f)) =
        graph.slots.map (Option.map (Node.rename g)) := by
    apply List.map_congr_left
    intro slot member
    cases slot with
    | none => rfl
    | some node =>
        obtain ⟨index, found⟩ := List.mem_iff_getElem?.mp member
        have inputs : node.inputs.map f = node.inputs.map g :=
          List.map_congr_left (read (find?_eq_some_iff.mpr found))
        rw [Option.map_some, Option.map_some, Node.rename, Node.rename, inputs]
  have outputs : graph.outputs.map f = graph.outputs.map g :=
    List.map_congr_left exported
  rw [rename, rename, slots, outputs]

/-! ## Redirecting readers one by one -/

/-- All live nodes are in the order. -/
def Lists (graph : Graph α) : Prop :=
  ∀ ⦃index node⦄, graph.find? index = some node → graph.handle index ∈ graph.order

theorem Lists.rename (lists : graph.Lists) : (graph.rename f).Lists := by
  intro index node found
  obtain ⟨old, older, _⟩ := find?_rename_eq_some_iff.mp found
  exact lists older

private theorem mem_nodes_iff {node : Node α} :
    (index, node) ∈ graph.nodes ↔
      (∃ id ∈ graph.order, id.index = index) ∧ graph.find? index = some node := by
  simp only [nodes, List.mem_filterMap, Option.map_eq_some_iff, Prod.mk.injEq]
  constructor
  · rintro ⟨id, member, found, there, rfl, rfl⟩
    exact ⟨⟨id, member, rfl⟩, there⟩
  · rintro ⟨⟨id, member, rfl⟩, there⟩
    exact ⟨id, member, node, there, rfl, rfl⟩

theorem Lists.mem_nodes_iff (lists : graph.Lists) {node : Node α} :
    (index, node) ∈ graph.nodes ↔ graph.find? index = some node :=
  Graph.mem_nodes_iff.trans
    ⟨And.right, fun found => ⟨⟨graph.handle index, lists found, rfl⟩, found⟩⟩

theorem Lists.mem_readers_iff (lists : graph.Lists) {ref : TensorRef} :
    graph.handle index ∈ graph.readers ref ↔
      ∃ node, graph.find? index = some node ∧ ref ∈ node.inputs := by
  simp only [readers, select, List.mem_map, List.mem_filter, List.contains_iff_mem, Prod.exists]
  constructor
  · rintro ⟨number, node, ⟨listed, reads⟩, same⟩
    obtain rfl := handle_injective graph same
    exact ⟨node, lists.mem_nodes_iff.mp listed, reads⟩
  · rintro ⟨node, found, reads⟩
    exact ⟨index, node, ⟨lists.mem_nodes_iff.mpr found, reads⟩, rfl⟩

/-- A reader is named by a handle of the graph. -/
theorem eq_handle_of_mem_readers {ref : TensorRef} {id : NodeId} (member : id ∈ graph.readers ref) :
    id = graph.handle id.index := by
  obtain ⟨entry, _, rfl⟩ := List.mem_map.mp member
  rfl

private theorem Lists.reader_issued (lists : graph.Lists) {ref : TensorRef} {id : NodeId}
    (member : id ∈ graph.readers ref) :
    id.index < graph.issued := by
  obtain ⟨node, found, _⟩ := lists.mem_readers_iff.mp (eq_handle_of_mem_readers member ▸ member)
  exact issued_of_find? found

section Redirecting

variable {old new : TensorRef}

/-- The slots after a tensor was replaced in the inputs of the given nodes. -/
def redirectSlots (readers : List NodeId) (old new : TensorRef) (slots : List (Option (Node α))) :
    List (Option (Node α)) :=
  readers.foldl (fun slots reader => slots.modify reader.index (Option.map (Node.redirect old new)))
    slots

private theorem foldl_replaceInput (readers : List NodeId) (graph : Graph α) :
    readers.foldl (fun graph reader => graph.replaceInput reader old new) graph =
      { graph with slots := redirectSlots readers old new graph.slots } := by
  induction readers generalizing graph with
  | nil => rfl
  | cons reader rest inductionHypothesis =>
      rw [List.foldl_cons, inductionHypothesis]
      rfl

private theorem getElem?_redirectSlots (readers : List NodeId) (slots : List (Option (Node α)))
    (index : Nat) :
    (redirectSlots readers old new slots)[index]? =
      if ∃ reader ∈ readers, reader.index = index then
        slots[index]?.map (Option.map (Node.redirect old new))
      else slots[index]? := by
  induction readers generalizing slots with
  | nil => simp [redirectSlots]
  | cons reader rest inductionHypothesis =>
      have step : redirectSlots (reader :: rest) old new slots =
          redirectSlots rest old new
            (slots.modify reader.index (Option.map (Node.redirect old new))) :=
        rfl
      rw [step, inductionHypothesis, List.getElem?_modify]
      by_cases here : reader.index = index
      · by_cases later : ∃ other ∈ rest, other.index = index
        · -- A node that is met twice changes only once.
          have once : (Option.map (Node.redirect old new) ∘ Option.map (Node.redirect old new)) =
              Option.map (Node.redirect (α := α) old new) := by
            funext slot
            cases slot with
            | none => rfl
            | some node => simp [Node.redirect_redirect]
          simp [here, later, once]
        · simp [here, later]
      · simp [here]

/-- A slot that comes later, which none of the readers is in, stays as it is. -/
private theorem redirectSlots_concat
    (old new : TensorRef) (slot : Option (Node α)) (readers : List NodeId) :
    ∀ slots : List (Option (Node α)),
      (∀ reader ∈ readers, reader.index < slots.length) →
        redirectSlots readers old new (slots ++ [slot]) =
          redirectSlots readers old new slots ++ [slot] := by
  induction readers with
  | nil =>
      intro slots _
      rfl
  | cons reader rest inductionHypothesis =>
      intro slots early
      have here : reader.index < slots.length := early reader List.mem_cons_self
      have step : (slots ++ [slot]).modify reader.index (Option.map (Node.redirect old new)) =
          slots.modify reader.index (Option.map (Node.redirect old new)) ++ [slot] := by
        apply List.ext_getElem?
        intro index
        simp only [List.getElem?_modify, List.getElem?_append, List.length_modify]
        grind
      have later := inductionHypothesis
        (slots.modify reader.index (Option.map (Node.redirect old new))) fun other member => by
          rw [List.length_modify]
          exact early other (List.mem_cons_of_mem reader member)
      rw [← step] at later
      exact later

/-- A node that does not read a tensor stays as it is when the tensor is replaced. -/
theorem rename_instead_of_not_mem {node : Node α} (unread : old ∉ node.inputs) :
    node.rename (old.instead new) = node := by
  have same : node.inputs.map (old.instead new) = node.inputs.map id := by
    apply List.map_congr_left
    intro ref member
    exact TensorRef.instead_of_ne fun here => unread (here ▸ member)
  rw [Node.rename, same, List.map_id]

/-- Redirecting the readers of a tensor, one by one, renames it in all slots. -/
private theorem Lists.redirectSlots_readers (lists : graph.Lists) (old new : TensorRef) :
    redirectSlots (graph.readers old) old new graph.slots =
      graph.slots.map (Option.map (Node.rename (old.instead new))) := by
  apply List.ext_getElem?
  intro index
  rw [getElem?_redirectSlots, List.getElem?_map]
  split
  · rfl
  · next unread =>
      cases there : graph.slots[index]? with
      | none => rfl
      | some slot =>
          cases slot with
          | none => rfl
          | some node =>
              have free : old ∉ node.inputs := by
                intro reads
                refine unread ⟨graph.handle index, lists.mem_readers_iff.mpr ?_, rfl⟩
                exact ⟨node, find?_eq_some_iff.mpr there, reads⟩
              simp [rename_instead_of_not_mem free]

theorem Lists.redirect_readers (lists : graph.Lists) (old new : TensorRef) :
    graph.redirect (graph.readers old) old new = graph.rename (old.instead new) := by
  rw [redirect, foldl_replaceInput, lists.redirectSlots_readers]
  rfl

/-- Redirecting several tensors one after the other to the same one, which is not among them,
redirects all of them. -/
theorem Lists.foldl_redirect (lists : graph.Lists) :
    ∀ olds : List TensorRef,
      new ∉ olds →
        olds.foldl (fun graph old => graph.redirect (graph.readers old) old new) graph =
          graph.rename (fun ref => if ref ∈ olds then new else ref) := by
  intro olds
  induction olds generalizing graph with
  | nil =>
      intro _
      have same : (fun ref => if ref ∈ ([] : List TensorRef) then new else ref) = id := by
        funext ref
        simp
      rw [same, rename_id, List.foldl_nil]
  | cons old rest inductionHypothesis =>
      intro fresh
      have notRest : new ∉ rest := fun member => fresh (List.mem_cons_of_mem old member)
      rw [List.foldl_cons, lists.redirect_readers, inductionHypothesis lists.rename notRest,
        rename_rename]
      congr 1
      funext ref
      by_cases here : ref = old
      · simp [TensorRef.instead, here, notRest]
      · simp [TensorRef.instead, here]

end Redirecting

/-! ## A node that comes, a node that goes -/

/-- A list with an item put behind another one. -/
def behind (anchor id : NodeId) (order : List NodeId) : List NodeId :=
  order.insertIdx (order.idxOf anchor + 1) id

/-- The graph with a node behind the producer of its first input, to which the users of that input
are redirected. -/
def placed (graph : Graph α) (anchor : TensorRef) (node : Node α) : Graph α :=
  let id := graph.handle graph.issued
  let rewired := graph.rename (anchor.instead ⟨id, 0⟩)
  { rewired with
    slots := rewired.slots ++ [some node]
    order := behind anchor.node id graph.order }

/-- The graph without a node. -/
def dropped (graph : Graph α) (id : NodeId) : Graph α :=
  { graph with
    slots := graph.slots.set id.index none
    order := graph.order.erase id }

/-- The graph without a node, whose users are given another tensor. -/
def bypassed (graph : Graph α) (id : NodeId) (input : TensorRef) : Graph α :=
  (graph.rename (TensorRef.past id input)).dropped id

theorem checkNew_eq_ok_iff {node : Node α} :
    graph.checkNew node = .ok () ↔
      node.outputs ≠ [] ∧ ∀ input ∈ node.inputs, graph.hasTensor input = true := by
  unfold checkNew
  by_cases empty : node.outputs = []
  · simp [empty]
  · cases found : node.inputs.find? fun input => !graph.hasTensor input with
    | none =>
        simpa [empty] using found
    | some input =>
        have missing := List.find?_some found
        have member := List.mem_of_find?_eq_some found
        simp only [List.isEmpty_iff, empty, if_false, reduceCtorEq, false_iff, not_and,
          not_forall]
        exact fun _ => ⟨input, member, by simpa using missing⟩

theorem push_eq_ok_iff {node : Node α} {id : NodeId} {changed : Graph α} :
    graph.push node = .ok (id, changed) ↔
      graph.checkNew node = .ok () ∧ graph.append node = (id, changed) := by
  simp only [push, except_bind_eq_ok, except_pure_eq_ok]
  constructor
  · rintro ⟨_, checked, result⟩
    exact ⟨checked, result⟩
  · rintro ⟨checked, result⟩
    exact ⟨(), checked, result⟩

theorem position_eq_ok_iff {id : NodeId} {place : Nat} :
    graph.position id = .ok place ↔ id ∈ graph.order ∧ place = graph.order.idxOf id := by
  have place? := List.idxOf_eq_getD_idxOf? id graph.order
  unfold position
  cases found : graph.order.idxOf? id with
  | none =>
      simp [List.idxOf?_eq_none_iff.mp found]
  | some first =>
      have member : id ∈ graph.order :=
        List.isSome_idxOf?.mp (found ▸ rfl)
      rw [found, Option.getD_some] at place?
      simp [member, place?, eq_comm]

/-- An insertion that succeeds places the node behind the producer of its first input. -/
theorem Lists.insert_eq_ok_iff (lists : graph.Lists)
    {node : Node α} {id : NodeId} {changed : Graph α} :
    graph.insert node = .ok (id, changed) ↔
      graph.checkNew node = .ok () ∧
        ∃ anchor rest,
          node.inputs = anchor :: rest ∧ anchor.node ∈ graph.order ∧
            id = graph.handle graph.issued ∧ changed = graph.placed anchor node := by
  have redirected : ∀ (anchor : TensorRef) (order : List NodeId),
      ({ (graph.alloc node).2 with order } : Graph α).redirect (graph.readers anchor) anchor
          ⟨graph.handle graph.issued, 0⟩ =
        { graph.placed anchor node with order } := by
    intro anchor order
    have concat := redirectSlots_concat anchor ⟨graph.handle graph.issued, 0⟩
      (some node) (graph.readers anchor) graph.slots fun reader member =>
        lists.reader_issued member
    rw [redirect, foldl_replaceInput, alloc, concat, lists.redirectSlots_readers]
    rfl
  simp only [insert, except_bind_eq_ok]
  constructor
  · rintro ⟨_, checked, result⟩
    refine ⟨checked, ?_⟩
    split at result
    · exact absurd result except_throw_ne_ok
    · next anchor rest reads =>
        obtain ⟨place, found, shape⟩ := except_bind_eq_ok.mp result
        obtain ⟨member, rfl⟩ := position_eq_ok_iff.mp (lift_eq_ok.mp found)
        have same := except_pure_eq_ok.mp shape
        exact ⟨anchor, rest, reads, member, (congrArg Prod.fst same).symm,
          (congrArg Prod.snd same).symm.trans (redirected anchor _)⟩
  · rintro ⟨checked, anchor, rest, reads, member, rfl, rfl⟩
    refine ⟨(), checked, ?_⟩
    rw [reads]
    refine except_bind_eq_ok.mpr
      ⟨_, lift_eq_ok.mpr (position_eq_ok_iff.mpr ⟨member, rfl⟩), ?_⟩
    refine except_pure_eq_ok.mpr (Prod.ext rfl ?_)
    exact redirected anchor _

theorem drop_eq_ok_iff {id : NodeId} {changed : Graph α} :
    graph.drop id = .ok changed ↔ id ∈ graph.order ∧ changed = graph.dropped id := by
  have erased : graph.order.eraseIdx (graph.order.idxOf id) = graph.order.erase id :=
    (List.erase_eq_eraseIdx_of_idxOf rfl).symm
  simp only [drop, except_bind_eq_ok, except_pure_eq_ok, position_eq_ok_iff, dropped]
  constructor
  · rintro ⟨place, ⟨member, rfl⟩, rfl⟩
    exact ⟨member, by rw [erased]⟩
  · rintro ⟨member, rfl⟩
    exact ⟨_, ⟨member, rfl⟩, by rw [erased]⟩

end Graph

end QuantNet
