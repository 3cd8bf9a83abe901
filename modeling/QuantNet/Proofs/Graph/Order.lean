import Mathlib.Data.List.Nodup
import QuantNet.Graph.Edit

/-!
# Nodes and their order

A slot holds at most one node.  When no handle is twice in the order, of two nodes at most one
stands before the other.
-/

namespace QuantNet

/-! ## Two items of a list -/

section Pairs

variable {β : Type} {items front back : List β} {a b c : β}

private theorem pair_sublist_split (member : c ∈ back) :
    [a, c].Sublist (front ++ a :: back) := by
  have pair : [a, c].Sublist (a :: back) :=
    List.Sublist.cons_cons a (List.singleton_sublist.mpr member)
  exact pair.trans (List.sublist_append_right front (a :: back))

private theorem exists_split_of_pair (pair : [a, c].Sublist items) :
    ∃ front back, items = front ++ a :: back ∧ c ∈ back := by
  obtain ⟨left, right, shape, member, rest⟩ := List.cons_sublist_iff.mp pair
  obtain ⟨front, middle, leftShape⟩ := List.append_of_mem member
  refine ⟨front, middle ++ right, ?_, ?_⟩
  · rw [shape, leftShape, List.append_assoc, List.cons_append]
  · exact List.mem_append_right middle (List.singleton_sublist.mp rest)

/-- Without repetitions, what stands behind an item is what follows it. -/
theorem pair_sublist_iff (nodup : (front ++ a :: back).Nodup) :
    [a, c].Sublist (front ++ a :: back) ↔ c ∈ back := by
  refine ⟨fun pair => ?_, pair_sublist_split⟩
  obtain ⟨left, right, shape, member⟩ := exists_split_of_pair pair
  have parted := List.nodup_append.mp nodup
  have notFront : a ∉ front := fun inFront =>
    parted.2.2 a inFront a List.mem_cons_self rfl
  have notBack : a ∉ back := (List.nodup_cons.mp parted.2.1).1
  have same := (List.append_cons_inj_of_notMem notFront notBack).mp shape
  rw [same.2.2]
  exact member

theorem pair_trans
    (nodup : items.Nodup) (first : [a, b].Sublist items) (second : [b, c].Sublist items) :
    [a, c].Sublist items := by
  obtain ⟨front, back, rfl, member⟩ := exists_split_of_pair first
  obtain ⟨left, right, shape⟩ := List.append_of_mem member
  have ordered : front ++ a :: back = (front ++ a :: left) ++ b :: right := by
    simp [shape]
  rw [ordered] at nodup second
  have later : c ∈ right := (pair_sublist_iff nodup).mp second
  apply pair_sublist_split
  rw [shape]
  exact List.mem_append_right left (List.mem_cons_of_mem b later)

/-- Without repetitions, what stands before an item is in front of it. -/
theorem mem_front_of_pair
    (nodup : (front ++ c :: back).Nodup) (pair : [a, c].Sublist (front ++ c :: back)) :
    a ∈ front := by
  rcases List.mem_append.mp (pair.subset List.mem_cons_self) with inFront | inBack
  · exact inFront
  · exfalso
    rcases List.mem_cons.mp inBack with rfl | behind
    · exact List.nodup_iff_sublist.mp nodup _ pair
    · have twice := pair_trans nodup pair (pair_sublist_split behind)
      exact List.nodup_iff_sublist.mp nodup _ twice

theorem pair_filter
    {keep : β → Bool} (pair : [a, c].Sublist items) (left : keep a = true)
    (right : keep c = true) :
    [a, c].Sublist (items.filter keep) := by
  have kept := pair.filter keep
  rwa [List.filter_cons_of_pos left, List.filter_cons_of_pos right, List.filter_nil] at kept

end Pairs

namespace Graph

variable {α : Type} {graph : Graph α} {index : Nat} {node : Node α}

/-! ## Nodes in their slots -/

theorem find?_eq_some_iff :
    graph.find? index = some node ↔ graph.slots[index]? = some (some node) := by
  simp [find?, Option.join_eq_some_iff]

theorem issued_of_find? (found : graph.find? index = some node) : index < graph.issued :=
  (List.getElem?_eq_some_iff.mp (find?_eq_some_iff.mp found)).1

@[simp]
theorem find?_issued (graph : Graph α) : graph.find? graph.issued = none := by
  simp [find?, issued]

theorem handle_injective (graph : Graph α) : Function.Injective graph.handle := by
  intro i j same
  exact congrArg NodeId.index same

/-! ## Precedence -/

/-- One node stands before another in graph order. -/
def Before (graph : Graph α) (left right : NodeId) : Prop :=
  [left, right].Sublist graph.order

theorem Before.ne {left right : NodeId}
    (nodup : graph.order.Nodup) (order : graph.Before left right) :
    left ≠ right := by
  rintro rfl
  exact List.nodup_iff_sublist.mp nodup _ order

end Graph

end QuantNet
