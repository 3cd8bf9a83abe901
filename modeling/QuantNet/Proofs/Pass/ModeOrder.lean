import QuantNet.Proofs.Pass.Settling

/-!
# Setting modes in any order

Modes are set one node at a time, and a node can need it more than once.  The order of the nodes
does not matter: however modes are set until no node lacks them, it takes the same number of steps
and leaves the same graph.  A node whose modes cannot be set stays in the way, whatever is done
first.
-/

namespace QuantNet

open OutputModes

namespace Graph

variable {α : Type} {selection : ModeSelection} {graph middle changed final next : Graph α}
  {id other : NodeId} {ids others : List NodeId} {count : Nat}

/-! ## Steps -/

/-- Modes are set at a node that lacks them. -/
inductive SetsModes (selection : ModeSelection) (graph : Graph α) (id : NodeId) : Graph α → Prop
  | set {node : Node α} {output : Output} {rest : List Output} {precision : Precision}
      (found : graph.get id = .ok node) (lacks : lacksModes selection node = true)
      (outputs : node.outputs = output :: rest)
      (done : output.precision.setModes selection.modes = .ok precision) :
      SetsModes selection graph id
        (graph.replace id.index (withPrecision node output rest precision))

/-- Modes are set at some of the given nodes, in so many steps. -/
inductive SetsAll (selection : ModeSelection) (ids : List NodeId) :
    Nat → Graph α → Graph α → Prop
  | none {graph : Graph α} : SetsAll selection ids 0 graph graph
  | more {count : Nat} {graph middle changed : Graph α} {id : NodeId} (member : id ∈ ids)
      (first : SetsModes selection graph id middle)
      (rest : SetsAll selection ids count middle changed) :
      SetsAll selection ids (count + 1) graph changed

/-- A node lacks modes, and they cannot be set. -/
def Stuck (selection : ModeSelection) (graph : Graph α) (id : NodeId) : Prop :=
  ∃ node output rest cause, graph.get id = .ok node ∧ lacksModes selection node = true ∧
    node.outputs = output :: rest ∧ output.precision.setModes selection.modes = .error cause

/-- No node lacks modes. -/
def Covered (selection : ModeSelection) (graph : Graph α) : Prop :=
  ∀ ⦃id node⦄, graph.get id = .ok node → lacksModes selection node = false

theorem Covered.not_setsModes (covered : graph.Covered selection) :
    ¬ graph.SetsModes selection id changed := by
  rintro ⟨found, lacks, _, _⟩
  rw [covered found] at lacks
  cases lacks

theorem Covered.not_stuck (covered : graph.Covered selection) : ¬ graph.Stuck selection id := by
  rintro ⟨node, _, _, _, found, lacks, _, _⟩
  rw [covered found] at lacks
  cases lacks

namespace SetsModes

/-- Another node stays as it is. -/
theorem get_of_ne {node : Node α} (step : graph.SetsModes selection id changed)
    (found : graph.get other = .ok node) (apart : other ≠ id) :
    changed.get other = .ok node := by
  obtain ⟨there, _, _, _⟩ := step
  exact (get_replace_iff there).mpr (Or.inr ⟨apart, found⟩)

/-- Two steps from one graph are the same, or each can be made after the other. -/
theorem diamond
    (step : graph.SetsModes selection id middle) (again : graph.SetsModes selection other next) :
    middle = next ∨
      ∃ both, middle.SetsModes selection other both ∧ next.SetsModes selection id both := by
  by_cases same : other = id
  · subst same
    obtain @⟨node, output, rest, precision, found, lacks, outputs, done⟩ := step
    obtain @⟨node', output', rest', precision', found', _, outputs', done'⟩ := again
    obtain rfl := Except.ok.inj (found.symm.trans found')
    obtain ⟨rfl, rfl⟩ := List.cons.inj (outputs.symm.trans outputs')
    obtain rfl := Except.ok.inj (done.symm.trans done')
    exact Or.inl rfl
  · have stays : ∀ {node : Node α}, graph.get other = .ok node → middle.get other = .ok node :=
      fun found => step.get_of_ne found same
    have staysHere : ∀ {node : Node α}, graph.get id = .ok node → next.get id = .ok node :=
      fun found => again.get_of_ne found (Ne.symm same)
    obtain @⟨node, output, rest, precision, found, lacks, outputs, done⟩ := step
    obtain @⟨node', output', rest', precision', found', lacks', outputs', done'⟩ := again
    refine Or.inr ⟨_, .set (stays found') lacks' outputs' done', ?_⟩
    rw [replace_comm (index_ne_of_get found' found (Ne.symm same))]
    exact .set (staysHere found) lacks outputs done

theorem stuck (step : graph.SetsModes selection id changed)
    (stuck : graph.Stuck selection other) :
    changed.Stuck selection other := by
  obtain ⟨node, output, rest, cause, found, lacks, outputs, refused⟩ := stuck
  refine ⟨node, output, rest, cause, step.get_of_ne found ?_, lacks, outputs, refused⟩
  rintro rfl
  obtain @⟨_, _, _, _, there, _, shape, done⟩ := step
  obtain rfl := Except.ok.inj (found.symm.trans there)
  obtain ⟨rfl, rfl⟩ := List.cons.inj (outputs.symm.trans shape)
  cases refused.symm.trans done

end SetsModes

/-- Where the pass is chosen it makes a step, or the modes cannot be set. -/
theorem setsModes_or_stuck {pass : Pass α} {node : Node α}
    (chosen : Optimizer.choose [OutputModes.pass selection] graph id = .ok (some (pass, node))) :
    (∃ changed, pass.patch id graph = .ok false changed ∧ graph.SetsModes selection id changed) ∨
      ∃ failure, pass.patch id graph = .error failure graph ∧ graph.Stuck selection id := by
  obtain rfl := List.mem_singleton.mp (Optimizer.mem_of_choose_eq_some chosen)
  obtain ⟨_, applies, found⟩ := Optimizer.choose_eq_some chosen
  have lacks := Except.ok.inj ((applies_eq_ok found).symm.trans applies)
  obtain ⟨_, _, output, others, outputs, _⟩ := lacksModes_eq_true_iff.mp lacks
  rcases patch_cases selection found outputs with ⟨cause, refused, failed⟩ | ⟨_, set, done⟩
  · exact Or.inr ⟨_, failed, node, output, others, cause, found, lacks, outputs, refused⟩
  · exact Or.inl ⟨_, done, .set found lacks outputs set⟩

/-! ## Whole sequences of steps -/

namespace SetsAll

theorem mono (all : SetsAll selection ids count graph changed) (among : ids ⊆ others) :
    SetsAll selection others count graph changed := by
  induction all with
  | none => exact .none
  | more member first _ inductionHypothesis => exact .more (among member) first inductionHypothesis

theorem concat (all : SetsAll selection ids count graph middle) (member : id ∈ ids)
    (last : middle.SetsModes selection id changed) :
    SetsAll selection ids (count + 1) graph changed := by
  induction all with
  | none => exact .more member last .none
  | more among first _ inductionHypothesis => exact .more among first (inductionHypothesis last)

theorem stuck (all : SetsAll selection ids count graph changed)
    (stuck : graph.Stuck selection other) :
    changed.Stuck selection other := by
  induction all with
  | none => exact stuck
  | more _ first _ inductionHypothesis => exact inductionHypothesis (first.stuck stuck)

/-- Any step is one of those that are needed in any case. -/
private theorem after_step
    (all : SetsAll selection ids count graph final) (covered : final.Covered selection)
    (step : graph.SetsModes selection id next) :
    ∃ less, count = less + 1 ∧ SetsAll selection ids less next final := by
  induction all generalizing next with
  | none => exact absurd step covered.not_setsModes
  | @more count _ _ _ _ member first rest inductionHypothesis =>
      rcases first.diamond step with rfl | ⟨both, afterFirst, afterStep⟩
      · exact ⟨count, rfl, rest⟩
      · obtain ⟨less, rfl, later⟩ := inductionHypothesis covered afterFirst
        exact ⟨less + 1, rfl, .more member afterStep later⟩

theorem after
    (all : SetsAll selection ids count graph final) (covered : final.Covered selection)
    {done : Nat} (steps : SetsAll selection others done graph next) :
    ∃ less, count = done + less ∧ SetsAll selection ids less next final := by
  induction steps generalizing count with
  | none => exact ⟨count, (Nat.zero_add count).symm, all⟩
  | more _ first _ inductionHypothesis =>
      obtain ⟨less, rfl, later⟩ := all.after_step covered first
      obtain ⟨least, rfl, rest⟩ := inductionHypothesis later
      exact ⟨least, by omega, rest⟩

/-- However modes are set until no node lacks them, the outcome and the number of steps are the
same. -/
theorem unique
    (all : SetsAll selection ids count graph final) (covered : final.Covered selection)
    {steps : Nat} (again : SetsAll selection others steps graph next)
    (coveredNext : next.Covered selection) :
    final = next ∧ count = steps := by
  obtain ⟨less, rfl, rest⟩ := all.after covered again
  cases rest with
  | none => exact ⟨rfl, rfl⟩
  | more _ first _ => exact absurd first coveredNext.not_setsModes

/-- A node whose modes cannot be set keeps all others from being enough. -/
theorem not_stuck
    (all : SetsAll selection ids count graph final) (covered : final.Covered selection)
    {steps : Nat} (others : SetsAll selection others steps graph next) :
    ¬ next.Stuck selection id := by
  intro stuck
  obtain ⟨_, _, rest⟩ := all.after covered others
  exact covered.not_stuck (rest.stuck stuck)

end SetsAll

end Graph

end QuantNet
