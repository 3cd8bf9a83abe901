import QuantNet.Proofs.Graph.History

/-!
# Operations in place

The operations as sequences of steps on one graph: what is asked, and what is stored where, in the
order in which it happens.  A step that fails ends the operation, and leaves the graph as the stores
before it have made it.

Executed in this way, an operation answers as it does as a map from graphs to graphs, and ends with
the same graph.  Everything that it can be refused for is asked ahead of its first store, so that a
refusal leaves the graph untouched.
-/

namespace QuantNet

/-- Steps that change a graph in place and may fail on the way. -/
abbrev Procedure (α β : Type) :=
  EStateM (Failure GraphError) (Graph α) β

namespace Procedure

variable {α β γ : Type}

/-- Asks the graph for something that it may refuse. -/
def ask (query : Graph α → Except (Failure GraphError) β) : Procedure α β := fun graph =>
  match query graph with
  | .ok answer => .ok answer graph
  | .error failure => .error failure graph

def refuse (cause : GraphError) : Procedure α β :=
  throw (.error cause)

/-- Changes the graph in one place. -/
def store (change : Graph α → Graph α) : Procedure α Unit :=
  modify change

/-! ## The operations -/

def push (node : Node α) : Procedure α NodeId := do
  ask fun graph => graph.checkNew node
  let id ← modifyGet fun graph => graph.alloc node
  store fun graph => { graph with order := graph.order ++ [id] }
  return id

/-- Rewires the readers of a tensor one after the other, and then the outputs of the graph. -/
def redirect (readers : List NodeId) (old new : TensorRef) : Procedure α Unit := do
  readers.forM fun reader => store fun graph => graph.replaceInput reader old new
  store fun graph => graph.replaceOutput old new

def insert (node : Node α) : Procedure α NodeId := do
  ask fun graph => graph.checkNew node
  match node.inputs with
  | [] => refuse (.notSingleInput node.name 0)
  | anchor :: _ =>
      let readers := (← get).readers anchor
      let id ← modifyGet fun graph => graph.alloc node
      let position ← ask fun graph => liftM (graph.position anchor.node)
      store fun graph => { graph with order := graph.order.insertIdx (position + 1) id }
      redirect readers anchor ⟨id, 0⟩
      return id

/-- Takes a node out of the order, and then out of its slot. -/
def drop (id : NodeId) : Procedure α Unit := do
  let position ← ask fun graph => liftM (graph.position id)
  store fun graph => { graph with order := graph.order.eraseIdx position }
  store fun graph => { graph with slots := graph.slots.set id.index none }

/-- Gives the users of every output of a node its input instead, output by output. -/
def bypass (outputs : List TensorRef) (input : TensorRef) : Procedure α Unit :=
  outputs.forM fun old => do redirect ((← get).readers old) old input

def remove (id : NodeId) (rewire : Bool) : Procedure α Unit := do
  let node ← ask fun graph => graph.node id
  if rewire then
    match node.onlyInput? with
    | none => refuse (.notSingleInput node.name node.inputs.length)
    | some input =>
        bypass (Graph.tensorsOf id node) input
        drop id
  else if (Graph.tensorsOf id node).any (← get).isUsed then
    refuse (.stillConsumed node.name)
  else
    drop id

def setOutputPrecision (id : NodeId) (precision : Precision) : Procedure α Unit := do
  let node ← ask fun graph => graph.node id
  match node.outputs with
  | [] => refuse (.missingOutput node.name)
  | output :: others =>
      store fun graph =>
        graph.replace id.index { node with outputs := { output with precision } :: others }

def setAttr (id : NodeId) (key : String) (value : Attr α) : Procedure α Unit := do
  let node ← ask fun graph => graph.node id
  store fun graph => graph.replace id.index (node.withAttr key value)

def modifyWeight (id : NodeId) (role : Role) (change : Weight α → Weight α) :
    Procedure α Unit := do
  let weight ← ask fun graph => graph.weight id role
  let node ← ask fun graph => graph.node id
  store fun graph => graph.replace id.index (node.withWeight role (change weight))

def addWeight (id : NodeId) (role : Role) (weight : Weight α) : Procedure α Unit := do
  let node ← ask fun graph => graph.node id
  if node.weights.contains role then
    refuse (.duplicateWeight node.name role)
  else
    store fun graph => graph.replace id.index (node.withWeight role weight)

def addOutput (ref : TensorRef) : Procedure α Unit := do
  ask fun graph =>
    if graph.hasTensor ref then .ok () else .error (.fault (.absentTensor ref))
  store fun graph => { graph with outputs := graph.outputs ++ [ref] }

end Procedure

namespace Operation

variable {α : Type}

/-- An operation, executed in place. -/
def execute (operation : Operation α) : Procedure α (Option NodeId) :=
  match operation with
  | addInput name shape precision =>
      some <$> modifyGet fun graph => graph.addInput name shape precision
  | push node => some <$> Procedure.push node
  | insert node => some <$> Procedure.insert node
  | remove id rewire => (fun _ => none) <$> Procedure.remove id rewire
  | addOutput ref => (fun _ => none) <$> Procedure.addOutput ref
  | setOutputPrecision id precision =>
      (fun _ => none) <$> Procedure.setOutputPrecision id precision
  | setAttr id key value => (fun _ => none) <$> Procedure.setAttr id key value
  | replaceWeight id role weight =>
      (fun _ => none) <$> Procedure.modifyWeight id role fun _ => weight
  | setWeight id role data =>
      (fun _ => none) <$> Procedure.modifyWeight id role fun weight => { weight with data }
  | addWeight id role weight => (fun _ => none) <$> Procedure.addWeight id role weight

end Operation

/-! ## Procedures and the changes that they carry out -/

namespace Procedure

variable {α β γ : Type} {graph middle changed : Graph α} {answer : β}

/-- The procedure carries out a change: it comes to the same answer and the same graph, is refused
for the same cause with the graph left as it was, or breaks with the same fault. -/
def Realizes (procedure : Procedure α β) (graph : Graph α)
    (outcome : Except (Failure GraphError) (β × Graph α)) : Prop :=
  match outcome with
  | .ok (answer, changed) => procedure graph = .ok answer changed
  | .error (.error cause) => procedure graph = .error (.error cause) graph
  | .error (.fault fault) => ∃ left, procedure graph = .error (.fault fault) left

private theorem realizes_refuse (cause : GraphError) :
    (refuse cause : Procedure α β).Realizes graph (.error (.error cause)) :=
  rfl

/-- What is asked first can end a procedure, and leaves the graph to the rest of it otherwise. -/
theorem realizes_ask {query : Graph α → Except (Failure GraphError) β}
    {next : β → Procedure α γ} {rest : β → Except (Failure GraphError) (γ × Graph α)}
    (further : ∀ answer, query graph = .ok answer → (next answer).Realizes graph (rest answer)) :
    (ask query >>= next).Realizes graph (query graph >>= rest) := by
  cases asked : query graph with
  | ok answer =>
      have done : ask query graph = .ok answer graph := by
        rw [ask, asked]
      have onward := further answer asked
      unfold Realizes at onward ⊢
      rw [bind_of_ok next done]
      exact onward
  | error failure =>
      have failed : ask query graph = .error failure graph := by
        rw [ask, asked]
      have ended := bind_of_error next failed
      cases failure with
      | error cause => exact ended
      | fault fault => exact ⟨graph, ended⟩

private theorem realizes_get {next : Graph α → Procedure α γ}
    {outcome : Except (Failure GraphError) (γ × Graph α)}
    (onward : (next graph).Realizes graph outcome) :
    (get >>= next).Realizes graph outcome :=
  onward

/-- Behind a store a procedure may break, but it must not be refused. -/
private theorem realizes_of_done {first : Procedure α β} {next : β → Procedure α γ}
    {outcome : Except (Failure GraphError) (γ × Graph α)} (done : first graph = .ok answer middle)
    (onward : (next answer).Realizes middle outcome)
    (accepted : ∀ cause, outcome ≠ .error (.error cause)) :
    (first >>= next).Realizes graph outcome := by
  unfold Realizes at onward ⊢
  rw [bind_of_ok next done]
  match outcome with
  | .ok result => exact onward
  | .error (.error cause) => exact absurd rfl (accepted cause)
  | .error (.fault fault) => exact onward

private theorem Realizes.map {procedure : Procedure α β}
    {outcome : Except (Failure GraphError) (β × Graph α)} (f : β → γ)
    (realizes : procedure.Realizes graph outcome) :
    (f <$> procedure).Realizes graph (outcome.map fun result => (f result.1, result.2)) := by
  unfold Realizes at realizes ⊢
  rw [map_eq_pure_bind]
  match outcome with
  | .ok (answer, changed) => exact bind_of_ok _ realizes
  | .error (.error cause) => exact bind_of_error _ realizes
  | .error (.fault fault) =>
      obtain ⟨left, broken⟩ := realizes
      exact ⟨left, bind_of_error _ broken⟩

private theorem map_lift_ne_error {reading : Except Fault β} {f : β → γ} {cause : GraphError} :
    (do return f (← liftM reading) : Except (Failure GraphError) γ) ≠ .error (.error cause) := by
  intro refused
  cases reading <;> cases refused

/-- The handle of a new node is the answer of an operation. -/
private theorem Realizes.adding {procedure : Procedure α NodeId}
    {outcome : Except (Failure GraphError) (NodeId × Graph α)}
    (realizes : procedure.Realizes graph outcome) :
    (some <$> procedure).Realizes graph (do return Operation.adding (← outcome)) := by
  have mapped := realizes.map some
  cases outcome <;> exact mapped

/-- An operation that adds no node has no answer. -/
private theorem Realizes.changing {procedure : Procedure α Unit}
    {outcome : Except (Failure GraphError) (Graph α)}
    (realizes : procedure.Realizes graph (do return ((), ← outcome))) :
    ((fun _ => none) <$> procedure : Procedure α (Option NodeId)).Realizes graph
      (do return (none, ← outcome)) := by
  have mapped := realizes.map fun _ => (none : Option NodeId)
  cases outcome <;> exact mapped

/-! ## Steps that always succeed -/

/-- Stores, one for each item of a list, are made one after the other. -/
private theorem forM_store {ι : Type} (change : ι → Graph α → Graph α) (items : List ι) :
    ∀ graph : Graph α, (items.forM fun item => store (change item)) graph =
      .ok () (items.foldl (fun graph item => change item graph) graph) := by
  induction items with
  | nil => exact fun _ => rfl
  | cons item rest inductionHypothesis =>
      intro graph
      exact inductionHypothesis (change item graph)

private theorem redirect_eq (readers : List NodeId) (old new : TensorRef) (graph : Graph α) :
    redirect readers old new graph = .ok () (graph.redirect readers old new) := by
  have rewired := forM_store (fun reader graph => graph.replaceInput reader old new) readers graph
  unfold redirect
  rw [bind_of_ok _ rewired]
  rfl

private theorem bypass_eq (outputs : List TensorRef) (input : TensorRef) :
    ∀ graph : Graph α, bypass outputs input graph =
      .ok () (outputs.foldl (fun graph old => graph.redirect (graph.readers old) old input)
        graph) := by
  induction outputs with
  | nil => exact fun _ => rfl
  | cons old rest inductionHypothesis =>
      intro graph
      have first : (do redirect ((← get).readers old) old input : Procedure α Unit) graph =
          .ok () (graph.redirect (graph.readers old) old input) :=
        redirect_eq (graph.readers old) old input graph
      have further := inductionHypothesis (graph.redirect (graph.readers old) old input)
      exact (bind_of_ok (fun _ => bypass rest input) first).trans further

/-! ## The operations carry out their changes -/

theorem push_realizes (node : Node α) (graph : Graph α) :
    (push node).Realizes graph (graph.push node) := by
  apply realizes_ask
  intro _ _
  exact rfl

theorem insert_realizes (node : Node α) (graph : Graph α) :
    (insert node).Realizes graph (graph.insert node) := by
  apply realizes_ask
  intro _ _
  cases node.inputs with
  | nil => exact realizes_refuse _
  | cons anchor others =>
      apply realizes_get
      have allocated : (modifyGet fun graph => graph.alloc node : Procedure α NodeId) graph =
          .ok (graph.alloc node).1 (graph.alloc node).2 :=
        rfl
      apply realizes_of_done allocated
      · apply realizes_ask
        intro position _
        let ordered : Graph α :=
          { (graph.alloc node).2 with
            order := graph.order.insertIdx (position + 1) (graph.alloc node).1 }
        have rewired := redirect_eq (graph.readers anchor) anchor ⟨(graph.alloc node).1, 0⟩ ordered
        exact bind_of_ok (fun _ => pure (graph.alloc node).1) rewired
      · exact fun _ => map_lift_ne_error

theorem drop_realizes (id : NodeId) (graph : Graph α) :
    (drop id).Realizes graph (do return ((), ← liftM (graph.drop id))) := by
  cases found : graph.position id with
  | error fault =>
      have broken : graph.drop id = .error fault := by
        rw [Graph.drop, found]
        rfl
      have asked : ask (fun graph => liftM (graph.position id)) graph =
          .error (.fault fault) graph := by
        rw [ask, found]
        rfl
      rw [broken]
      exact ⟨graph, bind_of_error _ asked⟩
  | ok position =>
      have dropped : graph.drop id = .ok { graph with
          slots := graph.slots.set id.index none
          order := graph.order.eraseIdx position } := by
        rw [Graph.drop, found]
        rfl
      have asked : ask (fun graph => liftM (graph.position id)) graph = .ok position graph := by
        rw [ask, found]
        rfl
      rw [dropped]
      exact bind_of_ok _ asked

theorem remove_realizes (id : NodeId) (rewire : Bool) (graph : Graph α) :
    (remove id rewire).Realizes graph (do return ((), ← graph.remove id rewire)) := by
  rw [Graph.remove, bind_assoc]
  apply realizes_ask
  intro node _
  cases rewire with
  | true =>
      cases node.onlyInput? with
      | none => exact realizes_refuse _
      | some input =>
          apply realizes_of_done (bypass_eq (Graph.tensorsOf id node) input graph)
          · exact drop_realizes id _
          · exact fun _ => map_lift_ne_error
  | false =>
      apply realizes_get
      cases (Graph.tensorsOf id node).any graph.isUsed with
      | true => exact realizes_refuse _
      | false => exact drop_realizes id graph

theorem setOutputPrecision_realizes (id : NodeId) (precision : Precision) (graph : Graph α) :
    (setOutputPrecision id precision).Realizes graph
      (do return ((), ← graph.setOutputPrecision id precision)) := by
  rw [Graph.setOutputPrecision, bind_assoc]
  apply realizes_ask
  intro node _
  cases node.outputs with
  | nil => exact realizes_refuse _
  | cons output others => exact rfl

theorem setAttr_realizes (id : NodeId) (key : String) (value : Attr α) (graph : Graph α) :
    (setAttr id key value).Realizes graph (do return ((), ← graph.setAttr id key value)) := by
  rw [Graph.setAttr, Graph.modify, bind_assoc]
  apply realizes_ask
  intro node _
  exact rfl

theorem modifyWeight_realizes (id : NodeId) (role : Role) (change : Weight α → Weight α)
    (graph : Graph α) :
    (modifyWeight id role change).Realizes graph
      (do return ((), ← graph.modifyWeight id role change)) := by
  rw [Graph.modifyWeight, bind_assoc]
  apply realizes_ask
  intro weight _
  rw [Graph.modify, bind_assoc]
  apply realizes_ask
  intro node _
  exact rfl

theorem addWeight_realizes (id : NodeId) (role : Role) (weight : Weight α) (graph : Graph α) :
    (addWeight id role weight).Realizes graph
      (do return ((), ← graph.addWeight id role weight)) := by
  rw [Graph.addWeight, bind_assoc]
  apply realizes_ask
  intro node _
  split
  · exact realizes_refuse _
  · exact rfl

theorem addOutput_realizes (ref : TensorRef) (graph : Graph α) :
    (addOutput ref).Realizes graph (do return ((), ← liftM (graph.addOutput ref))) := by
  by_cases exist : graph.hasTensor ref = true
  · have added : graph.addOutput ref =
        .ok { graph with outputs := graph.outputs ++ [ref] } :=
      if_pos exist
    rw [added]
    have asked : ask (fun graph => if graph.hasTensor ref then .ok ()
        else .error (.fault (.absentTensor ref))) graph = .ok () graph := by
      rw [ask, if_pos exist]
    exact bind_of_ok _ asked
  · have broken : graph.addOutput ref = .error (.absentTensor ref) := if_neg exist
    rw [broken]
    refine ⟨graph, bind_of_error _ ?_⟩
    rw [ask, if_neg exist]

end Procedure

/-- Every operation that is executed in place does what it does as a map of graphs, and where it is
refused it leaves the graph as it was. -/
theorem Operation.execute_realizes {α : Type} (operation : Operation α) (graph : Graph α) :
    operation.execute.Realizes graph (operation.change graph) := by
  cases operation with
  | addInput name shape precision => exact rfl
  | push node => exact (Procedure.push_realizes node graph).adding
  | insert node => exact (Procedure.insert_realizes node graph).adding
  | remove id rewire => exact (Procedure.remove_realizes id rewire graph).changing
  | addOutput ref => exact (Procedure.addOutput_realizes ref graph).changing
  | setOutputPrecision id precision =>
      exact (Procedure.setOutputPrecision_realizes id precision graph).changing
  | setAttr id key value => exact (Procedure.setAttr_realizes id key value graph).changing
  | replaceWeight id role weight => exact (Procedure.modifyWeight_realizes id role _ graph).changing
  | setWeight id role data => exact (Procedure.modifyWeight_realizes id role _ graph).changing
  | addWeight id role weight => exact (Procedure.addWeight_realizes id role weight graph).changing

end QuantNet
