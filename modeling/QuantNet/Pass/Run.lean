import QuantNet.Pass.Basic

/-!
# Runs of passes

A run scans the graph again and again.  A scan walks over the nodes in the order that they have at
its start and patches the graph at each by the first pass that applies to it; when nodes or edges
change, the scan ends there.  The run ends when no pass applies in a whole scan, when it has used up
its scans, or when a patch fails.
-/

namespace QuantNet

/-- How a scan ends: with nothing patched, with nodes changed in place, or cut short by a change
of nodes or edges. -/
inductive ScanResult where
  | fixpoint
  | changed
  | restart
deriving DecidableEq, Repr

def ScanResult.name : ScanResult → String
  | fixpoint => "Fixpoint"
  | changed => "Changed"
  | restart => "Restart"

inductive Event where
  | applied (pass node : String) (topologyChanged : Bool)
  | scanned (scan : Nat) (result : ScanResult)
  | settled (scans patches : Nat)
  | exhausted (limit patches : Nat)
deriving DecidableEq, Repr

def Event.text : Event → String
  | applied pass node changed =>
      s!"DEBUG applied pass pass={pass} node={node} topology_changed={changed}"
  | scanned scan result => s!"TRACE finished scan scan={scan} result={result.name}"
  | settled scans patches =>
      s!"INFO optimizer reached a fixpoint scans={scans} transforms={patches}"
  | exhausted limit patches =>
      "WARN optimizer hit the iteration limit before reaching a fixpoint, " ++
        s!"check the pass configuration max_iterations={limit} transforms={patches}"

/-- What a run has done when it ends without a failure.  It has converged if no
pass applied in its last scan. -/
structure Report where
  scans : Nat
  patches : Nat
  converged : Bool
deriving DecidableEq, Repr

structure Progress (α : Type) where
  graph : Graph α
  scans : Nat := 0
  patches : Nat := 0
  log : List Event := []
deriving DecidableEq

namespace Progress

variable {α : Type}

def note (progress : Progress α) (event : Event) : Progress α :=
  { progress with log := progress.log ++ [event] }

def report (progress : Progress α) (converged : Bool) : Report :=
  ⟨progress.scans, progress.patches, converged⟩

end Progress

structure Run (α : Type) where
  graph : Graph α
  log : List Event
  outcome : Except (Failure PassError) Report

/-- Passes, tried in order, and the number of scans that a run may take. -/
structure Optimizer (α : Type) where
  limit : Option Nat
  passes : List (Pass α)

namespace Optimizer

variable {α : Type}

/-- The first pass that applies to a node, together with the node. -/
def choose (passes : List (Pass α)) (graph : Graph α) (id : NodeId) :
    Except Fault (Option (Pass α × Node α)) := do
  if ← graph.contains id then
    match ← passes.findM? fun pass => pass.applies graph id with
    | none => return none
    | some pass => return some (pass, ← graph.get id)
  else
    throw (.staleScan id)

/-- Walks over the given nodes.  `changed` tells whether the scan has patched the graph before. -/
def scanNodes (passes : List (Pass α)) : List NodeId → Bool → Progress α →
    Progress α × Except (Failure PassError) ScanResult
  | [], changed, progress => (progress, .ok (if changed then .changed else .fixpoint))
  | id :: rest, changed, progress =>
      match choose passes progress.graph id with
      | .error fault => (progress, .error (.fault fault))
      | .ok none => scanNodes passes rest changed progress
      | .ok (some (pass, node)) =>
          match pass.patch id progress.graph with
          | .error failure graph => ({ progress with graph }, .error failure)
          | .ok topologyChanged graph =>
              let progress :=
                { progress with graph, patches := progress.patches + 1 }.note
                  (.applied pass.name node.name topologyChanged)
              if topologyChanged then
                (progress, .ok .restart)
              else
                scanNodes passes rest true progress

def scan (passes : List (Pass α)) (progress : Progress α) :
    Progress α × Except (Failure PassError) ScanResult :=
  scanNodes passes progress.graph.order false { progress with scans := progress.scans + 1 }

/-- Continues a run for at most `fuel` further scans.  There is no answer if it has not ended by
then. -/
def proceed? (optimizer : Optimizer α) : Nat → Progress α → Option (Run α)
  | 0, _ => none
  | fuel + 1, progress =>
      match optimizer.limit.filter fun limit => limit ≤ progress.scans with
      | some limit =>
          some ⟨progress.graph, progress.log ++ [.exhausted limit progress.patches],
            .ok (progress.report false)⟩
      | none =>
          match scan optimizer.passes progress with
          | (progress, .error failure) => some ⟨progress.graph, progress.log, .error failure⟩
          | (progress, .ok result) =>
              let progress := progress.note (.scanned progress.scans result)
              if result = .fixpoint then
                some ⟨progress.graph,
                  progress.log ++ [.settled progress.scans progress.patches],
                  .ok (progress.report true)⟩
              else
                proceed? optimizer fuel progress

def runWithin (optimizer : Optimizer α) (fuel : Nat) (graph : Graph α) : Option (Run α) :=
  optimizer.proceed? fuel { graph }

/-- How many scans a run is given to end by itself.  With a limit it always does.  Without one there
is room for three changes of the topology per node, and after each of them for as many scans as
there are passes. -/
def allowance (optimizer : Optimizer α) (graph : Graph α) : Nat :=
  match optimizer.limit with
  | some limit => limit + 1
  | none => (3 * graph.order.length + 2) * (optimizer.passes.length + 2)

def run (optimizer : Optimizer α) (graph : Graph α) : Option (Run α) :=
  optimizer.runWithin (optimizer.allowance graph) graph

end Optimizer

end QuantNet
