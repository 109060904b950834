import ShaderAnalysis.Traversal.Walk

/-!
The record of a walk: which nodes were entered and left, in order, with the effects of each node
that was left. A script says which hooks run, which nodes to pass over and where to stop; the step
at which a walk stops is still recorded.
-/

namespace ShaderAnalysis

/-- One step of a walk. -/
inductive Event where
  | entered (n : Node)
  | left (n : Node) (effects : Effects)

/-- The sort of a step. -/
inductive Step where
  | enter | leave
deriving DecidableEq, Repr

/-- What is to be done on a walk. -/
structure Script where
  enters : Bool := true
  leaves : Bool := true
  skip : List NodeId := []
  stop : Option (Step × NodeId) := none

/-- The steps so far, and the effects noted on the way. -/
structure Trace where
  events : Array Event := #[]
  annotations : Annotations := {}

namespace Trace

/-- A walk that may stop at a node. -/
abbrev TraceM := EStateM NodeId Trace

def record (e : Event) : TraceM Unit :=
  modify fun t => { t with events := t.events.push e }

/-- Stops if the script says so of this step. -/
def checkStop (script : Script) (step : Step) (id : NodeId) : TraceM Unit :=
  if script.stop = some (step, id) then throw id else pure ()

def enter (script : Script) (n : Node) : TraceM Bool := do
  record (.entered n)
  checkStop script .enter n.id
  return !script.skip.contains n.id

def leave (script : Script) (n : Node) : TraceM Unit := do
  modify fun t => { t with annotations := t.annotations.noteEffects n }
  record (.left n ((← get).annotations.ofNode n.id).effects)
  checkStop script .leave n.id

/-- The hooks of a script. -/
def hooks (script : Script) : Hooks TraceM :=
  { enter := if script.enters then some (enter script) else none
    leave := if script.leaves then some (leave script) else none }

/-- The steps of a walk over a source unit, and the node at which it stopped, if it did. -/
def ofUnit (script : Script) (unit : SourceUnit) : List Event × Option NodeId :=
  match (hooks script).walkUnit unit {} with
  | .ok _ t => (t.events.toList, none)
  | .error id t => (t.events.toList, some id)

end Trace

end ShaderAnalysis
