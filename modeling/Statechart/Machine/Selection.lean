import Statechart.Machine.Action

/- Which transitions are taken: targets behind history states, the domain a transition leaves,
   and the settling of conflicts. -/
namespace Statechart

abbrev HistoryTable := List (StateIndex × List StateIndex)

namespace Chart

/-- The targets of a transition, each history state replaced by what it recorded or, without a
    record, by the targets of its default transition. What lies behind more than `depth` defaults
    is left out. -/
def targetsWithin (c : Chart) (history : HistoryTable) : Nat → TransitionIndex → List StateIndex
  | 0, _ => []
  | depth + 1, t =>
    (c.transition t).targets.foldl
      (fun out s =>
        if !c.isHistory s then insertIndex s out
        else
          match history.lookup s with
          | some recorded => recorded.foldl (fun out r => insertIndex r out) out
          | none =>
            match (c.state s).initial with
            | some d => (c.targetsWithin history depth d).foldl (fun out r => insertIndex r out) out
            | none => out)
      []

/-- Whether nothing lies behind more than `depth` defaults. -/
def endsWithin (c : Chart) (history : HistoryTable) : Nat → TransitionIndex → Bool
  | 0, _ => false
  | depth + 1, t =>
    (c.transition t).targets.all fun s =>
      !c.isHistory s || (history.lookup s).isSome ||
        (c.state s).initial.all (c.endsWithin history depth)

-- There are not as many history states, so what is left out here lies behind defaults without end.
def effectiveTargets (c : Chart) (history : HistoryTable) (t : TransitionIndex) : List StateIndex :=
  c.targetsWithin history (c.states.size + 1) t

/-- Whether following defaults behind a transition comes to an end at all. -/
def isFollowed (c : Chart) (history : HistoryTable) (t : TransitionIndex) : Bool :=
  c.endsWithin history (c.states.size + 1) t

def commonAncestor (c : Chart) (first : StateIndex) (rest : List StateIndex) : StateIndex :=
  ((c.ancestors first).find? fun a =>
    (a == root || c.isCompound a) && rest.all fun s => c.isDescendant s a).getD root

/-- The state within which a transition changes the configuration: for an internal transition
    that stays inside its compound source the source, else the common ancestor of source and
    targets. A transition without targets has none. -/
def domain? (c : Chart) (history : HistoryTable) (t : TransitionIndex) : Option StateIndex :=
  let node := c.transition t
  let targets := c.effectiveTargets history t
  if targets.isEmpty then none
  else if node.kind = .internal && c.isCompound node.source
      && targets.all fun s => c.isDescendant s node.source then some node.source
  else some (c.commonAncestor node.source targets)

def leaves (c : Chart) (history : HistoryTable) (t : TransitionIndex) (s : StateIndex) : Bool :=
  !(c.transition t).isTargetless &&
    match c.domain? history t with
    | some d => c.isDescendant s d
    | none => false

def exitSet (c : Chart) (history : HistoryTable) (configuration : List StateIndex)
    (transitions : List TransitionIndex) : List StateIndex :=
  configuration.filter fun s => transitions.any fun t => c.leaves history t s

def inDocumentOrder (c : Chart) (transitions : List TransitionIndex) : List TransitionIndex :=
  transitions.mergeSort fun a b => (c.transition a).document ≤ (c.transition b).document

/-- Adds a transition to those kept so far. It gives way to a kept one with which it conflicts,
    unless its source lies inside that one's source; then that one is displaced. -/
def settle (c : Chart) (exits : TransitionIndex → List StateIndex) (kept : List TransitionIndex)
    (t : TransitionIndex) : List TransitionIndex :=
  let conflicts := kept.filter fun u => (exits t).any (exits u).contains
  let displaces (u : TransitionIndex) : Bool :=
    c.isDescendant (c.transition t).source (c.transition u).source
  if conflicts.all displaces then kept.filter (!conflicts.contains ·) ++ [t] else kept

def removeConflicts (c : Chart) (history : HistoryTable) (configuration : List StateIndex)
    (enabled : List TransitionIndex) : List TransitionIndex :=
  let exits (t : TransitionIndex) := c.exitSet history configuration [t]
  (c.inDocumentOrder enabled).foldl (c.settle exits) []

def triggered (c : Chart) (event : Option EventName) (t : TransitionIndex) : Bool :=
  let node := c.transition t
  match event with
  | none => node.isEventless
  | some name => node.events.any (·.accepts name)

def candidates (c : Chart) (s : StateIndex) : List TransitionIndex :=
  (s :: c.ancestors s).flatMap fun a => (c.state a).transitions

end Chart

namespace MachineM

def conditionHolds (t : TransitionIndex) : MachineM Bool := fun m =>
  match (m.chart.transition t).condition with
  | none => .ok true m
  | some cond =>
    match evaluate cond m with
    | .ok v m => .ok v.isTruthy m
    | .error (.failure f) m => .ok false (m.raiseFailure f)
    | .error i m => .error i m

def firstEnabled (event : Option EventName) :
    List TransitionIndex → MachineM (Option TransitionIndex)
  | [] => return none
  | t :: rest => do
    if (← get).chart.triggered event t then
      if ← conditionHolds t then return some t
    firstEnabled event rest

def collectEnabled (event : Option EventName) :
    List StateIndex → List TransitionIndex → MachineM (List TransitionIndex)
  | [], enabled => return enabled
  | s :: rest, enabled => do
    match ← firstEnabled event ((← get).chart.candidates s) with
    | some t => collectEnabled event rest (if enabled.contains t then enabled else enabled ++ [t])
    | none => collectEnabled event rest enabled

def selectTransitions (event : Option EventName) : MachineM (List TransitionIndex) := do
  let m ← get
  let atomic := m.context.configuration.filter m.chart.isAtomic
  let enabled ← collectEnabled event atomic []
  let m ← get
  if !enabled.all (m.chart.isFollowed m.context.history) then throw .crash
  return m.chart.removeConflicts m.context.history m.context.configuration enabled

end MachineM

end Statechart
