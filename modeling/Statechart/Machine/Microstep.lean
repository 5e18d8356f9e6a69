import Statechart.Machine.Selection

/- Microsteps: leaving states, transition content, and entering states. -/
namespace Statechart

structure EntrySet where
  states : List StateIndex := []
  byDefault : List StateIndex := []
  /-- Parents of history states without a record, with the default transition whose content runs
      there. -/
  historyContent : List (StateIndex × TransitionIndex) := []

namespace EntrySet

def add (e : EntrySet) (s : StateIndex) : EntrySet := { e with states := insertIndex s e.states }

def addDefault (e : EntrySet) (s : StateIndex) : EntrySet :=
  { e with byDefault := insertIndex s e.byDefault }

/-- A later default transition of one parent replaces an earlier one. -/
def addContent (e : EntrySet) (parent : StateIndex) (t : TransitionIndex) : EntrySet :=
  { e with historyContent := (parent, t) :: e.historyContent.filter (·.1 ≠ parent) }

end EntrySet

namespace Chart

section Attempts

variable (c : Chart) (descend : StateIndex → EntrySet → Option EntrySet)

def addMissingRegions? (parallel : StateIndex) (e : EntrySet) : Option EntrySet :=
  (c.childStates parallel).foldlM
    (fun e child =>
      let covered := e.states.any fun s => s == child || c.isDescendant s child
      if covered then some e else descend child e)
    e

def addAncestors? (s top : StateIndex) (e : EntrySet) : Option EntrySet :=
  ((c.ancestorsUpTo s top).takeWhile (· ≠ root)).foldlM
    (fun e a =>
      let e := e.add a
      if c.isParallel a then c.addMissingRegions? descend a e else some e)
    e

def addTargets? (targets : List StateIndex) (top : StateIndex) (e : EntrySet) : Option EntrySet := do
  let e ← targets.foldlM (fun e r => descend r e) e
  targets.foldlM (fun e r => c.addAncestors? descend r top e) e

end Attempts

/-- Enters a state and what entering it brings with it; for a history state, what it stands for.
    None if more than `depth` calls would nest. -/
def addDescendants? (c : Chart) (history : HistoryTable) :
    Nat → StateIndex → EntrySet → Option EntrySet
  | 0, _, _ => none
  | depth + 1, s, e =>
    let descend := c.addDescendants? history depth
    let node := c.state s
    if c.isHistory s then
      let parent := node.parent.getD root
      match history.lookup s with
      | some recorded => c.addTargets? descend recorded parent e
      | none =>
        match node.initial with
        | some d => c.addTargets? descend (c.transition d).targets parent (e.addContent parent d)
        | none => some e
    else
      let e := e.add s
      if c.isCompound s then
        let e := e.addDefault s
        match node.initial with
        | some t => c.addTargets? descend (c.transition t).targets s e
        | none => some e
      else if c.isParallel s then c.addMissingRegions? descend s e
      else some e

/-- Calls that nest deeper than this nest without end. -/
def nesting (c : Chart) : Nat := (c.states.size + 1) * (c.states.size + 1)

def enterFor? (c : Chart) (history : HistoryTable) (e : EntrySet) (t : TransitionIndex) :
    Option EntrySet := do
  let descend := c.addDescendants? history c.nesting
  let e ← (c.transition t).targets.foldlM (fun e s => descend s e) e
  match c.domain? history t with
  | some d => (c.effectiveTargets history t).foldlM (fun e s => c.addAncestors? descend s d e) e
  | none => some e

def entrySet? (c : Chart) (history : HistoryTable) (transitions : List TransitionIndex) :
    Option EntrySet :=
  transitions.foldlM (c.enterFor? history) {}

/-- What a history state records when its parent `s` is left: the active atomic states inside the
    parent if it is deep, else the parent's active children. -/
def recordFor (c : Chart) (configuration : List StateIndex) (s h : StateIndex) : List StateIndex :=
  match (c.state h).kind with
  | .history .deep => configuration.filter fun a => c.isAtomic a && c.isDescendant a s
  | _ => configuration.filter fun a => (c.state a).parent = some s

def record (history : HistoryTable) (h : StateIndex) (states : List StateIndex) : HistoryTable :=
  (h, states) :: history.filter (·.1 ≠ h)

def recordAll (c : Chart) (configuration : List StateIndex) (exits : List StateIndex)
    (history : HistoryTable) : HistoryTable :=
  exits.foldl
    (fun history s =>
      (c.historyChildren s).foldl
        (fun history h => record history h (c.recordFor configuration s h)) history)
    history

/-- Whether a region is done: a compound state by an active final child, a parallel state by all
    its children. At most `depth` levels are looked at. -/
def isInFinalState (c : Chart) (configuration : List StateIndex) : Nat → StateIndex → Bool
  | 0, _ => false
  | depth + 1, s =>
    if c.isCompound s then
      (c.childStates s).any fun k => c.isFinal k && configuration.contains k
    else if c.isParallel s then (c.childStates s).all (c.isInFinalState configuration depth)
    else false

end Chart

namespace Machine

def cancelInvocationsOf (m : Machine) (s : StateIndex) : Machine :=
  let gone := m.context.invocations.filter (·.state = s)
  { m with
    context := { m.context with invocations := m.context.invocations.filter (·.state ≠ s) }
    effects := m.effects ++ gone.map fun i => .cancelInvoke i.invokeId }

def deactivate (m : Machine) (s : StateIndex) : Machine :=
  { m with context := { m.context with configuration := m.context.configuration.filter (· ≠ s) } }

def activate (m : Machine) (s : StateIndex) : Machine :=
  { m with context := { m.context with
      configuration := insertIndex s m.context.configuration
      statesToInvoke := insertIndex s m.context.statesToInvoke } }

end Machine

namespace MachineM

def exitState (s : StateIndex) : MachineM Unit := do
  let node := (← get).chart.state s
  update (·.trace (.exiting node.id))
  executeBlock node.onExit
  update fun m => (m.cancelInvocationsOf s).deactivate s
  update (·.trace (.exited node.id))

def exitStates (enabled : List TransitionIndex) : MachineM Unit := do
  let m ← get
  let c := m.context
  let exits := m.chart.exitSet c.history c.configuration enabled
  set { m with context := { c with
    statesToInvoke := c.statesToInvoke.filter (!exits.contains ·)
    history := m.chart.recordAll c.configuration exits c.history } }
  exits.reverse.forM exitState

def performTransitions (enabled : List TransitionIndex) : MachineM Unit :=
  enabled.forM fun t => do
    let m ← get
    let node := m.chart.transition t
    let target := String.intercalate " " (node.targets.map fun s => (m.chart.state s).id)
    update (·.trace (.performing node.kind.name node.eventText target))
    executeBlock node.actions
    update (·.trace (.performed node.kind.name node.eventText target))

def enterFinal (s : StateIndex) : MachineM Unit := do
  let chart := (← get).chart
  let data ← evaluateOr (chart.state s).doneData
  let parent := (chart.state s).parent.getD Chart.root
  if parent = Chart.root then
    update fun m => { m with context := { m.context with done := true, result := data } }
  else
    let done (p : StateIndex) (data : Value) : Event :=
      { name := .doneState (chart.state p).id, type := .internal, data }
    update (·.enqueue (done parent data))
    match (chart.state parent).parent with
    | some grand =>
      let m ← get
      if chart.isParallel grand && (chart.childStates grand).all
          (chart.isInFinalState m.context.configuration chart.states.size) then
        update (·.enqueue (done grand .undefined))
    | none => pure ()

def enterState (e : EntrySet) (s : StateIndex) : MachineM Unit := do
  let chart := (← get).chart
  let node := chart.state s
  update (·.trace (.entering node.id))
  update (·.activate s)
  executeBlock node.onEntry
  if e.byDefault.contains s then
    match node.initial with
    | some t => executeBlock (chart.transition t).actions
    | none => pure ()
  match e.historyContent.lookup s with
  | some t => executeBlock (chart.transition t).actions
  | none => pure ()
  update (·.trace (.entered node.id))
  if chart.isFinal s then enterFinal s

def enterStates (enabled : List TransitionIndex) : MachineM Unit := do
  let m ← get
  match m.chart.entrySet? m.context.history enabled with
  | some e => e.states.forM (enterState e)
  | none => throw .crash

def microstep (enabled : List TransitionIndex) : MachineM Unit := do
  exitStates enabled
  performTransitions enabled
  enterStates enabled

end MachineM

end Statechart
