import Statechart.Chart.Basic
import Statechart.Machine.Log
import Statechart.Snapshot.Bucket
import Statechart.Text.Quoted

/- The state of a running machine, and the monad its steps are written in. -/
namespace Statechart

def systemVariables : List String := ["_sessionid", "_name", "_event"]

structure Invocation where
  invokeId : InvokeId
  uniqueId : String
  state : StateIndex
  node : Nat
  autoforward : Bool
deriving DecidableEq, Repr

/-- Everything about a machine that changes while it runs and that a snapshot keeps. State sets
    are ascending lists. -/
structure Context where
  configuration : List StateIndex := []
  statesToInvoke : List StateIndex := []
  history : List (StateIndex × List StateIndex) := []
  internalQueue : List Event := []
  dataModel : Ref
  invocations : List Invocation := []
  initialized : Bool := false
  done : Bool := false
  result : Value := .undefined

structure Memory where
  heap : Heap
  supply : Nat := 0

instance : Inhabited Memory := ⟨⟨.initial, 0⟩⟩

inductive Effect where
  | send (event : OutgoingEvent)
  | cancel (id : SendId)
  | cancelInvoke (id : InvokeId)
  | forward (id : InvokeId) (event : Event)

structure InvokeData where
  invokeId : InvokeId
  uniqueId : String
  type : Option String
  source : Option String
  content : Value
  parameters : Value
  document : DocumentId

inductive ExitStatus where
  | completed
  | suspended
  | destroyed
  | queueClosed
deriving DecidableEq, Repr

def ExitStatus.name : ExitStatus → String
  | .completed => "completed"
  | .suspended => "suspended"
  | .destroyed => "destroyed"
  | .queueClosed => "queue_closed"

def ExitStatus.point : ExitStatus → LifePoint
  | .completed => .completed
  | .suspended => .suspended
  | .destroyed => .destroyed
  | .queueClosed => .queueClosed

inductive AfterEffects where
  | macrostep
  | exit (status : ExitStatus)
deriving DecidableEq, Repr

inductive Control where
  | idle
  | starting
  | macrostep
  | effects (next : AfterEffects)
  | invoking (pending : List (StateIndex × Nat))
  | starts (data : InvokeData) (pending : List (StateIndex × Nat))
  | waiting
  | exited (status : ExitStatus)
  | aborted (fault : Fault)
  /-- An action of the host broke down, an invoke was missing, or calls nested without end. -/
  | crashed

structure Options where
  sessionId : SessionId
  maxMicrosteps : Nat := 1000
  logger : Logger := Logger.standard false
  storing : Bool := false
  arguments : Option Ref := none

structure Machine where
  chart : Chart
  options : Options
  memory : Memory
  context : Context
  effects : List Effect := []
  control : Control := .idle
  /-- Microsteps since the last external event. -/
  steps : Nat := 0
  accepted : Bool := false
  destroyed : Bool := false
  saved : Option Bucket := none
  reports : List Report := []

inductive Interrupt where
  | failure (f : Failure)
  | fault (f : Fault)
  | crash

abbrev MachineM := EStateM Interrupt Machine

def insertIndex (s : StateIndex) : List StateIndex → List StateIndex
  | [] => [s]
  | t :: rest =>
    if s < t then s :: t :: rest
    else if s = t then t :: rest
    else t :: insertIndex s rest

def idText (n : Nat) : String := "00000000000040008000" ++ Text.hexPadded 12 n

namespace Machine

def heap (m : Machine) : Heap := m.memory.heap

def withHeap (m : Machine) (h : Heap) : Machine := { m with memory := { m.memory with heap := h } }

def create (chart : Chart) (options : Options) (memory : Memory) : Machine :=
  let (h, r) := memory.heap.newObject
  { chart, options, memory := { memory with heap := h }, context := { dataModel := r } }

def isActive (m : Machine) (s : StateIndex) : Bool := m.context.configuration.contains s

def isInState (m : Machine) (id : String) : Bool :=
  match m.chart.find? id with
  | some s => m.isActive s
  | none => false

def activeIds (m : Machine) : List String :=
  m.context.configuration.map fun s => (m.chart.state s).id

def scope (m : Machine) : Scope := ⟨m.context.dataModel, m.isInState⟩

def enqueue (m : Machine) (e : Event) : Machine :=
  { m with context := { m.context with internalQueue := m.context.internalQueue ++ [e] } }

def emit (m : Machine) (e : Effect) : Machine := { m with effects := m.effects ++ [e] }

def raiseFailure (m : Machine) (f : Failure) : Machine :=
  let (h, e) := Event.ofFailure m.heap f
  (m.withHeap h).enqueue e

def freshId (m : Machine) : String × Machine :=
  (idText m.memory.supply, { m with memory := { m.memory with supply := m.memory.supply + 1 } })

def tell (m : Machine) (r : Report) : Machine := { m with reports := r :: m.reports }

def platformFailure (m : Machine) (source : String) : Failure :=
  Failure.ofFault (.platform m.options.sessionId source)

/-- Traces a record, if tracing is on. A sink that fails makes the machine take note. -/
def trace (m : Machine) (r : TraceRecord) : Machine :=
  if !m.options.logger.tracing then m
  else
    let m := m.tell (.trace r)
    match m.options.logger.traceFault r with
    | some source => m.raiseFailure (m.platformFailure source)
    | none => m

def reach (m : Machine) (p : LifePoint) : Machine := (m.trace (.point p)).tell (.life p)

end Machine

namespace MachineM

def fail {α : Type} (f : Failure) : MachineM α := throw (.failure f)

def update (f : Machine → Machine) : MachineM Unit := modify f

def evaluate (e : Expr) : MachineM Value := fun m =>
  match e.eval m.scope m.heap with
  | .ok (h, v) => .ok v (m.withHeap h)
  | .error f => .error (.failure f) m

def changeHeap (f : Heap → Except ValueError Heap) : MachineM Unit := fun m =>
  match f m.heap with
  | .ok h => .ok () (m.withHeap h)
  | .error e => .error (.failure (.ofValueError e)) m

def requireHeap (f : Heap → Except ValueError Heap) : MachineM Unit := fun m =>
  match f m.heap with
  | .ok h => .ok () (m.withHeap h)
  | .error e => .error (.fault (.value e)) m

def freshId : MachineM String := fun m =>
  let (id, m) := m.freshId
  .ok id m

end MachineM

end Statechart
