import Statechart.Machine.Microstep
import Statechart.Machine.Snapshot

/- Runs of a machine.

   A run alternates between macrosteps and waiting. The machine stops wherever its surroundings
   have to act: its effects are to be carried out, a service is to be started, or an external
   event is awaited. Its control says which, and it goes on when it is answered. -/
namespace Statechart

inductive Input where
  | destroy
  | suspend
  | event (e : Event)
  | closed

namespace MachineM

def defineVariable (key : String) (v : Value) : MachineM Unit := do
  let data := (← get).context.dataModel
  requireHeap fun h => h.define data key v true

def bindSystemVariables : MachineM Unit := do
  let m ← get
  defineVariable "_sessionid" (.string m.options.sessionId)
  defineVariable "_name" (Event.textOrUndefined m.chart.name)

/-- Declares one variable. An argument of its id goes before its own value. -/
def declare (d : DataNode) : MachineM Unit := do
  let m ← get
  let overridden := m.options.arguments.filter fun args => m.heap.contains args d.id
  let v ← match overridden with
    | some args => pure (m.heap.get args d.id)
    | none => evaluateOr d.expr
  requireHeap fun h => h.set m.context.dataModel d.id v

def initializeData : MachineM Unit := do
  bindSystemVariables
  let m ← get
  (m.chart.states.toList.flatMap (·.data)).forM declare

def bindEvent (e : Event) : MachineM Unit := do
  update (·.trace (.event e.type e.name))
  let m ← get
  let (h, r) := e.toObject m.heap
  set (m.withHeap h)
  defineVariable "_event" (.object r)

def invokeIdOf (state : StateNode) (i : InvokeNode) : MachineM InvokeId := do
  match i.id with
  | some id => return id
  | none => return state.id ++ "." ++ (← freshId)

def prepareInvoke (s : StateIndex) (node : Nat) (i : InvokeNode) : MachineM InvokeData := do
  let state := (← get).chart.state s
  let invokeId ← invokeIdOf state i
  match i.idLocation with
  | some location => assign location (.string invokeId)
  | none => pure ()
  let source ← textOf "srcexpr" i.src i.srcExpr
  let content ← match i.content with
    | some e => evaluate e
    | none => pure .undefined
  let parameters ← if i.params.isEmpty then pure .undefined else paramsObject i.params
  let uniqueId ← freshId
  let entry : Invocation := { invokeId, uniqueId, state := s, node, autoforward := i.autoforward }
  update fun m => { m with
    context := { m.context with invocations := m.context.invocations ++ [entry] } }
  return { invokeId, uniqueId, type := i.type, source, content, parameters, document := i.document }

def start : MachineM Control := do
  update (·.reach .started)
  let m ← get
  if m.context.initialized then
    if m.context.done then
      update (·.reach .completed)
      return .exited .completed
    else return .macrostep
  else
    initializeData
    match (m.chart.state Chart.root).initial with
    | none => throw (.fault (.infrastructure "chart root has no initial transition"))
    | some t =>
      enterStates [t]
      update fun m => { m with context := { m.context with initialized := true } }
      return .effects .macrostep

def complete : MachineM Control := do
  let m ← get
  m.context.configuration.reverse.forM fun s => do
    let node := m.chart.state s
    executeBlock node.onExit
    update fun m => (m.cancelInvocationsOf s).deactivate s
    update (·.trace (.exited node.id))
  update fun m => { m with context := { m.context with statesToInvoke := [] } }
  return .effects (.exit .completed)

def destroy : MachineM Control := do
  update fun m => { m with
    effects := m.context.invocations.map fun i => .cancelInvoke i.invokeId
    context := { m.context with invocations := [] } }
  return .effects (.exit .destroyed)

def suspend : MachineM Control := do
  let m ← get
  if m.options.storing then
    match m.snapshot with
    | .ok b => set { m with saved := some b }
    | .error f => throw (.fault f)
  update (·.reach .suspended)
  return .exited .suspended

def pass (enabled : List TransitionIndex) : MachineM Control := do
  let m ← get
  let limit := m.options.maxMicrosteps
  if m.steps + 1 > limit then throw (.fault (.liveLock limit))
  set { m with steps := m.steps + 1 }
  if enabled.isEmpty then return .macrostep
  else
    microstep enabled
    return .effects .macrostep

def pendingInvokes (m : Machine) : List (StateIndex × Nat) :=
  m.context.statesToInvoke.flatMap fun s =>
    (List.range (m.chart.state s).invokes.length).map fun node => (s, node)

/-- One pass of a macrostep: transitions without event, else the next internal event. Without
    either the configuration is stable. -/
def macrostep : MachineM Control := do
  let m ← get
  if m.context.done then complete
  else if m.destroyed then destroy
  else
    let enabled ← selectTransitions none
    if !enabled.isEmpty then pass enabled
    else
      let m ← get
      match m.context.internalQueue with
      | [] =>
        let pending := pendingInvokes m
        set { m with context := { m.context with statesToInvoke := [] } }
        return .invoking pending
      | e :: rest =>
        set { m with context := { m.context with internalQueue := rest } }
        bindEvent e
        pass (← selectTransitions (some e.name))

/-- Goes on in a stable configuration: the next service, then internal events that came up
    meanwhile, then waiting. -/
def goOn : List (StateIndex × Nat) → MachineM Control
  | (s, node) :: rest => fun m =>
    match (m.chart.state s).invokes[node]? with
    | none => .ok (.invoking rest) m
    | some i =>
      match prepareInvoke s node i m with
      | .ok data m => .ok (.starts data rest) m
      | .error (.failure f) m => .ok (.invoking rest) (m.raiseFailure f)
      | .error e m => .error e m
  | [] => do
    let m ← get
    if !m.context.internalQueue.isEmpty then return .macrostep
    if !m.accepted then
      update fun m => { m with accepted := true }
      update (·.reach .accepted)
    update (·.reach .waiting)
    return .waiting

/-- What the services think of an external event: the one it came from is finalized, and the
    others may have it forwarded. -/
def passToServices (e : Event) : MachineM Unit := do
  let m ← get
  m.context.invocations.forM fun i => do
    if e.invokeId = some i.invokeId then
      match (m.chart.state i.state).invokes[i.node]? with
      | some node => executeBlock node.finalize
      | none => throw .crash
    else if i.autoforward then update (·.emit (.forward i.invokeId e))

def forget (id : InvokeId) : MachineM Unit :=
  update fun m => { m with
    context := { m.context with invocations := m.context.invocations.filter (·.invokeId ≠ id) } }

def process (e : Event) : MachineM Control := do
  update fun m => { m with steps := 0 }
  bindEvent e
  passToServices e
  match e.name.doneInvokeId? with
  | some id => forget id
  | none => pure ()
  let enabled ← selectTransitions (some e.name)
  if !enabled.isEmpty then
    update fun m => { m with steps := m.steps + 1 }
    microstep enabled
  return .effects .macrostep

def takeInput : Input → MachineM Control
  | .destroy => destroy
  | .suspend => suspend
  | .closed => do
    update (·.reach .queueClosed)
    return .exited .queueClosed
  | .event e => process e

def afterEffects : AfterEffects → MachineM Control
  | .macrostep => return .macrostep
  | .exit status => do
    update (·.reach status.point)
    return .exited status

def afterStart (data : InvokeData) (pending : List (StateIndex × Nat)) :
    Option Failure → MachineM Control
  | none => return .invoking pending
  | some f => do
    forget data.invokeId
    update (·.raiseFailure f)
    return .invoking pending

end MachineM

namespace Machine

def proceed (m : Machine) (part : MachineM Control) : Machine :=
  match part m with
  | .ok control m => { m with control }
  | .error (.fault f) m => abort m f
  | .error (.failure f) m => abort m (.infrastructure f.message)
  | .error .crash m => { m with control := .crashed }
where
  abort (m : Machine) (f : Fault) : Machine :=
    let point := match f with
      | .liveLock _ => LifePoint.liveLockAbort
      | _ => .exited
    { m.reach point with control := .aborted f }

def start (m : Machine) : Machine :=
  { m with control := .starting, steps := 0, accepted := false, saved := none }

def step (m : Machine) : Machine :=
  match m.control with
  | .starting => m.proceed MachineM.start
  | .macrostep => m.proceed MachineM.macrostep
  | .invoking pending => m.proceed (MachineM.goOn pending)
  | .effects next => if m.effects.isEmpty then m.proceed (MachineM.afterEffects next) else m
  | _ => m

def effectsDone (m : Machine) (failures : List Failure) : Machine :=
  match m.control with
  | .effects next =>
    (failures.foldl raiseFailure { m with effects := [] }).proceed (MachineM.afterEffects next)
  | _ => m

def startDone (m : Machine) (failure : Option Failure) : Machine :=
  match m.control with
  | .starts data pending => m.proceed (MachineM.afterStart data pending failure)
  | _ => m

def take (m : Machine) (input : Input) : Machine :=
  match m.control with
  | .waiting => m.proceed (MachineM.takeInput input)
  | _ => m

def isBlocked (m : Machine) : Bool :=
  match m.control with
  | .starting | .macrostep | .invoking _ => false
  | .effects _ => !m.effects.isEmpty
  | _ => true

def stepUntilBlocked : Nat → Machine → Machine
  | 0, m => m
  | fuel + 1, m => if m.isBlocked then m else stepUntilBlocked fuel m.step

def invokeCount (m : Machine) : Nat := m.chart.states.foldl (fun n s => n + s.invokes.length) 0

/-- A bound on the steps until the next external event: every pass of a macrostep is counted, and
    between two passes each service is prepared, started and answered at most once. -/
def stepBound (m : Machine) : Nat :=
  (m.options.maxMicrosteps + 3) * (2 * m.invokeCount + 6)

def advance (m : Machine) : Machine := stepUntilBlocked m.stepBound m

def resume (chart : Chart) (options : Options) (memory : Memory) (b : Bucket) :
    Except Fault Machine := do
  let (h, context) ← Context.restore chart memory.heap b
  let m : Machine := { chart, options, memory := { memory with heap := h }, context }
  let declareMissing (d : DataNode) : MachineM Unit := do
    let m ← get
    if !m.heap.contains m.context.dataModel d.id then
      MachineM.requireHeap fun h => h.set m.context.dataModel d.id .undefined
  let setUp : MachineM Unit := do
    MachineM.bindSystemVariables
    (chart.states.toList.flatMap (·.data)).forM declareMissing
  match setUp m with
  | .ok _ m => return m
  | .error (.fault f) _ => throw f
  | .error (.failure f) _ => throw (.infrastructure f.message)
  | .error .crash _ => throw (.infrastructure "")

end Machine

end Statechart
