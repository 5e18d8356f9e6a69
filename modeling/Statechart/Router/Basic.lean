import Statechart.Router.Address
import Statechart.Router.Scheduler
import Statechart.Machine.Run
import Statechart.Snapshot.Storage
import Statechart.Chart.Compile
import Statechart.Chart.Reader

/- The state of a router: its sessions, the charts and processors it knows, what is ready to run,
   and the clock.

   Sessions take turns. A session that has something to do is ready; the one that has been ready
   longest runs until it has to wait, and what it sends makes others ready. -/
namespace Statechart

structure Outcome where
  status : SessionStatus
  result : Value := .undefined
  error : Option String := none

inductive Phase where
  | fresh
  | active (machine : Machine)
  | asleep
  | ended

structure Session where
  id : SessionId
  chart : Chart
  parent : Option ParentLink := none
  arguments : Option Ref := none
  mailbox : List Event := []
  isOpen : Bool := true
  wakeEvent : Option Event := none
  scheduler : Scheduler
  doomed : Bool := false
  drowsy : Bool := false
  status : SessionStatus := .created
  idleDeadline : Option Nat := none
  awaited : Option SessionId := none
  outcome : Option Outcome := none
  phase : Phase := .fresh
  isRegistered : Bool := true

structure Processor where
  id : String
  accepts : Option String → Option String → Bool
  refuses : OutgoingEvent → Option RouterError

structure Handover where
  session : SessionId
  event : OutgoingEvent
  heap : Heap

inductive Task where
  | session (id : SessionId)
  | timer (id : SessionId) (index : Nat)
  /-- A session whose machine broke down is to be ended. -/
  | aftermath (id : SessionId)
deriving DecidableEq, Repr

structure Stats where
  created : Nat := 0
  finished : Nat := 0
  dispatched : Nat := 0
  delivered : Nat := 0
  invokes : Nat := 0

structure Router where
  settings : Settings
  memory : Memory := default
  storage : Storage := .memory []
  charts : List (String × Chart) := []
  sessions : List Session := []
  /-- Processors of the host; later ones are asked first. -/
  processors : List Processor := []
  invocations : List ((SessionId × InvokeId) × SessionId) := []
  stats : Stats := {}
  clock : Nat := 0
  ready : List Task := []
  log : List (String × String) := []
  handedOver : List Handover := []
  depths : List (SessionId × Int) := []
  crowded : List SessionId := []

abbrev RouterM := StateM Router

abbrev RouterE := ExceptT RouterError RouterM

namespace Router

def session? (r : Router) (id : SessionId) : Option Session := r.sessions.find? (·.id == id)

def registered? (r : Router) (id : SessionId) : Option Session :=
  (r.session? id).filter (·.isRegistered)

def liveCount (r : Router) : Nat := (r.sessions.filter (·.isRegistered)).length

def chart? (r : Router) (name : String) : Option Chart := r.charts.lookup name

def register (r : Router) (name : String) (c : Chart) : Router :=
  { r with charts := (name, c) :: r.charts.filter (·.1 ≠ name) }

def canHandle (r : Router) (type target : Option String) : Bool :=
  r.processors.any (·.accepts type target) || Address.isForSession type target

def childOf (r : Router) (parent : SessionId) (invoke : InvokeId) : Option SessionId :=
  r.invocations.lookup (parent, invoke)

def isInvokeActive (r : Router) (parent : SessionId) (invoke : InvokeId) : Bool :=
  ((r.childOf parent invoke).bind r.registered?).any (!·.status.isTerminal)

def depth (r : Router) (id : SessionId) : Int := (r.depths.lookup id).getD 0

def setDepth (r : Router) (id : SessionId) (depth : Int) : Router :=
  { r with depths := (id, depth) :: r.depths.filter (·.1 ≠ id) }

def countIn (r : Router) (id : SessionId) : Router :=
  let depth := r.depth id + 1
  let limit := r.settings.mailboxWarnDepth
  { r.setDepth id depth with
    crowded := if 0 < limit ∧ depth = limit then id :: r.crowded else r.crowded }

def countOut (r : Router) (id : SessionId) : Router := r.setDepth id (r.depth id - 1)

def inspect (r : Router) : String :=
  "DispatchRouter \x7b sessions: " ++ toString r.liveCount ++ ", charts: "
    ++ toString r.charts.length ++ ", processors: " ++ toString (r.processors.length + 1) ++ " \x7d"

end Router

namespace RouterM

def updateSession (id : SessionId) (f : Session → Session) : RouterM Unit :=
  modify fun r => { r with sessions := r.sessions.map fun s => if s.id == id then f s else s }

def wake (t : Task) : RouterM Unit :=
  modify fun r => if r.ready.contains t then r else { r with ready := r.ready ++ [t] }

def setStatus (id : SessionId) (status : SessionStatus) : RouterM Unit := do
  updateSession id fun s => { s with status }
  let r ← get
  (r.sessions.filter (·.awaited = some id)).forM fun s => wake (.session s.id)

def sessionOf (id : SessionId) : RouterE Session := do
  match (← get).session? id with
  | some s => return s
  | none => throw (.sessionNotFound id)

def send (s : Session) (e : Event) : RouterE Unit := do
  if s.isOpen then
    modify (·.countIn s.id)
    updateSession s.id fun s => { s with mailbox := s.mailbox ++ [e] }
    wake (.session s.id)
  else throw (.mailboxClosed s.id)

def deliver (id : SessionId) (e : Event) : RouterE Unit := do
  match (← get).registered? id with
  | none => throw (.sessionNotFound id)
  | some s =>
    send s e
    modify fun r => { r with stats := { r.stats with delivered := r.stats.delivered + 1 } }

def reportDone (link : ParentLink) (status : SessionStatus) (result : Value) : RouterM Unit := do
  let r ← get
  let key := (link.session, link.invokeId)
  set { r with invocations := r.invocations.filter (·.1 ≠ key) }
  if (r.invocations.lookup key).isSome && status = .completed then
    let e := link.deliver (.doneInvoke link.invokeId) result Address.sessionType
    discard (deliver link.session e).run

def finish (id : SessionId) (outcome : Outcome) : RouterM Unit := do
  match (← get).session? id with
  | none => return
  | some s =>
    if s.outcome.isSome then return
    updateSession id fun s =>
      { s with
        outcome := some outcome, isOpen := false, scheduler := s.scheduler.disposeAll
        phase := .ended, isRegistered := false, idleDeadline := none }
    modify fun r => { r with stats := { r.stats with finished := r.stats.finished + 1 } }
    match s.parent with
    | some link => reportDone link outcome.status outcome.result
    | none => pure ()
    setStatus id outcome.status

def close (id : SessionId) : RouterM Unit := do
  updateSession id fun s => { s with isOpen := false }
  wake (.session id)

def doom (id : SessionId) : RouterM Unit := do
  updateSession id fun s => { s with doomed := true }
  wake (.session id)

def destroy (id : SessionId) : RouterM Unit := do
  doom id
  close id
  match (← get).session? id with
  | some { phase := .fresh, .. } => finish id { status := .destroyed }
  | _ => pure ()

def resolve (source : SessionId) (target : String) : RouterE SessionId := do
  if target == "" then return source
  match Text.dropHead? Address.sessionMark target, Text.dropHead? Address.serviceMark target with
  | some id, _ => return id
  | none, some invoke =>
    match (← get).childOf source invoke with
    | some child => return child
    | none => throw (.unknownTarget target)
  | none, none => throw (.unknownTarget target)

def dispatchToSession (source : SessionId) (e : OutgoingEvent) : RouterE Unit := do
  let target := e.target.getD ""
  if target == Address.parentTarget then
    MonadExcept.ofExcept e.checkToParent
    match ((← get).registered? source).bind (·.parent) with
    | some link => deliver link.session (link.deliver e.name e.data Address.sessionType)
    | none => throw (.unknownTarget (target ++ " (session " ++ source ++ " was not invoked)"))
  else
    let destination ← resolve source target
    deliver destination
      { name := e.name, type := .external, data := e.data, sendId := e.sendId
        origin := some (Address.ofSession source), originType := some Address.sessionType }

/-- Routes an event of a session. Nothing is sent for a session that is cancelled. -/
def dispatch (source : SessionId) (e : OutgoingEvent) (cancelled : Bool) : RouterE Unit := do
  if cancelled then return
  let r ← get
  let count : RouterE Unit :=
    modify fun r => { r with stats := { r.stats with dispatched := r.stats.dispatched + 1 } }
  match r.processors.find? (·.accepts e.type e.target) with
  | some p =>
    count
    match p.refuses e with
    | some error => throw error
    | none =>
      modify fun r => { r with handedOver := ⟨source, e, r.memory.heap⟩ :: r.handedOver }
  | none =>
    if Address.isForSession e.type e.target then
      count
      dispatchToSession source e
    else throw (.noProcessor (e.type.getD Address.sessionType) (e.target.getD ""))

def scheduleSend (s : Session) (e : OutgoingEvent) : RouterE Nat := do
  if s.status.isTerminal then throw (.mailboxClosed s.id)
  if e.target = some Address.parentTarget then MonadExcept.ofExcept e.checkToParent
  let now := (← get).clock
  let index := s.scheduler.timers.length
  updateSession s.id fun s => { s with scheduler := s.scheduler.schedule now e }
  if e.delay = 0 then wake (.timer s.id index)
  return index

def cancelSend (id : SessionId) (sendId : SendId) : RouterM Nat := do
  match (← get).session? id with
  | none => return 0
  | some s =>
    let (scheduler, count) := s.scheduler.cancel sendId
    updateSession id fun s => { s with scheduler }
    return count

/-- Runs the task of a timer. If it fires, its event is dispatched, and the session is told if
    that fails. -/
def fire (id : SessionId) (index : Nat) : RouterM Unit := do
  let r ← get
  match r.session? id with
  | none => return
  | some s =>
    updateSession id fun s => { s with scheduler := (s.scheduler.expire r.clock index).1 }
    match (s.scheduler.expire r.clock index).2 with
    | none => return
    | some event =>
      match ← (dispatch id event s.doomed).run with
      | .ok _ => pure ()
      | .error e =>
        let r ← get
        let failure := e.toFailure.withSendId event.sendId
        let (h, event) := Event.ofFailure r.memory.heap failure
        set { r with memory := { r.memory with heap := h } }
        discard (deliver id event).run

def cancelInvoke (parent : SessionId) (invoke : InvokeId) : RouterM Unit := do
  let r ← get
  match r.childOf parent invoke with
  | none => return
  | some child =>
    set { r with invocations := r.invocations.filter (·.1 ≠ (parent, invoke)) }
    if (r.registered? child).isSome then destroy child

def forward (parent : SessionId) (invoke : InvokeId) (e : Event) : RouterE Unit := do
  match (← get).childOf parent invoke with
  | some child => deliver child e
  | none => throw (.unknownTarget (Address.ofService invoke))

def createSession (chart : Chart) (parent : Option ParentLink) (arguments : Option Ref) :
    RouterM SessionId := do
  let r ← get
  let id := idText r.memory.supply
  let s : Session := { id, chart, parent, arguments, scheduler := { session := id } }
  set { r with
    memory := { r.memory with supply := r.memory.supply + 1 }
    sessions := r.sessions ++ [s]
    stats := { r.stats with created := r.stats.created + 1 } }
  return id

def terminated (s : Session) : RouterError :=
  let status := (s.outcome.map (·.status)).getD s.status
  .terminated status (((s.outcome.bind (·.error))).getD status.name)

def machineOptions (settings : Settings) (s : Session) : Options :=
  { sessionId := s.id, maxMicrosteps := settings.maxMicrosteps
    logger := .standard settings.tracing, storing := true, arguments := s.arguments }

def startSession (id : SessionId) : RouterE Unit := do
  let r ← get
  match r.session? id with
  | none => throw (.sessionNotFound id)
  | some s =>
    if s.status.isTerminal then throw (terminated s)
    match s.phase with
    | .fresh =>
      let m := Machine.create s.chart (machineOptions r.settings s) r.memory
      set { r with memory := m.memory }
      updateSession id fun s => { s with phase := .active m.start }
      setStatus id .starting
      wake (.session id)
    | _ => throw (.alreadyStarted id)

/-- How the start of a session turned out; none while it is still starting. -/
def startResult? (s : Session) : Option (Except RouterError SessionStatus) :=
  if s.status = .failed || s.status = .liveLockAbort then some (.error (terminated s))
  else if s.status.isAccepted || s.status.isTerminal then some (.ok s.status)
  else none

def invokedChart (data : InvokeData) : RouterE Chart := do
  let r ← get
  match data.source, data.content with
  | some name, _ =>
    match r.chart? name with
    | some c => return c
    | none => throw (.chartNotFound name)
  | none, .object ref =>
    let json ← match r.memory.heap.toJson (.object ref) with
      | .ok j => pure j
      | .error e => throw (.core (.value e))
    match (Manuscript.ofJson json).read Source.readChart with
    | none => throw (.core .json)
    | some source =>
      match Chart.compile [] source with
      | .ok c => return c
      | .error f => throw (.core f)
  | none, _ =>
    throw (.chartNotFound ("invoke '" ++ data.invokeId ++ "' has neither src nor content"))

def beginInvoke (parent : SessionId) (data : InvokeData) : RouterE SessionId := do
  if !Address.isSessionType data.type then
    throw (.noProcessor (data.type.getD "") (data.source.getD ""))
  let chart ← invokedChart data
  let r ← get
  let (h, arguments) := match data.parameters with
    | .object ref =>
      match r.memory.heap.deepClone (.object ref) .writable with
      | (h, .object copy) => (h, some copy)
      | (h, _) => (h, none)
    | _ => (r.memory.heap, none)
  set { r with memory := { r.memory with heap := h } }
  let link : ParentLink :=
    { session := parent, invokeId := data.invokeId, uniqueId := data.uniqueId }
  let child ← createSession chart (some link) arguments
  let key := (parent, data.invokeId)
  modify fun r => { r with
    invocations := (key, child) :: r.invocations.filter (·.1 ≠ key)
    stats := { r.stats with invokes := r.stats.invokes + 1 } }
  startSession child
  return child

def endInvoke (parent : SessionId) (invoke : InvokeId) : Except RouterError SessionStatus →
    RouterM Unit
  | .ok _ => return
  | .error _ =>
    modify fun r => { r with invocations := r.invocations.filter (·.1 ≠ (parent, invoke)) }

end RouterM

end Statechart
