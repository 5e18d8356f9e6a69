import Statechart.Router.Basic

/- Runs of a router.

   A turn is the least piece of work of the task that is first in line: one step of a machine, or
   one answer to it. The task keeps its place as long as it can go on. A router is settled when no
   task is ready; only then does the clock move. -/
namespace Statechart

namespace RouterM

def passOn (id : SessionId) (chart : Chart) (report : Report) : RouterM Unit := do
  match report.line? with
  | some line => modify fun r => { r with log := (machineName chart.name, line) :: r.log }
  | none => pure ()
  match report with
  | .life .accepted => setStatus id .running
  | .life .waiting =>
    let r ← get
    let deadline := r.settings.idleTimeout?.map (r.clock + ·)
    updateSession id fun s => { s with idleDeadline := deadline }
    setStatus id .waiting
  | _ => return

def keep (id : SessionId) (m : Machine) : RouterM Unit := do
  modify fun r => { r with memory := m.memory }
  updateSession id fun s => { s with phase := .active { m with reports := [] } }
  m.reports.reverse.forM (passOn id m.chart)

def perform (s : Session) : Effect → RouterE Unit
  | .send e => do
    if e.delay = 0 then
      let doomed := ((← get).session? s.id).any (·.doomed)
      dispatch s.id e doomed
    else
      match (← get).session? s.id with
      | some s => discard (scheduleSend s e)
      | none => throw (.sessionNotFound s.id)
  | .cancel sendId => do discard (cancelSend s.id sendId)
  | .cancelInvoke invoke => cancelInvoke s.id invoke
  | .forward invoke e => forward s.id invoke e

def sendIdOf : Effect → Option SendId
  | .send e => e.sendId
  | _ => none

def performAll (s : Session) (effects : List Effect) : RouterM (List Failure) :=
  effects.filterMapM fun effect => do
    match ← (perform s effect).run with
    | .ok _ => return none
    | .error e => return some (e.toFailure.withSendId (sendIdOf effect))

/-- Starts a service for a machine, or looks whether it has started. False if it has not yet. -/
def serveInvoke (s : Session) (m : Machine) (data : InvokeData) : RouterM Bool := do
  let answer (failure : Option Failure) : RouterM Bool := do
    updateSession s.id fun s => { s with awaited := none }
    keep s.id ({ m with memory := (← get).memory }.startDone failure)
    return true
  match s.awaited with
  | none =>
    match ← (beginInvoke s.id data).run with
    | .error e => answer (some e.toFailure)
    | .ok child =>
      updateSession s.id fun s => { s with awaited := some child }
      return false
  | some child =>
    match ((← get).session? child).bind startResult? with
    | none => return false
    | some result =>
      endInvoke s.id data.invokeId result
      match result with
      | .ok _ => answer none
      | .error e => answer (some e.toFailure)

def nextEvent? (s : Session) : Option (Event × Session) :=
  match s.wakeEvent, s.mailbox with
  | some e, _ => some (e, { s with wakeEvent := none })
  | none, e :: rest =>
    let status := if s.status = .waiting then .running else s.status
    some (e, { s with mailbox := rest, status })
  | none, [] => none

/-- Keeps a session from which an event may have been taken. An event from the mailbox is counted
    out; one that woke the session has been before. -/
def adopt (s taken : Session) : RouterM Unit := do
  if taken.mailbox.length < s.mailbox.length then modify (·.countOut s.id)
  updateSession s.id fun _ => taken
  if taken.status ≠ s.status then setStatus s.id taken.status

def input? (s : Session) : Option (Input × Session) :=
  if s.doomed then some (.destroy, s)
  else if s.drowsy then some (.suspend, s)
  else
    match nextEvent? s with
    | some (e, s) => some (.event e, s)
    | none => if s.isOpen then none else some (.closed, s)

def leave (s : Session) (m : Machine) : ExitStatus → RouterM Unit
  | .completed => finish s.id { status := .completed, result := m.context.result }
  | .destroyed => finish s.id { status := .destroyed }
  | .queueClosed => finish s.id { status := .queueClosed }
  | .suspended => do
    match m.saved with
    | some b =>
      -- The id of a session is short enough to name a file.
      modify fun r => { r with storage := (r.storage.saveBucket s.id b).toOption.getD r.storage }
    | none => pure ()
    updateSession s.id fun s => { s with phase := .asleep, drowsy := false, idleDeadline := none }
    setStatus s.id .suspended

def failed (id : SessionId) (fault : Fault) : RouterM Unit :=
  let status := match fault with
    | .liveLock _ => SessionStatus.liveLockAbort
    | _ => .failed
  finish id { status, error := some fault.message }

def goOn (s : Session) (m : Machine) : RouterM Bool := do
  if !m.isBlocked then
    keep s.id m.step
    return true
  match m.control with
  | .effects _ =>
    let failures ← performAll s m.effects
    keep s.id ({ m with memory := (← get).memory }.effectsDone failures)
    return true
  | .starts data _ => serveInvoke s m data
  | .waiting =>
    match input? s with
    | none => return false
    | some (input, taken) =>
      adopt s taken
      keep s.id (m.take input)
      return true
  | .exited status =>
    leave s m status
    return true
  | .aborted fault =>
    failed s.id fault
    return false
  | .crashed =>
    updateSession s.id fun s => { s with isOpen := false }
    wake (.aftermath s.id)
    return false
  | _ => return false

def resume (s : Session) : RouterE Machine := do
  let r ← get
  let lift {α : Type} (x : Except Fault α) : RouterE α :=
    match x with
    | .ok a => pure a
    | .error fault => throw (.core fault)
  match ← lift (r.storage.loadBucket s.id) with
  | none => throw (.core (.storage (.missing s.id)))
  | some b =>
    let m ← lift (Machine.resume s.chart (machineOptions r.settings s) r.memory b)
    set { r with storage := r.storage.remove s.id, memory := m.memory }
    return m

def rouse (s : Session) (e : Event) : RouterM Bool := do
  match ← (resume s).run with
  | .ok m =>
    updateSession s.id fun s => { s with phase := .active m.start, wakeEvent := some e }
    return true
  | .error error =>
    finish s.id { status := .failed, error := some error.message }
    return false

def awake (s : Session) : RouterM Bool := do
  if s.doomed then
    finish s.id { status := .destroyed }
    return false
  match nextEvent? s with
  | some (e, taken) =>
    adopt s taken
    rouse s e
  | none =>
    if s.isOpen then return false
    finish s.id { status := .queueClosed }
    return false

def current (r : Router) (s : Session) (m : Machine) : Machine :=
  { m with memory := r.memory, destroyed := s.doomed }

def breakdown : String := "run task failed"

def turn : Task → RouterM Bool
  | .timer id index => do
    fire id index
    return false
  | .aftermath id => do
    finish id { status := .failed, error := some breakdown }
    return false
  | .session id => do
    let r ← get
    match r.session? id with
    | none => return false
    | some s =>
      match s.phase with
      | .fresh | .ended => return false
      | .active m => goOn s (current r s m)
      | .asleep => awake s

def settle : Nat → RouterM Unit
  | 0 => return
  | fuel + 1 => do
    match (← get).ready with
    | [] => return
    | task :: _ =>
      if !(← turn task) then modify fun r => { r with ready := r.ready.tail }
      settle fuel

def patience : Nat := 1000000000000

def dueTimes (s : Session) : List Nat :=
  ((s.scheduler.next?.map fun (_, t) => t.tick).toList)
    ++ (if s.status = .waiting then s.idleDeadline.toList else [])

def nextTime? (r : Router) : Option Nat := (r.sessions.flatMap dueTimes).min?

def ring (now : Nat) (s : Session) : RouterM Unit := do
  s.scheduler.timers.zipIdx.forM fun (t, index) =>
    if !t.disposed && t.tick ≤ now then wake (.timer s.id index) else pure ()
  if s.status = .waiting && s.idleDeadline.any (· ≤ now) then
    updateSession s.id fun s => { s with drowsy := true, idleDeadline := none }
    wake (.session s.id)

/-- Moves the clock on to a time, with a stop wherever something is due. Between two stops the
    router takes at most `fuel` turns, and it stops at most `stops` times. -/
def advanceTo (fuel target : Nat) : Nat → RouterM Unit
  | 0 => modify fun r => { r with clock := target }
  | stops + 1 => do
    let r ← get
    match nextTime? r with
    | some time =>
      if time ≤ target then
        let now := max time r.clock
        set { r with clock := now }
        r.sessions.forM (ring now)
        settle fuel
        advanceTo fuel target stops
      else set { r with clock := target }
    | none => set { r with clock := target }

def advance (fuel millis : Nat) : RouterM Unit := do
  advanceTo fuel ((← get).clock + millis) (millis + 1)

def shutdown : RouterM Unit := do
  ((← get).sessions.filter (·.isRegistered)).forM fun s => destroy s.id

end RouterM

namespace Router

def create (settings : Settings) (storage : Storage) : Except RouterError Router :=
  match settings.validate with
  | .ok _ => .ok { settings, storage }
  | .error e => .error (.settings e)

/-- What a session has come to, for whoever waits for its data: a session whose mailbox was closed
    ended well, unless the settings say otherwise. -/
def valueOf (r : Router) (o : Outcome) : Except RouterError Value :=
  match o.status with
  | .completed => .ok o.result
  | .queueClosed =>
    if r.settings.throwOnError then .error (.terminated o.status (o.error.getD o.status.name))
    else .ok .undefined
  | status => .error (.terminated status (o.error.getD status.name))

end Router

end Statechart
