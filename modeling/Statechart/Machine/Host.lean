import Statechart.Machine.Run

/- A machine together with its surroundings, which carry out its effects and start its services
   at once. -/
namespace Statechart

structure Host (σ : Type) where
  perform : Heap → Effect → σ → Option Failure × σ
  invoke : Heap → InvokeData → σ → Option Failure × σ
  destroyed : σ → Bool
  suspended : σ → Bool

def Host.isolated : Host Unit where
  perform _ effect s :=
    match effect with
    | .send e =>
      let failure := Failure.communication ("no route for event '" ++ e.name.text ++ "'")
      (some (failure.withSendId e.sendId), s)
    | .forward id _ =>
      (some (.communication ("cannot forward to '" ++ id ++ "' without a router")), s)
    | .cancel _ | .cancelInvoke _ => (none, s)
  invoke _ data s :=
    (some (.communication ("cannot start invoke '" ++ data.invokeId ++ "' without a router")), s)
  destroyed _ := false
  suspended _ := false

namespace Host

variable {σ : Type}

def performAll (host : Host σ) (h : Heap) : List Effect → σ → List Failure × σ
  | [], s => ([], s)
  | e :: rest, s =>
    let (failure, s) := host.perform h e s
    let (failures, s) := host.performAll h rest s
    (failure.toList ++ failures, s)

def answer (host : Host σ) (m : Machine) (s : σ) : Machine × σ :=
  let m := { m with destroyed := host.destroyed s }
  if !m.isBlocked then (m.step, s)
  else
    match m.control with
    | .effects _ =>
      let (failures, s) := host.performAll m.heap m.effects s
      (m.effectsDone failures, s)
    | .starts data _ =>
      let (failure, s) := host.invoke m.heap data s
      (m.startDone failure, s)
    | _ => (m, s)

def serveWithin (host : Host σ) : Nat → Machine → σ → Machine × σ
  | 0, m, s => (m, s)
  | fuel + 1, m, s =>
    match m.control with
    | .waiting | .idle | .exited _ | .aborted _ | .crashed => (m, s)
    | _ =>
      let (m, s) := host.answer m s
      host.serveWithin fuel m s

def serve (host : Host σ) (m : Machine) (s : σ) : Machine × σ :=
  host.serveWithin (2 * m.stepBound) m s

/-- Feeds inputs to a machine, one whenever it waits, until it has ended. What has not been
    taken is left. -/
def run (host : Host σ) (inputs : List Input) (m : Machine) (s : σ) : Machine × σ × List Input :=
  let (m, s) := host.serve m s
  match m.control with
  | .waiting =>
    if host.destroyed s then
      let (m, s) := host.serve (m.take .destroy) s
      (m, s, inputs)
    else if host.suspended s then (m.take .suspend, s, inputs)
    else
      match inputs with
      | [] => (m, s, [])
      | input :: rest =>
        let (m, s, left) := host.run rest (m.take input) s
        (m, s, left)
  | _ => (m, s, inputs)
termination_by inputs.length

end Host

def Options.inspect (o : Options) (destroyed suspended : Bool) : String :=
  "InterpreterOptions \x7b session_id: SessionId(" ++ Text.quoted o.sessionId
    ++ "), max_microsteps: " ++ toString o.maxMicrosteps
    ++ ", destroyed: " ++ toString destroyed
    ++ ", suspended: " ++ toString suspended
    ++ ", storage: " ++ toString o.storing ++ " \x7d"

end Statechart
