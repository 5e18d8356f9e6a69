import Statechart.Event.Basic
import Statechart.Text.Quoted

/- Delayed sends of one session. A timer is disposed of once: by being cancelled or by firing. -/
namespace Statechart

structure Timer where
  event : OutgoingEvent
  due : Nanos
  disposed : Bool := false
  stopped : Bool := false

/-- The clock moves in milliseconds, so a timer fires at the first one that is not too early. -/
def Timer.tick (t : Timer) : Nat := (t.due + Delay.nanosPerMilli - 1) / Delay.nanosPerMilli

structure Scheduler where
  session : SessionId
  timers : List Timer := []
  /-- The positions of those that can be cancelled. Some may have been disposed of since. -/
  live : List Nat := []

namespace Scheduler

def longestAddable : Nanos := Decimal.twoTo 63 * Delay.nanosPerSecond

def deadline (now : Nat) (event : OutgoingEvent) : Nanos :=
  now * Delay.nanosPerMilli + if event.delay < longestAddable then event.delay else Delay.longest

theorem deadline_addable {now : Nat} {event : OutgoingEvent}
    (addable : event.delay < longestAddable) :
    deadline now event = now * Delay.nanosPerMilli + event.delay := by
  rw [deadline, if_pos addable]

theorem deadline_longest {now : Nat} {event : OutgoingEvent}
    (beyond : longestAddable ≤ event.delay) :
    deadline now event = now * Delay.nanosPerMilli + Delay.longest := by
  rw [deadline, if_neg (Nat.not_lt.mpr beyond)]

def isDisposed (s : Scheduler) (i : Nat) : Bool := s.timers[i]?.all (·.disposed)

def reap (s : Scheduler) : Scheduler := { s with live := s.live.filter (!s.isDisposed ·) }

def schedule (s : Scheduler) (now : Nat) (event : OutgoingEvent) : Scheduler :=
  { s with
    timers := s.timers ++ [{ event, due := deadline now event }]
    live := s.reap.live ++ [s.timers.length] }

def dispose (t : Timer) : Timer := { t with disposed := true, stopped := true }

def disposeAt (s : Scheduler) (i : Nat) : Scheduler × Option Bool :=
  match s.timers[i]? with
  | none => (s, none)
  | some t => ({ s with timers := s.timers.set i (dispose t) }, some !t.disposed)

def disposeEach (s : Scheduler) : List Nat → Scheduler × Nat
  | [] => (s, 0)
  | i :: rest =>
    let (s, first) := s.disposeAt i
    let (s, count) := s.disposeEach rest
    (s, if first = some true then count + 1 else count)

def bears (s : Scheduler) (id : SendId) (i : Nat) : Bool :=
  s.timers[i]?.any (·.event.sendId = some id)

def cancel (s : Scheduler) (id : SendId) : Scheduler × Nat :=
  let (s, count) := s.disposeEach (s.live.filter (s.bears id))
  (s.reap, count)

def disposeAll (s : Scheduler) : Scheduler := { (s.disposeEach s.live).1 with live := [] }

def pending (s : Scheduler) : Nat := (s.live.filter (!s.isDisposed ·)).length

/-- The task of a timer wakes when its time has come or when it is stopped. It fires if nothing
    has disposed of the timer before. -/
def expire (s : Scheduler) (now i : Nat) : Scheduler × Option OutgoingEvent :=
  match s.timers[i]? with
  | none => (s, none)
  | some t =>
    if t.tick ≤ now || t.stopped then
      let (s, first) := s.disposeAt i
      (s, if first = some true then some t.event else none)
    else (s, none)

def earlier (best : Option (Nat × Timer)) (next : Timer × Nat) : Option (Nat × Timer) :=
  let (t, i) := next
  if t.disposed then best
  else
    match best with
    | some (_, b) => if t.tick < b.tick then some (i, t) else best
    | none => some (i, t)

def next? (s : Scheduler) : Option (Nat × Timer) := s.timers.zipIdx.foldl earlier none

def fireUpTo (now : Nat) : Nat → Scheduler → List OutgoingEvent → Scheduler × List OutgoingEvent
  | 0, s, fired => (s, fired)
  | count + 1, s, fired =>
    match s.next? with
    | some (i, t) =>
      if t.tick ≤ now then
        let (s, event?) := s.expire now i
        fireUpTo now count s (fired ++ event?.toList)
      else (s, fired)
    | none => (s, fired)

def fire (s : Scheduler) (now : Nat) : Scheduler × List OutgoingEvent :=
  fireUpTo now s.timers.length s []

def inspect (s : Scheduler) : String :=
  "Scheduler \x7b session_id: SessionId(" ++ Text.quoted s.session ++ "), pending: "
    ++ toString s.pending ++ " \x7d"

end Scheduler

end Statechart
