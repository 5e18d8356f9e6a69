import Statechart.Event.Basic

/- What a machine tells its surroundings while it runs: lifecycle points, traces and log lines. -/
namespace Statechart

inductive LifePoint where
  | accepted
  | started
  | waiting
  | exited
  | completed
  | destroyed
  | suspended
  | queueClosed
  | liveLockAbort
deriving DecidableEq, Repr

def LifePoint.label : LifePoint → String
  | .accepted => "Accepted"
  | .started => "Started"
  | .waiting => "Waiting"
  | .exited => "Exited"
  | .completed => "Completed"
  | .destroyed => "Destroyed"
  | .suspended => "Suspended"
  | .queueClosed => "QueueClosed"
  | .liveLockAbort => "LiveLockAbort"

inductive TraceRecord where
  | event (type : EventType) (name : EventName)
  | entering (state : String)
  | entered (state : String)
  | exiting (state : String)
  | exited (state : String)
  | performing (kind event target : String)
  | performed (kind event target : String)
  | point (p : LifePoint)

inductive Report where
  | trace (r : TraceRecord)
  | log (label : Option String) (text : String)
  | life (p : LifePoint)

structure Logger where
  tracing : Bool
  traceFault : TraceRecord → Option String := fun _ => none
  logFault : Option String → Option String := fun _ => none

def Logger.standard (tracing : Bool) : Logger := { tracing }

def TraceRecord.line : TraceRecord → String
  | .event type name => "DEBUG Processing " ++ type.name ++ " event '" ++ name.text ++ "'"
  | .entering s => "TRACE Entering state '" ++ s ++ "'"
  | .entered s => "DEBUG Entered state '" ++ s ++ "'"
  | .exiting s => "TRACE Exiting state '" ++ s ++ "'"
  | .exited s => "DEBUG Exited state '" ++ s ++ "'"
  | .performing kind ev target =>
    "TRACE Performing " ++ kind ++ " transition on '" ++ ev ++ "' to '" ++ target ++ "'"
  | .performed kind ev target =>
    "DEBUG Performed " ++ kind ++ " transition on '" ++ ev ++ "' to '" ++ target ++ "'"
  | .point p => "DEBUG Interpreter state: " ++ p.label

def logLine (label : Option String) (text : String) : String :=
  "INFO " ++ label.getD "log" ++ ": " ++ text

def errorLine (text : String) : String := "WARN " ++ text

def machineName (name : Option String) : String := name.getD "-"

def Report.line? : Report → Option String
  | .trace r => some r.line
  | .log label text => some (logLine label text)
  | .life _ => none

end Statechart
