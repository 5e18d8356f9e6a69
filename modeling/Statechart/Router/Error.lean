import Statechart.Settings
import Statechart.Fault

/- How sessions fare, and why the router refuses. -/
namespace Statechart

inductive SessionStatus where
  | created
  | starting
  | running
  | waiting
  /-- A snapshot has been stored; the next event wakes the session. -/
  | suspended
  | completed
  | destroyed
  | queueClosed
  | liveLockAbort
  | failed
deriving DecidableEq, Repr

namespace SessionStatus

def name : SessionStatus → String
  | .created => "created"
  | .starting => "starting"
  | .running => "running"
  | .waiting => "waiting"
  | .suspended => "suspended"
  | .completed => "completed"
  | .destroyed => "destroyed"
  | .queueClosed => "queue_closed"
  | .liveLockAbort => "live_lock_abort"
  | .failed => "failed"

def all : List SessionStatus :=
  [.created, .starting, .running, .waiting, .suspended, .completed, .destroyed, .queueClosed,
   .liveLockAbort, .failed]

def ofName? (s : String) : Option SessionStatus := all.find? (·.name == s)

def isTerminal : SessionStatus → Bool
  | .completed | .destroyed | .queueClosed | .liveLockAbort | .failed => true
  | _ => false

def isAccepted : SessionStatus → Bool
  | .running | .waiting | .suspended => true
  | _ => false

end SessionStatus

inductive Violation where
  | typed (event type : String)
  | identified (event : String) (sendId : SendId)
  | delayed (event : String)
  | elsewhere (event target : String)
  | other (reason : String)
deriving DecidableEq, Repr

def Violation.reason : Violation → String
  | .typed event type =>
    "event '" ++ event ++ "' to parent must not set type (got '" ++ type ++ "')"
  | .identified event id =>
    "event '" ++ event ++ "' to parent must not set a send id (got '" ++ id ++ "')"
  | .delayed event => "event '" ++ event ++ "' to parent must not be delayed"
  | .elsewhere event target => "event '" ++ event ++ "' to parent has target '" ++ target ++ "'"
  | .other reason => reason

inductive RouterError where
  | core (fault : Fault)
  | settings (error : SettingsError)
  | sessionNotFound (session : SessionId)
  | chartNotFound (name : String)
  | noProcessor (type target : String)
  | unknownTarget (target : String)
  | protocol (violation : Violation)
  | mailboxClosed (session : SessionId)
  | alreadyStarted (session : SessionId)
  | terminated (status : SessionStatus) (reason : String)
  | gone
deriving DecidableEq, Repr

namespace RouterError

def message : RouterError → String
  | .core fault => "core error: " ++ fault.message
  | .settings error => "configuration error: " ++ error.message
  | .sessionNotFound session => "session not found: " ++ session
  | .chartNotFound name => "chart not registered: " ++ name
  | .noProcessor type target =>
    "no processor for type '" ++ type ++ "' and target '" ++ target ++ "'"
  | .unknownTarget target => "unknown target: " ++ target
  | .protocol violation => "protocol violation: " ++ violation.reason
  | .mailboxClosed session => "mailbox of session " ++ session ++ " is closed"
  | .alreadyStarted session => "session " ++ session ++ " already started"
  | .terminated status reason => "session ended with status " ++ status.name ++ ": " ++ reason
  | .gone => "router has shut down"

def code : RouterError → String
  | .core fault => fault.code
  | .settings _ => "CONFIG"
  | .sessionNotFound _ => "SESSION_NOT_FOUND"
  | .chartNotFound _ => "CHART_NOT_FOUND"
  | .noProcessor .. => "NO_PROCESSOR"
  | .unknownTarget _ => "UNKNOWN_TARGET"
  | .protocol _ => "PROTOCOL"
  | .mailboxClosed _ => "MAILBOX_CLOSED"
  | .alreadyStarted _ => "ALREADY_STARTED"
  | .terminated .. => "TERMINATED"
  | .gone => "ROUTER_GONE"

def isRetryable : RouterError → Bool
  | .core fault => fault.isRetryable
  | _ => false

/-- What a session is told: a collaborator's fault is a platform failure, everything else a
    communication failure. -/
def toFailure (e : RouterError) : Failure :=
  match e with
  | .core (.platform ..) => .platform e.message
  | _ => .communication e.message

end RouterError

end Statechart
