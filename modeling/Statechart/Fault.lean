import Statechart.Value.Basic
import Statechart.Expr.ParseError
import Statechart.Chart.Defect
import Statechart.Snapshot.Defect

/- The two channels of error: faults end a run, failures become events of the machine. -/
namespace Statechart

abbrev SessionId := String

abbrev SendId := String

abbrev InvokeId := String

inductive Fault where
  | infrastructure (reason : String)
  | liveLock (limit : Nat)
  | queueClosed
  | destroyed
  | processor (reason : String)
  | platform (session : SessionId) (source : String)
  | definition (defect : Defect)
  | expression (error : ParseError)
  | identifier (text : String)
  | storage (defect : SnapshotDefect)
  | value (error : ValueError)
  | json
  | io (reason : String)
deriving DecidableEq, Repr

namespace Fault

def message : Fault → String
  | .infrastructure reason => "infrastructure error: " ++ reason
  | .liveLock limit =>
    "live-lock detected: more than " ++ toString limit ++ " microsteps without reaching stability"
  | .queueClosed => "event queue closed"
  | .destroyed => "session destroyed"
  | .processor reason => "processor error: " ++ reason
  | .platform session source => "platform error in session " ++ session ++ ": " ++ source
  | .definition defect => "invalid chart definition: " ++ defect.reason
  | .expression error => "invalid expression: " ++ error.reason
  | .identifier text => "invalid identifier: '" ++ text ++ "'"
  | .storage defect => "storage error: " ++ defect.reason
  | .value error => "value error: " ++ error.message
  | .json => "JSON error"
  | .io reason => "I/O error: " ++ reason

def code : Fault → String
  | .infrastructure _ => "INFRASTRUCTURE"
  | .liveLock _ => "LIVE_LOCK"
  | .queueClosed => "QUEUE_CLOSED"
  | .destroyed => "DESTROYED"
  | .processor _ => "PROCESSOR"
  | .platform .. => "PLATFORM"
  | .definition _ => "BAD_DEFINITION"
  | .expression _ => "BAD_EXPRESSION"
  | .identifier _ => "BAD_IDENTIFIER"
  | .storage _ => "STORAGE"
  | .value error => error.code
  | .json => "BAD_JSON"
  | .io _ => "IO_ERROR"

def isProtocolError : Fault → Bool
  | .processor _ | .definition _ | .expression _ | .identifier _ => true
  | _ => false

def isRetryable : Fault → Bool
  | .storage _ | .io _ => true
  | _ => false

end Fault

inductive FailureKind where
  | execution
  | communication
  | platform
deriving DecidableEq, Repr

def FailureKind.name : FailureKind → String
  | .execution => "execution"
  | .communication => "communication"
  | .platform => "platform"

structure Failure where
  kind : FailureKind
  message : String
  sendId : Option SendId := none
deriving DecidableEq, Repr

namespace Failure

def execution (message : String) : Failure := { kind := .execution, message }

def communication (message : String) : Failure := { kind := .communication, message }

def platform (message : String) : Failure := { kind := .platform, message }

def withSendId (f : Failure) (id : Option SendId) : Failure := { f with sendId := id }

def display (f : Failure) : String := f.kind.name ++ " error: " ++ f.message

def ofValueError (e : ValueError) : Failure := execution e.message

/-- A collaborator's fault is a platform failure, every other one an execution failure. -/
def ofFault : Fault → Failure
  | .platform session source => platform (Fault.platform session source).message
  | fault => execution fault.message

end Failure

end Statechart
