import Statechart.Router.Error
import Statechart.Event.Basic

/- How sessions address each other, and the link from an invoked session to its parent. -/
namespace Statechart

namespace Address

def sessionType : String := "http://www.w3.org/TR/scxml/#SCXMLEventProcessor"

def sessionTypeAlias : String := "scxml"

def parentTarget : String := "#_parent"

def serviceMark : String := "#_"

def sessionMark : String := "#_scxml_"

def ofSession (id : SessionId) : String := sessionMark ++ id

def ofService (id : InvokeId) : String := serviceMark ++ id

def isSessionType : Option String → Bool
  | none => true
  | some type => type == sessionType || type == sessionTypeAlias

def isForSession (type target : Option String) : Bool :=
  isSessionType type &&
    match target with
    | none => true
    | some t => t == "" || (Text.dropHead? serviceMark t).isSome

end Address

structure ParentLink where
  session : SessionId
  invokeId : InvokeId
  uniqueId : String
deriving DecidableEq, Repr

namespace ParentLink

def origin (l : ParentLink) : String := Address.ofService l.invokeId

def deliver (l : ParentLink) (name : EventName) (data : Value) (originType : String) : Event :=
  { name, type := .external, data, origin := some l.origin, originType := some originType
    invokeId := some l.invokeId, uniqueId := some l.uniqueId }

end ParentLink

/-- Events to the parent are immediate and untyped and cannot be cancelled. -/
def OutgoingEvent.checkToParent (e : OutgoingEvent) : Except RouterError Unit :=
  let name := e.name.text
  match e.type, e.sendId with
  | some type, _ => .error (.protocol (.typed name type))
  | none, some id => .error (.protocol (.identified name id))
  | none, none =>
    if e.delay ≠ 0 then .error (.protocol (.delayed name))
    else
      match e.target with
      | none => .ok ()
      | some target =>
        if target == "" || target == Address.parentTarget then .ok ()
        else .error (.protocol (.elsewhere name target))

end Statechart
