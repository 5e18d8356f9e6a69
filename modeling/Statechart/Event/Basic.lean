import Statechart.Document
import Statechart.Event.Name
import Statechart.Value.Copy
import Statechart.Delay

/- Events that a session takes in and sends out. -/
namespace Statechart

inductive EventType where
  | platform
  | internal
  | external
deriving DecidableEq, Repr

def EventType.name : EventType → String
  | .platform => "platform"
  | .internal => "internal"
  | .external => "external"

def EventType.ofName? : String → Option EventType
  | "platform" => some .platform
  | "internal" => some .internal
  | "external" => some .external
  | _ => none

structure Event where
  name : EventName
  type : EventType
  sendId : Option SendId := none
  origin : Option String := none
  originType : Option String := none
  invokeId : Option InvokeId := none
  /-- Tells apart the services that used one invoke id after another. -/
  uniqueId : Option String := none
  data : Value := .undefined

namespace Event

def internal (name : EventName) : Event := { name, type := .internal }

def external (name : EventName) : Event := { name, type := .external }

/-- The event for a failure, with its message as data. Only a communication failure names the
    send. -/
def ofFailure (h : Heap) (f : Failure) : Heap × Event :=
  let (h, data) := h.build (.object [("message", .string f.message)])
  (h, { name := .error f.kind
        type := .platform
        sendId := if f.kind = .communication then f.sendId else none
        data })

def textOrUndefined : Option String → Value
  | some s => .string s
  | none => .undefined

def toObject (e : Event) (h : Heap) : Heap × Ref :=
  let (h, data) := h.deepClone e.data .constant
  let entry (key : String) (v : Value) : String × Slot := (key, ⟨v, false⟩)
  h.alloc (.object
    { access := .constant
      entries :=
        [entry "name" (.string e.name.text),
         entry "type" (.string e.type.name),
         entry "sendid" (textOrUndefined e.sendId),
         entry "origin" (textOrUndefined e.origin),
         entry "origintype" (textOrUndefined e.originType),
         entry "invokeid" (textOrUndefined e.invokeId),
         entry "data" data] })

def optionalField (key : String) : Option String → List (String × Json)
  | some s => [(key, .string s)]
  | none => []

def toFields (e : Event) (h : Heap) : Except ValueError (List (String × Json)) := do
  let data ← h.toJson e.data
  return [("name", .string e.name.text), ("type", .string e.type.name)]
    ++ optionalField "send_id" e.sendId
    ++ optionalField "origin" e.origin
    ++ optionalField "origin_type" e.originType
    ++ optionalField "invoke_id" e.invokeId
    ++ optionalField "invoke_unique_id" e.uniqueId
    ++ [("data", data)]

def readName (p : Place) : ReadM EventName := do
  ReadM.lift (EventName.parse (← p.text)).toOption

def read (h : Heap) (p : Place) : ReadM (Heap × Event) := do
  let fields ← p.record ["name", "type", "send_id", "origin", "origin_type", "invoke_id",
    "invoke_unique_id", "data"]
  let name ← fields.required readName "name"
  let type ← fields.required (Place.bareChoice EventType.ofName?) "type"
  let sendId ← fields.optional Place.text "send_id"
  let origin ← fields.optional Place.text "origin"
  let originType ← fields.optional Place.text "origin_type"
  let invokeId ← fields.optional Place.text "invoke_id"
  let uniqueId ← fields.optional Place.text "invoke_unique_id"
  let data ← fields.defaulted (fun p => do return some (← p.json)) none "data"
  let (h, data) := match data with
    | some j => h.ofJson j
    | none => (h, .undefined)
  return (h, { name, type, sendId, origin, originType, invokeId, uniqueId, data })

end Event

structure OutgoingEvent where
  name : EventName
  sendId : Option SendId := none
  target : Option String := none
  type : Option String := none
  delay : Nanos := 0
  data : Value := .undefined

end Statechart
