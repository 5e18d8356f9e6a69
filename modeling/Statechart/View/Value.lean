import Statechart.Event.Basic
import Statechart.Expr.Basic
import Statechart.Json.Printer

/- Values, events and errors as JSON, for tools that look inside. Nothing is hidden: access
   levels, read-only entries and what JSON has no form for are shown. -/
namespace Statechart

namespace Json

def text (s : String) : Json := .string s

def optionalText : Option String → Json
  | some s => .string s
  | none => .null

def optionalNat : Option Nat → Json
  | some n => Json.ofNat n
  | none => .null

def texts (items : List String) : Json := .array (items.map text)

def typed (type : String) (fields : List (String × Json)) : Json :=
  mkObject (("t", text type) :: fields)

def error (code : String) (message : Option String) : Json :=
  mkObject (("error", text code) :: (message.map fun m => ("message", text m)).toList)

end Json

namespace Heap

/-- A container inside itself, by how many levels up it was met. -/
def viewCycle (levels : Nat) : Json := .typed "cycle" [("up", Json.ofNat levels)]

def viewNumber (f : Float) : Json :=
  match Decimal.smallInt? f with
  | some n => Json.ofInt n
  | none => .typed "number" [("s", .string (Decimal.displayText f))]

def viewIn (h : Heap) : Nat → List Ref → Value → Json
  | _, _, .undefined => .typed "undefined" []
  | _, _, .null => .null
  | _, _, .bool b => .bool b
  | _, _, .number f => viewNumber f
  | _, _, .string s => .string s
  | _, _, .dateTime t => .typed "datetime" [("s", .string t.text)]
  | 0, path, .object _ => viewCycle path.length
  | 0, path, .array _ => viewCycle path.length
  | depth + 1, path, .object r =>
    match path.idxOf? r with
    | some i => viewCycle (i + 1)
    | none =>
      let entries := (h.entries r).map fun (key, slot) =>
        let parts := [Json.string key, h.viewIn depth (r :: path) slot.value]
        Json.array (if slot.readOnly then parts ++ [.string "ro"] else parts)
      .typed "object" [("a", .string (h.access r).name), ("p", .array entries)]
  | depth + 1, path, .array r =>
    match path.idxOf? r with
    | some i => viewCycle (i + 1)
    | none =>
      let items := (h.items r).map fun slot => h.viewIn depth (r :: path) slot.value
      .typed "array" [("a", .string (h.access r).name), ("i", .array items)]

def view (h : Heap) (v : Value) : Json := h.viewIn (h.size + 1) [] v

end Heap

def ValueError.view (e : ValueError) : Json := .error e.code (some e.message)

def Heap.describe (h : Heap) (v : Value) : Json :=
  let json := h.toJson v
  .mkObject
    [("type", .string v.typeName), ("display", .string (h.display v)),
     ("debug", .string (h.inspect v)), ("truthy", .bool v.isTruthy),
     ("undefined", .bool v.isUndefined), ("null", .bool (!v.isPresent && !v.isUndefined)),
     ("json", match json with | .ok j => .string j.compress | .error e => e.view),
     ("serialize_ok", .bool json.toOption.isSome), ("dump", h.view v)]

def Value.viewKinds (v : Value) : Json :=
  let is (type : String) : Json := .bool (v.typeName == type)
  .mkObject
    [("bool", match v with | .bool b => .bool b | _ => .null),
     ("str", match v with | .string s => .string s | _ => .null),
     ("number", is "number"), ("datetime", is "datetime"), ("object", is "object"),
     ("array", is "array")]

def Event.view (e : Event) (h : Heap) : Json :=
  .mkObject
    [("name", .string e.name.text), ("type", .string e.type.name),
     ("sendid", .optionalText e.sendId), ("origin", .optionalText e.origin),
     ("origintype", .optionalText e.originType), ("invokeid", .optionalText e.invokeId),
     ("uniqueid", .optionalText e.uniqueId), ("data", h.view e.data)]

def OutgoingEvent.view (e : OutgoingEvent) (h : Heap) : Json :=
  .mkObject
    [("name", .string e.name.text), ("sendid", .optionalText e.sendId),
     ("target", .optionalText e.target), ("type", .optionalText e.type),
     ("delay", .string (toString e.delay)), ("data", h.view e.data)]

def Fault.view : Fault → Json
  | .json => .error Fault.json.code none
  | .io reason => .error (Fault.io reason).code none
  | f => .error f.code (some f.message)

def Failure.view (f : Failure) : Json :=
  .mkObject [("error", .string f.kind.name), ("message", .string f.message),
    ("sendid", .optionalText f.sendId)]

def CompareOp.name : CompareOp → String
  | .eq => "eq"
  | .ne => "ne"
  | .gt => "gt"
  | .ge => "ge"
  | .lt => "lt"
  | .le => "le"

def ArithOp.name : ArithOp → String
  | .add => "add"
  | .sub => "sub"

def Expr.view : Expr → Json
  | .literal t =>
    let (h, v) := Heap.initial.build t
    .array [.string "lit", h.view v]
  | .path segments => .array [.string "path", .texts segments]
  | .inState id => .array [.string "in", .string id]
  | .not e => .array [.string "not", e.view]
  | .and a b => .array [.string "and", a.view, b.view]
  | .or a b => .array [.string "or", a.view, b.view]
  | .compare op a b => .array [.string op.name, a.view, b.view]
  | .arith op a b => .array [.string op.name, a.view, b.view]

end Statechart
