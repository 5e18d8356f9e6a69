import Statechart.Chart.Source
import Statechart.Document
import Statechart.Text.Blank

/- Reading charts from documents. Unknown fields are passed over; a repeated known field, a field
   of the wrong kind, or a missing required one makes the document unreadable. Where documents have
   rows, a record may be a list of what stands in its first fields. -/
namespace Statechart.Source

def readTokens (p : Place) : ReadM (List String) := do
  match (← p.follow).document with
  | .list none items => (Place.mk (.list none items) p.depth).list Place.text
  | d =>
    match ← Place.jsonAt 0 d with
    | .string s => return Text.words s
    | _ => failure

def StateType.ofName? : String → Option StateType
  | "state" => some .state
  | "parallel" => some .parallel
  | "final" => some .final
  | "history" => some .history
  | _ => none

def HistoryType.ofName? : String → Option HistoryType
  | "shallow" => some .shallow
  | "deep" => some .deep
  | _ => none

def TransitionType.ofName? : String → Option TransitionType
  | "external" => some .external
  | "internal" => some .internal
  | _ => none

def readInit (fields : Fields) : ReadM ValueDef := do
  let expr ← fields.optional Place.text "expr"
  let value ← fields.optional Place.json "value"
  return { expr, value }

def readValueDef (p : Place) : ReadM ValueDef := do readInit (← p.record ["expr", "value"])

def readData (p : Place) : ReadM DataDef := do
  let fields ← p.record ["id", "expr", "value"]
  let id ← fields.required Place.text "id"
  let init ← readInit fields
  return { id, init }

def readParam (p : Place) : ReadM ParamDef := do
  let fields ← p.record ["name", "expr", "value"]
  let name ← fields.required Place.text "name"
  let init ← readInit fields
  return { name, init }

def readSend (fields : Fields) : ReadM SendDef := do
  let event ← fields.optional Place.text "event"
  let eventExpr ← fields.optional Place.text "eventexpr"
  let target ← fields.optional Place.text "target"
  let targetExpr ← fields.optional Place.text "targetexpr"
  let type ← fields.optional Place.text "type"
  let id ← fields.optional Place.text "id"
  let idLocation ← fields.optional Place.text "idlocation"
  let delay ← fields.optional Place.json "delay"
  let delayExpr ← fields.optional Place.text "delayexpr"
  let params ← fields.defaulted (Place.list readParam) [] "params"
  let content ← fields.optional readValueDef "content"
  return { event, eventExpr, target, targetExpr, type, id, idLocation, delay, delayExpr, params,
           content }

def readElseIf (action : Place → ReadM ActionDef) (p : Place) :
    ReadM (String × List ActionDef) := do
  let fields ← p.record ["cond", "actions"]
  let cond ← fields.required Place.text "cond"
  let body ← fields.defaulted (Place.list action) [] "actions"
  return (cond, body)

def readContent (action : Place → ReadM ActionDef) : String → Place → ReadM ActionDef
  | "raise", p => do
    let fields ← p.content ["event"]
    return .raise (← fields.required Place.text "event")
  | "send", p => do
    let fields ← p.record ["event", "eventexpr", "target", "targetexpr", "type", "id", "idlocation",
      "delay", "delayexpr", "params", "content"]
    return .send (← readSend fields)
  | "cancel", p => do
    let fields ← p.content ["sendid", "sendidexpr"]
    let sendId ← fields.optional Place.text "sendid"
    let sendIdExpr ← fields.optional Place.text "sendidexpr"
    return .cancel sendId sendIdExpr
  | "log", p => do
    let fields ← p.content ["label", "expr"]
    let label ← fields.optional Place.text "label"
    let expr ← fields.optional Place.text "expr"
    return .log label expr
  | "assign", p => do
    let fields ← p.content ["location", "expr", "value"]
    let location ← fields.required Place.text "location"
    let init ← readInit fields
    return .assign location init
  | "if", p => do
    let fields ← p.record ["cond", "actions", "elseif", "else"]
    let cond ← fields.required Place.text "cond"
    let body ← fields.defaulted (Place.list action) [] "actions"
    let elseIfs ← fields.defaulted (Place.list (readElseIf action)) [] "elseif"
    let otherwise ← fields.optional (Place.list action) "else"
    return .branch cond body elseIfs otherwise
  | "foreach", p => do
    let fields ← p.record ["array", "item", "index", "actions"]
    let array ← fields.required Place.text "array"
    let item ← fields.required Place.text "item"
    let index ← fields.optional Place.text "index"
    let body ← fields.defaulted (Place.list action) [] "actions"
    return .forEach array item index body
  | "custom", p => do
    let fields ← p.content ["name", "args"]
    let name ← fields.required Place.text "name"
    let args ← fields.defaulted Place.json .null "args"
    return .custom name args
  | _, _ => failure

def readAction : Nat → Place → ReadM ActionDef
  | 0, _ => failure
  | depth + 1, p => do
    let (kind, content) ← p.choice
    readContent (readAction depth) kind content

/-- A list of actions. Each stands in a container of its own, so there are no more around one
    another than containers may be open. -/
def readActions (p : Place) : ReadM (List ActionDef) := p.list (readAction (p.depth + 1))

def readTransition (p : Place) : ReadM TransitionDef := do
  let fields ← p.record ["event", "cond", "target", "type", "actions"]
  let event ← fields.optional readTokens "event"
  let cond ← fields.optional Place.text "cond"
  let target ← fields.optional readTokens "target"
  let type ← fields.defaulted (Place.bareChoice TransitionType.ofName?) .external "type"
  let actions ← fields.defaulted readActions [] "actions"
  return { event, cond, target, type, actions }

def readInvoke (p : Place) : ReadM InvokeDef := do
  let fields ← p.record ["type", "src", "srcexpr", "id", "idlocation", "params", "content",
    "autoforward", "finalize"]
  let type ← fields.optional Place.text "type"
  let src ← fields.optional Place.text "src"
  let srcExpr ← fields.optional Place.text "srcexpr"
  let id ← fields.optional Place.text "id"
  let idLocation ← fields.optional Place.text "idlocation"
  let params ← fields.defaulted (Place.list readParam) [] "params"
  let content ← fields.optional readValueDef "content"
  let autoforward ← fields.defaulted Place.flag false "autoforward"
  let finalize ← fields.defaulted readActions [] "finalize"
  return { type, src, srcExpr, id, idLocation, params, content, autoforward, finalize }

def readStateInfo (fields : Fields) : ReadM StateInfo := do
  let id ← fields.optional Place.text "id"
  let type ← fields.defaulted (Place.bareChoice StateType.ofName?) .state "type"
  let history ← fields.optional (Place.bareChoice HistoryType.ofName?) "history"
  let initial ← fields.optional readTokens "initial"
  let transitions ← fields.defaulted (Place.list readTransition) [] "transitions"
  let onEntry ← fields.defaulted readActions [] "onentry"
  let onExit ← fields.defaulted readActions [] "onexit"
  let invokes ← fields.defaulted (Place.list readInvoke) [] "invoke"
  let data ← fields.defaulted (Place.list readData) [] "datamodel"
  let doneData ← fields.optional readValueDef "donedata"
  return { id, type, history, initial, transitions, onEntry, onExit, invokes, data, doneData }

def readState : Nat → Place → ReadM StateDef
  | 0, _ => failure
  | depth + 1, p => do
    let fields ← p.record ["id", "type", "history", "initial", "states", "transitions", "onentry",
      "onexit", "invoke", "datamodel", "donedata"]
    let info ← readStateInfo fields
    let children ← fields.defaulted (Place.list (readState depth)) [] "states"
    return .mk info children

def readChart (p : Place) : ReadM ChartDef := do
  let fields ← p.record ["name", "initial", "datamodel", "states", "meta"]
  let name ← fields.optional Place.text "name"
  let initial ← fields.optional readTokens "initial"
  let data ← fields.defaulted (Place.list readData) [] "datamodel"
  let states ← fields.required (Place.list (readState (p.depth + 1))) "states"
  let extra ← fields.optional Place.json "meta"
  return { name, initial, data, states, extra }

end Statechart.Source
