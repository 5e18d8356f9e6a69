import Statechart.Chart.Source
import Statechart.Json.Printer
import Statechart.Checksum

/- The canonical text of a chart, which its checksum is taken of: fields in a fixed order, absent
   ones and empty lists left out. -/
namespace Statechart.Source

abbrev JsonFields := List (String × Json)

def textField (key : String) : Option String → JsonFields
  | some s => [(key, .string s)]
  | none => []

def jsonField (key : String) : Option Json → JsonFields
  | some j => [(key, j)]
  | none => []

def listField (key : String) (items : List Json) : JsonFields :=
  if items.isEmpty then [] else [(key, .array items)]

def tokensField (key : String) : Option (List String) → JsonFields
  | some tokens => [(key, .array (tokens.map Json.string))]
  | none => []

def ValueDef.fields (v : ValueDef) : JsonFields :=
  textField "expr" v.expr ++ jsonField "value" v.value

def ValueDef.toJson (v : ValueDef) : Json := .object v.fields

def DataDef.toJson (d : DataDef) : Json := .object (("id", .string d.id) :: d.init.fields)

def ParamDef.toJson (p : ParamDef) : Json := .object (("name", .string p.name) :: p.init.fields)

def SendDef.toJson (s : SendDef) : Json :=
  .object (textField "event" s.event ++ textField "eventexpr" s.eventExpr
    ++ textField "target" s.target ++ textField "targetexpr" s.targetExpr
    ++ textField "type" s.type ++ textField "id" s.id ++ textField "idlocation" s.idLocation
    ++ jsonField "delay" s.delay ++ textField "delayexpr" s.delayExpr
    ++ listField "params" (s.params.map ParamDef.toJson)
    ++ jsonField "content" (s.content.map ValueDef.toJson))

mutual

def ActionDef.toJson : ActionDef → Json
  | .raise event => .object [("raise", .object [("event", .string event)])]
  | .send s => .object [("send", s.toJson)]
  | .cancel id expr =>
    .object [("cancel", .object (textField "sendid" id ++ textField "sendidexpr" expr))]
  | .log label expr => .object [("log", .object (textField "label" label ++ textField "expr" expr))]
  | .assign location init =>
    .object [("assign", .object (("location", .string location) :: init.fields))]
  | .branch cond actions elseIfs otherwise =>
    let last : JsonFields := match otherwise with
      | some actions => [("else", .array (actionsToJson actions))]
      | none => []
    .object [("if", .object ([("cond", .string cond), ("actions", .array (actionsToJson actions))]
      ++ listField "elseif" (elseIfsToJson elseIfs) ++ last))]
  | .forEach array item index actions =>
    .object [("foreach", .object ([("array", .string array), ("item", .string item)]
      ++ textField "index" index ++ [("actions", .array (actionsToJson actions))]))]
  | .custom name args => .object [("custom", .object [("name", .string name), ("args", args)])]

def actionsToJson : List ActionDef → List Json
  | [] => []
  | a :: rest => a.toJson :: actionsToJson rest

def elseIfsToJson : List (String × List ActionDef) → List Json
  | [] => []
  | (cond, actions) :: rest =>
    .object [("cond", .string cond), ("actions", .array (actionsToJson actions))]
      :: elseIfsToJson rest

end

def StateType.name : StateType → String
  | .state => "state"
  | .parallel => "parallel"
  | .final => "final"
  | .history => "history"

def HistoryType.name : HistoryType → String
  | .shallow => "shallow"
  | .deep => "deep"

def TransitionType.name : TransitionType → String
  | .external => "external"
  | .internal => "internal"

def TransitionDef.toJson (t : TransitionDef) : Json :=
  .object (tokensField "event" t.event ++ textField "cond" t.cond ++ tokensField "target" t.target
    ++ [("type", .string t.type.name)] ++ listField "actions" (actionsToJson t.actions))

def InvokeDef.toJson (i : InvokeDef) : Json :=
  .object (textField "type" i.type ++ textField "src" i.src ++ textField "srcexpr" i.srcExpr
    ++ textField "id" i.id ++ textField "idlocation" i.idLocation
    ++ listField "params" (i.params.map ParamDef.toJson)
    ++ jsonField "content" (i.content.map ValueDef.toJson)
    ++ [("autoforward", .bool i.autoforward)]
    ++ listField "finalize" (actionsToJson i.finalize))

def StateInfo.toJson (s : StateInfo) (children : List Json) : Json :=
  .object (textField "id" s.id ++ [("type", .string s.type.name)]
    ++ textField "history" (s.history.map HistoryType.name)
    ++ tokensField "initial" s.initial
    ++ listField "states" children
    ++ listField "transitions" (s.transitions.map TransitionDef.toJson)
    ++ listField "onentry" (actionsToJson s.onEntry)
    ++ listField "onexit" (actionsToJson s.onExit)
    ++ listField "invoke" (s.invokes.map InvokeDef.toJson)
    ++ listField "datamodel" (s.data.map DataDef.toJson)
    ++ jsonField "donedata" (s.doneData.map ValueDef.toJson))

mutual

def StateDef.toJson : StateDef → Json
  | .mk info children => info.toJson (statesToJson children)

def statesToJson : List StateDef → List Json
  | [] => []
  | s :: rest => s.toJson :: statesToJson rest

end

def ChartDef.toJson (c : ChartDef) : Json :=
  .object (textField "name" c.name ++ tokensField "initial" c.initial
    ++ listField "datamodel" (c.data.map DataDef.toJson)
    ++ [("states", .array (statesToJson c.states))]
    ++ jsonField "meta" c.extra)

def ChartDef.text (c : ChartDef) : String := c.toJson.compress

def ChartDef.checksum (c : ChartDef) : String := Checksum.ofText c.text

end Statechart.Source
