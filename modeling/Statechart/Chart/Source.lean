import Statechart.Json.Basic

/- Charts as they are written down, before names and expressions are resolved. -/
namespace Statechart.Source

inductive StateType where
  | state
  | parallel
  | final
  | history
deriving DecidableEq, Repr

inductive HistoryType where
  | shallow
  | deep
deriving DecidableEq, Repr

inductive TransitionType where
  | external
  | internal
deriving DecidableEq, Repr

structure ValueDef where
  expr : Option String
  value : Option Json

structure DataDef where
  id : String
  init : ValueDef

structure ParamDef where
  name : String
  init : ValueDef

structure SendDef where
  event : Option String
  eventExpr : Option String
  target : Option String
  targetExpr : Option String
  type : Option String
  id : Option String
  idLocation : Option String
  delay : Option Json
  delayExpr : Option String
  params : List ParamDef
  content : Option ValueDef

inductive ActionDef where
  | raise (event : String)
  | send (send : SendDef)
  | cancel (sendId sendIdExpr : Option String)
  | log (label expr : Option String)
  | assign (location : String) (init : ValueDef)
  | branch (cond : String) (actions : List ActionDef) (elseIfs : List (String × List ActionDef))
      (otherwise : Option (List ActionDef))
  | forEach (array item : String) (index : Option String) (actions : List ActionDef)
  | custom (name : String) (args : Json)

structure TransitionDef where
  event : Option (List String)
  cond : Option String
  target : Option (List String)
  type : TransitionType
  actions : List ActionDef

structure InvokeDef where
  type : Option String
  src : Option String
  srcExpr : Option String
  id : Option String
  idLocation : Option String
  params : List ParamDef
  content : Option ValueDef
  autoforward : Bool
  finalize : List ActionDef

structure StateInfo where
  id : Option String
  type : StateType
  history : Option HistoryType
  initial : Option (List String)
  transitions : List TransitionDef
  onEntry : List ActionDef
  onExit : List ActionDef
  invokes : List InvokeDef
  data : List DataDef
  doneData : Option ValueDef

inductive StateDef where
  | mk (info : StateInfo) (children : List StateDef)

structure ChartDef where
  name : Option String
  initial : Option (List String)
  data : List DataDef
  states : List StateDef
  extra : Option Json

end Statechart.Source
