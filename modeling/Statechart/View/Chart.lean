import Statechart.View.Value
import Statechart.Chart.Store

/- Compiled charts as JSON, for tools that look inside. -/
namespace Statechart

def Expr.viewText : Option Expr → Json
  | some e => .string e.text
  | none => .null

def viewLocation : Option (List String) → Json
  | some segments => .texts segments
  | none => .null

def viewParams (params : List Param) : Json :=
  .array (params.map fun p => .array [.string p.name, .string p.expr.text])

def SendAction.view (s : SendAction) : Json :=
  .mkObject
    [("event", .optionalText (s.event.map EventName.text)),
     ("eventexpr", Expr.viewText s.eventExpr),
     ("target", .optionalText s.target), ("targetexpr", Expr.viewText s.targetExpr),
     ("type", .optionalText s.type), ("id", .optionalText s.id),
     ("idlocation", viewLocation s.idLocation), ("delay", .optionalText (s.delay.map toString)),
     ("delayexpr", Expr.viewText s.delayExpr), ("params", viewParams s.params),
     ("content", Expr.viewText s.content)]

mutual

def Action.view : Action → Json
  | .raise event => .array [.string "raise", .string event.text]
  | .send s => .array [.string "send", s.view]
  | .cancel id expr => .array [.string "cancel", .optionalText id, Expr.viewText expr]
  | .log label expr => .array [.string "log", .optionalText label, Expr.viewText expr]
  | .assign location expr => .array [.string "assign", .texts location, .string expr.text]
  | .branch arms => .array [.string "if", .array (viewArms arms)]
  | .forEach array item index actions =>
    .array [.string "foreach", .string array.text, .texts item, viewLocation index,
      .array (viewActions actions)]
  | .custom name _ => .array [.string "custom", .string name]

def viewActions : List Action → List Json
  | [] => []
  | a :: rest => a.view :: viewActions rest

def viewArms : List (Option Expr × List Action) → List Json
  | [] => []
  | (cond, actions) :: rest =>
    .array [Expr.viewText cond, .array (viewActions actions)] :: viewArms rest

end

def InvokeNode.view (i : InvokeNode) : Json :=
  .mkObject
    [("doc", .string ("#" ++ toString i.document)), ("type", .optionalText i.type),
     ("src", .optionalText i.src), ("srcexpr", Expr.viewText i.srcExpr),
     ("id", .optionalText i.id), ("idlocation", viewLocation i.idLocation),
     ("params", viewParams i.params), ("content", Expr.viewText i.content),
     ("autoforward", .bool i.autoforward), ("finalize", .array (viewActions i.finalize))]

namespace Chart

def kindName (c : Chart) (s : StateIndex) : String :=
  match (c.state s).kind with
  | .state => if c.isCompound s then "compound" else "atomic"
  | .parallel => "parallel"
  | .final => "final"
  | .history .shallow => "history-shallow"
  | .history .deep => "history-deep"

def viewState (c : Chart) (s : StateIndex) : Json :=
  let n := c.state s
  .mkObject
    [("id", .string n.id), ("doc", Json.ofNat n.document), ("kind", .string (c.kindName s)),
     ("atomic", .bool (c.isAtomic s)), ("parent", .optionalNat n.parent),
     ("children", .array (n.children.map Json.ofNat)),
     ("transitions", .array (n.transitions.map Json.ofNat)), ("initial", .optionalNat n.initial),
     ("onentry", .array (viewActions n.onEntry)), ("onexit", .array (viewActions n.onExit)),
     ("invokes", .array (n.invokes.map InvokeNode.view)),
     ("data", .array (n.data.map fun d => .array [.string d.id, Expr.viewText d.expr])),
     ("donedata", Expr.viewText n.doneData), ("ancestors", .array ((c.ancestors s).map Json.ofNat))]

def viewTransition (t : TransitionNode) : Json :=
  .mkObject
    [("doc", Json.ofNat t.document), ("source", Json.ofNat t.source),
     ("events", .string t.eventText), ("eventless", .bool t.isEventless),
     ("cond", Expr.viewText t.condition), ("targets", .array (t.targets.map Json.ofNat)),
     ("kind", .string t.kind.name), ("actions", .array (viewActions t.actions))]

def view (c : Chart) (lookup : List String) : Json :=
  .mkObject
    [("name", .optionalText c.name), ("checksum", .string c.checksum),
     ("count", Json.ofNat c.stateCount), ("states", .array (c.indices.map c.viewState)),
     ("transitions", .array (c.transitions.toList.map viewTransition)),
     ("store", .string c.store.text),
     ("lookup", .array (lookup.map fun id => .optionalNat (c.find? id)))]

end Chart

end Statechart
