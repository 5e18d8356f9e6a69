import Statechart.View.Value
import Statechart.Machine.Host

/- Machines as JSON, for tools that look inside. -/
namespace Statechart

def TraceRecord.brief : TraceRecord → String
  | .event type name => "event " ++ type.name ++ " " ++ name.text
  | .entering s => "entering " ++ s
  | .entered s => "entered " ++ s
  | .exiting s => "exiting " ++ s
  | .exited s => "exited " ++ s
  | .performing kind ev target => "performing " ++ kind ++ " [" ++ ev ++ "] [" ++ target ++ "]"
  | .performed kind ev target => "performed " ++ kind ++ " [" ++ ev ++ "] [" ++ target ++ "]"
  | .point p => "state " ++ p.label

def InvokeData.view (d : InvokeData) (h : Heap) : Json :=
  .mkObject
    [("id", .string d.invokeId), ("type", .optionalText d.type), ("src", .optionalText d.source),
     ("doc", Json.ofNat d.document), ("content", h.view d.content),
     ("params", h.view d.parameters)]

def Json.unlessEmpty (key : String) (items : List Json) : List (String × Json) :=
  if items.isEmpty then [] else [(key, .array items)]

namespace Machine

def viewReports (m : Machine) : List (String × Json) :=
  let reports := m.reports.reverse
  let notes := reports.filterMap fun
    | .life p => some (Json.string p.label)
    | _ => none
  let logs := reports.filterMap fun
    | .log label text =>
      some (Json.array [.string (machineName m.chart.name), .optionalText label, .string text])
    | _ => none
  let traces := reports.filterMap fun
    | .trace r => some (Json.string r.brief)
    | _ => none
  ("notes", .array notes) :: (Json.unlessEmpty "logs" logs ++ Json.unlessEmpty "trace" traces)

def viewFields (m : Machine) : List (String × Json) :=
  let c := m.context
  let id (s : StateIndex) : Json := .string (m.chart.state s).id
  [("conf", .texts m.activeIds), ("data", m.heap.view (.object c.dataModel)),
   ("done", .bool c.done), ("result", m.heap.view c.result)]
    ++ Json.unlessEmpty "queue" (c.internalQueue.map (·.view m.heap))
    ++ Json.unlessEmpty "to_invoke" (c.statesToInvoke.map id)
    ++ Json.unlessEmpty "history"
        (c.sortedHistory.map fun (h, states) => .array [id h, .array (states.map id)])
    ++ Json.unlessEmpty "invocations" (c.invocations.map fun i =>
        .array [.string i.invokeId, .string i.uniqueId, id i.state, Json.ofNat i.node,
          .bool i.autoforward])
    ++ m.viewReports

end Machine

end Statechart
