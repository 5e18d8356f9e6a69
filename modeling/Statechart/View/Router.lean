import Statechart.View.Machine
import Statechart.Router.Run

/- Settings, sessions and the errors of a router as JSON. -/
namespace Statechart

/-- The wording of errors in files is not ours. -/
def SettingsError.view : SettingsError → Json
  | .io _ => .error "config_io" none
  | .parse _ => .error "config_parse" none
  | e => .error "config_validation" (some e.message)

def Settings.view (s : Settings) : Json :=
  .mkObject
    [("session", .mkObject
      [("idle_timeout_ms", Json.ofNat s.idleTimeoutMs),
       ("max_microsteps", Json.ofNat s.maxMicrosteps),
       ("tracing_enabled", .bool s.tracing), ("throw_on_error", .bool s.throwOnError),
       ("snapshot_dir", .optionalText s.snapshotDir)]),
     ("router", .mkObject [("mailbox_warn_depth", Json.ofNat s.mailboxWarnDepth)])]

def RouterError.view (e : RouterError) : Json :=
  match e with
  | .core .json | .core (.io _) => .error e.code none
  | .settings (.io _) | .settings (.parse _) => .error e.code none
  | _ => .error e.code (some e.message)

def RouterError.viewResult {α : Type} (view : α → Json) : Except RouterError α → Json
  | .ok a => view a
  | .error e => e.view

namespace Router

def viewOutcome (r : Router) (o : Outcome) : Json :=
  let h := r.memory.heap
  .mkObject
    [("status", .string o.status.name), ("value", h.view o.result),
     ("error", .optionalText o.error), ("result", RouterError.viewResult h.view (r.valueOf o))]

def viewStats (r : Router) : Json :=
  .mkObject
    [("created", Json.ofNat r.stats.created), ("finished", Json.ofNat r.stats.finished),
     ("dispatched", Json.ofNat r.stats.dispatched), ("delivered", Json.ofNat r.stats.delivered),
     ("invokes", Json.ofNat r.stats.invokes), ("live", Json.ofNat r.liveCount)]

def viewSession (r : Router) (id : SessionId) : Json :=
  match r.session? id with
  | some s => .array [.string s.status.name, Json.ofNat s.scheduler.pending]
  | none => .null

def viewChild (r : Router) (parent : SessionId) (invoke : InvokeId) : Json :=
  let child := (r.childOf parent invoke).bind r.registered?
  let link := match child.bind (·.parent) with
    | some l =>
      Json.array [.bool (l.session == parent), .string l.invokeId, .string l.origin]
    | none => .null
  .mkObject
    [("active", .bool (r.isInvokeActive parent invoke)), ("found", .bool child.isSome),
     ("link", link)]

def viewHandedOver (r : Router) : List Json :=
  r.handedOver.reverse.map fun x => .array [.string x.session, x.event.view x.heap]

def viewLog (r : Router) : Json :=
  let lines := r.log.reverse
  .mkObject ((lines.map (·.1)).eraseDups.map fun name =>
    (name, .texts ((lines.filter (·.1 == name)).map (·.2))))

end Router

end Statechart
