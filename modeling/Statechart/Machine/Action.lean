import Statechart.Machine.Basic
import Statechart.Decimal.Layout

/- Executable content. An action changes the data model and the internal queue at once; what has
   to leave the machine is put on its list of effects. The first action of a block that fails
   ends the block, and the machine is told by an event. -/
namespace Statechart.MachineM

def internalTarget : String := "#_internal"

def expectString (what : String) : Value → MachineM String
  | .string s => return s
  | other => fail (.execution (what ++ " must be a string, got " ++ other.typeName))

def orFail {α : Type} : Except Fault α → MachineM α
  | .ok a => return a
  | .error f => fail (.ofFault f)

def assign (location : List String) (v : Value) : MachineM Unit := fun m =>
  match location with
  | [] => .error (.failure (.execution "empty assign location")) m
  | head :: _ =>
    let place := String.intercalate "." location
    if !m.heap.contains m.context.dataModel head then
      .error (.failure (.execution ("location '" ++ place ++ "' is not declared"))) m
    else
      match m.heap.setPath m.context.dataModel location v with
      | .ok h => .ok () (m.withHeap h)
      | .error e =>
        .error (.failure (.execution ("cannot assign '" ++ place ++ "': " ++ e.message))) m

def paramsObject (params : List Param) : MachineM Value := do
  let m ← get
  let (h, r) := m.heap.newObject
  set (m.withHeap h)
  params.forM fun p => do
    let v ← evaluate p.expr
    changeHeap fun h => h.set r p.name v
  return .object r

def sendName (s : SendAction) : MachineM EventName := do
  match s.event, s.eventExpr with
  | some name, _ => return name
  | none, some e =>
    let text ← expectString "eventexpr" (← evaluate e)
    orFail (EventName.parse text)
  | none, none => fail (.execution "send without event name")

def textOf (what : String) : Option String → Option Expr → MachineM (Option String)
  | some t, _ => return some t
  | none, some e => return some (← expectString what (← evaluate e))
  | none, none => return none

def sendDelay (s : SendAction) : MachineM Nanos := do
  match s.delay, s.delayExpr with
  | some d, _ => return d
  | none, some e =>
    match ← evaluate e with
    | .number ms =>
      match Delay.ofMillis ms with
      | some d => return d
      | none => fail (.execution ("invalid delay " ++ Decimal.reportText ms))
    | .string text => orFail (Delay.parse text)
    | other => fail (.execution ("invalid delay " ++ (← get).heap.display other))
  | none, none => return 0

def payload (content : Option Expr) (params : List Param) : MachineM Value := do
  match content with
  | some e => evaluate e
  | none => if params.isEmpty then return .undefined else paramsObject params

/-- Only a send that can be referred to later has an id. -/
def sendIdOf (s : SendAction) (delay : Nanos) : MachineM (Option SendId) := do
  match s.id, s.idLocation with
  | some id, _ => return some id
  | none, some _ => return some (← freshId)
  | none, none => if delay ≠ 0 then return some (← freshId) else return none

def send (s : SendAction) : MachineM Unit := do
  let name ← sendName s
  let target ← textOf "targetexpr" s.target s.targetExpr
  let delay ← sendDelay s
  let data ← payload s.content s.params
  let sendId ← sendIdOf s delay
  match s.idLocation, sendId with
  | some location, some id => assign location (.string id)
  | _, _ => pure ()
  if target = some internalTarget then
    if delay ≠ 0 then fail (.execution "delayed send to #_internal is not supported")
    else update fun m => m.enqueue { name, type := .internal, sendId, data }
  else update fun m => m.emit (.send { name, sendId, target, type := s.type, delay, data })

def log (label : Option String) (e : Option Expr) : MachineM Unit := do
  let v ← match e with
    | some e => evaluate e
    | none => pure .undefined
  let m ← get
  match m.options.logger.logFault label with
  | some source => fail (m.platformFailure source)
  | none => set (m.tell (.log label (m.heap.display v)))

def cancel (id : Option SendId) (expr : Option Expr) : MachineM Unit := do
  match ← textOf "sendidexpr" id expr with
  | some id => update fun m => m.emit (.cancel id)
  | none => fail (.execution "cancel without send id")

def arrayItems (v : Value) : MachineM (List Value) := do
  match v with
  | .array r => return (← get).heap.items r |>.map (·.value)
  | other => fail (.execution ("foreach needs an array, got " ++ other.typeName))

def custom (name : String) (action : CustomAction) : MachineM Unit := fun m =>
  match action m.heap m.context.dataModel with
  | .done h => .ok () (m.withHeap h)
  | .failed h f =>
    .error (.failure (.execution ("custom action '" ++ name ++ "': " ++ f.message))) (m.withHeap h)
  | .crashed => .error .crash m

mutual

def execute : Action → MachineM Unit
  | .raise event => update fun m => m.enqueue (Event.internal event)
  | .send s => send s
  | .cancel id expr => cancel id expr
  | .log label expr => log label expr
  | .assign location expr => do
    let v ← evaluate expr
    assign location v
  | .branch arms => executeArms arms
  | .forEach array item index actions => do
    let values ← arrayItems (← evaluate array)
    (values.zipIdx).forM fun (v, i) => do
      assign item v
      match index with
      | some index => assign index (.number (Float.ofNat i))
      | none => pure ()
      executeAll actions
  | .custom name action => custom name action

def executeAll : List Action → MachineM Unit
  | [] => return
  | a :: rest => do
    execute a
    executeAll rest

def executeArms : List (Option Expr × List Action) → MachineM Unit
  | [] => return
  | (none, actions) :: _ => executeAll actions
  | (some cond, actions) :: rest => do
    let v ← evaluate cond
    if v.isTruthy then executeAll actions else executeArms rest

end

def recovering (action : MachineM Unit) : MachineM Unit := fun m =>
  match action m with
  | .error (.failure f) m => .ok () (m.raiseFailure f)
  | result => result

def executeBlock (actions : List Action) : MachineM Unit := recovering (executeAll actions)

def evaluateOr (e : Option Expr) : MachineM Value := fun m =>
  match e with
  | none => .ok .undefined m
  | some e =>
    match evaluate e m with
    | .error (.failure f) m => .ok .undefined (m.raiseFailure f)
    | result => result

end Statechart.MachineM
