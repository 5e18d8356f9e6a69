import Statechart.Chart.Basic
import Statechart.Chart.Writer
import Statechart.Expr.Parser

/- Compiling charts: positions are given out, names and expressions resolved, and the structure
   checked.

   Document positions go, for each state, to the state, its transitions, its invokes and its
   children; the transition into a compound state's initial children comes last. -/
namespace Statechart

open Source

abbrev ActionFactory := Json → Except Fault CustomAction

abbrev ActionLibrary := List (String × ActionFactory)

namespace Compile

def rootId : String := "$scxml"

/-- A chart in the making. The targets of a transition are names until all states are known. -/
structure Draft where
  states : Array StateNode := #[]
  transitions : Array TransitionNode := #[]
  /-- Transitions and the names of their targets, the latest first. -/
  pending : List (TransitionIndex × List String) := []
  nextDocument : DocumentId := 0
  generated : Nat := 0

abbrev CompileM := StateT Draft (Except Fault)

def reject {α : Type} (d : Defect) : CompileM α := throw (.definition d)

def freshDocument : CompileM DocumentId := do
  let d ← get
  set { d with nextDocument := d.nextDocument + 1 }
  return d.nextDocument

def modifyState (s : StateIndex) (f : StateNode → StateNode) : CompileM Unit :=
  modify fun d => { d with states := d.states.modify s f }

def pushState (n : StateNode) : CompileM Unit :=
  modify fun d => { d with states := d.states.push n }

def pushTransition (t : TransitionNode) : CompileM TransitionIndex := do
  let d ← get
  set { d with transitions := d.transitions.push t }
  return d.transitions.size

def addPending (t : TransitionIndex) (targets : List String) : CompileM Unit :=
  modify fun d => { d with pending := (t, targets) :: d.pending }

def readOptional {α : Type} (read : String → Except Fault α) :
    Option String → Except Fault (Option α)
  | some s => (read s).map some
  | none => .ok none

def valueExpr (v : ValueDef) : Except Fault (Option Expr) :=
  match v.expr, v.value with
  | some _, some _ => .error (.definition .exprAndValue)
  | some e, none => (Expr.parse e).map some
  | none, some j => .ok (some (.literal (Tree.ofJson j)))
  | none, none => .ok none

def optionalValue : Option ValueDef → Except Fault (Option Expr)
  | some v => valueExpr v
  | none => .ok none

def param (p : ParamDef) : Except Fault Param := do
  match ← valueExpr p.init with
  | some expr => return { name := p.name, expr }
  | none => .error (.definition (.paramWithoutValue p.name))

def delayOfJson : Json → Except Fault Nanos
  | .number n =>
    match Delay.ofMillis n.toFloat with
    | some d => .ok d
    | none => .error (.definition (.invalidDelay n.text))
  | .string s => Delay.parse s
  | other => .error (.definition (.invalidDelay other.compress))

def sendConflict? (s : SendDef) : Option String :=
  if s.event.isSome && s.eventExpr.isSome then some "event"
  else if s.target.isSome && s.targetExpr.isSome then some "target"
  else if s.id.isSome && s.idLocation.isSome then some "id"
  else if s.delay.isSome && s.delayExpr.isSome then some "delay"
  else none

def sendAction (s : SendDef) : Except Fault SendAction := do
  match sendConflict? s with
  | some property => throw (.definition (.sendConflict property))
  | none =>
    if s.event.isNone && s.eventExpr.isNone && s.content.isNone then
      throw (.definition .sendWithoutEvent)
    let event ← readOptional EventName.parse s.event
    let eventExpr ← readOptional Expr.parse s.eventExpr
    let targetExpr ← readOptional Expr.parse s.targetExpr
    let idLocation ← readOptional Expr.parseLocation s.idLocation
    let delay ← match s.delay with
      | some j => (delayOfJson j).map some
      | none => pure none
    let delayExpr ← readOptional Expr.parse s.delayExpr
    let params ← s.params.mapM param
    let content ← optionalValue s.content
    return { event, eventExpr, target := s.target, targetExpr, type := s.type, id := s.id,
             idLocation, delay, delayExpr, params, content }

mutual

def action (library : ActionLibrary) : ActionDef → Except Fault Action
  | .raise event => do return .raise (← EventName.parse event)
  | .send s => do return .send (← sendAction s)
  | .cancel id expr => do
    if id.isSome == expr.isSome then throw (.definition .cancelWithoutOneId)
    return .cancel id (← readOptional Expr.parse expr)
  | .log label expr => do return .log label (← readOptional Expr.parse expr)
  | .assign location init => do
    let location ← Expr.parseLocation location
    let expr ← valueExpr init
    return .assign location (expr.getD (.literal .undefined))
  | .branch cond body elseIfs otherwise => do
    let cond ← Expr.parse cond
    let first ← actions library body
    let middle ← arms library elseIfs
    let last ← match otherwise with
      | some body => do
        let body ← actions library body
        pure [(none, body)]
      | none => pure []
    return .branch ((some cond, first) :: middle ++ last)
  | .forEach array item index body => do
    let array ← Expr.parse array
    let item ← Expr.parseLocation item
    let index ← readOptional Expr.parseLocation index
    let body ← actions library body
    return .forEach array item index body
  | .custom name args =>
    match library.lookup name with
    | some factory => do return .custom name (← factory args)
    | none => .error (.definition (.unknownAction name))

def actions (library : ActionLibrary) : List ActionDef → Except Fault (List Action)
  | [] => .ok []
  | a :: rest => do
    let a ← action library a
    let rest ← actions library rest
    return a :: rest

def arms (library : ActionLibrary) :
    List (String × List ActionDef) → Except Fault (List (Option Expr × List Action))
  | [] => .ok []
  | (cond, body) :: rest => do
    let cond ← Expr.parse cond
    let body ← actions library body
    let rest ← arms library rest
    return (some cond, body) :: rest

end

def transitionKind : TransitionType → TransitionKind
  | .external => .external
  | .internal => .internal

def addTransition (library : ActionLibrary) (source : StateIndex) (t : TransitionDef) :
    CompileM TransitionIndex := do
  let document ← freshDocument
  let events ← (t.event.getD []).mapM fun e => liftM (EventDescriptor.parse e)
  let condition ← readOptional Expr.parse t.cond
  let body ← actions library t.actions
  let i ← pushTransition
    { document, source, events, condition, targets := [], kind := transitionKind t.type,
      actions := body }
  match t.target with
  | some targets => addPending i targets
  | none => pure ()
  return i

def invoke (library : ActionLibrary) (i : InvokeDef) : CompileM InvokeNode := do
  if i.src.isSome && i.srcExpr.isSome then reject .invokeSourceTwice
  if i.id.isSome && i.idLocation.isSome then reject .invokeIdTwice
  let document ← freshDocument
  let srcExpr ← readOptional Expr.parse i.srcExpr
  let idLocation ← readOptional Expr.parseLocation i.idLocation
  let params ← i.params.mapM fun p => liftM (param p)
  let content ← optionalValue i.content
  let finalize ← actions library i.finalize
  return { document, type := i.type, src := i.src, srcExpr, id := i.id, idLocation, params, content,
           autoforward := i.autoforward, finalize }

def stateKind (s : StateInfo) : StateKind :=
  match s.type with
  | .state => .state
  | .parallel => .parallel
  | .final => .final
  | .history =>
    match s.history.getD .shallow with
    | .shallow => .history .shallow
    | .deep => .history .deep

def isHistoryKind : StateKind → Bool
  | .history _ => true
  | _ => false

def structureDefect? (id : String) (s : StateInfo) (hasChildren : Bool) : Option Defect :=
  let kind := stateKind s
  if s.history.isSome && s.type ≠ .history then some (.historyMisplaced id)
  else if (kind = .final || isHistoryKind kind) && hasChildren then some (.childrenNotAllowed id)
  else if kind = .final && !s.transitions.isEmpty then some (.finalWithTransitions id)
  else if isHistoryKind kind && 1 < s.transitions.length then some (.historyWithManyTransitions id)
  else if s.initial.isSome && (kind ≠ .state || !hasChildren) then some (.initialMisplaced id)
  else none

def stateId (given : Option String) : CompileM String := do
  match given with
  | some text => return (← Identifier.ofString text).text
  | none =>
    let d ← get
    set { d with generated := d.generated + 1 }
    return "$generated-" ++ toString (d.generated + 1)

def addTransitions (library : ActionLibrary) (s : StateIndex) (id : String) (kind : StateKind) :
    List TransitionDef → CompileM Unit
  | [] => return
  | t :: rest => do
    let i ← addTransition library s t
    if isHistoryKind kind then
      let node := (← get).transitions.getD i default
      if !node.events.isEmpty || node.condition.isSome then reject (.historyDefaultGuarded id)
      modifyState s fun n => { n with initial := some i }
    else modifyState s fun n => { n with transitions := n.transitions ++ [i] }
    addTransitions library s id kind rest

/-- Where a compound state is entered: as given, or at its first child that is no history
    state. -/
def initialTargets (id : String) (given : Option (List String)) (children : List StateIndex) :
    CompileM (List String) := do
  match given with
  | some targets => return targets
  | none =>
    let states := (← get).states
    match children.find? fun c => !isHistoryKind (states.getD c default).kind with
    | some first => return [(states.getD first default).id]
    | none => reject (.onlyHistoryChildren id)

mutual

def addState (library : ActionLibrary) (parent : Option StateIndex) :
    StateDef → CompileM StateIndex
  | .mk info children => do
    let s := (← get).states.size
    let document ← freshDocument
    let id ← stateId info.id
    let kind := stateKind info
    match structureDefect? id info (!children.isEmpty) with
    | some d => reject d
    | none =>
      let onEntry ← actions library info.onEntry
      let onExit ← actions library info.onExit
      let data ← info.data.mapM fun d => do
        let expr ← liftM (valueExpr d.init)
        return { id := d.id, expr : DataNode }
      let doneData ← optionalValue info.doneData
      pushState
        { id, document, kind, parent, children := [], transitions := [], initial := none,
          onEntry, onExit, invokes := [], data, doneData }
      addTransitions library s id kind info.transitions
      let invokes ← info.invokes.mapM (invoke library)
      modifyState s fun n => { n with invokes }
      let kids ← addStates library s children
      modifyState s fun n => { n with children := kids }
      if kind = .state && !children.isEmpty then
        let targets ← initialTargets id info.initial kids
        let document ← freshDocument
        let i ← pushTransition
          { document, source := s, events := [], condition := none, targets := [],
            kind := .internal, actions := [] }
        addPending i targets
        modifyState s fun n => { n with initial := some i }
      if isHistoryKind kind && info.transitions.isEmpty then reject (.historyWithoutDefault id)
      return s

def addStates (library : ActionLibrary) (parent : StateIndex) :
    List StateDef → CompileM (List StateIndex)
  | [] => return []
  | d :: rest => do
    let s ← addState library (some parent) d
    let others ← addStates library parent rest
    return s :: others

end

def duplicate? : List String → List String → Option String
  | _, [] => none
  | seen, id :: rest => if seen.contains id then some id else duplicate? (id :: seen) rest

def resolveTarget (c : Chart) (target : String) : Except Fault StateIndex := do
  let id ← Identifier.ofString target
  match c.find? id.text with
  | some s => return s
  | none => throw (.definition (.targetNotFound target))

def resolve (c : Chart) (pending : List (TransitionIndex × List String)) : Except Fault Chart := do
  match duplicate? [] (c.states.toList.map (·.id)) with
  | some id => throw (.definition (.duplicateState id))
  | none =>
    let resolved ← pending.mapM fun (t, names) => do
      let targets ← names.mapM (resolveTarget c)
      return (t, targets)
    return resolved.foldl
      (fun c (t, targets) =>
        { c with transitions := c.transitions.modify t fun n => { n with targets } })
      c

def firstDefect {α : Type} (items : List α) (check : α → Option Defect) : Option Defect :=
  items.findSome? check

/-- The targets of a state's initial or default transition have to lie where they can be
    entered from. -/
def initialDefect? (c : Chart) (s : StateIndex) : Option Defect :=
  let node := c.state s
  match node.initial with
  | none => none
  | some t =>
    let targets := (c.transition t).targets
    if c.isHistory s then
      let parent := node.parent.getD Chart.root
      firstDefect targets fun target =>
        if !c.isDescendant target parent || target == s then
          some (.historyTargetOutside node.id (c.state target).id)
        else none
    else if targets.isEmpty then some (.emptyInitial node.id)
    else
      firstDefect targets fun target =>
        if !c.isDescendant target s then
          some (.initialTargetOutside (c.state target).id node.id)
        else none

def hasRepetition : List StateIndex → Bool
  | [] => false
  | s :: rest => rest.contains s || hasRepetition rest

def targetsDefect? (c : Chart) (t : TransitionNode) : Option Defect :=
  if hasRepetition t.targets then some (.targetTwice t.document)
  else
    firstDefect t.targets fun a =>
      firstDefect t.targets fun b =>
        if a ≠ b && c.isDescendant a b then
          some (.targetAndAncestor t.document (c.state a).id (c.state b).id)
        else none

def chartDefect? (c : Chart) : Option Defect :=
  match firstDefect c.indices (initialDefect? c) with
  | some d => some d
  | none => firstDefect c.transitions.toList (targetsDefect? c)

end Compile

def Source.ChartDef.rootState (c : ChartDef) : StateDef :=
  .mk
    { id := some Compile.rootId, type := .state, history := none, initial := c.initial,
      transitions := [], onEntry := [], onExit := [], invokes := [], data := c.data,
      doneData := none }
    c.states

def Chart.compile (library : ActionLibrary) (source : ChartDef) : Except Fault Chart := do
  if source.states.isEmpty then throw (.definition .noStates)
  let (_, draft) ← (Compile.addState library none source.rootState).run {}
  let chart ← Compile.resolve
    { name := source.name, states := draft.states, transitions := draft.transitions,
      checksum := source.checksum }
    draft.pending.reverse
  match Compile.chartDefect? chart with
  | some d => throw (.definition d)
  | none => return chart

end Statechart
