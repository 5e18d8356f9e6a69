import Statechart.Event.Basic
import Statechart.Expr.Eval

/- Compiled charts.

   States stand in one row in document order, so an earlier index is an earlier position.
   Index zero is the root, which stands for the chart itself and is never active. -/
namespace Statechart

abbrev StateIndex := Nat

abbrev TransitionIndex := Nat

/-- A position in the document, shared by states, transitions and invokes. -/
abbrev DocumentId := Nat

inductive HistoryKind where
  | shallow
  | deep
deriving DecidableEq, Repr

inductive StateKind where
  | state
  | parallel
  | final
  | history (kind : HistoryKind)
deriving DecidableEq, Repr

inductive TransitionKind where
  | external
  | internal
deriving DecidableEq, Repr

def TransitionKind.name : TransitionKind → String
  | .external => "external"
  | .internal => "internal"

inductive CustomOutcome where
  | done (h : Heap)
  | failed (h : Heap) (f : Failure)
  | crashed

abbrev CustomAction := Heap → Ref → CustomOutcome

structure Param where
  name : String
  expr : Expr

structure SendAction where
  event : Option EventName
  eventExpr : Option Expr
  target : Option String
  targetExpr : Option Expr
  type : Option String
  id : Option SendId
  idLocation : Option (List String)
  delay : Option Nanos
  delayExpr : Option Expr
  params : List Param
  content : Option Expr

inductive Action where
  | raise (event : EventName)
  | send (send : SendAction)
  | cancel (sendId : Option SendId) (sendIdExpr : Option Expr)
  | log (label : Option String) (expr : Option Expr)
  | assign (location : List String) (expr : Expr)
  | branch (arms : List (Option Expr × List Action))
  | forEach (array : Expr) (item : List String) (index : Option (List String))
      (actions : List Action)
  | custom (name : String) (action : CustomAction)

structure DataNode where
  id : String
  expr : Option Expr

structure InvokeNode where
  document : DocumentId
  type : Option String
  src : Option String
  srcExpr : Option Expr
  id : Option InvokeId
  idLocation : Option (List String)
  params : List Param
  content : Option Expr
  autoforward : Bool
  finalize : List Action

structure StateNode where
  id : String
  document : DocumentId
  kind : StateKind
  parent : Option StateIndex
  children : List StateIndex
  transitions : List TransitionIndex
  /-- How a compound state is entered, or a history state without a record. -/
  initial : Option TransitionIndex
  onEntry : List Action
  onExit : List Action
  invokes : List InvokeNode
  data : List DataNode
  doneData : Option Expr

instance : Inhabited StateNode :=
  ⟨⟨"", 0, .state, none, [], [], none, [], [], [], [], none⟩⟩

structure TransitionNode where
  document : DocumentId
  source : StateIndex
  events : List EventDescriptor
  condition : Option Expr
  targets : List StateIndex
  kind : TransitionKind
  actions : List Action

instance : Inhabited TransitionNode := ⟨⟨0, 0, [], none, [], .external, []⟩⟩

namespace TransitionNode

def isEventless (t : TransitionNode) : Bool := t.events.isEmpty

def isTargetless (t : TransitionNode) : Bool := t.targets.isEmpty

def eventText (t : TransitionNode) : String :=
  String.intercalate " " (t.events.map EventDescriptor.text)

end TransitionNode

structure Chart where
  name : Option String
  states : Array StateNode
  transitions : Array TransitionNode
  checksum : String

instance : Inhabited Chart := ⟨⟨none, #[], #[], ""⟩⟩

namespace Chart

def root : StateIndex := 0

def state (c : Chart) (s : StateIndex) : StateNode := c.states.getD s default

def transition (c : Chart) (t : TransitionIndex) : TransitionNode := c.transitions.getD t default

/-- How many states the chart declares; the root is not counted. -/
def stateCount (c : Chart) : Nat := c.states.size - 1

def indices (c : Chart) : List StateIndex := List.range c.states.size

def find? (c : Chart) (id : String) : Option StateIndex :=
  c.indices.find? fun s => (c.state s).id == id

def findDocument? (c : Chart) (d : DocumentId) : Option StateIndex :=
  c.indices.find? fun s => (c.state s).document == d

def isHistory (c : Chart) (s : StateIndex) : Bool :=
  match (c.state s).kind with
  | .history _ => true
  | _ => false

def isParallel (c : Chart) (s : StateIndex) : Bool := (c.state s).kind = .parallel

def isFinal (c : Chart) (s : StateIndex) : Bool := (c.state s).kind = .final

def childStates (c : Chart) (s : StateIndex) : List StateIndex :=
  (c.state s).children.filter (!c.isHistory ·)

def historyChildren (c : Chart) (s : StateIndex) : List StateIndex :=
  (c.state s).children.filter c.isHistory

def isCompound (c : Chart) (s : StateIndex) : Bool :=
  (c.state s).kind = .state && !(c.childStates s).isEmpty

def isAtomic (c : Chart) (s : StateIndex) : Bool :=
  match (c.state s).kind with
  | .final => true
  | .state => (c.childStates s).isEmpty
  | _ => false

def ancestorsFrom (c : Chart) : Nat → Option StateIndex → List StateIndex
  | _, none => []
  | 0, some _ => []
  | steps + 1, some p => p :: c.ancestorsFrom steps (c.state p).parent

/-- Proper ancestors from the parent up to the root. There are fewer than there are states. -/
def ancestors (c : Chart) (s : StateIndex) : List StateIndex :=
  c.ancestorsFrom c.states.size (c.state s).parent

def ancestorsUpTo (c : Chart) (s upto : StateIndex) : List StateIndex :=
  (c.ancestors s).takeWhile (· ≠ upto)

def isDescendant (c : Chart) (s a : StateIndex) : Bool := (c.ancestors s).contains a

end Chart

end Statechart
