import Statechart.Json.Parser
import Statechart.Json.Printer

/- Buckets: nested records that nodes of a running machine are stored in. -/
namespace Statechart

inductive Key where
  | type
  | document
  | id
  | name
  | checksum
  | root
  | children
  | transitions
  | invokes
  | configuration
  | statesToInvoke
  | history
  | internalQueue
  | dataModel
  | invocations
  | done
  | result
  | index (i : Nat)
  | named (s : String)
deriving DecidableEq, Repr

def Key.text : Key → String
  | .type => "$type"
  | .document => "$doc"
  | .id => "id"
  | .name => "name"
  | .checksum => "checksum"
  | .root => "root"
  | .children => "children"
  | .transitions => "transitions"
  | .invokes => "invokes"
  | .configuration => "configuration"
  | .statesToInvoke => "states_to_invoke"
  | .history => "history"
  | .internalQueue => "internal_queue"
  | .dataModel => "data_model"
  | .invocations => "invocations"
  | .done => "done"
  | .result => "result"
  | .index i => toString i
  | .named s => s

inductive NodeType where
  | model
  | state
  | parallel
  | final
  | history
  | transition
  | invoke
  | context
  | invocation
deriving DecidableEq, Repr

namespace NodeType

def name : NodeType → String
  | .model => "model"
  | .state => "state_node"
  | .parallel => "parallel_node"
  | .final => "final_node"
  | .history => "history_node"
  | .transition => "transition_node"
  | .invoke => "invoke_node"
  | .context => "runtime_context"
  | .invocation => "invocation"

def all : List NodeType :=
  [.model, .state, .parallel, .final, .history, .transition, .invoke, .context, .invocation]

def ofName? (s : String) : Option NodeType := all.find? (·.name == s)

/-- The type as stored: its name, or its name as the only key over null. -/
def ofJson? : Json → Option NodeType
  | .string s => ofName? s
  | .object [(s, .null)] => ofName? s
  | _ => none

end NodeType

structure Bucket where
  fields : List (String × Json)

namespace Bucket

def empty : Bucket := ⟨[]⟩

def add (b : Bucket) (key : Key) (value : Json) : Bucket :=
  ⟨Json.insertField key.text value b.fields⟩

def addType (b : Bucket) (t : NodeType) : Bucket := b.add .type (.string t.name)

def addText (b : Bucket) (key : Key) (text : String) : Bucket := b.add key (.string text)

def addNat (b : Bucket) (key : Key) (n : Nat) : Bucket := b.add key (Json.ofNat n)

def nest (b : Bucket) (key : Key) (inner : Bucket) : Bucket := b.add key (.object inner.fields)

def get? (b : Bucket) (key : Key) : Option Json := Json.lookup key.text b.fields

def text? (b : Bucket) (key : Key) : Option String := (b.get? key).bind Json.string?

def nat? (b : Bucket) (key : Key) : Option Nat := (b.get? key).bind Json.nat?

def bool? (b : Bucket) (key : Key) : Option Bool := (b.get? key).bind Json.bool?

def type? (b : Bucket) : Option NodeType := (b.get? .type).bind NodeType.ofJson?

def nested? (b : Bucket) (key : Key) : Option Bucket :=
  match b.get? key with
  | some (.object fields) => some ⟨fields⟩
  | _ => none

def indexedFrom (b : Bucket) : Nat → Nat → List Bucket
  | 0, _ => []
  | count + 1, i =>
    match b.nested? (.index i) with
    | some inner => inner :: b.indexedFrom count (i + 1)
    | none => []

def indexed (b : Bucket) : List Bucket := b.indexedFrom b.fields.length 0

def ofList (items : List Bucket) : Bucket :=
  (items.zipIdx).foldl (fun b (inner, i) => b.nest (.index i) inner) empty

def toJson (b : Bucket) : Json := .object b.fields

def text (b : Bucket) : String := b.toJson.compress

def parse? (text : String) : Option Bucket :=
  match Json.parse text with
  | some (.object fields) => some ⟨fields⟩
  | _ => none

end Bucket

end Statechart
