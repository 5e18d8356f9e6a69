import Statechart.Json.Basic

/- Documents as the readers of charts, settings and events see them, whatever text they came from,
   and the steps that readers are made of. -/
namespace Statechart

structure Atom where
  text : Option String := none
  nat : Option Nat := none
  flag : Option Bool := none
  value : Option Json := none
  /-- Whether it leaves an optional thing out; none where it neither does nor gives it. -/
  absent : Option Bool := some false
  /-- It may stand for a list or record without parts. -/
  isEmpty : Bool := false
  /-- It may follow a choice that has no content. -/
  isBare : Bool := false

inductive Document where
  | atom (label : Option String) (a : Atom)
  | list (label : Option String) (items : List Document)
  | record (label : Option String) (fields : List (Document × Document))
  | link (target : Nat)

namespace Atom

def ofJson : Json → Atom
  | .null => { value := some .null, absent := some true, isBare := true }
  | .string s => { text := some s, value := some (.string s) }
  | .bool b => { flag := some b, value := some (.bool b) }
  | .number n => { nat := (Json.number n).nat?, value := some (.number n) }
  | .array _ | .object _ => {}

def unreadable : Atom := { absent := some false }

end Atom

namespace Document

instance : Inhabited Document := ⟨.atom none .unreadable⟩

mutual

def ofJson : Json → Document
  | .array items => .list none (ofJsonItems items)
  | .object fields => .record none (ofJsonFields fields)
  | j => .atom none (.ofJson j)

def ofJsonItems : List Json → List Document
  | [] => []
  | j :: rest => ofJson j :: ofJsonItems rest

def ofJsonFields : List (String × Json) → List (Document × Document)
  | [] => []
  | (k, j) :: rest => (.atom none (.ofJson (.string k)), ofJson j) :: ofJsonFields rest

end

mutual

def height : Document → Nat
  | .atom .. | .link _ => 0
  | .list _ items => heightOfItems items + 1
  | .record _ fields => heightOfFields fields + 1

def heightOfItems : List Document → Nat
  | [] => 0
  | d :: rest => max (height d) (heightOfItems rest)

def heightOfFields : List (Document × Document) → Nat
  | [] => 0
  | (k, d) :: rest => max (max (height k) (height d)) (heightOfFields rest)

end

mutual

def size : Document → Nat
  | .atom .. | .link _ => 1
  | .list _ items => sizeOfItems items + 2
  | .record _ fields => sizeOfFields fields + 2

def sizeOfItems : List Document → Nat
  | [] => 0
  | d :: rest => size d + sizeOfItems rest

def sizeOfFields : List (Document × Document) → Nat
  | [] => 0
  | (k, d) :: rest => size k + size d + sizeOfFields rest

end

end Document

structure Manuscript where
  root : Document
  links : List (Nat × Document) := []
  labels : Bool := false
  rows : Bool := false
  /-- So may a record that is the content of a choice and of no other use. -/
  choiceRows : Bool := false
  depth : Nat
  patience : Nat := 0

abbrev ReadM := ReaderT Manuscript (StateT Nat Option)

structure Place where
  document : Document
  depth : Nat

abbrev Fields := List (String × Place)

namespace Manuscript

def ofJson (j : Json) : Manuscript :=
  let root := Document.ofJson j
  { root, rows := true, depth := root.height + 1 }

def read {α : Type} (m : Manuscript) (reader : Place → ReadM α) : Option α :=
  ((reader ⟨m.root, m.depth⟩ m).run m.patience).map (·.1)

end Manuscript

namespace ReadM

def lift {α : Type} : Option α → ReadM α
  | some a => pure a
  | none => failure

end ReadM

namespace Place

def follow (p : Place) : ReadM Place :=
  match p.document with
  | .link target => do
    match ← get, (← read).links.lookup target with
    | left + 1, some d =>
      set left
      return { p with document := d }
    | _, _ => failure
  | _ => return p

def atom {α : Type} (view : Atom → Option α) (p : Place) : ReadM α := do
  match (← p.follow).document with
  | .atom _ a => ReadM.lift (view a)
  | _ => failure

def text : Place → ReadM String := atom Atom.text

def nat : Place → ReadM Nat := atom Atom.nat

def flag : Place → ReadM Bool := atom Atom.flag

def items (p : Place) : ReadM (List Place) := do
  match (← p.follow).document, p.depth with
  | .list _ items, depth + 1 => return items.map (⟨·, depth⟩)
  | .atom _ a, _ => if a.isEmpty then return [] else failure
  | _, _ => failure

def fields (p : Place) : ReadM Fields := do
  match (← p.follow).document, p.depth with
  | .record _ fields, depth + 1 =>
    fields.mapM fun (key, d) => do return (← text ⟨key, depth⟩, ⟨d, depth⟩)
  | .atom _ a, _ => if a.isEmpty then return [] else failure
  | _, _ => failure

/-- The fields of a record of these names, which may be written as a row: the first of them, without
    their names. Documents that have rows have no links. -/
def row (allowed : Bool) (names : List String) (p : Place) : ReadM Fields :=
  match p.document, allowed with
  | .list _ _, true => do
    let items ← p.items
    if items.length ≤ names.length then return names.zip items else failure
  | _, _ => p.fields

def record (names : List String) (p : Place) : ReadM Fields := do p.row (← read).rows names

def content (names : List String) (p : Place) : ReadM Fields := do p.row (← read).choiceRows names

def list {α : Type} (reader : Place → ReadM α) (p : Place) : ReadM (List α) := do
  (← p.items).mapM reader

def jsonAt : Nat → Document → ReadM Json
  | 0, d => do
    match (← follow ⟨d, 0⟩).document with
    | .atom none a => ReadM.lift a.value
    | _ => failure
  | depth + 1, d => do
    match (← follow ⟨d, 0⟩).document with
    | .atom none a => ReadM.lift a.value
    | .list none items => return .array (← items.mapM (jsonAt depth))
    | .record none fields =>
      let fields ← fields.mapM fun (key, d) => do return (← text ⟨key, 0⟩, ← jsonAt depth d)
      return Json.mkObject fields
    | _ => failure

def json (p : Place) : ReadM Json := jsonAt p.depth p.document

def optional {α : Type} (reader : Place → ReadM α) (p : Place) : ReadM (Option α) := do
  let p ← p.follow
  let absent ← match p.document with
    | .atom _ a => ReadM.lift a.absent
    | _ => pure false
  if absent then return none else return some (← reader p)

def choice (p : Place) : ReadM (String × Place) := do
  let labels := (← read).labels
  match (← p.follow).document, p.depth with
  | .atom (some name) a, depth => return (name, ⟨.atom none a, depth⟩)
  | .list (some name) items, depth => return (name, ⟨.list none items, depth⟩)
  | .record (some name) fields, depth => return (name, ⟨.record none fields, depth⟩)
  | .record none [(key, d)], depth + 1 =>
    if labels then failure else return (← text ⟨key, depth⟩, ⟨d, depth⟩)
  | _, _ => failure

def bareChoice {α : Type} (ofName : String → Option α) (p : Place) : ReadM α := do
  let p ← p.follow
  match p.document with
  | .atom none a => ReadM.lift (a.text.bind ofName)
  | _ =>
    let (name, content) ← p.choice
    if ← content.atom fun a => some a.isBare then ReadM.lift (ofName name) else failure

end Place

namespace Fields

def under (key : String) (fields : Fields) : List Place :=
  (fields.filter (·.1 = key)).map (·.2)

def required {α : Type} (reader : Place → ReadM α) (key : String) (fields : Fields) : ReadM α :=
  match fields.under key with
  | [p] => reader p
  | _ => failure

def defaulted {α : Type} (reader : Place → ReadM α) (fallback : α) (key : String)
    (fields : Fields) : ReadM α :=
  match fields.under key with
  | [] => return fallback
  | [p] => reader p
  | _ => failure

def optional {α : Type} (reader : Place → ReadM α) (key : String) (fields : Fields) :
    ReadM (Option α) :=
  fields.defaulted (Place.optional reader) none key

end Fields

end Statechart
