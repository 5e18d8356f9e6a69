import Statechart.Value.Basic

/- The heap of containers: cells, allocation and reading.

   A cell is never freed, and references are handed out by `alloc` only, so a reference stays
   good. Cells zero and one are the shared empty constant object and array. -/
namespace Statechart

structure Slot where
  value : Value
  readOnly : Bool := false

structure ObjectCell where
  access : Access
  entries : List (String × Slot)
  watcher : Option String := none

structure ArrayCell where
  access : Access
  items : List Slot
  watcher : Option String := none

inductive Cell where
  | object (o : ObjectCell)
  | array (a : ArrayCell)

instance : Inhabited Cell := ⟨.object ⟨.writable, [], none⟩⟩

namespace Cell

def access : Cell → Access
  | .object o => o.access
  | .array a => a.access

def withAccess (access : Access) : Cell → Cell
  | .object o => .object { o with access }
  | .array a => .array { a with access }

def withWatcher (name : String) : Cell → Cell
  | .object o => .object { o with watcher := some name }
  | .array a => .array { a with watcher := some name }

def values : Cell → List Value
  | .object o => o.entries.map (·.2.value)
  | .array a => a.items.map (·.value)

end Cell

structure Change where
  watcher : String
  removed : Bool
  key : String
  text : String

/-- All containers, and the reports made to their watchers, the latest first. -/
structure Heap where
  cells : Array Cell
  journal : List Change := []

namespace Heap

def emptyObject : Ref := 0

def emptyArray : Ref := 1

def initial : Heap :=
  { cells := #[.object ⟨.constant, [], none⟩, .array ⟨.constant, [], none⟩] }

instance : Inhabited Heap := ⟨initial⟩

def size (h : Heap) : Nat := h.cells.size

def cell? (h : Heap) (r : Ref) : Option Cell := h.cells[r]?

def alloc (h : Heap) (c : Cell) : Heap × Ref := ({ h with cells := h.cells.push c }, h.size)

def write (h : Heap) (r : Ref) (c : Cell) : Heap := { h with cells := h.cells.setIfInBounds r c }

def object? (h : Heap) (r : Ref) : Option ObjectCell :=
  match h.cell? r with
  | some (.object o) => some o
  | _ => none

def array? (h : Heap) (r : Ref) : Option ArrayCell :=
  match h.cell? r with
  | some (.array a) => some a
  | _ => none

def access (h : Heap) (r : Ref) : Access :=
  match h.cell? r with
  | some c => c.access
  | none => .constant

def children (h : Heap) (r : Ref) : List Value :=
  match h.cell? r with
  | some c => c.values
  | none => []

def newObject (h : Heap) : Heap × Ref := h.alloc (.object ⟨.writable, [], none⟩)

def newArray (h : Heap) : Heap × Ref := h.alloc (.array ⟨.writable, [], none⟩)

end Heap

def lookupEntry (key : String) : List (String × Slot) → Option Slot
  | [] => none
  | (k, s) :: rest => if k = key then some s else lookupEntry key rest

def insertEntry (key : String) (slot : Slot) : List (String × Slot) → List (String × Slot)
  | [] => [(key, slot)]
  | (k, s) :: rest =>
    if k = key then (key, slot) :: rest else (k, s) :: insertEntry key slot rest

def eraseEntry (key : String) : List (String × Slot) → List (String × Slot)
  | [] => []
  | (k, s) :: rest => if k = key then rest else (k, s) :: eraseEntry key rest

namespace ObjectCell

def get? (o : ObjectCell) (key : String) : Option Slot := lookupEntry key o.entries

def contains (o : ObjectCell) (key : String) : Bool := (o.get? key).isSome

def keys (o : ObjectCell) : List String := o.entries.map (·.1)

def canSet (o : ObjectCell) (key : String) : Bool :=
  o.access = .writable && !((o.get? key).map (·.readOnly)).getD false

end ObjectCell

namespace ArrayCell

def canSet (a : ArrayCell) (i : Nat) : Bool :=
  a.access = .writable && !((a.items[i]?).map (·.readOnly)).getD false

def canRemove (a : ArrayCell) (i : Nat) : Bool := i < a.items.length && a.canSet i

end ArrayCell

namespace Heap

def slot? (h : Heap) (r : Ref) (key : String) : Option Slot := (h.object? r).bind (·.get? key)

def get (h : Heap) (r : Ref) (key : String) : Value :=
  match h.slot? r key with
  | some s => s.value
  | none => .undefined

def contains (h : Heap) (r : Ref) (key : String) : Bool := (h.slot? r key).isSome

def entries (h : Heap) (r : Ref) : List (String × Slot) :=
  match h.object? r with
  | some o => o.entries
  | none => []

def items (h : Heap) (r : Ref) : List Slot :=
  match h.array? r with
  | some a => a.items
  | none => []

def getItem (h : Heap) (r : Ref) (i : Nat) : Value :=
  match (h.items r)[i]? with
  | some s => s.value
  | none => .undefined

/-- Walks through objects by key and arrays by index; `length` ends a path into an array.
    A step that leads nowhere yields undefined. -/
def getPath (h : Heap) (v : Value) : List String → Value
  | [] => v
  | head :: rest =>
    match v with
    | .object r => h.getPath (h.get r head) rest
    | .array r =>
      match Decimal.readWord head with
      | some i => h.getPath (h.getItem r i) rest
      | none =>
        if head = "length" && rest.isEmpty then .number (Float.ofNat (h.items r).length)
        else .undefined
    | _ => .undefined

end Heap

end Statechart
