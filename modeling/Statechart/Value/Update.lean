import Statechart.Value.Show

/- Changing containers. An operation that is refused answers why and leaves no heap behind, so
   nothing has changed. -/
namespace Statechart.Heap

def report (h : Heap) (watcher : Option String) (changes : List (Bool × String × Value)) : Heap :=
  match watcher with
  | none => h
  | some name =>
    let reports := changes.map fun (removed, key, v) =>
      { watcher := name, removed, key, text := h.display v : Change }
    { h with journal := reports.reverse ++ h.journal }

/-- Writes an entry. A `checked` write respects the access level and read-only entries; an
    unchecked one is refused by constant objects only. -/
def writeEntry (h : Heap) (r : Ref) (key : String) (slot : Slot) (checked : Bool) :
    Except ValueError Heap :=
  match h.object? r with
  | none => .error .cannotModify
  | some o =>
    if o.access = .constant || (checked && !o.canSet key) then .error .cannotModify
    else
      let gone := match o.get? key with
        | some old => [(true, key, old.value)]
        | none => []
      let h := h.write r (.object { o with entries := insertEntry key slot o.entries })
      .ok (h.report o.watcher (gone ++ [(false, key, slot.value)]))

def set (h : Heap) (r : Ref) (key : String) (v : Value) : Except ValueError Heap :=
  h.writeEntry r key ⟨v, false⟩ true

def define (h : Heap) (r : Ref) (key : String) (v : Value) (readOnly : Bool) :
    Except ValueError Heap :=
  h.writeEntry r key ⟨v, readOnly⟩ false

def remove (h : Heap) (r : Ref) (key : String) : Except ValueError (Heap × Option Value) :=
  match h.object? r with
  | none => .error .cannotModify
  | some o =>
    if !o.canSet key then .error .cannotModify
    else
      match o.get? key with
      | none => .ok (h, none)
      | some old =>
        let h := h.write r (.object { o with entries := eraseEntry key o.entries })
        .ok (h.report o.watcher [(true, key, old.value)], some old.value)

/-- Writes through a path of property names. Missing objects on the way are made. -/
def setPath (h : Heap) (r : Ref) (path : List String) (v : Value) : Except ValueError Heap :=
  match path with
  | [] => .error (.invalidPath "empty path")
  | [last] => h.set r last v
  | segment :: rest =>
    match h.get r segment with
    | .object next => h.setPath next rest v
    | .undefined =>
      let (h, fresh) := h.newObject
      match h.set r segment (.object fresh) with
      | .ok h => h.setPath fresh rest v
      | .error e => .error e
    | other => .error (.typeMismatch "object" other.typeName)

def setItem (h : Heap) (r : Ref) (i : Nat) (v : Value) : Except ValueError Heap :=
  match h.array? r with
  | none => .error .cannotModify
  | some a =>
    if !a.canSet i then .error .cannotModify
    else
      let padded := a.items ++ List.replicate (i + 1 - a.items.length) ⟨.undefined, false⟩
      let key := toString i
      let gone := match a.items[i]? with
        | some old => if old.value.isUndefined then [] else [(true, key, old.value)]
        | none => []
      let h := h.write r (.array { a with items := padded.set i ⟨v, false⟩ })
      .ok (h.report a.watcher (gone ++ [(false, key, v)]))

def push (h : Heap) (r : Ref) (v : Value) : Except ValueError Heap :=
  h.setItem r (h.items r).length v

def removeItem (h : Heap) (r : Ref) (i : Nat) : Except ValueError (Heap × Value) :=
  match h.array? r with
  | none => .error .cannotModify
  | some a =>
    if !a.canSet i then .error .cannotModify
    else
      match a.items[i]? with
      | none => .error (.invalidPath ("index " ++ toString i ++ " out of range"))
      | some old =>
        let h := h.write r (.array { a with items := a.items.eraseIdx i })
        .ok (h.report a.watcher [(true, toString i, old.value)], old.value)

def watch (h : Heap) (r : Ref) (name : String) : Heap :=
  match h.cell? r with
  | some c => h.write r (c.withWatcher name)
  | none => h

def makeReadOnly (h : Heap) (r : Ref) : Heap :=
  match h.cell? r with
  | some c => if c.access = .writable then h.write r (c.withAccess .readOnly) else h
  | none => h

/-- Freezes a container and all it reaches. A constant container is not entered again. -/
def freezeRef (h : Heap) : Nat → Ref → Heap
  | 0, _ => h
  | depth + 1, r =>
    match h.cell? r with
    | none => h
    | some c =>
      if c.access = .constant then h
      else
        c.values.foldl
          (fun h v => match v with
            | .object s | .array s => freezeRef h depth s
            | _ => h)
          (h.write r (c.withAccess .constant))

def freeze (h : Heap) : Value → Heap
  | .object r | .array r => h.freezeRef (h.size + 1) r
  | _ => h

def setAccess (h : Heap) (r : Ref) (target : Access) : Except ValueError Heap :=
  let current := h.access r
  if current = target then .ok h
  else
    match target, current with
    | .readOnly, .writable => .ok (h.makeReadOnly r)
    | .constant, _ => .ok (h.freeze (.object r))
    | _, _ => .error (.cannotChangeAccess current target)

end Statechart.Heap
