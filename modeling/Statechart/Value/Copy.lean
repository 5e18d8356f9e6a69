import Statechart.Value.Update

/- Building values from trees, and copying the graph a value reaches. -/
namespace Statechart.Heap

mutual

def build (h : Heap) : Tree → Heap × Value
  | .undefined => (h, .undefined)
  | .null => (h, .null)
  | .bool b => (h, .bool b)
  | .number f => (h, .number f)
  | .string s => (h, .string s)
  | .dateTime t => (h, .dateTime t)
  | .object fields =>
    let (h, entries) := h.buildFields fields
    let (h, r) := h.alloc (.object ⟨.writable, entries, none⟩)
    (h, .object r)
  | .array items =>
    let (h, slots) := h.buildItems items
    let (h, r) := h.alloc (.array ⟨.writable, slots, none⟩)
    (h, .array r)

def buildFields (h : Heap) : List (String × Tree) → Heap × List (String × Slot)
  | [] => (h, [])
  | (k, t) :: rest =>
    let (h, v) := h.build t
    let (h, entries) := h.buildFields rest
    (h, (k, ⟨v, false⟩) :: entries)

def buildItems (h : Heap) : List Tree → Heap × List Slot
  | [] => (h, [])
  | t :: rest =>
    let (h, v) := h.build t
    let (h, slots) := h.buildItems rest
    (h, ⟨v, false⟩ :: slots)

end

def ofJson (h : Heap) (j : Json) : Heap × Value := h.build (Tree.ofJson j)

structure Copying where
  heap : Heap
  copies : List (Ref × Ref)

def sharedEmpty : Cell → Ref
  | .object _ => emptyObject
  | .array _ => emptyArray

/-- What a constant copy takes over as it is: nothing has to be copied of an empty or of an
    already constant container. -/
def constantCopy? (r : Ref) (c : Cell) : Option Ref :=
  if c.values.isEmpty then some (sharedEmpty c)
  else if c.access = .constant then some r
  else none

def copyVia (copy : Copying → Ref → Copying × Ref) (st : Copying) : Value → Copying × Value
  | .object r => let (st, c) := copy st r; (st, .object c)
  | .array r => let (st, c) := copy st r; (st, .array c)
  | other => (st, other)

def copyRef (target : Access) : Nat → Copying → Ref → Copying × Ref
  | 0, st, r => (st, r)
  | depth + 1, st, r =>
    match st.heap.cell? r with
    | none => (st, r)
    | some c =>
      match if target = .constant then constantCopy? r c else none with
      | some shared => (st, shared)
      | none =>
        match st.copies.lookup r with
        | some copy => (st, copy)
        | none =>
          let readOnly : Bool := target ≠ .writable
          match c with
          | .object o =>
            let (h, copy) := st.heap.alloc (.object ⟨target, [], none⟩)
            let (st, entries) := o.entries.foldl
              (fun (acc : Copying × List (String × Slot)) e =>
                let (st, v) := copyVia (copyRef target depth) acc.1 e.2.value
                (st, acc.2 ++ [(e.1, ⟨v, readOnly⟩)]))
              (⟨h, (r, copy) :: st.copies⟩, [])
            ({ st with heap := st.heap.write copy (.object ⟨target, entries, none⟩) }, copy)
          | .array a =>
            let (h, copy) := st.heap.alloc (.array ⟨target, [], none⟩)
            let (st, slots) := a.items.foldl
              (fun (acc : Copying × List Slot) s =>
                let (st, v) := copyVia (copyRef target depth) acc.1 s.value
                (st, acc.2 ++ [⟨v, readOnly⟩]))
              (⟨h, (r, copy) :: st.copies⟩, [])
            ({ st with heap := st.heap.write copy (.array ⟨target, slots, none⟩) }, copy)

def deepClone (h : Heap) (v : Value) (target : Access) : Heap × Value :=
  let (st, v) := copyVia (copyRef target (h.size + 1)) ⟨h, []⟩ v
  (st.heap, v)

end Statechart.Heap
