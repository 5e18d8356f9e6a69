import Statechart.Value.Heap
import Statechart.Decimal.Layout
import Statechart.Text.Quoted

/- Values as text, and as trees. Both walks carry the containers they are inside of; since these
   are all different, a walk is never deeper than the heap is large. -/
namespace Statechart.Heap

/-- A value as text. A container inside itself is shown by dots. -/
def showIn (h : Heap) : Nat → List Ref → Value → String
  | _, _, .undefined => "undefined"
  | _, _, .null => "null"
  | _, _, .bool b => if b then "true" else "false"
  | _, _, .number f => Decimal.displayText f
  | _, _, .string s => s
  | _, _, .dateTime t => t.text
  | 0, _, .object _ => "(...)"
  | 0, _, .array _ => "[...]"
  | depth + 1, path, .object r =>
    if path.contains r then "(...)"
    else
      let parts := (h.entries r).map fun (k, s) => k ++ "=" ++ h.showIn depth (r :: path) s.value
      "(" ++ String.intercalate "," parts ++ ")"
  | depth + 1, path, .array r =>
    if path.contains r then "[...]"
    else
      let parts := (h.items r).map fun s => h.showIn depth (r :: path) s.value
      "[" ++ String.intercalate "," parts ++ "]"

def display (h : Heap) (v : Value) : String := h.showIn (h.size + 1) [] v

def inspect (h : Heap) : Value → String
  | .string s => Text.quoted s
  | .object r =>
    let keys := ((h.entries r).map fun e => Text.quoted e.1)
    "Object \x7b access: " ++ (h.access r).label ++ ", keys: [" ++ String.intercalate ", " keys
      ++ "] \x7d"
  | .array r =>
    "Array \x7b access: " ++ (h.access r).label ++ ", len: " ++ toString (h.items r).length
      ++ " \x7d"
  | v => h.display v

def unfoldIn (h : Heap) : Nat → List Ref → Value → Except ValueError Tree
  | _, _, .undefined => .ok .undefined
  | _, _, .null => .ok .null
  | _, _, .bool b => .ok (.bool b)
  | _, _, .number f => .ok (.number f)
  | _, _, .string s => .ok (.string s)
  | _, _, .dateTime t => .ok (.dateTime t)
  | 0, _, .object _ => .error .cyclic
  | 0, _, .array _ => .error .cyclic
  | depth + 1, path, .object r =>
    if path.contains r then .error .cyclic
    else do
      let fields ← (h.entries r).mapM fun (k, s) => do
        let t ← h.unfoldIn depth (r :: path) s.value
        return (k, t)
      return .object fields
  | depth + 1, path, .array r =>
    if path.contains r then .error .cyclic
    else do
      let trees ← (h.items r).mapM fun s => h.unfoldIn depth (r :: path) s.value
      return .array trees

def unfold (h : Heap) (v : Value) : Except ValueError Tree := h.unfoldIn (h.size + 1) [] v

def toJson (h : Heap) (v : Value) : Except ValueError Json := (h.unfold v).map Tree.toJson

end Statechart.Heap
