import Statechart.Value.DateTime
import Statechart.Json.Basic

/- Dynamic values. Objects and arrays are references into a heap, so a value can be shared and
   can reach itself; everything else is copied. -/
namespace Statechart

/-- What may still be done to a container. The levels are ordered, and a container only moves
    up. -/
inductive Access where
  | writable
  | readOnly
  | constant
deriving DecidableEq, Repr, Inhabited

namespace Access

def rank : Access → Nat
  | .writable => 0
  | .readOnly => 1
  | .constant => 2

def canChangeTo (self target : Access) : Bool := self.rank ≤ target.rank

def label : Access → String
  | .writable => "Writable"
  | .readOnly => "ReadOnly"
  | .constant => "Constant"

def name : Access → String
  | .writable => "writable"
  | .readOnly => "read_only"
  | .constant => "constant"

end Access

abbrev Ref := Nat

inductive Value where
  | undefined
  | null
  | bool (b : Bool)
  | number (f : Float)
  | string (s : String)
  | dateTime (t : DateTime)
  | object (r : Ref)
  | array (r : Ref)

instance : Inhabited Value := ⟨.undefined⟩

inductive ValueError where
  | cannotModify
  | cannotChangeAccess (source target : Access)
  | cyclic
  | typeMismatch (expected found : String)
  | invalidPath (detail : String)
deriving DecidableEq, Repr

namespace ValueError

def code : ValueError → String
  | .cannotModify => "OBJECT_CANNOT_BE_MODIFIED"
  | .cannotChangeAccess .. => "ACCESS_CANNOT_BE_CHANGED"
  | .cyclic => "CYCLIC_REFERENCE"
  | .typeMismatch .. => "TYPE_MISMATCH"
  | .invalidPath _ => "INVALID_PATH"

def message : ValueError → String
  | .cannotModify => "object cannot be modified"
  | .cannotChangeAccess source target =>
    "access cannot be changed from " ++ source.label ++ " to " ++ target.label
  | .cyclic => "cyclic reference cannot be represented in a tree"
  | .typeMismatch expected found => "type mismatch: expected " ++ expected ++ ", found " ++ found
  | .invalidPath detail => "invalid path: " ++ detail

end ValueError

namespace Value

def typeName : Value → String
  | .undefined => "undefined"
  | .null => "null"
  | .bool _ => "boolean"
  | .number _ => "number"
  | .string _ => "string"
  | .dateTime _ => "datetime"
  | .object _ => "object"
  | .array _ => "array"

def isUndefined : Value → Bool
  | .undefined => true
  | _ => false

def isPresent : Value → Bool
  | .undefined | .null => false
  | _ => true

def isTruthy : Value → Bool
  | .undefined | .null => false
  | .bool b => b
  | .number f => f != 0.0 && !f.isNaN
  | .string s => s != ""
  | .dateTime _ | .object _ | .array _ => true

def same : Value → Value → Bool
  | .undefined, .undefined => true
  | .null, .null => true
  | .bool a, .bool b => a == b
  | .number a, .number b => a == b
  | .string a, .string b => a == b
  | .dateTime a, .dateTime b => a.sameInstant b
  | .object a, .object b => a == b
  | .array a, .array b => a == b
  | _, _ => false

/-- Equality in conditions, where missing and null are one. -/
def looseEq (a b : Value) : Bool :=
  if !a.isPresent && !b.isPresent then true else same a b

def compareFloats (a b : Float) : Option Ordering :=
  if a < b then some .lt
  else if b < a then some .gt
  else if a == b then some .eq
  else none

/-- Numbers, texts and points in time are ordered among themselves, nothing else is. -/
def compare : Value → Value → Option Ordering
  | .number a, .number b => compareFloats a b
  | .string a, .string b => some (Ord.compare a b)
  | .dateTime a, .dateTime b => some (a.compare b)
  | _, _ => none

end Value

inductive Tree where
  | undefined
  | null
  | bool (b : Bool)
  | number (f : Float)
  | string (s : String)
  | dateTime (t : DateTime)
  | object (fields : List (String × Tree))
  | array (items : List Tree)

namespace Tree

mutual

def ofJson : Json → Tree
  | .null => .null
  | .bool b => .bool b
  | .number n => .number n.toFloat
  | .string s => .string s
  | .array items => .array (ofJsonItems items)
  | .object fields => .object (ofJsonFields fields)

def ofJsonItems : List Json → List Tree
  | [] => []
  | j :: rest => ofJson j :: ofJsonItems rest

def ofJsonFields : List (String × Json) → List (String × Tree)
  | [] => []
  | (k, j) :: rest => (k, ofJson j) :: ofJsonFields rest

end

def numberToJson (f : Float) : Json :=
  match Decimal.smallInt? f with
  | some n => Json.ofInt n
  | none => if f.isFinite then .number (.float f) else .null

mutual

/-- The JSON value of a tree: fields without a value are left out, and keys are in ascending
    order. -/
def toJson : Tree → Json
  | .undefined | .null => .null
  | .bool b => .bool b
  | .number f => numberToJson f
  | .string s => .string s
  | .dateTime t => .string t.text
  | .object fields => Json.mkObject (toJsonFields fields)
  | .array items => .array (toJsonItems items)

def toJsonItems : List Tree → List Json
  | [] => []
  | t :: rest => toJson t :: toJsonItems rest

def toJsonFields : List (String × Tree) → List (String × Json)
  | [] => []
  | (_, .undefined) :: rest => toJsonFields rest
  | (k, t) :: rest => (k, toJson t) :: toJsonFields rest

end

end Tree

end Statechart
