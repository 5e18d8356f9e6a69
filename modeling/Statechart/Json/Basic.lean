import Statechart.Decimal.Reader

/- JSON trees. Numbers keep their kind: integers of sixty-four bits, or doubles. -/
namespace Statechart

inductive Json.Number where
  | int (n : Int)
  | float (f : Float)

inductive Json where
  | null
  | bool (b : Bool)
  | number (n : Json.Number)
  | string (s : String)
  | array (items : List Json)
  | object (fields : List (String × Json))

instance : Inhabited Json := ⟨.null⟩

namespace Json

def Number.toFloat : Number → Float
  | .int n => if n < 0 then -(Float.ofNat n.natAbs) else Float.ofNat n.natAbs
  | .float f => f

/-- Numbers of different kinds differ, also when they stand for the same quantity. -/
def Number.beq : Number → Number → Bool
  | .int a, .int b => a == b
  | .float a, .float b => a == b
  | _, _ => false

instance : BEq Number := ⟨Number.beq⟩

def ofInt (n : Int) : Json := .number (.int n)

def ofNat (n : Nat) : Json := ofInt n

def insertField (key : String) (value : Json) : List (String × Json) → List (String × Json)
  | [] => [(key, value)]
  | (k, v) :: rest =>
    if key < k then (key, value) :: (k, v) :: rest
    else if key = k then (key, value) :: rest
    else (k, v) :: insertField key value rest

/-- An object with its keys in ascending order; of several fields of one key the last stays. -/
def mkObject (fields : List (String × Json)) : Json :=
  .object (fields.foldl (fun acc f => insertField f.1 f.2 acc) [])

mutual

def beq : Json → Json → Bool
  | .null, .null => true
  | .bool a, .bool b => a == b
  | .number a, .number b => a == b
  | .string a, .string b => a == b
  | .array a, .array b => beqItems a b
  | .object a, .object b => beqFields a b
  | _, _ => false

def beqItems : List Json → List Json → Bool
  | [], [] => true
  | a :: as, b :: bs => beq a b && beqItems as bs
  | _, _ => false

def beqFields : List (String × Json) → List (String × Json) → Bool
  | [], [] => true
  | (k, a) :: as, (l, b) :: bs => k == l && beq a b && beqFields as bs
  | _, _ => false

end

instance : BEq Json := ⟨beq⟩

def lookup (key : String) : List (String × Json) → Option Json
  | [] => none
  | (k, v) :: rest => if k = key then some v else lookup key rest

def field? (key : String) : Json → Option Json
  | .object fields => lookup key fields
  | _ => none

def string? : Json → Option String
  | .string s => some s
  | _ => none

def bool? : Json → Option Bool
  | .bool b => some b
  | _ => none

def array? : Json → Option (List Json)
  | .array items => some items
  | _ => none

def object? : Json → Option (List (String × Json))
  | .object fields => some fields
  | _ => none

def nat? : Json → Option Nat
  | .number (.int n) => if 0 ≤ n then some n.toNat else none
  | _ => none

def int? : Json → Option Int
  | .number (.int n) => some n
  | _ => none

end Json

end Statechart
