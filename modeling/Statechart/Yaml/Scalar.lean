import Statechart.Document

/- Scalars of YAML and what they stand for. -/
namespace Statechart.Yaml

inductive Style where
  | plain
  | quoted
  | literal
  | folded
deriving DecidableEq, Repr

def isNullWord (s : String) : Bool := s == "~" || s == "null" || s == "Null" || s == "NULL"

def boolWord? (s : String) : Option Bool :=
  if s == "true" || s == "True" || s == "TRUE" then some true
  else if s == "false" || s == "False" || s == "FALSE" then some false
  else none

def digit? (base : Nat) (c : Char) : Option Nat :=
  let value :=
    if '0' ≤ c && c ≤ '9' then some (c.toNat - '0'.toNat)
    else if 'a' ≤ c && c ≤ 'f' then some (c.toNat - 'a'.toNat + 10)
    else if 'A' ≤ c && c ≤ 'F' then some (c.toNat - 'A'.toNat + 10)
    else none
  value.filter (· < base)

def readDigits (base : Nat) (cs : List Char) : Option Nat :=
  if cs.isEmpty then none
  else cs.foldlM (fun n c => (digit? base c).map (base * n + ·)) 0

def readMagnitude : List Char → Option Nat
  | '0' :: 'x' :: rest => readDigits 16 rest
  | '0' :: 'o' :: rest => readDigits 8 rest
  | '0' :: 'b' :: rest => readDigits 2 rest
  | '0' :: _ :: _ => none
  | cs => readDigits 10 cs

def readUnsigned : List Char → Option Nat
  | '+' :: rest => readMagnitude rest
  | cs => readMagnitude cs

def readInteger : List Char → Option Int
  | '-' :: rest => (readMagnitude rest).map fun n => -(n : Int)
  | cs => (readUnsigned cs).map Int.ofNat

/-- Leading zeros before digits only make a text, not a number. -/
def isPaddedNumber (cs : List Char) : Bool :=
  let digits := match cs with
    | '-' :: rest | '+' :: rest => rest
    | _ => cs
  match digits with
  | '0' :: rest => !rest.isEmpty && rest.all Decimal.isDigit
  | _ => false

def readFloat (s : String) : Option Float :=
  if [".inf", ".Inf", ".INF", "+.inf", "+.Inf", "+.INF"].contains s then some Decimal.infinity
  else if ["-.inf", "-.Inf", "-.INF"].contains s then some (-Decimal.infinity)
  else if [".nan", ".NaN", ".NAN"].contains s then some Decimal.notANumber
  else (Decimal.read s).filter Float.isFinite

inductive Reading where
  | nothing
  | flag (b : Bool)
  | integer (n : Int)
  | float (f : Float)
  | text

/-- Integers have at most 128 bits; a longer one is a float. -/
def readInteger128 (s : String) : Option Int :=
  (readInteger s.toList).filter fun n =>
    -(Decimal.twoTo 127 : Int) ≤ n && n < (Decimal.twoTo 128 : Int)

def readPlain (s : String) : Reading :=
  if s == "" || isNullWord s then .nothing
  else
    match boolWord? s with
    | some b => .flag b
    | none =>
      match readInteger128 s with
      | some n => .integer n
      | none =>
        if isPaddedNumber s.toList then .text
        else
          match readFloat s with
          | some f => .float f
          | none => .text

/-- JSON has integers of sixty-four bits, with or without a sign. -/
def integerValue? (n : Int) : Option Json :=
  if -(Decimal.twoTo 63 : Int) ≤ n && n < (Decimal.twoTo 64 : Int) then some (Json.ofInt n)
  else none

def floatValue (f : Float) : Json := if f.isFinite then .number (.float f) else .null

def Reading.value? (s : String) : Reading → Option Json
  | .nothing => some .null
  | .flag b => some (.bool b)
  | .integer n => integerValue? n
  | .float f => some (floatValue f)
  | .text => some (.string s)

def coreTag (name : String) : String := "tag:yaml.org,2002:" ++ name

structure Scalar where
  text : String
  style : Style
  tag : Option String := none

namespace Scalar

def isPlainOr (tag : String) (s : Scalar) : Bool :=
  s.style == .plain || (s.style == .literal && s.tag == some tag)

def value? (s : Scalar) : Option Json :=
  match s.tag with
  | none => if s.style == .plain then (readPlain s.text).value? s.text else some (.string s.text)
  | some tag =>
    if tag == coreTag "bool" then (boolWord? s.text).map .bool
    else if tag == coreTag "int" then (readInteger128 s.text).bind integerValue?
    else if tag == coreTag "float" then (readFloat s.text).map floatValue
    else if tag == coreTag "null" then if isNullWord s.text then some .null else none
    else some (.string s.text)

def absent? (s : Scalar) : Option Bool :=
  if s.style != .plain then some false
  else
    match s.tag with
    | none => some (s.text == "" || isNullWord s.text)
    | some tag =>
      if tag != coreTag "null" then some false
      else if isNullWord s.text then some true
      else none

def toAtom (s : Scalar) : Atom :=
  { text := some s.text
    nat := if s.isPlainOr (coreTag "int") then
        (readUnsigned s.text.toList).filter (· < Decimal.twoTo 64)
      else none
    flag := if s.isPlainOr (coreTag "bool") then boolWord? s.text else none
    value := s.value?
    absent := s.absent?
    isEmpty := s.style == .plain && s.text == ""
    isBare := s.style == .plain && (s.text == "" || isNullWord s.text) }

def label? (tag : Option String) : Option String :=
  match tag.map String.toList with
  | some ('!' :: name) => some (String.ofList name)
  | _ => none

def toDocument (s : Scalar) : Document := .atom (label? s.tag) s.toAtom

def empty : Scalar := { text := "", style := .plain }

end Scalar

end Statechart.Yaml
