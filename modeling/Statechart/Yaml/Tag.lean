import Statechart.Yaml.Cursor
import Statechart.Yaml.Scalar

/- Tags as they are written: a handle, which directives may define, and a suffix. -/
namespace Statechart.Yaml

structure Tag where
  handle : String
  suffix : String
deriving DecidableEq, Repr

namespace Tag

def knownHandles : List (String × String) := [("!", "!"), ("!!", coreTag "")]

/-- The whole tag, which ends at the first null character. -/
def resolve? (handles : List (String × String)) (t : Tag) : Option String :=
  let whole (start : String) : String :=
    String.ofList ((start ++ t.suffix).toList.takeWhile (·.toNat != 0))
  if t.handle == "" then some (whole "") else (handles.lookup t.handle).map whole

end Tag

def octetCount? (octet : Nat) : Option Nat :=
  if octet < 0x80 then some 1
  else if octet / 0x20 == 0x6 then some 2
  else if octet / 0x10 == 0xE then some 3
  else if octet / 0x8 == 0x1E then some 4
  else none

/-- The character of some octets; a replacement when they are no proper form of one. -/
def decodeOctets : List Nat → Char
  | [a] => Char.ofNat a
  | octets =>
    let lead := match octets with
      | [a, _] => a % 0x20
      | [a, _, _] => a % 0x10
      | a :: _ => a % 0x8
      | [] => 0
    let code := (octets.drop 1).foldl (fun n octet => n * 0x40 + octet % 0x40) lead
    let least := match octets.length with
      | 2 => 0x80
      | 3 => 0x800
      | _ => 0x10000
    if least ≤ code && code.isValidChar then Char.ofNat code else Char.ofNat 0xFFFD

def octets? : Nat → List Char → Option (List Nat)
  | 0, _ => some []
  | count + 1, cs =>
    match cs with
    | '%' :: a :: b :: rest => do
      let octet ← readDigits 16 [a, b]
      let octets ← octets? count rest
      some (octet :: octets)
    | _ => none

def escapedChar? (c : Cursor) : Option (Char × Cursor) := do
  let first ← octets? 1 c.rest
  let count ← octetCount? (first.headD 0)
  let octets ← octets? count c.rest
  if (octets.drop 1).all (· / 0x40 == 0x2) then
    some (decodeOctets octets, c.advance (3 * count))
  else none

def isTagChar (isVerbatim : Bool) (c : Char) : Bool :=
  isNameChar c || ";/?:@&=+$.%!~*'()".toList.contains c
    || (isVerbatim && (c == ',' || c == '[' || c == ']'))

def tagRest (isVerbatim : Bool) : Nat → List Char → Cursor → Option (List Char × Cursor)
  | 0, _, _ => none
  | fuel + 1, acc, c =>
    match c.peek with
    | none => some (acc, c)
    | some char =>
      if !isTagChar isVerbatim char then some (acc, c)
      else if char == '%' then
        (escapedChar? c).bind fun (char, c) => tagRest isVerbatim fuel (char :: acc) c
      else tagRest isVerbatim fuel (char :: acc) c.skip

def tagText? (isVerbatim : Bool) (c : Cursor) : Option (String × Cursor) := do
  let (acc, c) ← tagRest isVerbatim (c.rest.length + 1) [] c
  if acc.isEmpty then none else some (String.ofList acc.reverse, c)

def handleText (c : Cursor) : List Char × Cursor :=
  let name := (c.rest.drop 1).takeWhile isNameChar
  let after := c.advance (1 + name.length)
  if after.isAt '!' then ('!' :: name ++ ['!'], after.skip) else ('!' :: name, after)

def verbatimTag? (c : Cursor) : Option (Tag × Cursor) := do
  let (suffix, c) ← tagText? true (c.advance 2)
  if c.isAt '>' then some (⟨"", suffix⟩, c.skip) else none

def shorthandTag? (c : Cursor) : Option (Tag × Cursor) := do
  let (handle, c) := handleText c
  if 1 < handle.length && handle.getLast? == some '!' then
    let (suffix, c) ← tagText? false c
    some (⟨String.ofList handle, suffix⟩, c)
  else
    let (acc, c) ← tagRest false (c.rest.length + 1) (handle.drop 1).reverse c
    let suffix := acc.reverse
    if suffix.head?.all (·.toNat == 0) then some (⟨"", "!"⟩, c)
    else some (⟨"!", String.ofList suffix⟩, c)

/-- The tag at the front. A blank has to follow, or a comma inside flow collections. -/
def tag? (inFlow : Bool) (c : Cursor) : Option (Tag × Cursor) := do
  let (tag, c) ← if c.rest[1]? == some '<' then verbatimTag? c else shorthandTag? c
  if endsWord c.peek || (inFlow && c.isAt ',') then some (tag, c) else none

end Statechart.Yaml
