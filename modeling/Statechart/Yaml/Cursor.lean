import Statechart.Decimal.Reader

/- Characters of YAML texts, and a place in such a text that knows its line and column. -/
namespace Statechart.Yaml

def isBlank (c : Char) : Bool := c == ' ' || c == '\t'

def isBreak (c : Char) : Bool :=
  c == '\n' || c == '\r' || c.toNat == 0x85 || c.toNat == 0x2028 || c.toNat == 0x2029

def isNameChar (c : Char) : Bool := c.isAlphanum || c == '_' || c == '-'

def isReadable (c : Char) : Bool :=
  let n := c.toNat
  n == 0x09 || n == 0x0A || n == 0x0D || (0x20 ≤ n && n ≤ 0x7E) || n == 0x85
    || (0xA0 ≤ n && n ≤ 0xD7FF) || (0xE000 ≤ n && n ≤ 0xFFFD) || 0x10000 ≤ n

def endsWord : Option Char → Bool
  | none => true
  | some c => isBlank c || isBreak c

def endsLine : Option Char → Bool
  | none => true
  | some c => isBreak c

structure Cursor where
  rest : List Char
  index : Nat := 0
  line : Nat := 0
  column : Nat := 0

namespace Cursor

def peek (c : Cursor) : Option Char := c.rest.head?

def isAt (c : Cursor) (char : Char) : Bool := c.peek == some char

def advance (c : Cursor) (count : Nat) : Cursor :=
  { c with rest := c.rest.drop count, index := c.index + count, column := c.column + count }

def skip (c : Cursor) : Cursor := c.advance 1

def skipWhile (c : Cursor) (p : Char → Bool) : Cursor := c.advance (c.rest.takeWhile p).length

/-- A line break at the front, as it counts in a scalar; nothing at the end of the text. -/
def takeBreak (c : Cursor) : List Char × Cursor :=
  let next (rest : List Char) (count : Nat) : Cursor := ⟨rest, c.index + count, c.line + 1, 0⟩
  match c.rest with
  | '\r' :: '\n' :: rest => (['\n'], next rest 2)
  | char :: rest =>
    if !isBreak char then ([], c)
    else if char.toNat == 0x2028 || char.toNat == 0x2029 then ([char], next rest 1)
    else (['\n'], next rest 1)
  | [] => ([], c)

def skipBreak (c : Cursor) : Cursor := c.takeBreak.2

def skipToEnd? (c : Cursor) : Option Cursor :=
  let c := c.skipWhile isBlank
  let c := if c.isAt '#' then c.skipWhile (!isBreak ·) else c
  if endsLine c.peek then some c.skipBreak else none

def isAtMarker (c : Cursor) (mark : Char) : Bool :=
  c.column == 0 && c.rest.take 3 == [mark, mark, mark] && endsWord c.rest[3]?

def isAtBoundary (c : Cursor) : Bool := c.isAtMarker '-' || c.isAtMarker '.'

end Cursor

end Statechart.Yaml
