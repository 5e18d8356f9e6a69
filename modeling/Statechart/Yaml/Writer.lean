import Statechart.Text.Quoted
import Statechart.Yaml.Cursor
import Statechart.Yaml.Scalar

/- Writing a text as a YAML scalar, after the colon of a block mapping: plain where that is safe,
   in single quotes where it looks like something else, as a literal block if it has lines, and in
   double quotes where nothing else can hold it. -/
namespace Statechart.Yaml

def isPrintable (c : Char) : Bool :=
  let n := c.toNat
  n == 0x0A || (0x20 ≤ n && n ≤ 0x7E) || (0xA0 ≤ n && n ≤ 0xD7FF)
    || (0xE000 ≤ n && n ≤ 0xFFFD && n != 0xFEFF)

def isForbiddenStart (c : Char) : Bool := "#,[]\x7b\x7d&*!|>'\"%@`".toList.contains c

def hasMarkInside : List Char → Bool
  | a :: b :: rest =>
    (a == ':' && endsWord (some b)) || (b == '#' && endsWord (some a)) || hasMarkInside (b :: rest)
  | [a] => a == ':'
  | [] => false

def hasMarkInFront : List Char → Bool
  | '-' :: '-' :: '-' :: _ => true
  | '.' :: '.' :: '.' :: _ => true
  | c :: rest =>
    isForbiddenStart c || ((c == '?' || c == ':' || c == '-') && endsWord rest.head?)
  | [] => false

def hasPair (first second : Char → Bool) : List Char → Bool
  | a :: b :: rest => (first a && second b) || hasPair first second (b :: rest)
  | _ => false

def isSpace (c : Char) : Bool := c == ' '

/-- Has characters that only double quotes can hold, or a space before a line break. -/
def isSpecial (cs : List Char) : Bool :=
  !cs.all isPrintable || hasPair isSpace isBreak cs

def canBePlain (cs : List Char) : Bool :=
  let isEdge (c : Char) : Bool := isSpace c || isBreak c
  !isSpecial cs && !cs.any isBreak && !cs.head?.any isEdge && !cs.getLast?.any isEdge
    && !hasMarkInFront cs && !hasMarkInside cs

def canBeSingle (cs : List Char) : Bool := !isSpecial cs && !hasPair isBreak isSpace cs

def canBeLiteral (cs : List Char) : Bool := !isSpecial cs && !cs.getLast?.any isSpace

def looksOtherwise (s : String) : Bool :=
  match readPlain s with
  | .text => isPaddedNumber s.toList
  | _ => true

def escapeLetter? (c : Char) : Option Char :=
  [(0x00, '0'), (0x07, 'a'), (0x08, 'b'), (0x09, 't'), (0x0A, 'n'), (0x0B, 'v'), (0x0C, 'f'),
   (0x0D, 'r'), (0x1B, 'e'), (0x22, '"'), (0x5C, '\\'), (0x85, 'N'), (0xA0, '_'), (0x2028, 'L'),
   (0x2029, 'P')].lookup c.toNat

def writeEscape (c : Char) : String :=
  let n := c.toNat
  let digits (width : Nat) : String := (Text.hexPadded width n).toUpper
  match escapeLetter? c with
  | some letter => "\\" ++ letter.toString
  | none =>
    if n ≤ 0xFF then "\\x" ++ digits 2
    else if n ≤ 0xFFFF then "\\u" ++ digits 4
    else "\\U" ++ digits 8

def writeDouble (cs : List Char) : String :=
  let char (c : Char) : String :=
    if !isPrintable c || isBreak c || c == '"' || c == '\\' then writeEscape c else c.toString
  "\"" ++ String.join (cs.map char) ++ "\""

def indentLines (margin : String) (char : Char → String) : Bool → List Char → String
  | _, [] => ""
  | startsLine, c :: rest =>
    if isBreak c then c.toString ++ indentLines margin char true rest
    else (if startsLine then margin else "") ++ char c ++ indentLines margin char false rest

def writeSingle (margin : String) (cs : List Char) : String :=
  let char (c : Char) : String := if c == '\'' then "''" else c.toString
  "'" ++ indentLines margin char false cs ++ (if cs.getLast?.any isBreak then margin else "") ++ "'"

def chompMark (cs : List Char) : String :=
  match cs.reverse with
  | [] => "-"
  | [c] => if isBreak c then "+" else "-"
  | c :: d :: _ => if !isBreak c then "-" else if isBreak d then "+" else ""

/-- A literal block. It tells its indentation where the first line does not show it. A line break
    at the end of the text ends its last line. -/
def writeLiteral (margin : String) (cs : List Char) : String :=
  let width := if cs.head?.any fun c => isSpace c || isBreak c then "2" else ""
  let lineEnd := if cs.getLast?.any isBreak then "" else "\n"
  "|" ++ width ++ chompMark cs ++ "\n" ++ indentLines margin Char.toString true cs ++ lineEnd

def writeText (margin : String) (s : String) : String :=
  let cs := s.toList
  if cs.contains '\n' then
    if canBeLiteral cs then writeLiteral margin cs else writeDouble cs ++ "\n"
  else if canBePlain cs && !looksOtherwise s then s ++ "\n"
  else if canBeSingle cs then writeSingle margin cs ++ "\n"
  else writeDouble cs ++ "\n"

end Statechart.Yaml
