import Statechart.Yaml.Tag
import Statechart.Yaml.Text

/- Tokens of YAML. The start and the end of block collections are tokens, too, though only
   indentation shows them in the text. -/
namespace Statechart.Yaml

inductive Token where
  | streamEnd
  | version (major minor : Nat)
  | handle (handle start : String)
  | documentStart
  | documentEnd
  | blockSequenceStart
  | blockMappingStart
  | blockEnd
  | flowSequenceStart
  | flowSequenceEnd
  | flowMappingStart
  | flowMappingEnd
  | blockEntry
  | flowEntry
  | key
  | value
  | reference (name : String)
  | anchor (name : String)
  | tag (tag : Tag)
  | scalar (text : String) (style : Style)
deriving DecidableEq, Repr

structure PossibleKey where
  number : Nat
  isRequired : Bool
  index : Nat
  line : Nat
  column : Nat

structure Lexer where
  cursor : Cursor
  tokens : List Token := []
  count : Nat := 0
  keys : List (Option PossibleKey) := [none]
  indents : List Nat := []
  keyAllowed : Bool := true

namespace Lexer

def inFlow (l : Lexer) : Bool := 1 < l.keys.length

def floor (l : Lexer) : Nat := (l.indents.head?.map (· + 1)).getD 0

def emit (t : Token) (l : Lexer) : Lexer :=
  { l with tokens := t :: l.tokens, count := l.count + 1 }

def insert (number : Nat) (t : Token) (l : Lexer) : Lexer :=
  let later := l.count - number
  { l with tokens := l.tokens.take later ++ t :: l.tokens.drop later, count := l.count + 1 }

def emitMark (t : Token) (width : Nat) (l : Lexer) : Lexer :=
  { l.emit t with cursor := l.cursor.advance width }

def unroll (column : Option Nat) (l : Lexer) : Lexer :=
  if l.inFlow then l
  else
    let closed := (l.indents.takeWhile fun i => column.all (· < i)).length
    { l with
      tokens := List.replicate closed .blockEnd ++ l.tokens
      count := l.count + closed
      indents := l.indents.drop closed }

def roll (column number : Nat) (t : Token) (l : Lexer) : Lexer :=
  if l.inFlow || !l.indents.head?.all (· < column) then l
  else { l.insert number t with indents := column :: l.indents }

def dropKey (l : Lexer) : Option Lexer :=
  match l.keys with
  | some k :: rest => if k.isRequired then none else some { l with keys := none :: rest }
  | _ => some l

def noteKey (l : Lexer) : Option Lexer :=
  if !l.keyAllowed then some l
  else do
    let c := l.cursor
    let isRequired := !l.inFlow && l.indents.head? == some c.column
    let l ← l.dropKey
    let k : PossibleKey := ⟨l.count, isRequired, c.index, c.line, c.column⟩
    some { l with keys := some k :: l.keys.drop 1 }

/-- A key stands on one line and within 1024 characters; others are given up. -/
def dropStale (l : Lexer) : Option Lexer := do
  let isStale (k : PossibleKey) : Bool :=
    k.line < l.cursor.line || k.index + 1024 < l.cursor.index
  let keys ← l.keys.mapM fun
    | some k => if !isStale k then some (some k) else if k.isRequired then none else some none
    | none => some none
  some { l with keys }

/-- Skips blanks, comments and line breaks. A tab is no blank where a key may start, and a mark of
    byte order is one where a line does, though it takes a column. -/
def skipIdle : Nat → Lexer → Lexer
  | 0, l => l
  | fuel + 1, l =>
    let tabs := l.inFlow || !l.keyAllowed
    let c := l.cursor
    let c := if c.column == 0 && c.peek.any (·.toNat == 0xFEFF) then c.skip else c
    let c := c.skipWhile fun char => char == ' ' || (tabs && char == '\t')
    let c := if c.isAt '#' then c.skipWhile (!isBreak ·) else c
    if c.peek.any isBreak then
      skipIdle fuel { l with cursor := c.skipBreak, keyAllowed := l.keyAllowed || !l.inFlow }
    else { l with cursor := c }

def closeAll (l : Lexer) : Option Lexer := do
  let l ← (l.unroll none).dropKey
  some { l with keyAllowed := false }

def readEnd (l : Lexer) : Option Lexer := do some ((← l.closeAll).emit .streamEnd)

def versionPart? (c : Cursor) : Option (Nat × Cursor) := do
  let digits := c.rest.takeWhile Decimal.isDigit
  if 9 < digits.length then none
  else some (← readDigits 10 digits, c.advance digits.length)

def directive? (name : List Char) (c : Cursor) : Option (Token × Cursor) :=
  let c := c.skipWhile isBlank
  if name == "YAML".toList then do
    let (major, c) ← versionPart? c
    if !c.isAt '.' then none
    else
      let (minor, c) ← versionPart? c.skip
      some (.version major minor, c)
  else if name == "TAG".toList && c.isAt '!' then do
    let (handle, c) := handleText c
    if handle != ['!'] && (handle.length < 2 || handle.getLast? != some '!') then none
    else if !c.peek.any isBlank then none
    else
      let (start, c) ← tagText? true (c.skipWhile isBlank)
      if endsWord c.peek then some (.handle (String.ofList handle) start, c) else none
  else none

def readDirective (l : Lexer) : Option Lexer := do
  let l ← l.closeAll
  let c := l.cursor.skip
  let name := c.rest.takeWhile isNameChar
  let c := c.advance name.length
  if !endsWord c.peek then none
  else
    let (t, c) ← directive? name c
    some { l.emit t with cursor := ← c.skipToEnd? }

def readBoundary (t : Token) (l : Lexer) : Option Lexer := do
  some ((← l.closeAll).emitMark t 3)

def readFlowStart (t : Token) (l : Lexer) : Option Lexer := do
  let l ← l.noteKey
  some ({ l with keys := none :: l.keys, keyAllowed := true }.emitMark t 1)

def readFlowEnd (t : Token) (l : Lexer) : Option Lexer := do
  let l ← l.dropKey
  let keys := if l.inFlow then l.keys.drop 1 else l.keys
  some ({ l with keys, keyAllowed := false }.emitMark t 1)

def readFlowEntry (l : Lexer) : Option Lexer := do
  let l ← l.dropKey
  some ({ l with keyAllowed := true }.emitMark .flowEntry 1)

def readBlockEntry (l : Lexer) : Option Lexer :=
  if !l.inFlow && !l.keyAllowed then none
  else do
    let l ← (l.roll l.cursor.column l.count .blockSequenceStart).dropKey
    some ({ l with keyAllowed := true }.emitMark .blockEntry 1)

def readKey (l : Lexer) : Option Lexer :=
  if !l.inFlow && !l.keyAllowed then none
  else do
    let l ← (l.roll l.cursor.column l.count .blockMappingStart).dropKey
    some ({ l with keyAllowed := !l.inFlow }.emitMark .key 1)

def readValue (l : Lexer) : Option Lexer :=
  match l.keys with
  | some k :: rest =>
    let l := (l.insert k.number .key).roll k.column k.number .blockMappingStart
    some ({ l with keys := none :: rest, keyAllowed := false }.emitMark .value 1)
  | _ =>
    if !l.inFlow && !l.keyAllowed then none
    else
      let l := l.roll l.cursor.column l.count .blockMappingStart
      some ({ l with keyAllowed := !l.inFlow }.emitMark .value 1)

def readName (token : String → Token) (l : Lexer) : Option Lexer := do
  let l ← l.noteKey
  let c := l.cursor.skip
  let name := c.rest.takeWhile isNameChar
  let c := c.advance name.length
  if name.isEmpty || !(endsWord c.peek || c.peek.any fun d => "?:,]\x7d%@`".toList.contains d) then
    none
  else some { l.emit (token (String.ofList name)) with cursor := c, keyAllowed := false }

def readTag (l : Lexer) : Option Lexer := do
  let l ← l.noteKey
  let (tag, cursor) ← tag? l.inFlow l.cursor
  some { l.emit (.tag tag) with cursor, keyAllowed := false }

def readBlockScalar (style : Style) (l : Lexer) : Option Lexer := do
  let l ← l.dropKey
  let (text, cursor) ← blockText? (style == .folded) l.floor l.cursor
  some { l.emit (.scalar text style) with cursor, keyAllowed := true }

def readQuoted (quote : Char) (l : Lexer) : Option Lexer := do
  let l ← l.noteKey
  let (text, cursor) ← quotedText? quote l.cursor
  some { l.emit (.scalar text .quoted) with cursor, keyAllowed := false }

def readPlain (l : Lexer) : Option Lexer := do
  let l ← l.noteKey
  let p ← plainText? l.inFlow l.floor l.cursor
  some { l.emit (.scalar (String.ofList p.text) .plain) with
         cursor := p.cursor, keyAllowed := p.isBroken }

def isIndicator (c : Char) : Bool := "-?:,[]\x7b\x7d#&*!|>'\"%@`".toList.contains c

def startsPlain (inFlow : Bool) (char : Char) (next : Option Char) : Bool :=
  (!isIndicator char && !isBlank char) || (char == '-' && !next.any isBlank)
    || (!inFlow && (char == '?' || char == ':') && !endsWord next)

def readToken (char : Char) (next : Option Char) (l : Lexer) : Option Lexer :=
  match char with
  | '[' => l.readFlowStart .flowSequenceStart
  | '\x7b' => l.readFlowStart .flowMappingStart
  | ']' => l.readFlowEnd .flowSequenceEnd
  | '\x7d' => l.readFlowEnd .flowMappingEnd
  | ',' => l.readFlowEntry
  | '*' => l.readName .reference
  | '&' => l.readName .anchor
  | '!' => l.readTag
  | '\'' => l.readQuoted '\''
  | '"' => l.readQuoted '"'
  | _ =>
    if char == '-' && endsWord next then l.readBlockEntry
    else if char == '?' && (l.inFlow || endsWord next) then l.readKey
    else if char == ':' && (l.inFlow || endsWord next) then l.readValue
    else if char == '|' && !l.inFlow then l.readBlockScalar .literal
    else if char == '>' && !l.inFlow then l.readBlockScalar .folded
    else if startsPlain l.inFlow char next then l.readPlain
    else none

def step (l : Lexer) : Option Lexer := do
  let l := l.skipIdle (l.cursor.rest.length + 1)
  let l ← l.dropStale
  let l := l.unroll (some l.cursor.column)
  match l.cursor.rest with
  | [] => l.readEnd
  | char :: rest =>
    if l.cursor.column == 0 && char == '%' then l.readDirective
    else if l.cursor.isAtMarker '-' then l.readBoundary .documentStart
    else if l.cursor.isAtMarker '.' then l.readBoundary .documentEnd
    else l.readToken char rest.head?

/-- All tokens up to the end. Each step but the last consumes a character. -/
def run : Nat → Lexer → Option (List Token)
  | 0, _ => none
  | fuel + 1, l => do
    let l ← l.step
    if l.tokens.head? == some .streamEnd then some l.tokens.reverse else run fuel l

end Lexer

def tokens? (text : String) : Option (List Token) :=
  let cs := text.toList
  if cs.all isReadable then Lexer.run (cs.length + 2) { cursor := { rest := cs } } else none

end Statechart.Yaml
