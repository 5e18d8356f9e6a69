import Statechart.Yaml.Cursor
import Statechart.Yaml.Scalar

/- Texts of scalars: quoted, plain and in blocks. A text that is being collected is kept with its
   latest character first. Every step of the readers consumes a character, so one more than what is
   left bounds their number; a reader that calls others between its steps has that many to spare. -/
namespace Statechart.Yaml

structure Gap where
  blanks : List Char := []
  isBroken : Bool := false
  first : List Char := []
  more : List Char := []

namespace Gap

/-- The gap in the text, backwards. One line break alone is a space, further ones replace it. -/
def folded (g : Gap) : List Char :=
  if !g.isBroken then g.blanks
  else if g.first == ['\n'] then if g.more.isEmpty then [' '] else g.more
  else g.more ++ g.first

def take (floor : Nat) : Nat → Gap → Cursor → Option (Gap × Cursor)
  | 0, _, _ => none
  | fuel + 1, g, c =>
    match c.peek with
    | none => some (g, c)
    | some char =>
      if isBlank char then
        if g.isBroken && c.column < floor && char == '\t' then none
        else
          let g := if g.isBroken then g else { g with blanks := char :: g.blanks }
          take floor fuel g c.skip
      else if isBreak char then
        let (text, c) := c.takeBreak
        if g.isBroken then take floor fuel { g with more := text ++ g.more } c
        else take floor fuel { isBroken := true, first := text } c
      else some (g, c)

end Gap

def escaped? (c : Char) : Option Char :=
  [('0', Char.ofNat 0), ('a', Char.ofNat 7), ('b', Char.ofNat 8), ('t', '\t'), ('\t', '\t'),
   ('n', '\n'), ('v', Char.ofNat 11), ('f', Char.ofNat 12), ('r', '\r'), ('e', Char.ofNat 27),
   (' ', ' '), ('"', '"'), ('/', '/'), ('\\', '\\'), ('N', Char.ofNat 0x85),
   ('_', Char.ofNat 0xA0), ('L', Char.ofNat 0x2028), ('P', Char.ofNat 0x2029)].lookup c

def escapeWidth? (c : Char) : Option Nat := [('x', 2), ('u', 4), ('U', 8)].lookup c

def readCode (cs : List Char) : Option Char :=
  (readDigits 16 cs).bind fun n => if n.isValidChar then some (Char.ofNat n) else none

def singleRun : Nat → List Char → Cursor → List Char × Cursor
  | 0, acc, c => (acc, c)
  | fuel + 1, acc, c =>
    match c.rest with
    | '\'' :: '\'' :: _ => singleRun fuel ('\'' :: acc) (c.advance 2)
    | '\'' :: _ => (acc, c)
    | char :: _ => if endsWord char then (acc, c) else singleRun fuel (char :: acc) c.skip
    | [] => (acc, c)

/-- A run without blanks between double quotes. It ends, too, at an escaped line break, which
    joins it to what follows. -/
def doubleRun : Nat → List Char → Cursor → Option (List Char × Gap × Cursor)
  | 0, _, _ => none
  | fuel + 1, acc, c =>
    match c.rest with
    | ['\\'] => none
    | '\\' :: e :: rest =>
      if isBreak e then some (acc, { isBroken := true }, c.skip.skipBreak)
      else
        match escaped? e, escapeWidth? e with
        | some char, _ => doubleRun fuel (char :: acc) (c.advance 2)
        | none, some width =>
          if rest.length < width then none
          else
            (readCode (rest.take width)).bind fun char =>
              doubleRun fuel (char :: acc) (c.advance (2 + width))
        | none, none => none
    | char :: _ =>
      if char == '"' || endsWord char then some (acc, {}, c)
      else doubleRun fuel (char :: acc) c.skip
    | [] => some (acc, {}, c)

def quotedRest (quote : Char) : Nat → List Char → Cursor → Option (List Char × Cursor)
  | 0, _, _ => none
  | fuel + 1, acc, c =>
    if c.isAtBoundary || c.rest.isEmpty then none
    else do
      let (acc, gap, c) ←
        if quote == '"' then doubleRun fuel acc c
        else
          let (acc, c) := singleRun fuel acc c
          some (acc, {}, c)
      if c.isAt quote then some (acc, c.skip)
      else
        let (gap, c) ← gap.take 0 fuel c
        quotedRest quote fuel (gap.folded ++ acc) c

def quotedText? (quote : Char) (c : Cursor) : Option (String × Cursor) :=
  (quotedRest quote (c.rest.length + 1) [] c.skip).map fun (acc, c) =>
    (String.ofList acc.reverse, c)

def isFlowMark (c : Char) : Bool := ",[]\x7b\x7d".toList.contains c

/-- A run of a plain scalar without blanks. A colon before a blank ends it, and inside flow
    collections the marks of these do. -/
def plainRun (inFlow : Bool) : Nat → List Char → Cursor → Option (List Char × Cursor)
  | 0, _, _ => none
  | fuel + 1, acc, c =>
    match c.rest with
    | [] => some (acc, c)
    | char :: rest =>
      if endsWord char then some (acc, c)
      else if inFlow && char == ':' && rest.head?.any (fun d => isFlowMark d || d == '?') then none
      else if (char == ':' && endsWord rest.head?) || (inFlow && isFlowMark char) then some (acc, c)
      else plainRun inFlow fuel (char :: acc) c.skip

structure PlainText where
  text : List Char
  cursor : Cursor
  isBroken : Bool

def plainRest (inFlow : Bool) (floor : Nat) : Nat → List Char → Gap → Cursor → Option PlainText
  | 0, _, _, _ => none
  | fuel + 1, acc, gap, c =>
    let stop : Option PlainText := some ⟨acc, c, gap.isBroken⟩
    if c.isAtBoundary || c.isAt '#' then stop
    else do
      let (run, c) ← plainRun inFlow fuel [] c
      if run.isEmpty then stop
      else
        let acc := run ++ (gap.folded ++ acc)
        match c.peek with
        | none => some ⟨acc, c, false⟩
        | some char =>
          if !endsWord char then some ⟨acc, c, false⟩
          else
            let (gap, c) ← Gap.take floor fuel {} c
            if !inFlow && c.column < floor then some ⟨acc, c, gap.isBroken⟩
            else plainRest inFlow floor fuel acc gap c

def plainText? (inFlow : Bool) (floor : Nat) (c : Cursor) : Option PlainText :=
  (plainRest inFlow floor (c.rest.length + 2) [] {} c).map fun p =>
    { p with text := p.text.reverse }

/-- What happens to the line breaks at the end of a block scalar: all but one go, all go, or none
    does. -/
inductive Chomp where
  | clip
  | strip
  | keep
deriving DecidableEq, Repr

structure BlockHeader where
  chomp : Chomp := .clip
  indent : Nat := 0

def chomp? : Option Char → Option Chomp
  | some '+' => some .keep
  | some '-' => some .strip
  | _ => none

def blockHeader? (c : Cursor) : Option (BlockHeader × Cursor) := do
  let digit (c : Cursor) : Option (Nat × Cursor) :=
    match c.peek.bind (digit? 10) with
    | some 0 => none
    | some n => some (n, c.skip)
    | none => some (0, c)
  match chomp? c.peek with
  | some chomp =>
    let (indent, c) ← digit c.skip
    some ({ chomp, indent }, c)
  | none =>
    let (indent, c) ← digit c
    match if indent == 0 then none else chomp? c.peek with
    | some chomp => some ({ chomp, indent }, c.skip)
    | none => some ({ indent }, c)

def blockBreaks (indent : Nat) :
    Nat → Nat → List Char → Cursor → Option (List Char × Nat × Cursor)
  | 0, _, _, _ => none
  | fuel + 1, widest, acc, c =>
    let spaces := (c.rest.takeWhile (· == ' ')).length
    let c := c.advance (if indent == 0 then spaces else min spaces (indent - c.column))
    let widest := max widest c.column
    if (indent == 0 || c.column < indent) && c.isAt '\t' then none
    else if c.peek.any isBreak then
      let (text, c) := c.takeBreak
      blockBreaks indent fuel widest (text ++ acc) c
    else some (acc, widest, c)

structure BlockText where
  text : List Char := []
  lead : List Char := []
  trail : List Char := []
  startedBlank : Bool := false

/-- The lines of a block scalar. A break between two lines that do not start with a blank is
    folded if the scalar is. -/
def blockLines (isFolded : Bool) (indent : Nat) :
    Nat → BlockText → Cursor → Option (BlockText × Cursor)
  | 0, _, _ => none
  | fuel + 1, b, c =>
    if c.column == indent && !c.rest.isEmpty then do
      let startsBlank := c.peek.any isBlank
      let joint :=
        if isFolded && b.lead == ['\n'] && !b.startedBlank && !startsBlank then
          if b.trail.isEmpty then [' '] else []
        else b.lead
      let line := c.rest.takeWhile (!isBreak ·)
      let text := line.reverse ++ (b.trail ++ (joint ++ b.text))
      let (lead, c) := (c.advance line.length).takeBreak
      let (trail, _, c) ← blockBreaks indent fuel 0 [] c
      blockLines isFolded indent fuel { text, lead, trail, startedBlank := startsBlank } c
    else some (b, c)

def blockText? (isFolded : Bool) (floor : Nat) (c : Cursor) : Option (String × Cursor) := do
  let (header, c) ← blockHeader? c.skip
  let c ← c.skipToEnd?
  let given := if header.indent == 0 then 0 else floor - 1 + header.indent
  let (trail, widest, c) ← blockBreaks given (c.rest.length + 1) 0 [] c
  let indent := if given == 0 then max widest (max floor 1) else given
  let (b, c) ← blockLines isFolded indent (c.rest.length + 1) { trail } c
  let text := match header.chomp with
    | .strip => b.text
    | .clip => b.lead ++ b.text
    | .keep => b.trail ++ (b.lead ++ b.text)
  some (String.ofList text.reverse, c)

end Statechart.Yaml
