import Statechart.Document

/- Reading JSON texts.

   A text is first read into a document, with fields as written. Half of a pair of surrogates and
   a number that is too large are well formed: they matter only to a reader that wants them, and so
   does the limit of 127 open containers. -/
namespace Statechart.Json

open Decimal (isDigit digitsValue)

abbrev Reader (α : Type) := List Char → Option (α × List Char)

def isSpace (c : Char) : Bool := c == ' ' || c == '\n' || c == '\t' || c == '\r'

def skipSpace (cs : List Char) : List Char := cs.dropWhile isSpace

/-- Takes digits into a word of sixty-four bits while they fit; answers the word, how many were
    taken, and what follows. -/
def takeDigits (word taken : Nat) : List Char → Nat × Nat × List Char
  | [] => (word, taken, [])
  | c :: rest =>
    let next := 10 * word + (c.toNat - '0'.toNat)
    if isDigit c && next < Decimal.twoTo 64 then takeDigits next (taken + 1) rest
    else (word, taken, c :: rest)

/-- `word * 10 ^ exponent` by one rounded conversion and rounded multiplications or divisions
    by powers of ten; none when the result is too large for a double. -/
def scale (word : Nat) (exponent : Int) : Option Float :=
  let f := Float.ofNat word
  if word == 0 then some f
  else if 0 ≤ exponent then
    if exponent ≤ 308 then
      let r := f * Decimal.toNearest 1 exponent
      if r.isInf then none else some r
    else none
  else shrink 3 f exponent.natAbs
where
  shrink : Nat → Float → Nat → Option Float
    | 0, _, _ => some 0.0
    | rounds + 1, f, places =>
      if places ≤ 308 then some (f / Decimal.toNearest 1 places)
      else shrink rounds (f / Decimal.toNearest 1 308) (places - 308)

def readPower (word : Nat) (exponent : Int) (cs : List Char) :
    Option (Option Float × List Char) :=
  match cs with
  | c :: rest =>
    if c == 'e' || c == 'E' then
      let (negative, body) := Decimal.readSign rest
      let ds := body.takeWhile isDigit
      let tail := body.dropWhile isDigit
      if ds == [] then none
      else
        let power : Int := digitsValue ds
        some (scale word (exponent + (if negative then -power else power)), tail)
    else some (scale word exponent, cs)
  | [] => some (scale word exponent, [])

def readFraction (word : Nat) (exponent : Int) (cs : List Char) :
    Option (Option Float × List Char) :=
  match cs with
  | '.' :: rest =>
    if rest.takeWhile isDigit == [] then none
    else
      let (word', taken, more) := takeDigits word 0 rest
      readPower word' (exponent - taken) (more.dropWhile isDigit)
  | _ => readPower word exponent cs

/-- The digits of an unsigned number: one zero, or digits that start with another. The number
    itself is missing when it is too large. -/
def readMagnitude (negative : Bool) (cs : List Char) : Option (Option Number × List Char) :=
  let ds := cs.takeWhile isDigit
  let tail := cs.dropWhile isDigit
  let asFloat (r : Option (Option Float × List Char)) : Option (Option Number × List Char) :=
    r.map fun (f, rest) => (f.map fun f => .float (Decimal.signed negative f), rest)
  match ds with
  | [] => none
  | '0' :: _ :: _ => none
  | _ =>
    let (word, taken, _) := takeDigits 0 0 ds
    let dropped := ds.length - taken
    let integral := match tail with
      | c :: _ => !(c == '.' || c == 'e' || c == 'E')
      | [] => true
    if integral && dropped == 0 then
      if !negative then some (some (.int word), tail)
      else if word == 0 || Decimal.twoTo 63 < word then
        some (some (.float (-(Float.ofNat word))), tail)
      else some (some (.int (-(word : Int))), tail)
    else asFloat (readFraction word dropped tail)

def readNumber : List Char → Option (Option Number × List Char)
  | '-' :: rest => readMagnitude true rest
  | cs => readMagnitude false cs

def hexDigit? (c : Char) : Option Nat :=
  if isDigit c then some (c.toNat - '0'.toNat)
  else if 'a' ≤ c && c ≤ 'f' then some (c.toNat - 'a'.toNat + 10)
  else if 'A' ≤ c && c ≤ 'F' then some (c.toNat - 'A'.toNat + 10)
  else none

def readHex4 : Reader Nat
  | a :: b :: c :: d :: rest => do
    let a ← hexDigit? a
    let b ← hexDigit? b
    let c ← hexDigit? c
    let d ← hexDigit? d
    return (((a * 16 + b) * 16 + c) * 16 + d, rest)
  | _ => none

def readUnicode (cs : List Char) : Option (Option Char × List Char) := do
  let (n, rest) ← readHex4 cs
  if 0xDC00 ≤ n && n ≤ 0xDFFF then some (none, rest)
  else if 0xD800 ≤ n && n ≤ 0xDBFF then
    match rest with
    | '\\' :: 'u' :: more =>
      match readHex4 more with
      | some (m, after) =>
        if 0xDC00 ≤ m && m ≤ 0xDFFF then
          some (some (Char.ofNat (0x10000 + (n - 0xD800) * 0x400 + (m - 0xDC00))), after)
        else some (none, rest)
      | none => some (none, rest)
    | _ => some (none, rest)
  else some (some (Char.ofNat n), rest)

def readEscape : List Char → Option (Option Char × List Char)
  | 'u' :: rest => readUnicode rest
  | '"' :: rest => some (some '"', rest)
  | '\\' :: rest => some (some '\\', rest)
  | '/' :: rest => some (some '/', rest)
  | 'b' :: rest => some (some (Char.ofNat 8), rest)
  | 'f' :: rest => some (some (Char.ofNat 12), rest)
  | 'n' :: rest => some (some '\n', rest)
  | 'r' :: rest => some (some '\r', rest)
  | 't' :: rest => some (some '\t', rest)
  | _ => none

def readString (fuel : Nat) (acc : List (Option Char)) (cs : List Char) :
    Option (Option String × List Char) :=
  match fuel, cs with
  | 0, _ => none
  | _, [] => none
  | fuel + 1, c :: rest =>
    if c == '"' then some ((acc.reverse.mapM id).map String.ofList, rest)
    else if c == '\\' then
      match readEscape rest with
      | some (e, rest) => readString fuel (e :: acc) rest
      | none => none
    else if c.toNat < 0x20 then none
    else readString fuel (some c :: acc) rest

def asDocument : Option Json → Document
  | some j => .ofJson j
  | none => .atom none .unreadable

def readWord (word : String) (value : Json) (cs : List Char) : Option (Document × List Char) :=
  if word.toList.isPrefixOf cs then some (.ofJson value, cs.drop word.length) else none

mutual

def readValue (fuel : Nat) (cs : List Char) : Option (Document × List Char) :=
  match fuel with
  | 0 => none
  | fuel + 1 =>
    match skipSpace cs with
    | 'n' :: rest => readWord "ull" .null rest
    | 't' :: rest => readWord "rue" (.bool true) rest
    | 'f' :: rest => readWord "alse" (.bool false) rest
    | '"' :: rest =>
      (readString fuel [] rest).map fun (s, rest) => (asDocument (s.map .string), rest)
    | '[' :: rest =>
      match skipSpace rest with
      | ']' :: rest => some (.list none [], rest)
      | rest => (readItems fuel rest).map fun (items, rest) => (.list none items, rest)
    | '\x7b' :: rest =>
      match skipSpace rest with
      | '\x7d' :: rest => some (.record none [], rest)
      | rest => (readFields fuel rest).map fun (fields, rest) => (.record none fields, rest)
    | rest => (readNumber rest).map fun (n, rest) => (asDocument (n.map .number), rest)

def readItems (fuel : Nat) (cs : List Char) : Option (List Document × List Char) :=
  match fuel with
  | 0 => none
  | fuel + 1 => do
    let (item, rest) ← readValue fuel cs
    match skipSpace rest with
    | ',' :: rest =>
      let (items, rest) ← readItems fuel rest
      some (item :: items, rest)
    | ']' :: rest => some ([item], rest)
    | _ => none

def readFields (fuel : Nat) (cs : List Char) : Option (List (Document × Document) × List Char) :=
  match fuel with
  | 0 => none
  | fuel + 1 =>
    match skipSpace cs with
    | '"' :: rest => do
      let (key, rest) ← readString fuel [] rest
      let key := asDocument (key.map .string)
      match skipSpace rest with
      | ':' :: rest =>
        let (value, rest) ← readValue fuel rest
        match skipSpace rest with
        | ',' :: rest =>
          let (fields, rest) ← readFields fuel rest
          some ((key, value) :: fields, rest)
        | '\x7d' :: rest => some ([(key, value)], rest)
        | _ => none
      | _ => none
    | _ => none

end

/-- Reads a whole text into a document. Every call of the readers consumes a character or hands
    over to one that does, so twice the length bounds their number on any path. -/
def manuscript? (text : String) : Option Manuscript :=
  let cs := text.toList
  match readValue (2 * cs.length + 2) cs with
  | some (root, rest) =>
    if skipSpace rest == [] then some { root, rows := true, choiceRows := true, depth := 127 }
    else none
  | none => none

def parse (text : String) : Option Json := (manuscript? text).bind (·.read Place.json)

end Statechart.Json
