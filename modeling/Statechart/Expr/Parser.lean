import Statechart.Expr.Basic
import Statechart.Fault
import Statechart.Decimal.Reader
import Statechart.Text.WordChar

/- Reading expressions by recursive descent.

   From loosest to tightest: `||`, `&&`, `!`, one comparison, `+` and `-`, and then literals,
   paths, `In('id')` and parentheses. The operands of `+` and `-` are of the tightest kind.
   A reader takes its part off the front of the input and answers what is left. -/
namespace Statechart.Expr

def skipBlanks (cs : List Char) : List Char := cs.dropWhile Text.isBlank

def utf8Length (cs : List Char) : Nat := cs.foldl (fun n c => n + c.utf8Size) 0

def offsetOf (input rest : List Char) : Nat := utf8Length input - utf8Length rest

def readPath (input : List Char) : Nat → List Char → Except ParseError (List String × List Char)
  | 0, cs => .error (.expectedIdentifier (offsetOf input cs) (String.ofList input))
  | fuel + 1, cs =>
    let segment := cs.takeWhile Text.isWordChar
    let rest := cs.dropWhile Text.isWordChar
    if segment == [] then
      .error (.expectedIdentifier (offsetOf input cs) (String.ofList input))
    else
      match rest with
      | '.' :: more => do
        let (segments, rest) ← readPath input fuel more
        return (String.ofList segment :: segments, rest)
      | _ => .ok ([String.ofList segment], rest)

/-- The text up to the closing quote. A backslash takes the next character as it is, except that
    `n` and `t` stand for a line end and a tab. -/
def readQuoted (quote : Char) (acc : List Char) : List Char → Except ParseError (String × List Char)
  | [] => .error .unterminatedString
  | [c] => if c == quote then .ok (String.ofList acc.reverse, []) else .error .unterminatedString
  | c :: d :: rest =>
    if c == quote then .ok (String.ofList acc.reverse, d :: rest)
    else if c == '\\' then
      let taken := if d == 'n' then '\n' else if d == 't' then '\t' else d
      readQuoted quote (taken :: acc) rest
    else readQuoted quote (c :: acc) (d :: rest)

def isQuote (c : Char) : Bool := c == '"' || c == '\''

def readString : List Char → Except ParseError (String × List Char)
  | c :: rest => if isQuote c then readQuoted c [] rest else .error .expectedString
  | [] => .error .expectedString

def readNumber (cs : List Char) : Except ParseError (Float × List Char) :=
  let (sign, body) := match cs with
    | '-' :: rest => (['-'], rest)
    | _ => ([], cs)
  let whole := body.takeWhile Decimal.isDigit
  let (fraction, rest) := match body.dropWhile Decimal.isDigit with
    | '.' :: more => ('.' :: more.takeWhile Decimal.isDigit, more.dropWhile Decimal.isDigit)
    | more => ([], more)
  let text := sign ++ whole ++ fraction
  match Decimal.readChars text with
  | some f => .ok (f, rest)
  | none => .error (.invalidNumber (String.ofList text))

def readInCall (cs : List Char) : Except ParseError (Expr × List Char) :=
  match skipBlanks cs with
  | '(' :: rest => do
    let (id, rest) ← readString (skipBlanks rest)
    match skipBlanks rest with
    | ')' :: rest => return (.inState id, rest)
    | _ => .error .expectedInClose
  | _ => .error .expectedInOpen

/-- What a path stands for: a path of one reserved word is no path. -/
def readWord (segments : List String) (rest : List Char) : Except ParseError (Expr × List Char) :=
  match segments with
  | ["true"] => .ok (.literal (.bool true), rest)
  | ["false"] => .ok (.literal (.bool false), rest)
  | ["null"] => .ok (.literal .null, rest)
  | ["undefined"] => .ok (.literal .undefined, rest)
  | ["In"] => readInCall rest
  | _ => .ok (.path segments, rest)

def readCompareOp : List Char → Option (CompareOp × List Char)
  | '=' :: '=' :: rest => some (.eq, rest)
  | '!' :: '=' :: rest => some (.ne, rest)
  | '>' :: '=' :: rest => some (.ge, rest)
  | '<' :: '=' :: rest => some (.le, rest)
  | '>' :: rest => some (.gt, rest)
  | '<' :: rest => some (.lt, rest)
  | _ => none

def readArithOp : List Char → Option (ArithOp × List Char)
  | '+' :: rest => some (.add, rest)
  | '-' :: rest => some (.sub, rest)
  | _ => none

mutual

def readOr (input : List Char) (fuel : Nat) (cs : List Char) :
    Except ParseError (Expr × List Char) :=
  match fuel with
  | 0 => .error .unexpectedEnd
  | fuel + 1 => do
    let (left, rest) ← readAnd input fuel cs
    readOrTail input fuel left rest

def readOrTail (input : List Char) (fuel : Nat) (left : Expr) (cs : List Char) :
    Except ParseError (Expr × List Char) :=
  match fuel with
  | 0 => .error .unexpectedEnd
  | fuel + 1 =>
    match skipBlanks cs with
    | '|' :: '|' :: rest => do
      let (right, rest) ← readAnd input fuel rest
      readOrTail input fuel (.or left right) rest
    | rest => .ok (left, rest)

def readAnd (input : List Char) (fuel : Nat) (cs : List Char) :
    Except ParseError (Expr × List Char) :=
  match fuel with
  | 0 => .error .unexpectedEnd
  | fuel + 1 => do
    let (left, rest) ← readUnary input fuel cs
    readAndTail input fuel left rest

def readAndTail (input : List Char) (fuel : Nat) (left : Expr) (cs : List Char) :
    Except ParseError (Expr × List Char) :=
  match fuel with
  | 0 => .error .unexpectedEnd
  | fuel + 1 =>
    match skipBlanks cs with
    | '&' :: '&' :: rest => do
      let (right, rest) ← readUnary input fuel rest
      readAndTail input fuel (.and left right) rest
    | rest => .ok (left, rest)

def readUnary (input : List Char) (fuel : Nat) (cs : List Char) :
    Except ParseError (Expr × List Char) :=
  match fuel with
  | 0 => .error .unexpectedEnd
  | fuel + 1 =>
    match skipBlanks cs with
    | '!' :: '=' :: rest => readComparison input fuel ('!' :: '=' :: rest)
    | '!' :: rest => do
      let (e, rest) ← readUnary input fuel rest
      return (.not e, rest)
    | rest => readComparison input fuel rest

def readComparison (input : List Char) (fuel : Nat) (cs : List Char) :
    Except ParseError (Expr × List Char) :=
  match fuel with
  | 0 => .error .unexpectedEnd
  | fuel + 1 => do
    let (left, rest) ← readSum input fuel cs
    match readCompareOp (skipBlanks rest) with
    | some (op, rest) =>
      let (right, rest) ← readSum input fuel rest
      return (.compare op left right, rest)
    | none => return (left, skipBlanks rest)

def readSum (input : List Char) (fuel : Nat) (cs : List Char) :
    Except ParseError (Expr × List Char) :=
  match fuel with
  | 0 => .error .unexpectedEnd
  | fuel + 1 => do
    let (left, rest) ← readPrimary input fuel cs
    readSumTail input fuel left rest

def readSumTail (input : List Char) (fuel : Nat) (left : Expr) (cs : List Char) :
    Except ParseError (Expr × List Char) :=
  match fuel with
  | 0 => .error .unexpectedEnd
  | fuel + 1 =>
    match readArithOp (skipBlanks cs) with
    | some (op, rest) => do
      let (right, rest) ← readPrimary input fuel rest
      readSumTail input fuel (.arith op left right) rest
    | none => .ok (left, skipBlanks cs)

def readPrimary (input : List Char) (fuel : Nat) (cs : List Char) :
    Except ParseError (Expr × List Char) :=
  match fuel with
  | 0 => .error .unexpectedEnd
  | fuel + 1 =>
    match skipBlanks cs with
    | [] => .error .unexpectedEnd
    | '(' :: rest => do
      let (e, rest) ← readOr input fuel rest
      match skipBlanks rest with
      | ')' :: rest => return (e, rest)
      | _ => .error .expectedClose
    | c :: rest =>
      if isQuote c then do
        let (s, rest) ← readString (c :: rest)
        return (.literal (.string s), rest)
      else if Decimal.isDigit c || c == '-' then do
        let (f, rest) ← readNumber (c :: rest)
        return (.literal (.number f), rest)
      else do
        let (segments, rest) ← readPath input (rest.length + 1) (c :: rest)
        readWord segments rest

end

/-- Reads a whole text as an expression. Between two characters taken off the input at most
    eight readers are entered. -/
def parseExact (text : String) : Except ParseError Expr :=
  let input := Text.trimChars text.toList
  if input == [] then .error .empty
  else do
    let (e, rest) ← readOr input (8 * (input.length + 2)) input
    let rest := skipBlanks rest
    if rest == [] then return e
    else .error (.unexpectedInput (offsetOf input rest) (String.ofList rest))

def parse (text : String) : Except Fault Expr := (parseExact text).mapError .expression

def parseLocation (text : String) : Except Fault (List String) :=
  let input := Text.trimChars text.toList
  match readPath input (input.length + 1) input with
  | .ok (segments, []) => .ok segments
  | .ok (_, _ :: _) => .error (.expression (.invalidLocation (String.ofList input)))
  | .error e => .error (.expression e)

end Statechart.Expr
