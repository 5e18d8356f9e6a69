import Statechart.Json.Basic
import Statechart.Decimal.Layout
import Statechart.Text.Quoted

/- JSON texts: on one line without blanks, or spread over lines with two blanks per level. -/
namespace Statechart.Json

/-- Only the quote, the backslash and control characters are escaped. -/
def escapeChar (c : Char) : String :=
  if c == '"' then "\\\""
  else if c == '\\' then "\\\\"
  else if c == '\n' then "\\n"
  else if c == '\r' then "\\r"
  else if c == '\t' then "\\t"
  else if c.toNat == 8 then "\\b"
  else if c.toNat == 12 then "\\f"
  else if c.toNat < 0x20 then "\\u" ++ Text.hexPadded 4 c.toNat
  else c.toString

def quote (s : String) : String := "\"" ++ String.join (s.toList.map escapeChar) ++ "\""

def Number.text : Number → String
  | .int n => toString n
  | .float f => Decimal.jsonText f

mutual

def compress : Json → String
  | .null => "null"
  | .bool b => if b then "true" else "false"
  | .number n => n.text
  | .string s => quote s
  | .array items => "[" ++ compressItems items ++ "]"
  | .object fields => "\x7b" ++ compressFields fields ++ "\x7d"

def compressItems : List Json → String
  | [] => ""
  | [j] => compress j
  | j :: rest => compress j ++ "," ++ compressItems rest

def compressFields : List (String × Json) → String
  | [] => ""
  | [(k, v)] => quote k ++ ":" ++ compress v
  | (k, v) :: rest => quote k ++ ":" ++ compress v ++ "," ++ compressFields rest

end

def indentText (level : Nat) : String := "\n" ++ String.join (List.replicate level "  ")

mutual

def prettyAt (level : Nat) : Json → String
  | .array [] => "[]"
  | .object [] => "\x7b\x7d"
  | .array items => "[" ++ prettyItems (level + 1) items ++ indentText level ++ "]"
  | .object fields => "\x7b" ++ prettyFields (level + 1) fields ++ indentText level ++ "\x7d"
  | .null => "null"
  | .bool b => if b then "true" else "false"
  | .number n => n.text
  | .string s => quote s

def prettyItems (level : Nat) : List Json → String
  | [] => ""
  | [j] => indentText level ++ prettyAt level j
  | j :: rest => indentText level ++ prettyAt level j ++ "," ++ prettyItems level rest

def prettyFields (level : Nat) : List (String × Json) → String
  | [] => ""
  | [(k, v)] => indentText level ++ quote k ++ ": " ++ prettyAt level v
  | (k, v) :: rest =>
    indentText level ++ quote k ++ ": " ++ prettyAt level v ++ "," ++ prettyFields level rest

end

def pretty (j : Json) : String := prettyAt 0 j

end Statechart.Json
