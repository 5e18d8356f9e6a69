import Statechart.Text.Visible

/- Quoting for reports: a text between double quotes, with everything that is not visible
   written as an escape. -/
namespace Statechart.Text

def hex (n : Nat) : String := String.ofList (Nat.toDigits 16 n)

def hexPadded (width n : Nat) : String :=
  let digits := Nat.toDigits 16 n
  String.ofList (List.replicate (width - digits.length) '0' ++ digits)

def escapeChar (c : Char) : String :=
  if c == '"' then "\\\""
  else if c == '\\' then "\\\\"
  else if c == '\n' then "\\n"
  else if c == '\r' then "\\r"
  else if c == '\t' then "\\t"
  else if c.toNat == 0 then "\\0"
  else if isVisible c then c.toString
  else "\\u\x7b" ++ hex c.toNat ++ "\x7d"

def quoted (s : String) : String :=
  "\"" ++ String.join (s.toList.map escapeChar) ++ "\""

end Statechart.Text
