import Statechart.Decimal.Binary

/- Reading decimal texts as doubles. -/
namespace Statechart.Decimal

def isDigit (c : Char) : Bool := '0' ≤ c && c ≤ '9'

def digitsValue (ds : List Char) : Nat := ds.foldl (fun n c => 10 * n + (c.toNat - '0'.toNat)) 0

/-- `mantissa * 10 ^ exponent` rounded to the nearest double. Powers far outside the range of
    doubles are settled before they are computed. -/
def toNearest (mantissa : Nat) (exponent : Int) : Float :=
  let size : Int := exponent + (Nat.toDigits 10 mantissa).length
  if mantissa == 0 then 0.0
  else if 400 < size then Float.ofBits 0x7FF0000000000000
  else if size < -400 then 0.0
  else Float.ofScientific mantissa (exponent < 0) exponent.natAbs

def signed (negative : Bool) (f : Float) : Float := if negative then -f else f

def notANumber : Float := Float.ofBits 0x7FF8000000000000

def infinity : Float := Float.ofBits 0x7FF0000000000000

def readSign : List Char → Bool × List Char
  | '-' :: rest => (true, rest)
  | '+' :: rest => (false, rest)
  | cs => (false, cs)

def readExponent : List Char → Option Int
  | [] => some 0
  | c :: rest =>
    if c == 'e' || c == 'E' then
      let (negative, ds) := readSign rest
      if ds ≠ [] && ds.all isDigit then
        let n : Int := digitsValue ds
        some (if negative then -n else n)
      else none
    else none

def readUnsigned (cs : List Char) : Option Float :=
  let whole := cs.takeWhile isDigit
  let afterWhole := cs.dropWhile isDigit
  let (fraction, rest) := match afterWhole with
    | '.' :: tail => (tail.takeWhile isDigit, tail.dropWhile isDigit)
    | tail => ([], tail)
  if whole == [] && fraction == [] then none
  else
    match readExponent rest with
    | some e => some (toNearest (digitsValue (whole ++ fraction)) (e - fraction.length))
    | none => none

def readChars (cs : List Char) : Option Float :=
  let (negative, body) := readSign cs
  let word := String.ofList (body.map Char.toLower)
  if word == "inf" || word == "infinity" then some (signed negative infinity)
  else if word == "nan" then some notANumber
  else (readUnsigned body).map (signed negative)

def read (s : String) : Option Float := readChars s.toList

def readWord (s : String) : Option Nat :=
  let ds := match s.toList with
    | '+' :: rest => rest
    | cs => cs
  if ds ≠ [] && ds.all isDigit && digitsValue ds < twoTo 64 then some (digitsValue ds) else none

end Statechart.Decimal
