import Statechart.Decimal.Shortest

/- How numbers are written: positional texts for reports, and JSON number texts. -/
namespace Statechart.Decimal

def natDigits (n : Nat) : List Char := Nat.toDigits 10 n

def Digits.positional (d : Digits) : String :=
  let ds := natDigits d.digits
  if 0 ≤ d.exponent then String.ofList (ds ++ List.replicate d.exponent.toNat '0')
  else
    let places := (-d.exponent).toNat
    if places < ds.length then
      String.ofList (ds.take (ds.length - places) ++ '.' :: ds.drop (ds.length - places))
    else String.ofList ('0' :: '.' :: List.replicate (places - ds.length) '0' ++ ds)

def Digits.leading (d : Digits) : Int := d.exponent + ((natDigits d.digits).length : Int) - 1

def Digits.scientific (d : Digits) : String :=
  let e := d.leading
  let mantissa := match natDigits d.digits with
    | [] => "0"
    | [c] => c.toString
    | c :: rest => String.ofList (c :: '.' :: rest)
  mantissa ++ (if e < 0 then "e-" else "e+") ++ toString e.natAbs

/-- Which decimals are written with an exponent, whether a point is always shown, and which of two
    equally near decimals is. -/
structure Layout where
  isPositional : Int → Bool
  alwaysPoint : Bool
  tie : Tie

def Layout.report : Layout := ⟨fun _ => true, false, .up⟩

/-- JSON texts are positional from `0.00001` to below `10 ^ 16` and show that the number is
    not an integer type. -/
def Layout.json : Layout := ⟨fun e => -5 ≤ e && e < 16, true, .even⟩

def Layout.write (l : Layout) (b : Binary) : String :=
  let d := b.shortest l.tie
  if d.digits == 0 then (if l.alwaysPoint then "0.0" else "0")
  else if l.isPositional d.leading then
    if l.alwaysPoint && 0 ≤ d.exponent then d.positional ++ ".0" else d.positional
  else d.scientific

def signText (negative : Bool) : String := if negative then "-" else ""

def reportText (f : Float) : String :=
  match decode f with
  | .finite b => signText b.negative ++ Layout.report.write b
  | .infinite negative => signText negative ++ "inf"
  | .notANumber => "NaN"

def jsonText (f : Float) : String :=
  match decode f with
  | .finite b => signText b.negative ++ Layout.json.write b
  | _ => "null"

def displayText (f : Float) : String :=
  match smallInt? f with
  | some n => toString n
  | none => reportText f

end Statechart.Decimal
