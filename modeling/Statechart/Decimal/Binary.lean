/- Double-precision numbers as integer multiples of powers of two. -/
namespace Statechart.Decimal

def twoTo (n : Nat) : Nat := Nat.pow 2 n

def tenTo (n : Nat) : Nat := Nat.pow 10 n

/-- A finite double: the number `mantissa * 2 ^ exponent`, negated when `negative`. -/
structure Binary where
  negative : Bool
  mantissa : Nat
  exponent : Int
deriving DecidableEq, Repr

inductive Decoded where
  | finite (b : Binary)
  | infinite (negative : Bool)
  | notANumber
deriving DecidableEq, Repr

def decodeBits (bits : Nat) : Decoded :=
  let negative : Bool := bits / twoTo 63 % 2 == 1
  let exponent : Nat := bits / twoTo 52 % twoTo 11
  let fraction : Nat := bits % twoTo 52
  if exponent == 2047 then
    if fraction == 0 then .infinite negative else .notANumber
  else if exponent == 0 then .finite ⟨negative, fraction, -1074⟩
  else .finite ⟨negative, fraction + twoTo 52, (exponent : Int) - 1075⟩

def decode (f : Float) : Decoded := decodeBits f.toBits.toNat

def roundDiv (num den : Nat) : Nat :=
  let q := num / den
  let r := num % den
  if 2 * r < den then q
  else if den < 2 * r then q + 1
  else if q % 2 == 0 then q else q + 1

namespace Binary

def ratio (b : Binary) : Nat × Nat :=
  if 0 ≤ b.exponent then (b.mantissa * twoTo b.exponent.toNat, 1)
  else (b.mantissa, twoTo (-b.exponent).toNat)

def scaledRound (b : Binary) (n : Nat) : Nat := roundDiv (b.ratio.1 * n) b.ratio.2

def toInt? (b : Binary) : Option Int :=
  let (num, den) := b.ratio
  if num % den == 0 then
    let n : Int := num / den
    some (if b.negative then -n else n)
  else none

end Binary

/-- The integer a double stands for, when it is one below nine quadrillion in size.
    These are the numbers that are written without a fraction everywhere. -/
def smallInt? (f : Float) : Option Int :=
  match decode f with
  | .finite b =>
    match b.toInt? with
    | some n => if n.natAbs < 9000000000000000 then some n else none
    | none => none
  | _ => none

end Statechart.Decimal
