import Statechart.Decimal.Binary

/- The fewest decimal digits that read back as a given double.

   A decimal reads back as `m * 2 ^ q` when it lies between the midpoints to the two
   neighbouring doubles, the midpoints included when `m` is even. On each grid of multiples of
   a power of ten only the two neighbours of the number need a look. -/
namespace Statechart.Decimal

structure Digits where
  digits : Nat
  exponent : Int
deriving DecidableEq, Repr

structure RoundingInterval where
  lower : Nat
  value : Nat
  upper : Nat
  closed : Bool
  scale : Int

/-- The lower midpoint is nearer when the number is the least of its binade. -/
def Binary.interval (b : Binary) : RoundingInterval :=
  let m := b.mantissa
  let narrow := m == twoTo 52 && b.exponent != -1074
  { lower := if narrow then 4 * m - 1 else 4 * m - 2
    value := 4 * m
    upper := 4 * m + 2
    closed := m % 2 == 0
    scale := b.exponent - 2 }

def commonScale (scale place : Int) : Nat × Nat :=
  (twoTo scale.toNat * tenTo (-place).toNat, tenTo place.toNat * twoTo (-scale).toNat)

inductive Tie where
  | up
  | even
deriving DecidableEq, Repr

def RoundingInterval.onGrid (i : RoundingInterval) (tie : Tie) (place : Int) : Option Nat :=
  let (unit, step) := commonScale i.scale place
  let inside (d : Nat) : Bool :=
    let x := d * step
    d != 0 && (if i.closed then i.lower * unit ≤ x && x ≤ i.upper * unit
      else i.lower * unit < x && x < i.upper * unit)
  let value := i.value * unit
  let below := value / step
  let above := below + 1
  match inside below, inside above with
  | true, true =>
    let middle := (2 * below + 1) * step
    if 2 * value < middle then some below
    else if middle < 2 * value then some above
    else if tie == .even && below % 2 == 0 then some below else some above
  | true, false => some below
  | false, true => some above
  | false, false => none

def RoundingInterval.search (i : RoundingInterval) (tie : Tie) : Nat → Int → Digits
  | 0, place => ⟨i.value, place⟩
  | tries + 1, place =>
    match i.onGrid tie place with
    | some d => ⟨d, place⟩
    | none => i.search tie tries (place - 1)

/-- The shortest decimal that reads back, the nearest one of that length. Seventeen digits
    always suffice, and the first grid tried is coarser than the number. -/
def Binary.shortest (b : Binary) (tie : Tie) : Digits :=
  if b.mantissa == 0 then ⟨0, 0⟩
  else
    let magnitude : Int := b.mantissa.log2 + b.exponent
    b.interval.search tie 24 (magnitude * 30103 / 100000 + 2)

end Statechart.Decimal
