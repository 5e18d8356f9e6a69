import Statechart.Decimal.Reader

/- Points in time with the offset of the clock that showed them. -/
namespace Statechart

/-- Seconds since the start of 1970 in universal time, nanoseconds within the second (a leap
    second runs past a thousand million), and the clock's offset in seconds. -/
structure DateTime where
  seconds : Int
  nanos : Nat
  offset : Int
deriving DecidableEq, Repr

namespace DateTime

/-- The day number of a date in the Gregorian calendar, day zero being the first of 1970.
    Years are counted from March, so that a leap day ends its year. -/
def daysFromCivil (year : Int) (month day : Nat) : Int :=
  let y := if month ≤ 2 then year - 1 else year
  let era := y.fdiv 400
  let yearOfEra := y - era * 400
  let shifted : Int := ((month + 9) % 12 : Nat)
  let dayOfYear := (153 * shifted + 2).fdiv 5 + day - 1
  let dayOfEra := yearOfEra * 365 + yearOfEra.fdiv 4 - yearOfEra.fdiv 100 + dayOfYear
  era * 146097 + dayOfEra - 719468

def civilFromDays (days : Int) : Int × Nat × Nat :=
  let z := days + 719468
  let era := z.fdiv 146097
  let dayOfEra := z - era * 146097
  let yearOfEra :=
    (dayOfEra - dayOfEra.fdiv 1460 + dayOfEra.fdiv 36524 - dayOfEra.fdiv 146096).fdiv 365
  let dayOfYear := dayOfEra - (365 * yearOfEra + yearOfEra.fdiv 4 - yearOfEra.fdiv 100)
  let shifted := (5 * dayOfYear + 2).fdiv 153
  let day := dayOfYear - (153 * shifted + 2).fdiv 5 + 1
  let month := if shifted < 10 then shifted + 3 else shifted - 9
  let year := yearOfEra + era * 400 + (if month ≤ 2 then 1 else 0)
  (year, month.toNat, day.toNat)

def isLeapYear (year : Int) : Bool :=
  year % 4 == 0 && (year % 100 != 0 || year % 400 == 0)

def daysInMonth (year : Int) (month : Nat) : Nat :=
  if month == 2 then (if isLeapYear year then 29 else 28)
  else if month == 4 || month == 6 || month == 9 || month == 11 then 30 else 31

def compare (a b : DateTime) : Ordering :=
  if a.seconds < b.seconds then .lt
  else if b.seconds < a.seconds then .gt
  else Ord.compare a.nanos b.nanos

def sameInstant (a b : DateTime) : Bool := compare a b == .eq

def padded (width n : Nat) : String :=
  let ds := Nat.toDigits 10 n
  String.ofList (List.replicate (width - ds.length) '0' ++ ds)

def yearText (year : Int) : String :=
  if 0 ≤ year && year ≤ 9999 then padded 4 year.toNat
  else (if year < 0 then "-" else "+") ++ padded 4 year.natAbs

def fractionText (nanos : Nat) : String :=
  if nanos == 0 then ""
  else if nanos % 1000000 == 0 then "." ++ padded 3 (nanos / 1000000)
  else if nanos % 1000 == 0 then "." ++ padded 6 (nanos / 1000)
  else "." ++ padded 9 nanos

def offsetText (offset : Int) : String :=
  let minutes := (offset.natAbs + 30) / 60
  (if offset < 0 then "-" else "+") ++ padded 2 (minutes / 60) ++ ":" ++ padded 2 (minutes % 60)

def text (t : DateTime) : String :=
  let localSeconds := t.seconds + t.offset
  let days := localSeconds.fdiv 86400
  let rest := (localSeconds - days * 86400).toNat
  let (year, month, day) := civilFromDays days
  let leap := 1000000000 ≤ t.nanos
  let second := rest % 60 + (if leap then 1 else 0)
  let nanos := if leap then t.nanos - 1000000000 else t.nanos
  yearText year ++ "-" ++ padded 2 month ++ "-" ++ padded 2 day ++ "T" ++
    padded 2 (rest / 3600) ++ ":" ++ padded 2 (rest / 60 % 60) ++ ":" ++ padded 2 second ++
    fractionText nanos ++ offsetText t.offset

def takeNumber (width : Nat) (cs : List Char) : Option (Nat × List Char) :=
  let ds := cs.take width
  if ds.length == width && ds.all Decimal.isDigit then
    some (Decimal.digitsValue ds, cs.drop width)
  else none

def expect (p : Char → Bool) : List Char → Option (List Char)
  | [] => none
  | c :: rest => if p c then some rest else none

/-- Nanoseconds of an optional fraction; digits after the ninth are dropped. -/
def readFraction : List Char → Option (Nat × List Char)
  | '.' :: rest =>
    let ds := rest.takeWhile Decimal.isDigit
    if ds == [] then none
    else
      let kept := ds.take 9
      some (Decimal.digitsValue kept * Decimal.tenTo (9 - kept.length),
        rest.dropWhile Decimal.isDigit)
  | cs => some (0, cs)

def isMinus (c : Char) : Bool := c == '-' || c.toNat == 0x2212

def readOffset : List Char → Option (Int × List Char)
  | c :: rest =>
    if c == 'Z' || c == 'z' then some (0, rest)
    else if c == '+' || isMinus c then do
      let (hours, rest) ← takeNumber 2 rest
      let rest ← expect (· == ':') rest
      let (minutes, rest) ← takeNumber 2 rest
      if 24 ≤ hours || 60 ≤ minutes then none
      else
        let seconds : Int := hours * 3600 + minutes * 60
        some (if isMinus c then -seconds else seconds, rest)
    else none
  | [] => none

def parse? (s : String) : Option DateTime := do
  let (year, cs) ← takeNumber 4 s.toList
  let cs ← expect (· == '-') cs
  let (month, cs) ← takeNumber 2 cs
  let cs ← expect (· == '-') cs
  let (day, cs) ← takeNumber 2 cs
  let cs ← expect (fun c => c == 'T' || c == 't' || c == ' ') cs
  let (hour, cs) ← takeNumber 2 cs
  let cs ← expect (· == ':') cs
  let (minute, cs) ← takeNumber 2 cs
  let cs ← expect (· == ':') cs
  let (second, cs) ← takeNumber 2 cs
  let (nanos, cs) ← readFraction cs
  let (offset, cs) ← readOffset cs
  if cs ≠ [] || month < 1 || 12 < month || day < 1 || daysInMonth year month < day
      || 24 ≤ hour || 60 ≤ minute || 61 ≤ second then none
  else
    let leap := second == 60
    let clock := hour * 3600 + minute * 60 + (if leap then 59 else second)
    some
      { seconds := daysFromCivil year month day * 86400 + clock - offset
        nanos := if leap then nanos + 1000000000 else nanos
        offset }

end DateTime

end Statechart
