import Statechart.Fault
import Statechart.Decimal.Reader
import Statechart.Text.Blank

/- Delays of sends, in nanoseconds. -/
namespace Statechart

abbrev Nanos := Nat

namespace Delay

def nanosPerSecond : Nat := 1000000000

def nanosPerMilli : Nat := 1000000

def longest : Nanos := 365 * 24 * 60 * 60 * nanosPerSecond

/-- A count of milliseconds as a delay, to the nearest nanosecond. Negative counts, counts that
    are no numbers and delays beyond the longest are refused. -/
def ofMillis (ms : Float) : Option Nanos :=
  if !ms.isFinite || ms < 0.0 then none
  else
    match Decimal.decode (ms / 1000.0) with
    | .finite b =>
      let nanos := b.scaledRound nanosPerSecond
      if nanos ≤ longest then some nanos else none
    | _ => none

def splitUnit (text : String) : String × Float :=
  match Text.dropTail? "ms" text with
  | some n => (n, 1.0)
  | none =>
    match Text.dropTail? "s" text with
    | some n => (n, 1000.0)
    | none =>
      match Text.dropTail? "m" text with
      | some n => (n, 60000.0)
      | none => (text, 1.0)

def parse (text : String) : Except Fault Nanos :=
  let text := Text.trim text
  let (number, scale) := splitUnit text
  match (Decimal.read (Text.trim number)).bind fun n => ofMillis (n * scale) with
  | some nanos => .ok nanos
  | none => .error (.expression (.invalidDelay text))

end Delay

end Statechart
