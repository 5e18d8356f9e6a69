/- Why a text is no expression, location or delay. -/
namespace Statechart

inductive ParseError where
  | empty
  /-- Something is left over; the offset counts bytes. -/
  | unexpectedInput (offset : Nat) (rest : String)
  | unexpectedEnd
  | expectedClose
  | expectedInOpen
  | expectedInClose
  | expectedString
  | unterminatedString
  | expectedIdentifier (offset : Nat) (input : String)
  | invalidNumber (text : String)
  | invalidLocation (text : String)
  | invalidDelay (text : String)
  | other (reason : String)
deriving DecidableEq, Repr

def ParseError.reason : ParseError → String
  | .empty => "empty expression"
  | .unexpectedInput offset rest =>
    "unexpected input at offset " ++ toString offset ++ ": '" ++ rest ++ "'"
  | .unexpectedEnd => "unexpected end of expression"
  | .expectedClose => "expected ')'"
  | .expectedInOpen => "expected '(' after In"
  | .expectedInClose => "expected ')' after In argument"
  | .expectedString => "expected string"
  | .unterminatedString => "unterminated string"
  | .expectedIdentifier offset input =>
    "expected identifier at offset " ++ toString offset ++ " in '" ++ input ++ "'"
  | .invalidNumber text => "invalid number: '" ++ text ++ "'"
  | .invalidLocation text => "invalid location '" ++ text ++ "'"
  | .invalidDelay text => "invalid delay '" ++ text ++ "'"
  | .other reason => reason

end Statechart
