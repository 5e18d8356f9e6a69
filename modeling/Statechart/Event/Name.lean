import Statechart.Fault
import Statechart.Text.Blank

/- Identifiers, names of events, and the descriptors that transitions match them with. -/
namespace Statechart

def isIdentifier (text : String) : Bool := text != "" && !text.toList.any Text.isBlank

structure Identifier where
  text : String
  valid : isIdentifier text = true
deriving DecidableEq

namespace Identifier

def ofString (text : String) : Except Fault Identifier :=
  if h : isIdentifier text = true then .ok ⟨text, h⟩ else .error (.identifier text)

end Identifier

structure EventName where
  parts : List String
deriving DecidableEq, Repr

namespace EventName

def parse (text : String) : Except Fault EventName :=
  let parts := Text.split '.' text
  if parts.all isIdentifier then .ok ⟨parts⟩ else .error (.identifier text)

def text (n : EventName) : String := String.intercalate "." n.parts

def inspect (n : EventName) : String := "EventName(" ++ n.text ++ ")"

/-- `head`, then the parts of a dotted id; empty parts are passed over. -/
def withSuffix (head : List String) (id : String) : EventName :=
  ⟨head ++ (Text.split '.' id).filter (· ≠ "")⟩

def doneState (state : String) : EventName := withSuffix ["done", "state"] state

def doneInvoke (id : InvokeId) : EventName := withSuffix ["done", "invoke"] id

def error (kind : FailureKind) : EventName := ⟨["error", kind.name]⟩

def startsWith (n : EventName) (head : List String) : Bool := head.isPrefixOf n.parts

def doneInvokeId? (n : EventName) : Option InvokeId :=
  match n.parts with
  | "done" :: "invoke" :: p :: rest => some (String.intercalate "." (p :: rest))
  | _ => none

end EventName

inductive EventDescriptor where
  | any
  | startingWith (parts : List String)
deriving DecidableEq, Repr

namespace EventDescriptor

/-- `*` matches everything; a final `.*` or `.` adds nothing. -/
def parse (text : String) : Except Fault EventDescriptor :=
  let text := Text.trim text
  if text = "*" then .ok .any
  else do
    let text := (Text.dropTail? ".*" text).getD text
    let text := (Text.dropTail? "." text).getD text
    let name ← EventName.parse text
    return .startingWith name.parts

def parseList (text : String) : Except Fault (List EventDescriptor) := (Text.words text).mapM parse

def accepts (d : EventDescriptor) (n : EventName) : Bool :=
  match d with
  | .any => true
  | .startingWith parts => n.startsWith parts

def text : EventDescriptor → String
  | .any => "*"
  | .startingWith parts => String.intercalate "." parts

end EventDescriptor

end Statechart
