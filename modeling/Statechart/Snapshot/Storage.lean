import Statechart.Snapshot.Bucket
import Statechart.Checksum
import Statechart.Fault

/- Where snapshots are kept: in memory by key, or one file per key.

   A file holds eight digits of checksum, a line end, and the payload. Its name is made of the
   key with every character but letters, digits, `-`, `_` and `.` replaced. -/
namespace Statechart

abbrev Bytes := List UInt8

namespace Bytes

def ofText (s : String) : Bytes := s.toUTF8.toList

def toText? (b : Bytes) : Option String := String.fromUTF8? ⟨b.toArray⟩

end Bytes

inductive Storage where
  | memory (entries : List (String × Bytes))
  | files (files : List (String × Bytes))

namespace Storage

def isFileChar (c : Char) : Bool := c.isAlphanum || c == '-' || c == '_' || c == '.'

def fileName (key : String) : String :=
  String.ofList (key.toList.map fun c => if isFileChar c then c else '_') ++ ".snap"

/-- The file that a key's content is written to before it takes the place of the old one. A name
    that is nothing but an ending keeps it. -/
def scratchName (key : String) : String :=
  fileName key ++ (if key == "" then ".snap.tmp" else ".tmp")

/-- Whether a directory can hold a file of this name: at most 255 bytes, and no path. -/
def canName (name : String) : Bool :=
  name ≠ "" && name ≠ "." && name ≠ ".." && !name.toList.contains '/' && name.utf8ByteSize ≤ 255

def checksumBytes (payload : Bytes) : Bytes :=
  Bytes.ofText (Text.hexPadded 8 (Checksum.ofBytes payload).toNat)

def lineEnd : UInt8 := 10

def framed (payload : Bytes) : Bytes := checksumBytes payload ++ lineEnd :: payload

def unframe (key : String) (content : Bytes) : Except Fault Bytes :=
  if content.length < 9 || content[8]? != some lineEnd then .error (.storage (.truncated key))
  else
    let payload := content.drop 9
    if content.take 8 = checksumBytes payload then .ok payload
    else .error (.storage (.checksumMismatch key))

def put (entries : List (String × Bytes)) (name : String) (bytes : Bytes) : List (String × Bytes) :=
  (name, bytes) :: entries.filter (·.1 ≠ name)

def save (s : Storage) (key : String) (payload : Bytes) : Except Fault Storage :=
  match s with
  | .memory entries => .ok (.memory (put entries key payload))
  | .files dir =>
    if canName (scratchName key) then
      .ok (.files (put (dir.filter (·.1 ≠ scratchName key)) (fileName key) (framed payload)))
    else .error (.io "File name too long (os error 36)")

def load (s : Storage) (key : String) : Except Fault (Option Bytes) :=
  match s with
  | .memory entries => .ok (entries.lookup key)
  | .files dir =>
    match dir.lookup (fileName key) with
    | some content => (unframe key content).map some
    | none => .ok none

def remove (s : Storage) (key : String) : Storage :=
  match s with
  | .memory entries => .memory (entries.filter (·.1 ≠ key))
  | .files dir => .files (dir.filter (·.1 ≠ fileName key))

def putFile? (s : Storage) (name : String) (content : Bytes) : Option Storage :=
  match s with
  | .memory entries => some (.memory entries)
  | .files dir => if canName name then some (.files (put dir name content)) else none

def saveBucket (s : Storage) (key : String) (b : Bucket) : Except Fault Storage :=
  s.save key (Bytes.ofText b.text)

def loadBucket (s : Storage) (key : String) : Except Fault (Option Bucket) := do
  match ← s.load key with
  | none => return none
  | some bytes =>
    match (Bytes.toText? bytes).bind Bucket.parse? with
    | some b => return some b
    | none => throw .json

end Storage

end Statechart
