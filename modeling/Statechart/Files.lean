import Statechart.Text.Blank

/- A tree of text files below one directory, for running commands without touching a disk. -/
namespace Statechart

/-- Files by path. A directory is there if a file is below it. -/
structure Files where
  entries : List (List String × String) := []

namespace Files

def steps (path : String) : List String := Text.split '/' path

def isAbsolute (path : String) : Bool := path.toList.head? == some '/'

def isIdle (step : String) : Bool := step == "" || step == "."

def canName (name : String) : Bool := name.utf8ByteSize ≤ 255

def ofList (entries : List (String × String)) : Files :=
  ⟨entries.map fun (path, content) => ((steps path).filter (!isIdle ·), content)⟩

def hasDirectory (f : Files) (dir : List String) : Bool :=
  dir.isEmpty || f.entries.any fun (path, _) => dir.isPrefixOf path && dir.length < path.length

def enter? (f : Files) (dir : List String) (step : String) : Option (List String) :=
  if isIdle step then some dir
  else if step == ".." then if dir.isEmpty then none else some dir.dropLast
  else if f.hasDirectory (dir ++ [step]) then some (dir ++ [step])
  else none

def locate? (f : Files) (path : String) : Option (List String) :=
  match (steps path).reverse with
  | name :: dirs =>
    if isAbsolute path || isIdle name || name == ".." || !canName name then none
    else (dirs.reverse.foldlM f.enter? []).map (· ++ [name])
  | [] => none

def read? (f : Files) (path : String) : Option String :=
  (f.locate? path).bind fun place => f.entries.lookup place

def write? (f : Files) (path content : String) : Option Files := do
  let place ← f.locate? path
  if f.hasDirectory place then none
  else some ⟨(place, content) :: f.entries.filter (·.1 ≠ place)⟩

/-- One step of making the directories on a path; none stands for a place above the first one,
    where nothing is in the way. -/
def make? (f : Files) (dir : Option (List String)) (step : String) :
    Option (Option (List String)) :=
  match dir with
  | none => if canName step then some none else none
  | some dir =>
    if isIdle step then some (some dir)
    else if step == ".." then some (if dir.isEmpty then none else some dir.dropLast)
    else if !canName step || (f.entries.lookup (dir ++ [step])).isSome then none
    else some (some (dir ++ [step]))

def canMakeDirectory (f : Files) (path : String) : Bool :=
  ((steps path).foldlM f.make? (if isAbsolute path then none else some [])).isSome

end Files

end Statechart
