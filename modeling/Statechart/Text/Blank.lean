/- Blank characters, and cutting texts at blanks and at separators. -/
namespace Statechart.Text

def inRanges (ranges : List (Nat × Nat)) (n : Nat) : Bool :=
  ranges.any fun r => r.1 ≤ n && n ≤ r.2

def isBlank (c : Char) : Bool :=
  inRanges [(0x09, 0x0D), (0x20, 0x20), (0x85, 0x85), (0xA0, 0xA0), (0x1680, 0x1680),
    (0x2000, 0x200A), (0x2028, 0x2029), (0x202F, 0x202F), (0x205F, 0x205F), (0x3000, 0x3000)]
    c.toNat

def dropEndWhile (p : Char → Bool) (cs : List Char) : List Char :=
  (cs.reverse.dropWhile p).reverse

def trimChars (cs : List Char) : List Char := dropEndWhile isBlank (cs.dropWhile isBlank)

def trim (s : String) : String := String.ofList (trimChars s.toList)

/-- The pieces between separators; one more than there are separators. -/
def splitChars (sep : Char → Bool) : List Char → List (List Char)
  | [] => [[]]
  | c :: rest =>
    if sep c then [] :: splitChars sep rest
    else match splitChars sep rest with
      | [] => [[c]]
      | piece :: pieces => (c :: piece) :: pieces

def split (sep : Char) (s : String) : List String :=
  (splitChars (· == sep) s.toList).map String.ofList

def words (s : String) : List String :=
  ((splitChars isBlank s.toList).filter (· ≠ [])).map String.ofList

def dropTail? (tail s : String) : Option String :=
  let cs := s.toList
  if tail.toList.isSuffixOf cs then
    some (String.ofList (cs.take (cs.length - tail.length)))
  else none

def dropHead? (head s : String) : Option String :=
  let cs := s.toList
  if head.toList.isPrefixOf cs then some (String.ofList (cs.drop head.length)) else none

end Statechart.Text
