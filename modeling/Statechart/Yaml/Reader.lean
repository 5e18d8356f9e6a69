import Statechart.Yaml.Token

/- Reading YAML texts of one document.

   An anchor gets the number of different names before it, so when a name is used again its second
   node shares a number with the node of the next new name. A number stands for the last node that
   has it. -/
namespace Statechart.Yaml

structure Anchored where
  number : Nat
  rank : Nat
  node : Document

structure Composer where
  tokens : List Token
  handles : List (String × String) := []
  names : List (String × Nat) := []
  started : Nat := 0
  anchored : List Anchored := []

abbrev ComposeM := StateT Composer Option

namespace ComposeM

def peek : ComposeM Token := do
  match (← get).tokens with
  | t :: _ => return t
  | [] => failure

def skip : ComposeM Unit := modify fun s => { s with tokens := s.tokens.drop 1 }

def accept (t : Token) : ComposeM Bool := do
  if (← peek) == t then
    skip
    return true
  else return false

def expect (t : Token) : ComposeM Unit := do
  if !(← accept t) then failure

def properties : ComposeM (Option String × Option Tag) := do
  match ← peek with
  | .anchor name =>
    skip
    match ← peek with
    | .tag tag => do skip; return (some name, some tag)
    | _ => return (some name, none)
  | .tag tag =>
    skip
    match ← peek with
    | .anchor name => do skip; return (some name, some tag)
    | _ => return (none, some tag)
  | _ => return (none, none)

def resolveTag : Option Tag → ComposeM (Option String)
  | none => return none
  | some tag => do
    match tag.resolve? (← get).handles with
    | some text => return some text
    | none => failure

def startAnchor (name : String) : ComposeM (Nat × Nat) := do
  let s ← get
  let number := s.names.length
  set { s with
        names := (name, number) :: s.names.filter (·.1 != name)
        started := s.started + 1 }
  return (number, s.started)

def finishAnchor (number rank : Nat) (node : Document) : ComposeM Unit :=
  modify fun s => { s with anchored := ⟨number, rank, node⟩ :: s.anchored }

def reference (name : String) : ComposeM Document := do
  match (← get).names.lookup name with
  | some number => return .link number
  | none => failure

def empty : Document := Scalar.empty.toDocument

mutual

/-- A node. Block collections start only where `block` allows it, and a block sequence needs no
    indentation where `flush` allows it. -/
def node (fuel : Nat) (block flush : Bool) : ComposeM Document :=
  match fuel with
  | 0 => failure
  | fuel + 1 => do
    match ← peek with
    | .reference name =>
      skip
      reference name
    | _ =>
      let (name, tag) ← properties
      let tag ← resolveTag tag
      match name with
      | none => content fuel block flush tag false
      | some name =>
        let (number, rank) ← startAnchor name
        let d ← content fuel block flush tag true
        finishAnchor number rank d
        return d

def content (fuel : Nat) (block flush : Bool) (tag : Option String) (named : Bool) :
    ComposeM Document :=
  match fuel with
  | 0 => failure
  | fuel + 1 => do
    let label := Scalar.label? tag
    match ← peek with
    | .scalar text style =>
      skip
      return Scalar.toDocument { text, style, tag }
    | .flowSequenceStart =>
      skip
      return .list label (← flowItems fuel true)
    | .flowMappingStart =>
      skip
      return .record label (← flowFields fuel true)
    | t =>
      if flush && t == .blockEntry then return .list label (← flushItems fuel)
      else if block && t == .blockSequenceStart then
        skip
        return .list label (← blockItems fuel)
      else if block && t == .blockMappingStart then
        skip
        return .record label (← blockFields fuel)
      else if named || tag.isSome then
        return Scalar.toDocument { text := "", style := .plain, tag }
      else failure

def nodeUnless (fuel : Nat) (block flush : Bool) (ends : List Token) : ComposeM Document :=
  match fuel with
  | 0 => failure
  | fuel + 1 => do
    if ends.contains (← peek) then return empty else node fuel block flush

def valueUnless (fuel : Nat) (block : Bool) (ends : List Token) : ComposeM Document :=
  match fuel with
  | 0 => failure
  | fuel + 1 => do
    if ← accept .value then nodeUnless fuel block block ends else return empty

def blockItems (fuel : Nat) : ComposeM (List Document) :=
  match fuel with
  | 0 => failure
  | fuel + 1 => do
    if ← accept .blockEntry then
      let item ← nodeUnless fuel true false [.blockEntry, .blockEnd]
      return item :: (← blockItems fuel)
    else
      expect .blockEnd
      return []

def flushItems (fuel : Nat) : ComposeM (List Document) :=
  match fuel with
  | 0 => failure
  | fuel + 1 => do
    if ← accept .blockEntry then
      let item ← nodeUnless fuel true false [.blockEntry, .key, .value, .blockEnd]
      return item :: (← flushItems fuel)
    else return []

def blockFields (fuel : Nat) : ComposeM (List (Document × Document)) :=
  match fuel with
  | 0 => failure
  | fuel + 1 => do
    if ← accept .key then
      let key ← nodeUnless fuel true true [.key, .value, .blockEnd]
      let value ← valueUnless fuel true [.key, .value, .blockEnd]
      return (key, value) :: (← blockFields fuel)
    else
      expect .blockEnd
      return []

def flowItems (fuel : Nat) (first : Bool) : ComposeM (List Document) :=
  match fuel with
  | 0 => failure
  | fuel + 1 => do
    if ← accept .flowSequenceEnd then return []
    else
      if !first then expect .flowEntry
      if ← accept .flowSequenceEnd then return []
      else
        let item ← if ← accept .key then flowPair fuel else node fuel false false
        return item :: (← flowItems fuel false)

/-- A key and its value in a flow sequence. A missing key takes the token after it along. -/
def flowPair (fuel : Nat) : ComposeM Document :=
  match fuel with
  | 0 => failure
  | fuel + 1 => do
    let ends := [.flowEntry, .flowSequenceEnd]
    let key ← if (Token.value :: ends).contains (← peek) then do skip; pure empty
      else node fuel false false
    let value ← valueUnless fuel false ends
    return .record none [(key, value)]

def flowFields (fuel : Nat) (first : Bool) : ComposeM (List (Document × Document)) :=
  match fuel with
  | 0 => failure
  | fuel + 1 => do
    if ← accept .flowMappingEnd then return []
    else
      if !first then expect .flowEntry
      if ← accept .flowMappingEnd then return []
      else
        let ends := [.flowEntry, .flowMappingEnd]
        let field ← if ← accept .key then do
            let key ← nodeUnless fuel false false (.value :: ends)
            pure (key, ← valueUnless fuel false ends)
          else do pure (← node fuel false false, empty)
        return field :: (← flowFields fuel false)

end

/-- Directives before a document: at most one version, of the first major one, and each handle
    once. -/
def directives : Nat → Bool → List (String × String) → ComposeM (List (String × String))
  | 0, _, _ => failure
  | fuel + 1, versioned, handles => do
    match ← peek with
    | .version major minor =>
      if versioned || major != 1 || !(minor == 1 || minor == 2) then failure
      else
        skip
        directives fuel true handles
    | .handle handle start =>
      if (handles.lookup handle).isSome then failure
      else
        skip
        directives fuel versioned ((handle, start) :: handles)
    | _ => return handles

def isDirective : Token → Bool
  | .version .. | .handle .. => true
  | _ => false

def document (fuel : Nat) : ComposeM Document := do
  let t ← peek
  if t == .streamEnd then return empty
  else
    let isExplicit := isDirective t || t == .documentStart
    let handles ← if isExplicit then directives fuel false [] else pure []
    modify fun s => { s with handles := handles ++ Tag.knownHandles }
    if isExplicit then expect .documentStart
    let t ← peek
    let isMissing := isExplicit && (isDirective t
      || [.documentStart, .documentEnd, .streamEnd].contains t)
    if isMissing then return empty else node fuel true false

def finish : ComposeM Unit := do
  modify fun s => { s with tokens := s.tokens.dropWhile (· == .documentEnd) }
  expect .streamEnd

end ComposeM

def Composer.links (s : Composer) : List (Nat × Document) :=
  (s.anchored.mergeSort fun a b => b.rank ≤ a.rank).map fun a => (a.number, a.node)

/-- Reads a text. At most 128 containers may be open at a time, and links may be followed a hundred
    times for each part of the document. No more than eight steps are taken for each token. -/
def manuscript? (text : String) : Option Manuscript := do
  let tokens ← tokens? text
  let compose : ComposeM Document := do
    let root ← ComposeM.document (8 * tokens.length + 8)
    ComposeM.finish
    return root
  let (root, s) ← compose.run { tokens }
  some { root, links := s.links, labels := true, depth := 128, patience := 100 * root.size }

end Statechart.Yaml
