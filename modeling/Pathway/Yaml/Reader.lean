import Pathway.Yaml.Lexer
import Pathway.Yaml.Node

/-!
# Reading YAML

`Yaml.read` turns a text into the document it holds. The grammar looks one token ahead; its
functions take fuel, and every call that goes deeper or further spends some.
-/

namespace Pathway.Yaml

/-- What has been read and is known in the middle of a text. -/
structure Reader where
  tokens : List Token
  /-- What the handles of tags stand for. -/
  handles : List (String × String)
  /-- The nodes with names; nothing for one that is being read. -/
  anchors : List (String × Option Node)
  /-- The nodes with names as the last reading found them. -/
  known : List (String × Node)
  /-- A node is referred to inside itself. -/
  loops : Bool

/-- A part of the grammar. -/
abbrev Parse (α : Type) := StateT Reader (Except Fault) α

namespace Parse

def peek : Parse Token := do
  match (← get).tokens with
  | .broken f :: _ => throw f
  | t :: _ => return t
  | [] => return .textEnd

def advance : Parse Unit := modify fun r => { r with tokens := r.tokens.tail }

def malformed {α : Type} : Parse α := throw .malformed

def expect (t : Token) : Parse Unit := do
  if (← peek) = t then advance else malformed

/-! ## Names of nodes and tags -/

/-- The node of a name. One that is being read stands for what the last reading found. -/
def aliased (name : String) : Parse Node := do
  let r ← get
  match r.anchors.lookup name with
  | some (some n) => return n
  | some none => do
    set { r with loops := true }
    return (r.known.lookup name).getD (.ofEntries none [])
  | none => malformed

/-- A name is given once. -/
def openAnchor : Option String → Parse Unit
  | none => pure ()
  | some name => do
    let r ← get
    if (r.anchors.lookup name).isSome then malformed
    else set { r with anchors := (name, none) :: r.anchors }

def closeAnchor (n : Node) : Option String → Parse Node
  | none => pure n
  | some name => do
    modify fun r => { r with anchors := (name, some n) :: r.anchors }
    return n

/-- The full name of a tag. -/
def tagName (t : TagText) : Parse String := do
  match t.handle with
  | none => return t.suffix
  | some handle =>
    match (← get).handles.lookup handle with
    | some start => return start ++ t.suffix
    | none => malformed

/-- The name and the tag before a node, in either order. -/
def properties : Parse (Option String × Option String) := do
  match ← peek with
  | .anchor name => do
    advance
    match ← peek with
    | .tag t => do
      advance
      return (some name, some (← tagName t))
    | _ => return (some name, none)
  | .tag t => do
    advance
    match ← peek with
    | .anchor name => do
      advance
      return (some name, some (← tagName t))
    | _ => return (none, some (← tagName t))
  | _ => return (none, none)

/-! ## Nodes -/

/-- Where a node stands, which decides the collections it may be. -/
inductive Place where
  /-- In a flow collection. -/
  | flow
  /-- In a block sequence, or at the top. -/
  | block
  /-- In a block mapping, where a sequence needs no deeper indentation. -/
  | entry
deriving DecidableEq

/-- A node without content. -/
def absent (named : Bool) (tag : Option String) : Parse Node :=
  if named || tag.isSome then return .ofText tag true "" else malformed

mutual

def node : Nat → Place → Parse Node
  | 0, _ => malformed
  | fuel + 1, place => do
    match ← peek with
    | .alias name => do
      advance
      aliased name
    | _ => do
      let (anchor, tag) ← properties
      openAnchor anchor
      let n ← content fuel place anchor.isSome tag
      closeAnchor n anchor

/-- A node after its name and tag; with one of them it may be empty. -/
def content : Nat → Place → Bool → Option String → Parse Node
  | 0, _, _, _ => malformed
  | fuel + 1, place, named, tag => do
    match ← peek with
    | .entry =>
      if place = .entry then return .ofItems tag (← looseItems fuel []) else absent named tag
    | .scalar text plain => do
      advance
      return .ofText tag plain text
    | .flowSequenceStart => do
      advance
      return .ofItems tag (← flowItems fuel true [])
    | .flowMappingStart => do
      advance
      return .ofEntries tag (← flowEntries fuel true [])
    | .blockSequenceStart =>
      if place = .flow then absent named tag
      else do
        advance
        return .ofItems tag (← blockItems fuel [])
    | .blockMappingStart =>
      if place = .flow then absent named tag
      else do
        advance
        return .ofEntries tag (← blockEntries fuel [])
    | _ => absent named tag

def nodeUnless : Nat → Place → List Token → Parse Node
  | 0, _, _ => malformed
  | fuel + 1, place, stops => do
    if stops.contains (← peek) then return .empty else node fuel place

def blockItems : Nat → List Node → Parse (List Node)
  | 0, _ => malformed
  | fuel + 1, done => do
    match ← peek with
    | .entry => do
      advance
      let n ← nodeUnless fuel .block [.entry, .blockEnd]
      blockItems fuel (n :: done)
    | _ => do
      expect .blockEnd
      return done.reverse

/-- The items of a sequence that is indented like the mapping around it. -/
def looseItems : Nat → List Node → Parse (List Node)
  | 0, _ => malformed
  | fuel + 1, done => do
    match ← peek with
    | .entry => do
      advance
      let n ← nodeUnless fuel .block [.entry, .key, .value, .blockEnd]
      looseItems fuel (n :: done)
    | _ => return done.reverse

def blockEntries : Nat → List (Node × Node) → Parse (List (Node × Node))
  | 0, _ => malformed
  | fuel + 1, done => do
    match ← peek with
    | .key => do
      advance
      let k ← nodeUnless fuel .entry [.key, .value, .blockEnd]
      let v ← valueUnless fuel .entry [.key, .value, .blockEnd]
      blockEntries fuel ((k, v) :: done)
    | _ => do
      expect .blockEnd
      return done.reverse

/-- The value after a key; it may be empty or lack its colon. -/
def valueUnless : Nat → Place → List Token → Parse Node
  | 0, _, _ => malformed
  | fuel + 1, place, stops => do
    match ← peek with
    | .value => do
      advance
      nodeUnless fuel place stops
    | _ => return .empty

/-- The items of a flow sequence to its end. A key makes a mapping of one entry. -/
def flowItems : Nat → Bool → List Node → Parse (List Node)
  | 0, _, _ => malformed
  | fuel + 1, first, done => do
    if (← peek) = .flowSequenceEnd then
      advance
      return done.reverse
    if !first then expect .flowEntry
    match ← peek with
    | .key => do
      advance
      let k ← nodeUnless fuel .flow [.value, .flowEntry, .flowSequenceEnd]
      let v ← valueUnless fuel .flow [.flowEntry, .flowSequenceEnd]
      flowItems fuel false (.ofEntries none [(k, v)] :: done)
    | .flowSequenceEnd => do
      advance
      return done.reverse
    | _ => do
      let n ← node fuel .flow
      flowItems fuel false (n :: done)

/-- The entries of a flow mapping to its end. A node without a colon is a key. -/
def flowEntries : Nat → Bool → List (Node × Node) → Parse (List (Node × Node))
  | 0, _, _ => malformed
  | fuel + 1, first, done => do
    if (← peek) = .flowMappingEnd then
      advance
      return done.reverse
    if !first then expect .flowEntry
    match ← peek with
    | .key => do
      advance
      let k ← nodeUnless fuel .flow [.value, .flowEntry, .flowMappingEnd]
      let v ← valueUnless fuel .flow [.flowEntry, .flowMappingEnd]
      flowEntries fuel false ((k, v) :: done)
    | .flowMappingEnd => do
      advance
      return done.reverse
    | _ => do
      let k ← node fuel .flow
      flowEntries fuel false ((k, .empty) :: done)

end

/-! ## Documents -/

/-- The directives before a document: one version at most, and one meaning for a handle. -/
def directives : Nat → Bool → Parse Unit
  | 0, _ => malformed
  | fuel + 1, versioned => do
    match ← peek with
    | .versionDirective major => do
      if versioned || major != 1 then malformed
      advance
      directives fuel true
    | .tagDirective handle start => do
      let r ← get
      if (r.handles.lookup handle).isSome then malformed
      set { r with handles := (handle, start) :: r.handles }
      advance
      directives fuel versioned
    | .otherDirective => do
      advance
      directives fuel versioned
    | _ => return

def defaultHandles : List (String × String) := [("!", "!"), ("!!", Tag.home)]

def addDefaultHandles : Parse Unit :=
  modify fun r => { r with handles := r.handles ++ defaultHandles }

def startsDocument : Token → Bool
  | .versionDirective _ | .tagDirective .. | .otherDirective | .documentStart => true
  | _ => false

def markedDocument (fuel : Nat) : Parse Node := do
  directives fuel false
  addDefaultHandles
  expect .documentStart
  let t ← peek
  if startsDocument t || t = .documentEnd || t = .textEnd then return .empty
  else node fuel .block

/-- Nothing but marks of the end may follow. -/
def finish : Nat → Parse Unit
  | 0 => malformed
  | fuel + 1 => do
    match ← peek with
    | .documentEnd => do
      advance
      finish fuel
    | t => if t = .textEnd then return else malformed

/-- The only document of a text, if there is one. -/
def document (fuel : Nat) : Parse (Option Node) := do
  let t ← peek
  if t = .textEnd then return none
  let n ← if startsDocument t then markedDocument fuel
    else do
      addDefaultHandles
      node fuel .block
  finish fuel
  return some n

end Parse

/-! ## Reading -/

/-- One reading of a text, with the nodes that an earlier one found. -/
def parseWith (ts : List Token) (known : List (String × Node)) :
    Except Fault (Option Node × Reader) :=
  (Parse.document (4 * ts.length + 8)).run ⟨ts, [], [], known, false⟩

def Reader.found (r : Reader) : List (String × Node) :=
  r.anchors.filterMap fun (name, n) => n.map (name, ·)

/-- A node inside itself is unfolded this often, which is deeper than any record looks. -/
def maxUnfolding : Nat := 5

def parseAgain (ts : List Token) : Nat → Option Node × Reader → Except Fault (Option Node)
  | 0, (n, _) => .ok n
  | fuel + 1, (n, r) =>
    if r.loops then do parseAgain ts fuel (← parseWith ts r.found) else .ok n

/-- The node of a text that holds a single document or none. -/
def parse (s : String) : Except Fault (Option Node) := do
  let ts := tokens s
  parseAgain ts maxUnfolding (← parseWith ts [])

def read (s : String) : Except Fault Document := do
  match ← parse s with
  | some n => n.document
  | none => return .null

end Pathway.Yaml
