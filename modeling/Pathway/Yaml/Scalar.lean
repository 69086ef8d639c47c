import Pathway.Json.Reader
import Pathway.Yaml.Cursor
import Pathway.Yaml.Fault

/-!
# Scalars

Plain, quoted and block scalars, each from the cursor at its first character on. A line break
inside a plain or quoted scalar is folded: a single one becomes a blank, of several the first
vanishes.
-/

namespace Pathway.Yaml

abbrev Scanned (α : Type) := Except Fault (α × Cursor)

/-! ## Folding -/

/-- The text that stands for a line break and the further breaks after it. -/
def folded (first : Char) (more : List Char) : List Char :=
  if first != '\n' then first :: more
  else if more.isEmpty then [' ']
  else more

/-! ## Plain scalars -/

def isFlowMark (c : Char) : Bool := c == ',' || c == '[' || c == ']' || c == '\x7b' || c == '\x7d'

/-- A colon ends a plain scalar before a blank, in a flow collection also before its marks. -/
def endsPlain (flow : Bool) (c next : Char) : Bool :=
  isBlankOrEnd c || (c == ':' && (isBlankOrEnd next || (flow && isFlowMark next)))
    || (flow && (isFlowMark c || c == '?'))

/-- The length of the run of a plain scalar that starts here. -/
def plainRun (flow : Bool) : List Char → Nat
  | [] => 0
  | c :: rest => if endsPlain flow c (rest.headD endMark) then 0 else plainRun flow rest + 1

/-- Blank lines; none if a document separator comes. -/
def plainBreaks : Nat → List Char → Cursor → Option (List Char) × Cursor
  | 0, done, c => (some done.reverse, c)
  | fuel + 1, done, c =>
    let c := c.skipSpaces
    match c.lineBreak? with
    | none => (some done.reverse, c)
    | some (b, c) => if c.atSeparator then (none, c) else plainBreaks fuel (b :: done) c

/-- The blanks after a run of a plain scalar. -/
structure PlainGap where
  text : List Char
  cursor : Cursor
  /-- A line ended in the gap. -/
  broken : Bool

def plainGap (c : Cursor) : PlainGap :=
  let (spaces, c) := c.span (· == ' ')
  match c.lineBreak? with
  | none => ⟨spaces, c, false⟩
  | some (b, c) =>
    if c.atSeparator then ⟨[], c, true⟩
    else
      match plainBreaks c.fuel [] c with
      | (some more, c) => ⟨folded b more, c, true⟩
      | (none, c) => ⟨[], c, true⟩

/-- A plain scalar with its runs and gaps; true if a line ended after its last run. What is read is
kept from its end on. -/
def plainFrom (flow : Bool) (indent : Int) :
    Nat → List Char → List Char → Bool → Cursor → (List Char × Bool) × Cursor
  | 0, done, _, broken, c => ((done.reverse, broken), c)
  | fuel + 1, done, gap, broken, c =>
    let length := if c.head == '#' then 0 else plainRun flow c.rest
    if length = 0 then ((done.reverse, broken), c)
    else
      let done := (c.rest.take length).reverseAux (gap.reverseAux done)
      let next := plainGap (c.advanceBy length)
      let stop := next.text.isEmpty || next.cursor.head == '#'
        || (!flow && decide ((next.cursor.column : Int) < indent))
      if stop then ((done.reverse, next.broken), next.cursor)
      else plainFrom flow indent fuel done next.text next.broken next.cursor

def plainScalar (flow : Bool) (indent : Int) (c : Cursor) : (List Char × Bool) × Cursor :=
  plainFrom flow (indent + 1) c.fuel [] [] false c

/-! ## Quoted scalars -/

def escapes : List (Char × Char) :=
  [('0', '\x00'), ('a', '\x07'), ('b', '\x08'), ('t', '\t'), ('\t', '\t'), ('n', '\n'),
    ('v', '\x0b'), ('f', '\x0c'), ('r', '\r'), ('e', '\x1b'), (' ', ' '), ('"', '"'),
    ('\\', '\\'), ('/', '/'), ('N', '\x85'), ('_', '\u00A0'), ('L', '\u2028'), ('P', '\u2029')]

/-- The escapes with a code point, by the number of digits. -/
def codeEscapes : List (Char × Nat) := [('x', 2), ('u', 4), ('U', 8)]

/-- Blank lines inside quotes. -/
def quotedBreaks : Nat → List Char → Cursor → Scanned (List Char)
  | 0, _, _ => .error .malformed
  | fuel + 1, done, c =>
    if c.atSeparator then .error .malformed
    else
      let c := c.skip isInlineBlank
      match c.lineBreak? with
      | some (b, c) => quotedBreaks fuel (b :: done) c
      | none => .ok (done.reverse, c)

def breaksFrom (c : Cursor) : Scanned (List Char) := quotedBreaks c.fuel [] c

/-- The character of a code point; half a surrogate pair reads as the replacement character. -/
def codeChar (n : Nat) : Except Fault Char :=
  if 0x7FFFFFFF < n then .error .oversizedCodePoint
  else if 0x10FFFF < n then .error .badCodePoint
  else .ok (Json.charOf n)

/-- What an escape stands for, from the character after the backslash on. -/
def escaped (c : Cursor) : Scanned (List Char) :=
  match escapes.lookup c.head, codeEscapes.lookup c.head with
  | some x, _ => .ok ([x], c.advance)
  | none, some width =>
    let digits := c.advance.rest.take width
    match Json.hexValue? digits with
    | some n => if digits.length = width
        then (codeChar n).map fun x => ([x], c.advance.advanceBy width)
        else .error .malformed
    | none => .error .malformed
  | none, none =>
    match c.lineBreak? with
    | some (_, c) => breaksFrom c
    | none => .error .malformed

def isQuotedStop (c : Char) : Bool := c == '\'' || c == '"' || c == '\\' || isBlankOrEnd c

/-- The characters up to a blank or the closing quote, after what is read so far, from its end. -/
def quotedRun (double : Bool) : Nat → List Char → Cursor → Scanned (List Char)
  | 0, _, _ => .error .malformed
  | fuel + 1, done, c =>
    let (run, c) := c.span (!isQuotedStop ·)
    let done := run.reverseAux done
    let x := c.head
    if !double && x == '\'' && c.peek 1 == '\'' then
      quotedRun double fuel ('\'' :: done) (c.advanceBy 2)
    else if (double && x == '\'') || (!double && (x == '"' || x == '\\')) then
      quotedRun double fuel (x :: done) c.advance
    else if double && x == '\\' then
      match escaped c.advance with
      | .ok (xs, c) => quotedRun double fuel (xs.reverseAux done) c
      | .error e => .error e
    else .ok (done, c)

/-- The blanks inside quotes. -/
def quotedGap (c : Cursor) : Scanned (List Char) :=
  let (blanks, c) := c.span isInlineBlank
  if c.atEnd then .error .malformed
  else
    match c.lineBreak? with
    | none => .ok (blanks, c)
    | some (b, c) => (breaksFrom c).map fun (more, c) => (folded b more, c)

def quotedFrom (quote : Char) : Nat → List Char → Cursor → Except Fault (List Char × Cursor)
  | 0, _, _ => .error .malformed
  | fuel + 1, done, c => do
    let (done, c) ← quotedRun (quote == '"') c.fuel done c
    if c.head == quote then return (done.reverse, c.advance)
    let (gap, c) ← quotedGap c
    quotedFrom quote fuel (gap.reverseAux done) c

/-- A scalar in quotes, from its opening quote on. -/
def quotedScalar (c : Cursor) : Scanned (List Char) :=
  quotedFrom c.head c.fuel [] c.advance

/-! ## Block scalars -/

/-- What becomes of the line breaks at the end. -/
inductive Chomping where
  | strip
  | clip
  | keep
deriving DecidableEq, Repr

def chomping? (c : Char) : Option Chomping :=
  if c == '+' then some .keep else if c == '-' then some .strip else none

def increment? (c : Cursor) : Except Fault (Option Nat × Cursor) :=
  if !c.head.isDigit then .ok (none, c)
  else if c.head == '0' then .error .malformed
  else .ok (some (c.head.toNat - '0'.toNat), c.advance)

/-- The indicators after the mark of a block scalar, in either order. -/
def blockHeader (c : Cursor) : Except Fault ((Chomping × Option Nat) × Cursor) := do
  let ((chomping, increment), c) ← match chomping? c.head with
    | some chomping => do
      let (increment, c) ← increment? c.advance
      pure ((chomping, increment), c)
    | none => do
      let (increment, c) ← increment? c
      match increment, chomping? c.head with
      | some _, some chomping => pure ((chomping, increment), c.advance)
      | _, _ => pure ((.clip, increment), c)
  if isSpaceOrEnd c.head then return ((chomping, increment), c) else throw .malformed

/-- Nothing but a comment may follow on the line. -/
def ignoredLine (c : Cursor) : Except Fault Cursor :=
  let c := c.skipSpaces.skipComment
  if c.atEnd then .ok c
  else
    match c.lineBreak? with
    | some (_, c) => .ok c
    | none => .error .malformed

/-- The blank lines at the start of a block scalar, and the widest indentation among them. -/
def blockIndentation : Nat → List Char → Nat → Cursor → (List Char × Nat) × Cursor
  | 0, done, widest, c => ((done.reverse, widest), c)
  | fuel + 1, done, widest, c =>
    match c.lineBreak? with
    | some (b, c) => blockIndentation fuel (b :: done) widest c
    | none =>
      if c.head == ' ' then blockIndentation fuel done (max widest c.advance.column) c.advance
      else ((done.reverse, widest), c)

def skipIndent (indent : Nat) (c : Cursor) : Cursor :=
  c.advanceBy (min (indent - c.column) (c.rest.takeWhile (· == ' ')).length)

def blockBreaks (indent : Nat) : Nat → List Char → Cursor → List Char × Cursor
  | 0, done, c => (done.reverse, c)
  | fuel + 1, done, c =>
    let c := skipIndent indent c
    match c.lineBreak? with
    | some (b, c) => blockBreaks indent fuel (b :: done) c
    | none => (done.reverse, c)

/-- What is known of a block scalar after some of its lines. -/
structure BlockState where
  /-- The text before the last break, from its end. -/
  text : List Char
  /-- The break that ended the last line. -/
  last : List Char
  breaks : List Char

/-- The lines of a block scalar. In a folded one, a break between two lines that do not start with a
blank becomes a blank, or vanishes before blank lines. -/
def blockLines (fold : Bool) (indent : Nat) : Nat → BlockState → Cursor → BlockState × Cursor
  | 0, st, c => (st, c)
  | fuel + 1, st, c =>
    if c.column = indent && !c.atEnd then
      let startsBlank := isInlineBlank c.head
      let (line, c) := c.span (!isBreak ·)
      let (last, c) := match c.lineBreak? with
        | some (b, c) => ([b], c)
        | none => ([], c)
      let (breaks, c) := blockBreaks indent c.fuel [] c
      let text := line.reverseAux (st.breaks.reverseAux st.text)
      if c.column = indent && !c.atEnd then
        let joins := fold && last == ['\n'] && !startsBlank && !isInlineBlank c.head
        let glue := if joins then (if breaks.isEmpty then [' '] else []) else last
        blockLines fold indent fuel ⟨glue.reverseAux text, last, breaks⟩ c
      else (⟨text, last, breaks⟩, c)
    else (st, c)

/-- A block scalar in a collection of the given indentation, from its mark on. -/
def blockScalar (indent : Int) (c : Cursor) : Except Fault (List Char × Cursor) := do
  let fold := c.head == '>'
  let ((chomping, increment), c) ← blockHeader c.advance
  let c ← ignoredLine c
  let least := (max 1 (indent + 1)).toNat
  let ((breaks, column), c) := match increment with
    | none =>
      let ((breaks, widest), c) := blockIndentation c.fuel [] 0 c
      ((breaks, max least widest), c)
    | some n =>
      let column := least + n - 1
      let (breaks, c) := blockBreaks column c.fuel [] c
      ((breaks, column), c)
  let (st, c) := blockLines fold column c.fuel ⟨[], [], breaks⟩ c
  return (st.text.reverse ++ (if chomping = .strip then [] else st.last)
    ++ (if chomping = .keep then st.breaks else []), c)

end Pathway.Yaml
