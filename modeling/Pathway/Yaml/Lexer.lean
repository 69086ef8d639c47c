import Pathway.Text.Utf8
import Pathway.Yaml.Scalar
import Pathway.Yaml.Token

/-!
# From text to tokens

Block collections open where the indentation grows and close where it shrinks. A key is known only
by the colon behind it, so the places where a key may have started are kept, and the key token is
put in before what was read since.
-/

namespace Pathway.Yaml

/-- A place where a key may have started. -/
structure KeyStart where
  /-- How many tokens stand before it. -/
  tokens : Nat
  /-- Only a key can stand here. -/
  required : Bool
  index : Nat
  line : Nat
  column : Nat

structure Lexer where
  cursor : Cursor
  /-- The tokens so far, the last first. -/
  tokens : List Token
  count : Nat
  flow : Nat
  indent : Int
  indents : List Int
  /-- A key may start here. -/
  keyAllowed : Bool
  /-- The places where keys may have started, by depth of flow collections. -/
  keyStarts : List (Nat × KeyStart)

namespace Lexer

abbrev Step := Lexer → Except Fault Lexer

def ofText (s : String) : Lexer := ⟨.ofText s, [], 0, 0, -1, [], true, []⟩

def inFlow (l : Lexer) : Bool := l.flow != 0

def push (l : Lexer) (t : Token) : Lexer :=
  { l with tokens := t :: l.tokens, count := l.count + 1 }

/-- One character ahead, and a token for it. -/
def mark (t : Token) (l : Lexer) : Lexer := { l.push t with cursor := l.cursor.advance }

/-! ## Indentation -/

/-- Closes the block collections that are indented deeper than a column. -/
def unwindFrom (column : Int) : List Int → Lexer → Lexer
  | [], l => l
  | outer :: rest, l =>
    if column < l.indent then
      unwindFrom column rest { l.push .blockEnd with indent := outer, indents := rest }
    else l

def unwind (column : Int) (l : Lexer) : Lexer :=
  if l.inFlow then l else unwindFrom column l.indents l

def grows (l : Lexer) (column : Nat) : Bool := decide (l.indent < (column : Int))

/-- A collection of a deeper indentation opens. -/
def deepen (l : Lexer) (column : Nat) : Lexer :=
  { l with indents := l.indent :: l.indents, indent := column }

/-- Opens a block collection here unless one of this indentation is open. -/
def openBlock (t : Token) (l : Lexer) : Lexer :=
  if l.grows l.cursor.column then (l.deepen l.cursor.column).push t else l

/-! ## Keys -/

/-- A key stands on one line and has at most 1024 characters. -/
def isStale (l : Lexer) (k : KeyStart) : Bool :=
  k.line != l.cursor.line || 1024 < l.cursor.index - k.index

def dropStaleKeys (l : Lexer) : Except Fault Lexer :=
  if l.keyStarts.any fun k => l.isStale k.2 && k.2.required then .error .malformed
  else .ok { l with keyStarts := l.keyStarts.filter fun k => !l.isStale k.2 }

/-- Nothing read so far on this depth is a key. -/
def dropKeyStart (l : Lexer) : Except Fault Lexer :=
  match l.keyStarts.lookup l.flow with
  | some k =>
    if k.required then .error .malformed
    else .ok { l with keyStarts := l.keyStarts.filter (·.1 != l.flow) }
  | none => .ok l

/-- A key may start here. -/
def saveKeyStart (l : Lexer) : Except Fault Lexer :=
  if l.keyAllowed then do
    let l ← l.dropKeyStart
    let c := l.cursor
    let required := !l.inFlow && l.indent == (c.column : Int)
    let k : KeyStart := ⟨l.count, required, c.index, c.line, c.column⟩
    return { l with keyStarts := (l.flow, k) :: l.keyStarts }
  else .ok l

def allowKey (allowed : Bool) (l : Lexer) : Lexer := { l with keyAllowed := allowed }

/-- Puts a token in behind the first `i` ones. -/
def insertToken (l : Lexer) (i : Nat) (t : Token) : Lexer :=
  { l with tokens := l.tokens.insertIdx (l.count - i) t, count := l.count + 1 }

/-! ## Blanks -/

/-- Blanks and comments; a line break outside flow collections allows a key. -/
def skipBlanks : Nat → Lexer → Lexer
  | 0, l => l
  | fuel + 1, l =>
    let c := l.cursor.skipSpaces.skipComment
    match c.lineBreak? with
    | some (_, c) => skipBlanks fuel { l with cursor := c, keyAllowed := l.keyAllowed || !l.inFlow }
    | none => { l with cursor := c }

def skipByteOrderMark (l : Lexer) : Lexer :=
  if l.cursor.index = 0 && l.cursor.head == '\uFEFF' then { l with cursor := l.cursor.advance }
  else l

/-! ## Directives and document marks -/

/-- The end of all block collections, before a directive, a document mark or the end. -/
def closeAll (l : Lexer) : Except Fault Lexer :=
  (allowKey false) <$> (l.unwind (-1)).dropKeyStart

def documentMark (t : Token) : Step := fun l => do
  let l ← l.closeAll
  return { l.push t with cursor := l.cursor.advanceBy 3 }

def number? (c : Cursor) : Except Fault (Nat × Cursor) :=
  let (digits, c) := c.span Char.isDigit
  if digits.isEmpty then .error .malformed else .ok (Number.ofDigits digits, c)

def versionDirective (c : Cursor) : Except Fault (Token × Cursor) := do
  let (major, c) ← number? c.skipSpaces
  if c.head != '.' then throw .malformed
  let (_, c) ← number? c.advance
  if isSpaceOrEnd c.head then return (.versionDirective major, c) else throw .malformed

def tagHandle (c : Cursor) : Except Fault (String × Cursor) :=
  if c.head != '!' then .error .malformed
  else if c.peek 1 == ' ' then .ok ("!", c.advance)
  else
    let (word, after) := c.advance.span isWord
    if after.head == '!' then .ok (String.ofList ('!' :: word ++ ['!']), after.advance)
    else .error .malformed

def isUriMark (c : Char) : Bool := "-;/?:@&=+$,_.!~*'()[]".toList.contains c || c.isAlphanum

def uriBytes : Nat → List UInt8 → Cursor → Except Fault (List UInt8 × Cursor)
  | 0, done, c => .ok (done.reverse, c)
  | fuel + 1, done, c =>
    if c.head != '%' then .ok (done.reverse, c)
    else
      let digits := c.advance.rest.take 2
      match Json.hexValue? digits with
      | some n =>
        if digits.length = 2 then uriBytes fuel (n.toUInt8 :: done) (c.advanceBy 3)
        else .error .malformed
      | none => .error .malformed

/-- The text of a tag, with its percent escapes decoded. -/
def uriFrom : Nat → String → Cursor → Except Fault (String × Cursor)
  | 0, done, c => .ok (done, c)
  | fuel + 1, done, c => do
    let (run, c) := c.span isUriMark
    let done := done ++ String.ofList run
    if c.head != '%' then return (done, c)
    let (bytes, c) ← uriBytes c.fuel [] c
    match Text.decode? bytes with
    | some s => uriFrom fuel (done ++ s) c
    | none => throw .malformed

def uri (c : Cursor) : Except Fault (String × Cursor) := do
  if !isUriMark c.head && c.head != '%' then throw .malformed
  uriFrom c.fuel "" c

def tagDirective (c : Cursor) : Except Fault (Token × Cursor) := do
  let (handle, c) ← tagHandle c.skipSpaces
  if c.head != ' ' then throw .malformed
  let (start, c) ← uri c.skipSpaces
  if isSpaceOrEnd c.head then return (.tagDirective handle start, c) else throw .malformed

def directive : Step := fun l => do
  let l ← l.closeAll
  let (name, c) := l.cursor.advance.span isWord
  if name.isEmpty || !isSpaceOrEnd c.head then throw .malformed
  let (t, c) ←
    if name == "YAML".toList then versionDirective c
    else if name == "TAG".toList then tagDirective c
    else pure (.otherDirective, c.skip (!isBreak ·))
  return { l.push t with cursor := ← ignoredLine c }

/-! ## Collections -/

def openFlow (t : Token) : Step := fun l => do
  let l ← l.saveKeyStart
  return ({ l with flow := l.flow + 1 }.allowKey true).mark t

def closeFlow (t : Token) : Step := fun l => do
  if !l.inFlow then throw .malformed
  let l ← l.dropKeyStart
  return ({ l with flow := l.flow - 1 }.allowKey false).mark t

def flowEntry : Step := fun l => do
  return (← (l.allowKey true).dropKeyStart).mark .flowEntry

def blockEntry : Step := fun l => do
  if !l.inFlow && !l.keyAllowed then throw .malformed
  let l := if l.inFlow then l else l.openBlock .blockSequenceStart
  return (← (l.allowKey true).dropKeyStart).mark .entry

def key : Step := fun l => do
  if !l.inFlow && !l.keyAllowed then throw .malformed
  let l := if l.inFlow then l else l.openBlock .blockMappingStart
  return (← (l.allowKey (!l.inFlow)).dropKeyStart).mark .key

/-- The colon after a key: the key token goes before what was read as the key. -/
def valueOf (k : KeyStart) (l : Lexer) : Lexer :=
  let l := { l with keyStarts := l.keyStarts.filter (·.1 != l.flow) }
  let l := l.insertToken k.tokens .key
  let l :=
    if !l.inFlow && l.grows k.column then
      (l.deepen k.column).insertToken k.tokens .blockMappingStart
    else l
  (l.allowKey false).mark .value

/-- A colon without a key before it. -/
def bareValue : Step := fun l => do
  if !l.inFlow && !l.keyAllowed then throw .malformed
  let l := if l.inFlow then l else l.openBlock .blockMappingStart
  return (← (l.allowKey (!l.inFlow)).dropKeyStart).mark .value

def value : Step := fun l =>
  match l.keyStarts.lookup l.flow with
  | some k => .ok (l.valueOf k)
  | none => l.bareValue

/-! ## Names, tags and scalars -/

/-- What may follow the name of an anchor or an alias. -/
def endsName (c : Char) : Bool := isBlankOrEnd c || "?:,]%@\x7d\x60".toList.contains c

def name (make : String → Token) : Step := fun l => do
  let l ← l.saveKeyStart
  let (word, c) := l.cursor.advance.span isWord
  if word.isEmpty || !endsName c.head then throw .malformed
  return { (l.allowKey false).push (make (String.ofList word)) with cursor := c }

/-- Does a tag that starts here have a handle of its own? -/
def hasHandle (c : Cursor) : Bool :=
  (c.advance.rest.takeWhile (!isSpaceOrEnd ·)).contains '!'

def tagText (c : Cursor) : Except Fault (TagText × Cursor) := do
  if c.peek 1 == '<' then
    let (suffix, c) ← uri (c.advanceBy 2)
    if c.head != '>' then throw .malformed
    return (⟨none, suffix⟩, c.advance)
  if isBlankOrEnd (c.peek 1) then return (⟨none, "!"⟩, c.advance)
  let (handle, c) ← if hasHandle c then tagHandle c else pure ("!", c.advance)
  let (suffix, c) ← uri c
  return (⟨some handle, suffix⟩, c)

def tag : Step := fun l => do
  let l ← l.saveKeyStart
  let (text, c) ← tagText l.cursor
  if !isSpaceOrEnd c.head then throw .malformed
  return { (l.allowKey false).push (.tag text) with cursor := c }

def block : Step := fun l => do
  let l ← (l.allowKey true).dropKeyStart
  let (cs, c) ← blockScalar l.indent l.cursor
  return { l.push (.scalar (String.ofList cs) false) with cursor := c }

def quoted : Step := fun l => do
  let l ← l.saveKeyStart
  let (cs, c) ← quotedScalar l.cursor
  return { (l.allowKey false).push (.scalar (String.ofList cs) false) with cursor := c }

def plain : Step := fun l => do
  let l ← l.saveKeyStart
  let ((cs, broken), c) := plainScalar l.inFlow l.indent l.cursor
  return { (l.allowKey broken).push (.scalar (String.ofList cs) true) with cursor := c }

/-! ## All tokens -/

/-- The characters that start something else than a plain scalar. -/
def isIndicator (c : Char) : Bool :=
  isBlankOrEnd c || "-?:,[]#&*!|>'\"%@\x7b\x7d\x60".toList.contains c

/-- Some indicators start a plain scalar if no blank follows. -/
def startsPlain (l : Lexer) : Bool :=
  let c := l.cursor
  !isIndicator c.head
    || (!isBlankOrEnd (c.peek 1)
      && (c.head == '-' || (!l.inFlow && (c.head == '?' || c.head == ':'))))

/-- The step for what stands at the cursor. -/
def step : Step := fun l =>
  let c := l.cursor
  let spaced := isBlankOrEnd (c.peek 1)
  if c.column = 0 && c.head == '%' then l.directive
  else if c.column = 0 && c.startsWith3 '-' then l.documentMark .documentStart
  else if c.column = 0 && c.startsWith3 '.' then l.documentMark .documentEnd
  else
    match c.head with
    | '[' => l.openFlow .flowSequenceStart
    | '\x7b' => l.openFlow .flowMappingStart
    | ']' => l.closeFlow .flowSequenceEnd
    | '\x7d' => l.closeFlow .flowMappingEnd
    | ',' => l.flowEntry
    | '*' => l.name .alias
    | '&' => l.name .anchor
    | '!' => l.tag
    | '\'' | '"' => l.quoted
    | x =>
      if x == '-' && spaced then l.blockEntry
      else if x == '?' && (l.inFlow || spaced) then l.key
      else if x == ':' && (l.inFlow || spaced) then l.value
      else if (x == '|' || x == '>') && !l.inFlow then l.block
      else if l.startsPlain then l.plain
      else .error .malformed

/-- Blanks, and the end of the block collections they close. -/
def prepare : Step := fun l => do
  let l := skipBlanks l.cursor.fuel l.skipByteOrderMark
  let l ← l.dropStaleKeys
  return l.unwind l.cursor.column

/-- The tokens to the end of the text, or to the place where it breaks, the last first. -/
def run : Nat → Lexer → List Token
  | 0, l => .broken .malformed :: l.tokens
  | fuel + 1, l =>
    match l.prepare with
    | .error e => .broken e :: l.tokens
    | .ok l =>
      match if l.cursor.atEnd then l.closeAll else l.step with
      | .error e => .broken e :: l.tokens
      | .ok next => if l.cursor.atEnd then .textEnd :: next.tokens else run fuel next

end Lexer

def tokens (s : String) : List Token :=
  if s.toList.all isReadable then (Lexer.run (s.length + 2) (.ofText s)).reverse
  else [.broken .malformed]

end Pathway.Yaml
