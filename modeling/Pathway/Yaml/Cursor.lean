/-!
# Cursors

A cursor is a place in a text: what is left of it, and the index, line and column of the place.
Beyond the end a cursor sees the mark `endMark`, which no readable text holds.
-/

namespace Pathway.Yaml

def endMark : Char := '\x00'

/-! ## Characters -/

/-- The characters a text may hold. -/
def isReadable (c : Char) : Bool :=
  let n := c.toNat
  n == 9 || n == 10 || n == 13 || (0x20 ≤ n && n ≤ 0x7E) || n == 0x85
    || (0xA0 ≤ n && n ≤ 0xD7FF) || (0xE000 ≤ n && n ≤ 0xFFFD) || 0x10000 ≤ n

def isBreak (c : Char) : Bool :=
  c == '\n' || c == '\r' || c == '\x85' || c == '\u2028' || c == '\u2029'

def isBreakOrEnd (c : Char) : Bool := c == endMark || isBreak c

def isSpaceOrEnd (c : Char) : Bool := c == ' ' || isBreakOrEnd c

def isBlankOrEnd (c : Char) : Bool := c == '\t' || isSpaceOrEnd c

def isInlineBlank (c : Char) : Bool := c == ' ' || c == '\t'

def isWord (c : Char) : Bool := c.isAlphanum || c == '-' || c == '_'

/-! ## Cursors -/

structure Cursor where
  rest : List Char
  size : Nat
  index : Nat
  line : Nat
  column : Nat
deriving Inhabited

namespace Cursor

def ofText (s : String) : Cursor := ⟨s.toList, s.length, 0, 0, 0⟩

def peek (c : Cursor) (k : Nat) : Char := c.rest.getD k endMark

def head (c : Cursor) : Char := c.rest.headD endMark

def atEnd (c : Cursor) : Bool := c.rest.isEmpty

/-- One character ahead. A byte order mark takes no column. -/
def advance (c : Cursor) : Cursor :=
  match c.rest with
  | [] => c
  | x :: rest =>
    let c := { c with rest, index := c.index + 1 }
    if isBreak x && !(x == '\r' && rest.head? == some '\n') then
      { c with line := c.line + 1, column := 0 }
    else if x = '\uFEFF' then c
    else { c with column := c.column + 1 }

/-- No walk from here takes more steps than this. -/
def fuel (c : Cursor) : Nat := c.size + 1

def advanceBy (c : Cursor) (n : Nat) : Cursor := Nat.repeat advance n c

/-- The characters ahead that have a property, and the cursor behind them. -/
def span (p : Char → Bool) (c : Cursor) : List Char × Cursor :=
  let cs := c.rest.takeWhile p
  (cs, c.advanceBy cs.length)

def skip (p : Char → Bool) (c : Cursor) : Cursor := (c.span p).2

def skipSpaces (c : Cursor) : Cursor := c.skip (· == ' ')

/-- A comment reaches to the end of its line. -/
def skipComment (c : Cursor) : Cursor :=
  if c.head == '#' then c.skip (!isBreak ·) else c

/-- A line break as it counts in a scalar, if there is one, and the cursor behind it. -/
def lineBreak? (c : Cursor) : Option (Char × Cursor) :=
  let x := c.head
  if x == '\r' && c.peek 1 == '\n' then some ('\n', c.advanceBy 2)
  else if x == '\n' || x == '\r' || x == '\x85' then some ('\n', c.advance)
  else if x == '\u2028' || x == '\u2029' then some (x, c.advance)
  else none

/-- Three equal marks with a blank behind them separate documents. -/
def startsWith3 (c : Cursor) (mark : Char) : Bool :=
  c.head == mark && c.peek 1 == mark && c.peek 2 == mark && isBlankOrEnd (c.peek 3)

def atSeparator (c : Cursor) : Bool := c.startsWith3 '-' || c.startsWith3 '.'

end Cursor

end Pathway.Yaml
