import Pathway.Document
import Pathway.Number.Reading

/-!
# Reading JSON

`Json.read` turns a text into a document, or says what it expected and where. The words `NaN`,
`Infinity` and `-Infinity` are numbers. Every function returns the text that is left, so a fault
can point at it.
-/

namespace Pathway.Json

open Number

/-! ## Faults -/

inductive Cause where
  | expectedValue
  | expectedName
  | expectedColon
  | expectedComma
  | unterminatedText
  | controlCharacter
  | badEscape
  | badCodePoint
  | extraData
  | byteOrderMark
  | oversizedInteger (digits : Nat)
deriving DecidableEq, Repr

def Cause.message : Cause → String
  | .expectedValue => "Expecting value"
  | .expectedName => "Expecting property name enclosed in double quotes"
  | .expectedColon => "Expecting ':' delimiter"
  | .expectedComma => "Expecting ',' delimiter"
  | .unterminatedText => "Unterminated string starting at"
  | .controlCharacter => "Invalid control character at"
  | .badEscape => "Invalid \\escape"
  | .badCodePoint => "Invalid \\uXXXX escape"
  | .extraData => "Extra data"
  | .byteOrderMark => "Unexpected UTF-8 BOM (decode using utf-8-sig)"
  | .oversizedInteger digits => tooManyDigits digits

/-- A cause, and the text from the faulty place on. -/
structure Fault where
  cause : Cause
  rest : List Char

/-- The place of a fault in the whole text: its line, its column and its index. -/
def Fault.place (text : List Char) (fault : Fault) : Nat × Nat × Nat :=
  let index := text.length - fault.rest.length
  let before := text.take index
  let line := before.count '\n' + 1
  let column := (before.reverse.takeWhile (· != '\n')).length + 1
  (line, column, index)

def Fault.message (text : List Char) (fault : Fault) : String :=
  let (line, column, index) := fault.place text
  s!"{fault.cause.message}: line {line} column {column} (char {index})"

/-! ## Blanks and text -/

def isBlank (c : Char) : Bool := c == ' ' || c == '\t' || c == '\n' || c == '\r'

def skipBlanks (cs : List Char) : List Char := cs.dropWhile isBlank

def hexDigit? (c : Char) : Option Nat :=
  if c.isDigit then some (c.toNat - '0'.toNat)
  else if 'a' ≤ c ∧ c ≤ 'f' then some (c.toNat - 'a'.toNat + 10)
  else if 'A' ≤ c ∧ c ≤ 'F' then some (c.toNat - 'A'.toNat + 10)
  else none

def hexValue? (cs : List Char) : Option Nat :=
  cs.foldlM (fun n c => (hexDigit? c).map (n * 16 + ·)) 0

/-- Four hexadecimal digits with at least one more character behind them. -/
def codeUnit? (cs : List Char) : Option (Nat × List Char) :=
  if 4 < cs.length then (hexValue? (cs.take 4)).map (·, cs.drop 4) else none

/-- A surrogate without its partner has no character and reads as the replacement character. -/
def charOf (n : Nat) : Char := if n.isValidChar then Char.ofNat n else '\uFFFD'

/-- The character of an escaped code unit, joined with the low surrogate that may follow. -/
def codePoint (unit : Nat) (cs : List Char) : Except Unit (Char × List Char) :=
  if 0xD800 ≤ unit ∧ unit ≤ 0xDBFF ∧ 6 < cs.length then
    match cs with
    | '\\' :: 'u' :: more =>
      match hexValue? (more.take 4) with
      | some low =>
        if 0xDC00 ≤ low ∧ low ≤ 0xDFFF then
          .ok (charOf (0x10000 + (unit - 0xD800) * 1024 + (low - 0xDC00)), more.drop 4)
        else .ok (charOf unit, cs)
      | none => .error ()
    | _ => .ok (charOf unit, cs)
  else .ok (charOf unit, cs)

def simpleEscape? : Char → Option Char
  | '"' => some '"'
  | '\\' => some '\\'
  | '/' => some '/'
  | 'b' => some '\x08'
  | 'f' => some '\x0c'
  | 'n' => some '\n'
  | 'r' => some '\r'
  | 't' => some '\t'
  | _ => none

/-- The text after an opening quote; `start` is the text from that quote on. -/
def textBody (start : List Char) : Nat → List Char → List Char → Except Fault (String × List Char)
  | 0, _, _ => .error ⟨.unterminatedText, start⟩
  | _ + 1, _, [] => .error ⟨.unterminatedText, start⟩
  | fuel + 1, done, c :: cs =>
    if c = '"' then .ok (String.ofList done.reverse, cs)
    else if c = '\\' then
      match cs with
      | [] => .error ⟨.unterminatedText, start⟩
      | 'u' :: digits =>
        match codeUnit? digits with
        | none => .error ⟨.badCodePoint, cs⟩
        | some (unit, rest) =>
          match codePoint unit rest with
          | .ok (x, rest) => textBody start fuel (x :: done) rest
          | .error _ => .error ⟨.badCodePoint, rest.tail⟩
      | e :: rest =>
        match simpleEscape? e with
        | some x => textBody start fuel (x :: done) rest
        | none => .error ⟨.badEscape, c :: cs⟩
    else if c.toNat < 0x20 then .error ⟨.controlCharacter, c :: cs⟩
    else textBody start fuel (c :: done) cs

/-! ## Numbers and words -/

/-- A fraction or an exponent belongs to a number only with a digit in it. -/
def spanFraction : List Char → List Char × List Char
  | '.' :: cs => spanDigits cs
  | _ => ([], [])

def spanExponent (cs : List Char) : Option (Int × List Char) :=
  match cs with
  | e :: rest =>
    if e = 'e' || e = 'E' then
      let (negative, body) := spanSign rest
      let (digits, rest) := spanDigits body
      if digits.isEmpty then none
      else some (if negative then -(ofDigits digits : Int) else ofDigits digits, rest)
    else none
  | [] => none

/-- The digits before the point: a single zero, or digits that start with another. -/
def spanWhole : List Char → List Char × List Char
  | '0' :: rest => (['0'], rest)
  | cs => spanDigits cs

def number (start : List Char) : Except Fault (Document × List Char) :=
  let (negative, body) := match start with
    | '-' :: rest => (true, rest)
    | _ => (false, start)
  let (digits, rest) := spanWhole body
  if digits.isEmpty then .error ⟨.expectedValue, start⟩
  else
    let (fraction, afterFraction) := spanFraction rest
    let rest' := if fraction.isEmpty then rest else afterFraction
    let all := ofDigits (digits ++ fraction)
    match spanExponent rest' with
    | some (e, rest'') => .ok (.real (.ofDecimal negative all (e - fraction.length)), rest'')
    | none =>
      if !fraction.isEmpty then .ok (.real (.ofDecimal negative all (-fraction.length)), rest')
      else if maxDigits < digits.length then .error ⟨.oversizedInteger digits.length, start⟩
      else .ok (.int (if negative then -(ofDigits digits : Int) else ofDigits digits), rest)

/-- The rest after a word that the text starts with. -/
def word? (word : String) (cs : List Char) : Option (List Char) :=
  if word.toList.isPrefixOf cs then some (cs.drop word.length) else none

def words : List (String × Document) :=
  [("null", .null), ("true", .bool true), ("false", .bool false), ("NaN", .real .nan),
    ("Infinity", .real (.infinite false)), ("-Infinity", .real (.infinite true))]

def wordOrNumber (cs : List Char) : Except Fault (Document × List Char) :=
  match words.findSome? fun w => (word? w.1 cs).map (w.2, ·) with
  | some answer => .ok answer
  | none => number cs

/-! ## Values -/

mutual

def value : Nat → List Char → Except Fault (Document × List Char)
  | 0, cs => .error ⟨.expectedValue, cs⟩
  | fuel + 1, cs =>
    match cs with
    | [] => .error ⟨.expectedValue, []⟩
    | '"' :: rest => do
      let (s, rest) ← textBody cs fuel [] rest
      return (.text s, rest)
    | '[' :: rest =>
      match skipBlanks rest with
      | ']' :: rest => .ok (.list [], rest)
      | rest => elements fuel [] rest
    | '\x7b' :: rest =>
      match skipBlanks rest with
      | '\x7d' :: rest => .ok (.map [], rest)
      | rest => members fuel [] rest
    | _ => wordOrNumber cs

def elements : Nat → List Document → List Char → Except Fault (Document × List Char)
  | 0, _, cs => .error ⟨.expectedValue, cs⟩
  | fuel + 1, done, cs => do
    let (x, rest) ← value fuel cs
    match skipBlanks rest with
    | ']' :: rest => return (.list (x :: done).reverse, rest)
    | ',' :: rest => elements fuel (x :: done) (skipBlanks rest)
    | rest => throw ⟨.expectedComma, rest⟩

def members : Nat → List (Document × Document) → List Char → Except Fault (Document × List Char)
  | 0, _, cs => .error ⟨.expectedName, cs⟩
  | fuel + 1, done, cs =>
    match cs with
    | '"' :: body => do
      let (name, rest) ← textBody cs fuel [] body
      match skipBlanks rest with
      | ':' :: rest => do
        let (x, rest) ← value fuel (skipBlanks rest)
        match skipBlanks rest with
        | '\x7d' :: rest => return (.map ((.text name, x) :: done).reverse, rest)
        | ',' :: rest => members fuel ((.text name, x) :: done) (skipBlanks rest)
        | rest => throw ⟨.expectedComma, rest⟩
      | rest => throw ⟨.expectedColon, rest⟩
    | _ => .error ⟨.expectedName, cs⟩

end

/-- The whole text is one value in blanks. -/
def readChars (text : List Char) : Except Fault Document := do
  if text.head? = some '\uFEFF' then throw ⟨.byteOrderMark, text⟩
  let (x, rest) ← value (2 * text.length + 1) (skipBlanks text)
  match skipBlanks rest with
  | [] => return x
  | rest => throw ⟨.extraData, rest⟩

def read (s : String) : Except Fault Document := readChars s.toList

end Pathway.Json
