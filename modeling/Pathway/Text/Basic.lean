/-!
# Text

Blanks and trimming, line breaks, and texts as messages quote them.
-/

namespace Pathway.Text

/-! ## Blanks -/

/-- The `White_Space` property. -/
def isBlank (c : Char) : Bool :=
  let n := c.toNat
  (9 ≤ n && n ≤ 13) || n == 0x20 || n == 0x85 || n == 0xA0 || n == 0x1680
    || (0x2000 ≤ n && n ≤ 0x200A) || n == 0x2028 || n == 0x2029 || n == 0x202F || n == 0x205F
    || n == 0x3000

/-- Blanks and the four information separators. -/
def isSpace (c : Char) : Bool :=
  isBlank c || (0x1C ≤ c.toNat && c.toNat ≤ 0x1F)

def dropEndWhile (p : Char → Bool) (cs : List Char) : List Char :=
  (cs.reverse.dropWhile p).reverse

def trimBy (p : Char → Bool) (cs : List Char) : List Char :=
  dropEndWhile p (cs.dropWhile p)

/-! ## Line breaks

A text file may end its lines with a carriage return, a line feed or both. Read as text, each of
them is one line feed.
-/

def unifyBreakChars : List Char → List Char
  | '\r' :: '\n' :: rest => '\n' :: unifyBreakChars rest
  | '\r' :: rest => '\n' :: unifyBreakChars rest
  | c :: rest => c :: unifyBreakChars rest
  | [] => []

def unifyBreaks (s : String) : String := String.ofList (unifyBreakChars s.toList)

/-! ## Quotes

A text stands in single quotes, or in double quotes if that spares an escape, with escapes for what
cannot be shown.
-/

/-- Ranges of code points that have no visible form: controls, formats, separators other than the
blank, surrogates and private use. -/
def hiddenRanges : List (Nat × Nat) :=
  [(0x00, 0x1F), (0x7F, 0xA0), (0xAD, 0xAD), (0x600, 0x605), (0x61C, 0x61C), (0x6DD, 0x6DD),
    (0x70F, 0x70F), (0x890, 0x891), (0x8E2, 0x8E2), (0x1680, 0x1680), (0x180E, 0x180E),
    (0x2000, 0x200F), (0x2028, 0x202F), (0x205F, 0x206F), (0x3000, 0x3000), (0xD800, 0xF8FF),
    (0xFEFF, 0xFEFF), (0xFFF0, 0xFFFB), (0xFFFE, 0xFFFF), (0x110BD, 0x110BD), (0x110CD, 0x110CD),
    (0x13430, 0x1343F), (0x1BCA0, 0x1BCA3), (0x1D173, 0x1D17A), (0xE0000, 0x10FFFF)]

def isHidden (c : Char) : Bool :=
  hiddenRanges.any fun r => r.1 ≤ c.toNat && c.toNat ≤ r.2

/-- A number in hexadecimal with leading zeros up to the given width. -/
def hex (width n : Nat) : String :=
  let digits := Nat.toDigits 16 n
  String.ofList (List.replicate (width - digits.length) '0' ++ digits)

def escape (quote c : Char) : String :=
  if c = quote || c = '\\' then String.ofList ['\\', c]
  else if c = '\n' then "\\n"
  else if c = '\r' then "\\r"
  else if c = '\t' then "\\t"
  else if isHidden c then
    if c.toNat < 0x100 then "\\x" ++ hex 2 c.toNat
    else if c.toNat < 0x10000 then "\\u" ++ hex 4 c.toNat
    else "\\U" ++ hex 8 c.toNat
  else String.singleton c

def quoted (s : String) : String :=
  let cs := s.toList
  let quote := if cs.contains '\'' && !cs.contains '"' then '"' else '\''
  String.singleton quote ++ String.join (cs.map (escape quote)) ++ String.singleton quote

end Pathway.Text
