import Pathway.Number.Binary64
import Pathway.Text.Basic

/-!
# Reading numbers from text

A whole number is a sign and digits. A decimal number is a sign, digits with an optional point and
exponent, or one of the words for infinity and "not a number". Each reader says how it treats
blanks and underscores.
-/

namespace Pathway.Number

open Text

/-! ## Digits -/

def ofDigits (cs : List Char) : Nat :=
  cs.foldl (fun n c => n * 10 + (c.toNat - '0'.toNat)) 0

def spanDigits (cs : List Char) : List Char × List Char :=
  (cs.takeWhile Char.isDigit, cs.dropWhile Char.isDigit)

/-- A leading sign, true for minus, and what follows it. -/
def spanSign : List Char → Bool × List Char
  | '-' :: rest => (true, rest)
  | '+' :: rest => (false, rest)
  | cs => (false, cs)

/-- One underscore may stand between two digits; the text without them, if each does. -/
def dropSeparators : List Char → Option (List Char)
  | a :: '_' :: b :: rest =>
    if a.isDigit && b.isDigit then (a :: ·) <$> dropSeparators (b :: rest) else none
  | '_' :: _ => none
  | c :: rest => (c :: ·) <$> dropSeparators rest
  | [] => some []

/-- Underscores may stand anywhere but at the ends and next to each other. -/
def dropLooseSeparators (cs : List Char) : Option (List Char) :=
  if cs.head? = some '_' || cs.getLast? = some '_' then none
  else if (cs.zip cs.tail).any (fun p => p.1 == '_' && p.2 == '_') then none
  else some (cs.filter (· != '_'))

/-! ## Whole numbers -/

def whole? (cs : List Char) : Option Int :=
  let (negative, body) := spanSign cs
  let (digits, rest) := spanDigits body
  if digits.isEmpty || !rest.isEmpty then none
  else some (if negative then -(ofDigits digits : Int) else ofDigits digits)

/-- A fraction of zeros only, such as `.00`, is dropped. -/
def dropZeroFraction (cs : List Char) : List Char :=
  let head := cs.takeWhile (· != '.')
  match cs.dropWhile (· != '.') with
  | '.' :: zeros => if !zeros.isEmpty && zeros.all (· == '0') then head else cs
  | _ => cs

/-- A whole number in surrounding blanks, with separators and a fraction of zeros allowed. -/
def laxWhole? (s : String) : Option Int := do
  let body := dropZeroFraction (trimBy isBlank s.toList)
  whole? (← dropSeparators body)

/-- A whole number in surrounding spaces, with separators allowed. -/
def plainWhole? (s : String) : Option Int := do
  whole? (← dropSeparators (trimBy isSpace s.toList))

/-- A text with more digits than this is not converted to an integer. -/
def maxDigits : Nat := 4300

def tooManyDigits (digits : Nat) : String :=
  "Exceeds the limit (4300 digits) for integer string conversion: value has "
    ++ toString digits ++ " digits; use sys.set_int_max_str_digits() to increase the limit"

/-! ## Decimal numbers -/

/-- An exponent part, if the text is one or empty. -/
def exponent? : List Char → Option Int
  | [] => some 0
  | e :: rest => if e = 'e' || e = 'E' then whole? rest else none

def lowerWord (cs : List Char) : String := String.ofList (cs.map Char.toLower)

/-- A decimal number or the word for one that is not finite. -/
def decimal? (cs : List Char) : Option Binary64 :=
  let (negative, body) := spanSign cs
  let word := lowerWord body
  if word = "inf" || word = "infinity" then some (.infinite negative)
  else if word = "nan" then some .nan
  else
    let (digits, rest) := spanDigits body
    let (fraction, rest) := match rest with
      | '.' :: more => spanDigits more
      | _ => ([], rest)
    if digits.isEmpty && fraction.isEmpty then none
    else
      (exponent? rest).map fun e =>
        Binary64.ofDecimal negative (ofDigits (digits ++ fraction)) (e - fraction.length)

/-- A decimal number in surrounding blanks; underscores may stand inside it. -/
def laxDecimal? (s : String) : Option Binary64 :=
  match decimal? (trimBy isBlank s.toList) with
  | some x => some x
  | none =>
    if s.contains '_' then
      (dropLooseSeparators s.toList).bind fun cs => decimal? (trimBy isBlank cs)
    else none

/-- A decimal number in surrounding spaces; underscores may stand between digits. -/
def plainDecimal? (s : String) : Option Binary64 := do
  decimal? (← dropSeparators (trimBy isSpace s.toList))

end Pathway.Number
