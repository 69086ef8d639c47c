import Pathway.Number.Reading
import Pathway.Yaml.Stamp

/-!
# Tags

A tag says what a node stands for. A node that has none of its own gets one from its form: a plain
scalar from its text, any other node the one of its kind.
-/

namespace Pathway.Yaml

inductive Tag where
  | null
  | bool
  | int
  | float
  | binary
  | timestamp
  | str
  | seq
  | map
  | omap
  | pairs
  | set
  | merge
  /-- The key of the value that a mapping has as a scalar. -/
  | value
  | unknown
deriving DecidableEq, Repr, Inhabited

namespace Tag

def names : List (String × Tag) :=
  [("null", null), ("bool", bool), ("int", int), ("float", float), ("binary", binary),
    ("timestamp", timestamp), ("str", str), ("seq", seq), ("map", map), ("omap", omap),
    ("pairs", pairs), ("set", set), ("merge", merge), ("value", value)]

/-- What the names of the known tags start with. -/
def home : String := "tag:yaml.org,2002:"

def ofName (name : String) : Tag :=
  if home.toList.isPrefixOf name.toList then
    (names.lookup (String.ofList (name.toList.drop home.length))).getD unknown
  else unknown

/-- Nodes of these tags hold other nodes. -/
def isCollection (t : Tag) : Bool := t ∈ [seq, map, omap, pairs, set]

/-! ## Texts of plain scalars -/

def trueWords : List String := ["yes", "Yes", "YES", "true", "True", "TRUE", "on", "On", "ON"]

def falseWords : List String := ["no", "No", "NO", "false", "False", "FALSE", "off", "Off", "OFF"]

def nullWords : List String := ["~", "null", "Null", "NULL"]

/-- Underscores may stand among the digits of a number. -/
def isDigitOrGap (c : Char) : Bool := c.isDigit || c == '_'

def isBinaryOrGap (c : Char) : Bool := c == '0' || c == '1' || c == '_'

def isOctalOrGap (c : Char) : Bool := ('0' ≤ c && c ≤ '7') || c == '_'

def isHexOrGap (c : Char) : Bool :=
  isDigitOrGap c || ('a' ≤ c && c ≤ 'f') || ('A' ≤ c && c ≤ 'F')

def startsWithDigit (cs : List Char) : Bool := (cs.head?.map Char.isDigit).getD false

/-- A part of a number to the base sixty: below sixty, in one digit or two. -/
def isSixtieth : List Char → Bool
  | [c] => c.isDigit
  | [c, d] => '0' ≤ c && c ≤ '5' && d.isDigit
  | _ => false

def isInt (cs : List Char) : Bool :=
  match (Number.spanSign cs).2 with
  | '0' :: 'b' :: digits => !digits.isEmpty && digits.all isBinaryOrGap
  | '0' :: 'x' :: digits => !digits.isEmpty && digits.all isHexOrGap
  | '0' :: digits => digits.all isOctalOrGap
  | body =>
    match body.splitOn ':' with
    | first :: more => startsWithDigit first && first.all isDigitOrGap && more.all isSixtieth
    | [] => false

/-- An exponent with its sign. -/
def isExponent : List Char → Bool
  | e :: sign :: digits =>
    (e == 'e' || e == 'E') && (sign == '+' || sign == '-') && !digits.isEmpty
      && digits.all Char.isDigit
  | _ => false

/-- The last part of a number to the base sixty, with a point in it. -/
def isPointedSixtieth (cs : List Char) : Bool :=
  match cs.dropWhile (· != '.') with
  | '.' :: places => isSixtieth (cs.takeWhile (· != '.')) && places.all isDigitOrGap
  | _ => false

/-- What follows the digits before a point or a colon. -/
def isFloatTail (signed : Bool) (whole : List Char) : List Char → Bool
  | '.' :: rest =>
    let places := rest.takeWhile isDigitOrGap
    let rest := rest.dropWhile isDigitOrGap
    (if whole.isEmpty then !signed && startsWithDigit places else startsWithDigit whole)
      && (rest.isEmpty || isExponent rest)
  | ':' :: rest =>
    let parts := rest.splitOn ':'
    startsWithDigit whole && parts.dropLast.all isSixtieth
      && isPointedSixtieth (parts.getLastD [])
  | _ => false

def isFloat (cs : List Char) : Bool :=
  let body := (Number.spanSign cs).2
  let signed := body.length != cs.length
  let word := String.ofList body
  word ∈ [".inf", ".Inf", ".INF"]
    || (!signed && decide (word ∈ [".nan", ".NaN", ".NAN"]))
    || isFloatTail signed (body.takeWhile isDigitOrGap) (body.dropWhile isDigitOrGap)

/-- A moment without quotes; a bare date has all its zeros. -/
def isTimestamp (cs : List Char) : Bool :=
  match Stamp.read? cs with
  | some s => s.clock.isSome || cs.length == 10
  | none => false

def ofWord (cs : List Char) : Tag :=
  let word := String.ofList cs
  if word ∈ trueWords ∨ word ∈ falseWords then bool
  else if isFloat cs then float
  else if isInt cs then int
  else if word = "<<" then merge
  else if word ∈ nullWords then null
  else if isTimestamp cs then timestamp
  else if word = "=" then value
  else if word ∈ ["!", "&", "*"] then unknown
  else str

/-- The tag of a scalar by its text; a line break at the end does not count. -/
def ofText (text : String) : Tag :=
  match text.toList with
  | [] => null
  | ['\n'] => str
  | cs => ofWord (if cs.getLast? = some '\n' then cs.dropLast else cs)

end Tag

end Pathway.Yaml
