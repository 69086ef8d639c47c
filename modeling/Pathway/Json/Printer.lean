import Pathway.Document
import Pathway.Number.Shortest
import Pathway.Text.Basic

/-!
# Writing JSON

`Json.pretty` writes a document with one element a line, indented by two blanks for each level.
Moments are texts, with `Z` for UTC; numbers that are not finite are words.
-/

namespace Pathway.Json

/-! ## Scalars -/

def escapeChar (c : Char) : String :=
  match c with
  | '"' => "\\\""
  | '\\' => "\\\\"
  | '\n' => "\\n"
  | '\r' => "\\r"
  | '\t' => "\\t"
  | '\x08' => "\\b"
  | '\x0c' => "\\f"
  | c => if c.toNat < 0x20 then "\\u" ++ Text.hex 4 c.toNat else String.singleton c

def quoted (s : String) : String := "\"" ++ String.join (s.toList.map escapeChar) ++ "\""

def realText : Binary64 → String
  | .nan => "NaN"
  | .infinite negative => if negative then "-Infinity" else "Infinity"
  | x => x.text

def timestampText (t : Timestamp) : String :=
  match t.offset with
  | some _ => t.toInstant.zuluText
  | none => t.text

def dayText (d : Calendar.Day) : String :=
  s!"{padded 4 d.year}-{padded 2 d.month}-{padded 2 d.day}"

/-! ## Collections -/

def indentation (level : Nat) : String := String.ofList (List.replicate (2 * level) ' ')

def bracketed (start stop : String) (level : Nat) (parts : List String) : String :=
  if parts.isEmpty then start ++ stop
  else
    let lines := parts.map (indentation (level + 1) ++ ·)
    start ++ "\n" ++ ",\n".intercalate lines ++ "\n" ++ indentation level ++ stop

/-- A key that is no text is written as the text of its value. -/
def keyText : Document → String
  | .text s => quoted s
  | .bool b => quoted (if b then "true" else "false")
  | .int i => quoted (toString i)
  | .real x => quoted (realText x)
  | _ => quoted "null"

mutual

def prettyAt (level : Nat) : Document → String
  | .null => "null"
  | .bool b => if b then "true" else "false"
  | .int i => toString i
  | .real x => realText x
  | .text s => quoted s
  | .list ds => bracketed "[" "]" level (prettyItems (level + 1) ds)
  | .map es => bracketed "\x7b" "\x7d" level (prettyEntries (level + 1) es)
  | .timestamp t => quoted (timestampText t)
  | .date d => quoted (dayText d)
  | .bytes bs => bracketed "[" "]" level (bs.map toString)

def prettyItems (level : Nat) : List Document → List String
  | [] => []
  | d :: ds => prettyAt level d :: prettyItems level ds

def prettyEntries (level : Nat) : List (Document × Document) → List String
  | [] => []
  | (k, d) :: es => (keyText k ++ ": " ++ prettyAt level d) :: prettyEntries level es

end

def pretty (d : Document) : String := prettyAt 0 d

end Pathway.Json
