import Pathway.Number.Binary64
import Pathway.Time.Instant

/-!
# Documents

What a course file, a request or a stored record holds before anything is known about its shape.
Keys of a mapping may be any document; the fields of a record are the text keys.
-/

namespace Pathway

inductive Document where
  | null
  | bool (value : Bool)
  | int (value : Int)
  | real (value : Binary64)
  | text (value : String)
  | list (elements : List Document)
  | map (entries : List (Document × Document))
  | timestamp (value : Timestamp)
  | date (value : Calendar.Day)
  | bytes (value : List UInt8)
deriving Inhabited

namespace Document

def record (fields : List (String × Document)) : Document :=
  .map (fields.map fun f => (.text f.1, f.2))

def isField (name : String) (entry : Document × Document) : Bool :=
  match entry.1 with
  | .text key => key == name
  | _ => false

/-- The value under a text key; of repeated keys the last counts. -/
def field? (name : String) (entries : List (Document × Document)) : Option Document :=
  (entries.reverse.find? (isField name)).map (·.2)

end Document

end Pathway
