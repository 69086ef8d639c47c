import Pathway.Files.Path
import Pathway.Text.Basic
import Pathway.Text.Utf8
import Pathway.Validation.Checked
import Pathway.Yaml.Fault

/-!
# Failures

The causes for which an operation gives no result.
-/

namespace Pathway

/-- What an id was looked up as. -/
inductive Entity where
  | learner
  | module
  | item
deriving DecidableEq, Repr, Inhabited

def Entity.name : Entity → String
  | .learner => "learner"
  | .module => "module"
  | .item => "item"

inductive RecordKind where
  | requirement
  | item
  | module
  | course
  | fact
  | met
  | unmet
  | progression
  | settings
deriving DecidableEq, Repr, Inhabited

inductive FileFault where
  | missing
  | isDirectory
  | notDirectory
  | exists
deriving DecidableEq, Repr, Inhabited

inductive Failure where
  | notFound (entity : Entity) (id : String)
  | invalid (kind : RecordKind) (faults : List Fault)
  | oversizedInteger
  | unknownRequirementKind (name : String)
  /-- The home directory of a user who is not known. -/
  | unknownHome
  | file (fault : FileFault)
  | undecodable (fault : Text.DecodeFault)
  /-- The path given for a database is a directory. -/
  | unopenedDatabase
  | notDatabase
  | missingCourseFile (path : String)
  | unsupportedCourseFile (suffix : String)
  /-- A course file whose text has no document; the detail may be empty. -/
  | unparsedCourseFile (path detail : String)
  /-- A scalar in a course file that has no value. -/
  | badScalar (fault : Yaml.Fault)
  | oversizedNumber (digits : Nat)
  | courseFileNoMapping (path : String)
  | invalidCourseFile (path : String) (faults : List Fault)
  | repeatedCourse (id : String)
deriving DecidableEq, Repr, Inhabited

namespace Failure

/-- What is said about a failure; faults of a document speak for themselves. -/
def message : Failure → String
  | notFound entity id => s!"{entity.name} not found: {id}"
  | invalid .. => ""
  | oversizedInteger => "Python int too large to convert to SQLite INTEGER"
  | unknownHome => "Could not determine home directory."
  | unknownRequirementKind name => Text.quoted name ++ " is not a valid RequirementType"
  | file _ => ""
  | undecodable fault => fault.message
  | unopenedDatabase => "unable to open database file"
  | notDatabase => "file is not a database"
  | missingCourseFile path => s!"Course file not found: {path}"
  | unsupportedCourseFile suffix => s!"Unsupported course file type: {suffix}"
  | unparsedCourseFile path detail =>
    s!"Could not parse {path}" ++ (if detail.isEmpty then "" else ": " ++ detail)
  | badScalar fault => fault.message
  | oversizedNumber digits => Number.tooManyDigits digits
  | courseFileNoMapping path => s!"Course file root must be a mapping: {path}"
  | invalidCourseFile path _ => s!"Invalid course in {path}"
  | repeatedCourse id => s!"Duplicate course id: {id}"

/-- The input is at fault, not the place it came from or the store. -/
def isRejection : Failure → Bool
  | invalid .. | unknownRequirementKind _ | undecodable _ | unsupportedCourseFile _
  | unparsedCourseFile .. | oversizedNumber _ | courseFileNoMapping _ | invalidCourseFile ..
  | repeatedCourse _ => true
  | badScalar fault => fault.isValue
  | _ => false

end Failure

def Checked.orFail {α : Type} (kind : RecordKind) : Checked α → Except Failure α
  | .valid a => .ok a
  | .faulty fs => .error (.invalid kind fs)

theorem Checked.valid_of_orFail {α : Type} {kind : RecordKind} {x : Checked α} {a : α}
    (h : x.orFail kind = .ok a) : x = .valid a := by
  cases x <;> cases h
  rfl

end Pathway
