import Pathway.Evaluation.Evaluator
import Pathway.Files.Tree
import Pathway.Json.Reader
import Pathway.Text.Basic
import Pathway.Text.Utf8
import Pathway.Yaml.Reader

/-!
# Course files

A course file is YAML or JSON, by its suffix, and holds a record of a course. Loading a course
notes what is odd about its prerequisites, and rejects none of it.
-/

namespace Pathway.CourseFile

inductive Format where
  | yaml
  | json
deriving DecidableEq, Repr

def formatOf? (p : Path) : Option Format :=
  match p.suffix with
  | ".yaml" | ".yml" => some .yaml
  | ".json" => some .json
  | _ => none

/-! ## Reading -/

/-- The document of a text. A number that is too long to convert is no fault of the form. -/
def document (p : Path) (format : Format) (text : String) : Except Failure Document :=
  match format with
  | .yaml =>
    match Yaml.read text with
    | .ok d => .ok d
    | .error .malformed => .error (.unparsedCourseFile p.toString "")
    | .error fault => .error (.badScalar fault)
  | .json =>
    match Json.read text with
    | .ok d => .ok d
    | .error fault =>
      match fault.cause with
      | .oversizedInteger digits => .error (.oversizedNumber digits)
      | _ => .error (.unparsedCourseFile p.toString (fault.message text.toList))

/-- The course of a document, which has to be a mapping. -/
def courseOf (p : Path) (d : Document) : Except Failure Course :=
  match d with
  | .map _ =>
    match Course.ofDocument d with
    | .valid c => .ok c
    | .faulty fs => .error (.invalidCourseFile p.toString fs)
  | _ => .error (.courseFileNoMapping p.toString)

/-- A YAML file is decoded while it is read, so what is cut off at its end is counted from where it
begins. -/
def placed (format : Format) (fault : Text.DecodeFault) : Text.DecodeFault :=
  if format = .yaml ∧ fault.reason = .cutOff then { fault with start := 0 } else fault

/-- The text of a file; a database is none. -/
def textOf (p : Path) (format : Format) : FileEntry → Except Failure String
  | .directory => .error (.file .isDirectory)
  | .database _ => .error (.unparsedCourseFile p.toString "")
  | .file bytes =>
    match Text.decode bytes with
    | .ok s => .ok (Text.unifyBreaks s)
    | .error fault => .error (.undecodable (placed format fault))

def read (t : FileTree) (p : Path) : Except Failure Course := do
  let some entry := t.find? p | throw (.missingCourseFile p.toString)
  let some format := formatOf? p | throw (.unsupportedCourseFile p.suffix)
  courseOf p (← document p format (← textOf p format entry))

/-! ## Notices -/

def circlesOf (ms : List Module) : List Issue :=
  (Graph.ofModules ms).elementaryCycles.map .circularPrerequisites

/-- What the graph of some modules leaves out. -/
def unknownNotices (ms : List Module) : List Notice :=
  (Graph.unknownPrerequisites ms).map Evaluation.unknownNotice

def notices (p : Path) (c : Course) : List Notice :=
  unknownNotices c.modules
    ++ (circlesOf c.modules).map (fun i => ⟨.warning, p.name ++ ": " ++ i.message⟩)
    ++ [⟨.info, s!"Loaded course {c.id} with {c.modules.length} modules"⟩]

/-! ## Loading -/

/-- Loading keeps what it has noted when it fails. -/
abbrev Loading := EStateM Failure (Array Notice)

def load (t : FileTree) (p : Path) : Loading Course := do
  match read t p with
  | .ok c => do
    modify fun journal => journal ++ (notices p c).toArray
    return c
  | .error e => throw e

def pathsIn (t : FileTree) (p : Path) : Except Failure (List Path) :=
  match t.find? p with
  | none => .error (.file .missing)
  | some .directory => .ok (((t.namesIn p).map p.child).filter fun q => (formatOf? q).isSome)
  | some _ => .error (.file .notDirectory)

/-- The courses of files one after the other; their ids differ. -/
def loadEach (t : FileTree) : List Course → List Path → Loading (List Course)
  | done, [] => pure done
  | done, p :: ps => do
    let c ← load t p
    if done.any (·.id == c.id) then throw (.repeatedCourse c.id)
    loadEach t (done ++ [c]) ps

def loadDirectory (t : FileTree) (p : Path) : Loading (List Course) := do
  match pathsIn t p with
  | .ok ps => loadEach t [] ps
  | .error e => throw e

end Pathway.CourseFile
