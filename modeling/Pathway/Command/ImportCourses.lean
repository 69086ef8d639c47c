import Pathway.Command.Console
import Pathway.Course.Sample

/-!
# Importing courses

Loads course files and stores their modules. Where neither a file nor a directory is named, the
sample course is imported from the file that comes with the program.
-/

namespace Pathway.Command.ImportCourses

def known : List Options.Known :=
  [⟨"--course", .text, false⟩, ⟨"--course-dir", .text, false⟩, ⟨"--db", .text, false⟩]

/-! ## The sample course -/

def samplePath : Path := ⟨"/", ["pathway", "data", "sample_course.yaml"]⟩

/-- The files that come with the program. -/
def installed : FileTree := ⟨[(samplePath, .file Sample.courseText.toUTF8.toList)]⟩

def ensureInstalled : Command Unit :=
  modify fun c =>
    if c.files.contains samplePath then c
    else { c with files := ⟨c.files.entries ++ installed.entries⟩ }

def filesOrSample (directory : Option Path) (files : List Path) : List Path :=
  if directory.isNone && files.isEmpty then [samplePath] else files

/-! ## Importing -/

def courses (t : FileTree) (directory : Option Path) (files : List Path) :
    CourseFile.Loading (List Course) := do
  let ofDirectory ← match directory with
    | some d => CourseFile.loadDirectory t d
    | none => pure []
  return ofDirectory ++ (← files.mapM (CourseFile.load t))

/-- Stores a course, and notes if circles keep some of its modules locked. -/
def store (db : Path) (c : Course) : Command Unit := do
  (CourseFile.unknownNotices c.modules).forM note
  let circles := (CourseFile.circlesOf c.modules).length
  if circles != 0 then
    note ⟨.warning, s!"Course {c.id} has {circles} prerequisite cycle(s); "
      ++ "modules on them stay locked"⟩
  onStore db (Action.putCourse c)
  note ⟨.info, s!"Imported {c.id}: {c.modules.length} modules"⟩

/-- Loads courses and stores them in a database. Counts the modules, one that is stored twice as
two. -/
def importInto (db : Path) (directory : Option Path) (files : List Path) : Command Nat := do
  let cs ← loading (courses (← get).files directory files)
  let _ ← openStore db
  cs.forM (store db)
  return (cs.flatMap (·.modules)).length

def run (around : Surroundings) (words : List String) : Command Unit := do
  let given ← options known words
  let db := (given.text? "--db").elim around.settings.database Path.ofString
  let directory := (given.text? "--course-dir").map Path.ofString
  let files := filesOrSample directory ((given.texts "--course").map Path.ofString)
  ensureInstalled
  for p in files do
    if !(← get).files.contains p then refuse s!"Course file not found: {p}"
  let stored ← importInto db directory files
  say s!"\nStored {stored} modules in {db}"

end Pathway.Command.ImportCourses
