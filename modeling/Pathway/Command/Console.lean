import Pathway.Command.Options
import Pathway.CourseFile
import Pathway.Session
import Pathway.Settings.Basic

/-!
# Consoles

A command writes lines, notes and files, works on the stores of databases, and may stop before its
end. What it did before it stopped stays done.
-/

namespace Pathway

structure Console where
  files : FileTree
  journal : Array Notice
  output : String

/-- Why a command ends before its last line. -/
inductive Stop where
  /-- The command has said what is wrong. -/
  | refused
  | usage (fault : Options.Fault)
  | failed (cause : Failure)
deriving DecidableEq, Repr

abbrev Command := EStateM Stop Console

structure Surroundings where
  settings : Settings
  now : Instant

namespace Command

variable {α : Type}

/-! ## Lines and notes -/

def say (line : String) : Command Unit :=
  modify fun c => { c with output := c.output ++ line ++ "\n" }

def note (n : Notice) : Command Unit :=
  modify fun c => { c with journal := c.journal.push n }

def refuse (what : String) : Command α := do
  say ("ERROR: " ++ what)
  throw .refused

def misuse (fault : Options.Fault) : Command α := throw (.usage fault)

def options (known : List Options.Known) (words : List String) : Command Options.Given :=
  match Options.read known words with
  | .ok given => pure given
  | .error fault => misuse fault

/-- Input that is at fault is refused; any other failure is the command's. -/
def reject (cause : Failure) : Command α :=
  if cause.isRejection then refuse cause.message else throw (.failed cause)

/-! ## Files -/

/-- Makes a directory where nothing is. Where something else stands, that is the fault. -/
def ensureDirectory (p : Path) (fault : FileFault) : Command Unit := do
  match (← get).files.find? p with
  | some .directory => pure ()
  | some _ => throw (.failed (.file fault))
  | none => modify fun c => { c with files := c.files.put p .directory }

def makeDirectory (p : Path) : Command Unit :=
  (List.range' 1 p.parts.length).forM fun n =>
    ensureDirectory ⟨p.root, p.parts.take n⟩
      (if n = p.parts.length then .exists else .notDirectory)

def writeFile (p : Path) (text : String) : Command Unit := do
  match (← get).files.find? p with
  | some .directory => throw (.failed (.file .isDirectory))
  | _ => modify fun c => { c with files := c.files.put p (.file text.toUTF8.toList) }

def loading (x : CourseFile.Loading α) : Command α := fun c =>
  match x c.journal with
  | .ok a journal => .ok a { c with journal }
  | .error e journal => reject e { c with journal }

/-! ## Databases -/

def openStore (p : Path) : Command Store := do
  makeDirectory p.parent
  match (← get).files.find? p with
  | some (.database s) => return s
  | some .directory => throw (.failed .unopenedDatabase)
  | some (.file (_ :: _)) => throw (.failed .notDatabase)
  | _ => do
    let s := Store.empty .database
    modify fun c => { c with files := c.files.put p (.database s) }
    return s

def onStore (p : Path) (x : Action α) : Command α := do
  let s ← openStore p
  fun c =>
    let keep (t : Session) : Console :=
      { c with files := c.files.put p (.database t.store), journal := t.journal }
    match x { Session.ofStore s with journal := c.journal } with
    | .ok a t => .ok a (keep t)
    | .error e t => .error (.failed e) (keep t)

/-- An action with the issues that were reported by then. -/
def withIssues (x : Action α) : Action (α × List Issue) := do
  let a ← x
  return (a, (← get).issues)

def isNotFound : Failure → Bool
  | .notFound .. => true
  | _ => false

/-- As `onStore`; what is not found is refused. -/
def onStoreOrRefuse (p : Path) (x : Action α) : Command α := do
  match ← onStore p (Action.attempt x) with
  | .ok a => return a
  | .error e => if isNotFound e then refuse e.message else throw (.failed e)

end Command

end Pathway
