import Std.Time.DateTime.Timestamp
import Pathway.Command.ImportCourses
import Pathway.Command.RecordActivity
import Pathway.Command.ShowProgress
import Pathway.Command.WriteReport
import Pathway.Settings.Environment
import Pathway.Store.Snapshot

/-!
# The command line

`import`, `record`, `show` and `report`, each with its options. What a command may read is read
before it runs, and what it has changed is written when it has ended.
-/

namespace Pathway.CommandLine

def commands : List (String × (Surroundings → List String → Command Unit)) :=
  [("import", Command.ImportCourses.run), ("record", Command.RecordActivity.run),
    ("show", Command.ShowProgress.run), ("report", Command.WriteReport.run)]

def usage : String := "usage: pathway " ++ " | ".intercalate (commands.map (·.1)) ++ " [options]"

/-! ## The environment -/

def namesIn (text : String) : List String :=
  let isName (c : Char) := c.isAlphanum || c == '_'
  ((text.toList.splitBy fun a b => isName a == isName b).map String.ofList).eraseDups

def valuesOf (names : List String) : IO Dotenv.Variables :=
  names.filterMapM fun name => do return (← IO.getEnv name).map (name, ·)

def settingNames : List String :=
  ["HOME", "MODULEGATE_DB", "MODULEGATE_MAX_WORKERS", "MODULEGATE_MAX_DEPTH",
    "MODULEGATE_LOG_LEVEL"]

/-- The settings of the process, with the environment file of the working directory. -/
def settings : IO (Except Failure Settings) := do
  let file := (← IO.currentDir) / ".env"
  let text ← if ← file.pathExists then some <$> IO.FS.readFile file else pure none
  let environment ← valuesOf (settingNames ++ text.elim [] namesIn).eraseDups
  let home : Path := .ofString ((environment.lookup "HOME").getD "/")
  return Settings.load (Settings.defaultDatabase home) environment text

def now : IO Instant := do
  let t := (← Std.Time.Timestamp.now).toNanosecondsSinceUnixEpoch
  return ⟨Timestamp.epoch + t.val / 1000, 0⟩

/-! ## Files -/

/-- A file is a database if it holds a snapshot. -/
def entryOf (bytes : List UInt8) : FileEntry :=
  match (Text.decode? bytes).bind fun s => (Json.read s).toOption with
  | some d =>
    match Snapshot.ofDocument d with
    | .valid s => .database s
    | .faulty _ => .file bytes
  | none => .file bytes

/-- What stands at a path; of a directory also the files in it. -/
def addPath (t : FileTree) (p : Path) : IO FileTree := do
  let file := (← IO.currentDir) / p.toString
  if ← file.isDir then
    let mut t := t.put p .directory
    for child in ← file.readDir do
      let entry ←
        if ← child.path.isDir then pure .directory
        else (fun b => entryOf b.toList) <$> IO.FS.readBinFile child.path
      t := t.put (p.child child.fileName) entry
    return t
  else if ← file.pathExists then
    return t.put p (entryOf (← IO.FS.readBinFile file).toList)
  else return t

/-- What stands at the paths, beside the files that come with the program. -/
def treeOf (paths : List Path) : IO FileTree :=
  paths.foldlM addPath Command.ImportCourses.installed

def pathsOf (words : List String) : List Path :=
  (words.flatMap fun w => w :: (Options.splitValue w).2.toList).map Path.ofString

def entryBytes : FileEntry → Option ByteArray
  | .file bytes => some ⟨bytes.toArray⟩
  | .database s => some (Json.pretty (Snapshot.document s)).toUTF8
  | .directory => none

def writeEntry (p : Path) (entry : FileEntry) : IO Unit := do
  let file := (← IO.currentDir) / p.toString
  match entryBytes entry with
  | some bytes => IO.FS.writeBinFile file bytes
  | none => IO.FS.createDirAll file

/-- Has an entry of the first tree come with the second? Databases always count. -/
def isChanged (before : FileTree) (p : Path) : FileEntry → Bool
  | .file bytes =>
    match before.find? p with
    | some (.file old) => old != bytes
    | _ => true
  | .database _ => true
  | .directory => !before.contains p

/-- Directories come before what is in them. -/
def changes (before after : FileTree) : List (Path × FileEntry) :=
  (after.entries.filter fun (p, entry) => isChanged before p entry).mergeSort
    fun a b => a.1.parts.length ≤ b.1.parts.length

/-! ## Running -/

/-- The least level that is shown, by the name of a log level. -/
def isShown (logLevel : String) (l : Level) : Bool :=
  match logLevel with
  | "DEBUG" | "NOTSET" => true
  | "INFO" => l != .debug
  | "WARNING" | "WARN" => l == .warning
  | _ => false

def exitCode : Stop → UInt32
  | .usage .helpAsked => 0
  | .usage _ => 2
  | _ => 1

/-- What is said on the error stream when a command stops. -/
def lastWords (known : String) : Stop → String
  | .refused => ""
  | .usage .helpAsked => known
  | .usage fault => "error: " ++ fault.message
  | .failed cause => "error: " ++ cause.message

def finish (logLevel : String) (before : FileTree) (c : Console) : IO Unit := do
  for n in c.journal do
    if isShown logLevel n.level then IO.eprintln s!"{n.level.name} - {n.message}"
  IO.print c.output
  for (p, entry) in changes before c.files do
    writeEntry p entry

def run (command : Surroundings → List String → Command Unit) (words : List String) :
    IO UInt32 := do
  match ← settings with
  | .error cause => do
    IO.eprintln (lastWords usage (.failed cause))
    return 1
  | .ok s => do
    let tree ← treeOf (s.database :: pathsOf words)
    match command ⟨s, ← now⟩ words ⟨tree, #[], ""⟩ with
    | .ok _ c => do
      finish s.logLevel tree c
      return 0
    | .error stop c => do
      finish s.logLevel tree c
      IO.eprintln (lastWords usage stop)
      return exitCode stop

end Pathway.CommandLine

def main (args : List String) : IO UInt32 := do
  match args with
  | name :: words =>
    match Pathway.CommandLine.commands.lookup name with
    | some command => Pathway.CommandLine.run command words
    | none => do
      IO.eprintln Pathway.CommandLine.usage
      return 2
  | [] => do
    IO.eprintln Pathway.CommandLine.usage
    return 2
