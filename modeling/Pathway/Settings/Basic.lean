import Pathway.Files.Path
import Pathway.Validation.Scalar

/-!
# Settings

Where the database lies, how many workers evaluate at once, how long a chain of prerequisites may
be, and which notices the commands show.
-/

namespace Pathway

structure Settings where
  database : Path
  workers : Nat
  depthLimit : Option Nat
  logLevel : String
deriving DecidableEq, Repr, Inhabited

namespace Settings

open Check

def defaultDatabase (home : Path) : Path :=
  home.join (.ofString ".modulegate/progress.db")

def defaultWorkers : Nat := 1

def defaultLogLevel : String := "INFO"

def levelNames : List String :=
  ["CRITICAL", "FATAL", "ERROR", "WARN", "WARNING", "INFO", "DEBUG", "NOTSET"]

/-- The capital of a letter, as far as it is one of the letters A to Z. -/
def capital (c : Char) : Char :=
  if c = 'ı' then 'I' else if c = 'ſ' then 'S' else c.toUpper

def levelOf (d : Document) : Checked String :=
  (text d).andThen fun s =>
    let name := String.ofList ((Text.trimBy Text.isSpace s.toList).map capital)
    if name ∈ levelNames then .valid name else .fail (.rule ("Unknown log level: " ++ s))

def pathOf : Check Path
  | .text s => .valid (.ofString s)
  | _ => .fail .notPath

def ofDocument (defaultPath : Path) : Check Settings :=
  record fun fs =>
    Settings.mk <$> fieldOr "db_path" defaultPath pathOf fs
      <*> fieldOr "max_workers" defaultWorkers (wholeFrom 1) fs
      <*> fieldOr "max_depth" none (optional (wholeFrom 1)) fs
      <*> fieldOr "log_level" defaultLogLevel levelOf fs

end Settings

end Pathway
