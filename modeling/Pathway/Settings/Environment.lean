import Pathway.Failure
import Pathway.Settings.Basic
import Pathway.Settings.Dotenv
import Pathway.Text.Basic

/-!
# Settings from the environment

Variables with a value set the settings, and an environment file fills in those that are not set.
A variable set to nothing leaves the default.
-/

namespace Pathway.Settings

open Dotenv

/-- A path below the home directory starts with a tilde. Only the superuser's home is known besides
the user's own. -/
def expandHome (environment : Variables) (p : Path) : Except Failure Path :=
  match p.root, p.parts with
  | "", first :: rest =>
    if first = "~" then
      .ok ⟨"/", (Path.ofString ((environment.lookup "HOME").getD "")).parts ++ rest⟩
    else if first = "~root" then .ok ⟨"/", "root" :: rest⟩
    else if first.startsWith "~" then .error .unknownHome
    else .ok p
  | _, _ => .ok p

def given? (environment : Variables) (name : String) : Option String :=
  (environment.lookup name).filter (· != "")

/-- The settings as a record, from the variables that are set. -/
def fields (environment : Variables) : Except Failure (List (String × Document)) := do
  let get := given? environment
  let database ← (get "MODULEGATE_DB").mapM fun v => expandHome environment (.ofString v)
  let texts := [("max_workers", "MODULEGATE_MAX_WORKERS"), ("max_depth", "MODULEGATE_MAX_DEPTH"),
    ("log_level", "MODULEGATE_LOG_LEVEL")]
  return (database.map fun p => ("db_path", .text p.toString)).toList
    ++ texts.filterMap fun (field, name) => (get name).map fun v => (field, .text v)

def ofEnvironment (defaultPath : Path) (environment : Variables) : Except Failure Settings := do
  (Settings.ofDocument defaultPath (.record (← fields environment))).orFail .settings

def load (defaultPath : Path) (environment : Variables) (file : Option String) :
    Except Failure Settings :=
  ofEnvironment defaultPath
    (file.elim environment fun text => extend environment (Text.unifyBreaks text))

end Pathway.Settings
