import Pathway.Command.Console
import Pathway.Json.Printer
import Pathway.Navigation.Navigator
import Pathway.Progress.Reading

/-!
# Showing progress

Evaluates modules for a learner and shows what comes out: as a tree of all modules, as a line for
each module asked for, as JSON, or as the reasons why a module or an item is locked.
-/

namespace Pathway.Command.ShowProgress

def known : List Options.Known :=
  [⟨"--db", .text, false⟩, ⟨"--learner", .text, true⟩, ⟨"--module", .text, false⟩,
    ⟨"--item", .text, false⟩, ⟨"--why", .flag, false⟩, ⟨"--json", .flag, false⟩]

/-! ## Lines -/

def leftAligned (width : Nat) (s : String) : String :=
  s ++ String.ofList (List.replicate (width - s.length) ' ')

def rightAligned (width : Nat) (s : String) : String :=
  String.ofList (List.replicate (width - s.length) ' ') ++ s

def itemLine (i : Item) (a : Availability) : String :=
  "    " ++ rightAligned 3 (toString i.position) ++ "  " ++ leftAligned 28 i.id ++ " " ++ a.name

def moduleLine (m : NavigationModule) : String :=
  let p := m.progression
  m.progression.state.indicator ++ " " ++ leftAligned 24 m.module.id ++ " "
    ++ leftAligned 10 p.state.name ++ " "
    ++ s!"{p.met.length}/{p.met.length + p.unmet.length} requirements"

def treeLines (ms : List NavigationModule) : List String :=
  ms.flatMap fun m => moduleLine m :: m.items.map fun (i, a) => itemLine i a

def stateLine (id : ModuleId) (p : Progression) : String :=
  s!"{p.state.indicator} {id}: {p.state.name}"

def requirementLine (p : Pending) : String :=
  let what := if p.title.isEmpty then p.item else p.title
  s!"    - {what}: {p.description}" ++ (if p.available then "" else " [not yet reachable]")

def gateLines (g : GateReport) : List String :=
  if g.locked then
    "Locked. Still to finish:" :: g.modules.flatMap fun m =>
      ("  " ++ m.module ++ (if m.locked then " (locked)" else ""))
        :: m.requirements.map requirementLine
  else ["Not locked."]

def jsonText (ps : List (ModuleId × Progression)) : String :=
  Json.pretty (.record (ps.map fun (id, p) => (id, p.document)))

/-! ## The command -/

inductive Question where
  | why (module : ModuleId) (item : Option ItemId)
  | json (modules : Option (List ModuleId))
  | states (modules : List ModuleId)
  | tree
deriving DecidableEq, Repr

def question (given : Options.Given) : Command Question :=
  let modules := given.texts "--module"
  if given.has "--why" then
    match modules with
    | [m] => pure (.why m (given.text? "--item"))
    | _ => misuse (.rule "--why needs exactly one --module")
  else if given.has "--json" then
    pure (.json (if modules.isEmpty then none else some modules))
  else if modules.isEmpty then pure .tree
  else pure (.states modules)

def lines (e : Evaluator) (now : Instant) (learner : LearnerId) : Question → Action (List String)
  | .why m item => do return gateLines (← e.gateReport now learner m item)
  | .json none => do return [jsonText (← e.evaluateEvery now learner)]
  | .json (some ms) => do return [jsonText (← e.evaluateAll now learner ms)]
  | .states ms => do return (← e.evaluateAll now learner ms).map fun (id, p) => stateLine id p
  | .tree => do return treeLines (← e.tree now learner)

def run (around : Surroundings) (words : List String) : Command Unit := do
  let given ← options known words
  let db := (given.text? "--db").elim around.settings.database Path.ofString
  let learner := (given.text? "--learner").getD ""
  if !(← get).files.contains db then
    say s!"ERROR: Progress database not found: {db}"
    say "Run scripts/01_import_course.py first"
    throw .refused
  let _ ← openStore db
  let asked ← question given
  let e := Evaluator.ofSettings around.settings
  let (shown, issues) ← onStoreOrRefuse db (withIssues (lines e around.now learner asked))
  shown.forM say
  issues.forM fun i => note ⟨.info, "Data issue: " ++ i.message⟩

end Pathway.Command.ShowProgress
