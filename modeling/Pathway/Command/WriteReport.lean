import Pathway.Command.Console
import Pathway.Evaluation.Evaluator
import Pathway.Report.Table

/-!
# Writing reports

Evaluates every learner and writes the rows, the summary and a page of it into a directory.
-/

namespace Pathway.Command.WriteReport

def known : List Options.Known :=
  [⟨"--db", .text, false⟩, ⟨"--course", .text, false⟩, ⟨"--output-dir", .text, false⟩,
    ⟨"--workers", .whole, false⟩]

def defaultDirectory : Path := .ofString "data/reports"

/-- After every hundredth learner it is noted how far the evaluation is. -/
def progressNotice? (done total : Nat) : Option Notice :=
  if done % 100 = 0 then some ⟨.info, s!"Progress: {done}/{total} learners"⟩ else none

def evaluateNext (e : Evaluator) (now : Instant) (modules : List ModuleId) (n : Option Notice)
    (learner : LearnerId) : Action (LearnerId × List (ModuleId × Progression)) := do
  let ps ← e.evaluateAll now learner modules
  n.forM Action.note
  return (learner, ps)

def evaluate (e : Evaluator) (now : Instant) (modules : List ModuleId)
    (learners : List LearnerId) : Action Report.Progressions :=
  learners.zipIdx.mapM fun (learner, i) =>
    evaluateNext e now modules (progressNotice? (i + 1) learners.length) learner

def collect (e : Evaluator) (now : Instant) (course : Option CourseId) :
    Action Report.Progressions := do
  let modules ← Action.ask (·.moduleIds course)
  let learners ← Action.ask (·.learnerIds)
  Action.note ⟨.info, s!"Evaluating {modules.length} modules for {learners.length} learners..."⟩
  evaluate e now modules learners

def writeFiles (directory : Path) (now : Instant) (rows : List Report.Row) : Command Unit := do
  makeDirectory directory
  writeFile (directory.child "progressions.csv") (Report.rowsCsv rows)
  writeFile (directory.child "module_summary.csv") (Report.summaryCsv rows)
  writeFile (directory.child "progress_report.md") (Report.markdown now rows)

def run (around : Surroundings) (words : List String) : Command Unit := do
  let given ← options known words
  let db := (given.text? "--db").elim around.settings.database Path.ofString
  let directory := (given.text? "--output-dir").elim defaultDirectory Path.ofString
  let workers := (given.whole? "--workers").getD around.settings.workers
  if !(← get).files.contains db then refuse s!"Progress database not found: {db}"
  let _ ← openStore db
  let e := Evaluator.of workers (around.settings.depthLimit.map Int.ofNat)
  let (ps, issues) ← onStore db
    (withIssues (collect e around.now (given.text? "--course")))
  let rows := Report.rows ps
  writeFiles directory around.now rows
  if !issues.isEmpty then
    note ⟨.warning, s!"{issues.length} data issue(s) found while evaluating"⟩
  say s!"\nReport written to {directory}/"
  say s!"  - Rows: {rows.length}"
  say s!"  - Modules: {(Report.summary rows).length}"

end Pathway.Command.WriteReport
