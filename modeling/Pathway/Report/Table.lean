import Pathway.Progress.Progression
import Pathway.Number.Shortest

/-!
# Progress reports

A report has a row for each learner and module, and a summary row for each module. Both are written
as comma separated values, and the summary as a page of markdown.
-/

/-! ## Comma separated values

A field is quoted if it holds a comma, a quote or a line break, and a quote in it is written twice.
-/

namespace Pathway.Csv

def needsQuotes (c : Char) : Bool := c == ',' || c == '"' || c == '\n' || c == '\r'

def doubled (c : Char) : List Char := if c = '"' then ['"', '"'] else [c]

def field (s : String) : String :=
  if s.toList.any needsQuotes then
    String.ofList ('"' :: s.toList.flatMap doubled ++ ['"'])
  else s

def line (fields : List String) : String := ",".intercalate (fields.map field) ++ "\n"

def text (lines : List (List String)) : String := String.join (lines.map line)

end Pathway.Csv

namespace Pathway.Report

/-! ## Rows -/

structure Row where
  learner : LearnerId
  module : ModuleId
  state : ModuleState
  met : Nat
  unmet : Nat
  position : Option Int
  completedAt : Option Instant
deriving DecidableEq, Repr

abbrev Progressions := List (LearnerId × List (ModuleId × Progression))

def rowOf (learner : LearnerId) (module : ModuleId) (p : Progression) : Row :=
  ⟨learner, module, p.state, p.met.length, p.unmet.length, p.currentPosition, p.completedAt⟩

/-- The rows of one learner, each with the place of its module among the learner's. -/
def numberedRows (learner : LearnerId) (ms : List (ModuleId × Progression)) : List (Row × Nat) :=
  ms.zipIdx.map fun ((module, p), place) => (rowOf learner module p, place)

/-- By learner, then by the place of the module. -/
def rowLe (a b : Row × Nat) : Bool :=
  decide (a.1.learner < b.1.learner) || (a.1.learner == b.1.learner && decide (a.2 ≤ b.2))

/-- The rows by learner, and for each learner in the order given. -/
def rows (ps : Progressions) : List Row :=
  ((ps.flatMap fun (learner, ms) => numberedRows learner ms).mergeSort rowLe).map Prod.fst

/-! ## Summary -/

/-- The pairs of a module and a state that some row has, with the number of rows that have it. -/
def groupSizes (rs : List Row) : List ((ModuleId × ModuleState) × Nat) :=
  let keys := rs.map fun r => (r.module, r.state)
  keys.eraseDups.map fun key => (key, keys.count key)

/-- Numbers by module and state. -/
structure Grid where
  modules : List ModuleId
  states : List ModuleState
  cell : ModuleId → ModuleState → Nat

namespace Grid

/-- A row for each module and a column for each state of the pairs. Where there is no such pair, the
number is zero. -/
def unstack (sizes : List ((ModuleId × ModuleState) × Nat)) : Grid where
  modules := (sizes.map (·.1.1)).eraseDups
  states := (sizes.map (·.1.2)).eraseDups
  cell module state := (sizes.lookup (module, state)).getD 0

/-- The same numbers in other rows and columns. Rows and columns that are new hold zeros. -/
def reindex (g : Grid) (modules : List ModuleId) (states : List ModuleState) : Grid where
  modules := modules
  states := states
  cell module state :=
    if module ∈ g.modules ∧ state ∈ g.states then g.cell module state else 0

def total (g : Grid) (module : ModuleId) : Nat :=
  g.states.foldr (fun state n => g.cell module state + n) 0

end Grid

structure SummaryRow where
  module : ModuleId
  count : ModuleState → Nat
  learners : Nat

/-- The modules in the order in which they first stand in the rows, and every state. -/
def stateGrid (rs : List Row) : Grid :=
  (Grid.unstack (groupSizes rs)).reindex (rs.map (·.module)).eraseDups ModuleState.all

def summary (rs : List Row) : List SummaryRow :=
  let grid := stateGrid rs
  grid.modules.map fun module => ⟨module, grid.cell module, grid.total module⟩

/-- The completed part of the learners, to the nearest thousandth. -/
def SummaryRow.rate (r : SummaryRow) : Binary64 :=
  (((Binary64.ofRatio false (r.count .completed) r.learners).scale 1000).roundWhole).shrink 1000

/-! ## Values -/

def rowHeader : List String :=
  ["learner_id", "module_id", "workflow_state", "requirements_met", "requirements_incomplete",
    "current_position", "completed_at"]

/-- Whether all integers of a column have at most 64 bits, signed or unsigned. -/
def fitsWord (is : List Int) : Bool :=
  is.all Number.isSignedWord || is.all Number.isUnsignedWord

/-- A column of integers is written as such; with some of them missing, as numbers with a point. -/
def positionText (rs : List Row) : Option Int → String
  | none => ""
  | some i =>
    let positions := rs.filterMap (·.position)
    if positions.length = rs.length || !fitsWord positions then toString i
    else (Binary64.ofInt i).text

def rowFields (rs : List Row) (r : Row) : List String :=
  [r.learner, r.module, r.state.name, toString r.met, toString r.unmet,
    positionText rs r.position, (r.completedAt.map Instant.text).getD ""]

def rowsCsv (rs : List Row) : String := Csv.text (rowHeader :: rs.map (rowFields rs))

def summaryHeader : List String :=
  "module_id" :: ModuleState.all.map ModuleState.name ++ ["learners", "completion_rate"]

def SummaryRow.fields (r : SummaryRow) : List String :=
  r.module :: ModuleState.all.map (fun s => toString (r.count s))
    ++ [toString r.learners, r.rate.text]

def summaryCsv (rs : List Row) : String :=
  Csv.text (summaryHeader :: (summary rs).map SummaryRow.fields)

/-! ## Page -/

def SummaryRow.line (r : SummaryRow) : String :=
  let cells := r.module :: ModuleState.all.map (fun s => toString (r.count s))
    ++ [(r.rate.scale 100).fixedText 1 ++ "%"]
  "| " ++ " | ".intercalate cells ++ " |"

/-- The page, with the moment it was made, on the clock of UTC. -/
def markdown (now : Instant) (rs : List Row) : String :=
  let lines :=
    ["# Module Progress Report",
      "",
      "Generated: " ++ secondsText now.moment,
      "",
      s!"- **Learners**: {(rs.map (·.learner)).eraseDups.length}",
      s!"- **Modules**: {(summary rs).length}",
      "",
      "## Modules",
      "",
      "| Module | Locked | Unlocked | Started | Completed | Completion |",
      "|--------|--------|----------|---------|-----------|------------|"]
      ++ (summary rs).map SummaryRow.line
  "\n".intercalate lines ++ "\n"

end Pathway.Report
