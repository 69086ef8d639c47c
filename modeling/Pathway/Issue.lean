import Pathway.Course.Module
import Pathway.Progress.Progression

/-!
# Issues and notices

An issue is a flaw of the stored data that an evaluation worked around. A notice is a line of the
journal.
-/

namespace Pathway

/-! ## Notices -/

inductive Level where
  | debug
  | info
  | warning
deriving DecidableEq, Repr, Inhabited

def Level.name : Level → String
  | .debug => "DEBUG"
  | .info => "INFO"
  | .warning => "WARNING"

structure Notice where
  level : Level
  message : String
deriving DecidableEq, Repr, Inhabited

/-! ## Issues -/

inductive FactFlaw where
  | contentLocked
  | noScore
deriving DecidableEq, Repr, Inhabited

def FactFlaw.reason : FactFlaw → String
  | .contentLocked => "content is locked"
  | .noScore => "min_score fact has no score"

inductive Issue where
  | circularPrerequisites (circle : List ModuleId)
  | excessiveCount (module : ModuleId) (required available : Nat)
  | unusableFact (learner : LearnerId) (module : ModuleId) (item : ItemId) (flaw : FactFlaw)
deriving DecidableEq, Repr, Inhabited

namespace Issue

/-- A count is written in full, however many digits it has. -/
def message : Issue → String
  | circularPrerequisites circle =>
    "Circular module prerequisites: " ++ " -> ".intercalate circle
  | excessiveCount m required available =>
    s!"Module {m} requires {required} requirements but has {available}; "
      ++ s!"all {available} are needed"
  | unusableFact learner m item flaw =>
    s!"Ignoring completion fact for learner {learner}, module {m}, item {item}: {flaw.reason}"

/-- Unusable facts are common and go unseen; the others concern the authors. -/
def level : Issue → Level
  | unusableFact .. => .debug
  | _ => .warning

def notice (i : Issue) : Notice := ⟨i.level, i.message⟩

/-- Issues of one sort with one message are reported once. -/
def same : Issue → Issue → Bool
  | circularPrerequisites a, circularPrerequisites b =>
    (circularPrerequisites a).message == (circularPrerequisites b).message
  | excessiveCount m r a, excessiveCount n s b =>
    (excessiveCount m r a).message == (excessiveCount n s b).message
  | unusableFact l m i f, unusableFact l' m' i' f' =>
    (unusableFact l m i f).message == (unusableFact l' m' i' f').message
  | _, _ => false

end Issue

end Pathway
