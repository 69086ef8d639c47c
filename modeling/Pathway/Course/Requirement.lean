import Pathway.Number.Shortest

/-!
# Requirements

What a learner has to do on an item before the item counts as done.
-/

namespace Pathway

inductive RequirementKind where
  | view
  | submit
  | contribute
  | markDone
  | minScore
deriving DecidableEq, Repr, Inhabited

namespace RequirementKind

def all : List RequirementKind := [view, submit, contribute, markDone, minScore]

def name : RequirementKind → String
  | view => "must_view"
  | submit => "must_submit"
  | contribute => "must_contribute"
  | markDone => "must_mark_done"
  | minScore => "min_score"

def ofName? (s : String) : Option RequirementKind := all.find? fun k => k.name == s

theorem ofName?_name (k : RequirementKind) : ofName? k.name = some k := by
  cases k <;> decide

end RequirementKind

/-- A requirement on an item. Only a least score has a threshold. -/
inductive Requirement where
  | view
  | submit
  | contribute
  | markDone
  | minScore (threshold : Binary64)
deriving DecidableEq, Repr, Inhabited

namespace Requirement

def kind : Requirement → RequirementKind
  | view => .view
  | submit => .submit
  | contribute => .contribute
  | markDone => .markDone
  | minScore _ => .minScore

def threshold? : Requirement → Option Binary64
  | minScore t => some t
  | _ => none

/-- The requirement of a kind with a threshold exactly if the kind takes one. -/
def of? : RequirementKind → Option Binary64 → Option Requirement
  | .view, none => some view
  | .submit, none => some submit
  | .contribute, none => some contribute
  | .markDone, none => some markDone
  | .minScore, some t => some (minScore t)
  | _, _ => none

/-- A whole threshold is shown without a fraction. -/
def thresholdText (t : Binary64) : String :=
  match t.toInt? with
  | some i => toString i
  | none => t.text

def description : Requirement → String
  | view => "view"
  | submit => "submit"
  | contribute => "contribute"
  | markDone => "mark as done"
  | minScore t => "score at least " ++ thresholdText t

end Requirement

end Pathway
