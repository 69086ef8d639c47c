import Pathway.Failure
import Pathway.Progress.Progression
import Pathway.Validation.Scalar

/-!
# Facts of an item

What a learner did to one item is at most one fact of each kind. A fact is recorded by the name of
its kind, with a score that may be given as a whole number.
-/

namespace Pathway

/-- What a learner did to one item, by kind. -/
abbrev ItemFacts := RequirementKind → Option Fact

namespace ItemFacts

def none : ItemFacts := fun _ => .none

def set (fs : ItemFacts) (f : Fact) : ItemFacts := fun k => if k = f.kind then some f else fs k

def remove (fs : ItemFacts) (kind : RequirementKind) : ItemFacts :=
  fun k => if k = kind then .none else fs k

def toList (fs : ItemFacts) : List Fact := RequirementKind.all.filterMap fs

def isEmpty (fs : ItemFacts) : Bool := fs.toList.isEmpty

end ItemFacts

namespace Store

/-- A score as it is recorded. -/
inductive Score where
  | whole (i : Int)
  | real (x : Binary64)
deriving DecidableEq, Repr, Inhabited

/-- A whole number stands for the nearest one that the format has. -/
def Score.read : Score → Except Failure Binary64
  | .whole i => ((Check.realOfInt i).under (.field "score")).orFail .fact
  | .real x => .ok x

def kindNamed (name : String) : Except Failure RequirementKind :=
  match RequirementKind.ofName? name with
  | some k => .ok k
  | none => .error (.unknownRequirementKind name)

end Store

end Pathway
