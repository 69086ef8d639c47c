import Pathway.Store.Facts
import Pathway.Table

/-!
# A store in memory

Dictionaries of values, which are kept as they are. The facts of an item are a dictionary in the
dictionary of facts, and it stays there when the last of them is cleared. The courses of modules
stand in a dictionary of their own.
-/

namespace Pathway

structure Dictionaries where
  learners : Table String
  modules : Table Module
  courses : Table (Option CourseId)
  facts : PairTable ItemFacts
  progressions : PairTable Progression
  named : ∀ (id : ModuleId) (m : Module), modules[id]? = some m → m.id = id
  /-- The same modules have a course, or none, and a definition. -/
  filed : ∀ id : ModuleId, courses.contains id = modules.contains id

namespace Dictionaries

def empty : Dictionaries := ⟨∅, ∅, ∅, ∅, ∅, by simp, by simp⟩

/-! ## Learners -/

/-- A learner added again only changes the name. -/
def addLearner (d : Dictionaries) (id : LearnerId) (name : String) : Dictionaries :=
  { d with learners := d.learners.insert id name }

def hasLearner (d : Dictionaries) (id : LearnerId) : Bool := d.learners.contains id

def learnerIds (d : Dictionaries) : List LearnerId := d.learners.keys

/-- Forgets every fact and progression of a learner, but not the learner. -/
def resetLearner (d : Dictionaries) (id : LearnerId) : Dictionaries :=
  { d with
    facts := d.facts.filter fun key _ => key.1 != id
    progressions := d.progressions.filter fun key _ => key.1 != id }

/-! ## Modules -/

/-- A module replaced without naming a course stays in the course it was in. -/
def putModule (d : Dictionaries) (m : Module) (course : Option CourseId) : Dictionaries :=
  { d with
    modules := d.modules.insert m.id m
    courses :=
      if course.isSome || !d.courses.contains m.id then d.courses.insert m.id course
      else d.courses
    named := fun id n hn => by
      rw [Std.ExtTreeMap.getElem?_insert] at hn
      split at hn
      · next he =>
        cases hn
        exact Std.LawfulEqCmp.eq_of_compare he
      · exact d.named id n hn
    filed := fun id => by
      rw [Std.ExtTreeMap.contains_insert]
      split
      · rw [Std.ExtTreeMap.contains_insert, d.filed]
      · next h =>
        simp only [Bool.or_eq_true, Bool.not_eq_true', not_or, Bool.not_eq_false] at h
        by_cases he : compare m.id id = .eq
        · obtain rfl := Std.LawfulEqCmp.eq_of_compare he
          rw [h.2, he]
          rfl
        · rw [d.filed, beq_false_of_ne he, Bool.false_or] }

def getModule (d : Dictionaries) (id : ModuleId) : Except Failure Module :=
  match d.modules[id]? with
  | some m => .ok m
  | none => .error (.notFound .module id)

def hasModule (d : Dictionaries) (id : ModuleId) : Bool := d.modules.contains id

def removeModule (d : Dictionaries) (id : ModuleId) : Dictionaries :=
  { d with
    modules := d.modules.erase id
    courses := d.courses.erase id
    progressions := d.progressions.filter fun key _ => key.2 != id
    named := fun i n hn => by
      rw [Std.ExtTreeMap.getElem?_erase] at hn
      split at hn
      · cases hn
      · exact d.named i n hn
    filed := fun i => by
      rw [Std.ExtTreeMap.contains_erase, Std.ExtTreeMap.contains_erase, d.filed] }

/-- The modules of a course, or all, in walking order. -/
def moduleIds (d : Dictionaries) (course : Option CourseId) : List ModuleId :=
  let chosen := (d.modules.toList.map (·.2)).filter fun m =>
    course.isNone || d.courses.getD m.id none == course
  (sortByPlace Module.place chosen).map (·.id)

/-! ## Facts -/

def itemFacts (d : Dictionaries) (learner : LearnerId) (item : ItemId) : ItemFacts :=
  d.facts.getD (learner, item) ItemFacts.none

def putFact (d : Dictionaries) (learner : LearnerId) (f : Fact) : Dictionaries :=
  { d with facts := d.facts.insert (learner, f.item) ((d.itemFacts learner f.item).set f) }

def record (d : Dictionaries) (learner : LearnerId) (item : ItemId) (kind : RequirementKind)
    (score : Option Binary64) (satisfiedAt : Instant) : Dictionaries :=
  d.putFact learner ⟨item, kind, satisfiedAt, score⟩

/-- Forgets the facts of one kind, or all, and says how many they were. Where there are none, it
does not matter what kind is named. -/
def clear (d : Dictionaries) (learner : LearnerId) (item : ItemId) (kind : Option String) :
    Except Failure (Dictionaries × Nat) :=
  let facts := d.itemFacts learner item
  if facts.isEmpty then .ok (d, 0)
  else
    match kind with
    | none => .ok ({ d with facts := d.facts.erase (learner, item) }, facts.toList.length)
    | some name =>
      (Store.kindNamed name).map fun k =>
        ({ d with facts := d.facts.insert (learner, item) (facts.remove k) },
          if (facts k).isSome then 1 else 0)

/-! ## Progressions -/

def loadProgression (d : Dictionaries) (learner : LearnerId) (module : ModuleId) :
    Option Progression :=
  d.progressions[(learner, module)]?

/-- Whatever ids the progression has itself. -/
def saveProgression (d : Dictionaries) (learner : LearnerId) (module : ModuleId)
    (p : Progression) : Dictionaries :=
  { d with progressions := d.progressions.insert (learner, module) p }

/-- The progressions on a module, or all, by learner and then by module. -/
def listProgressions (d : Dictionaries) (module : Option ModuleId) : List Progression :=
  (d.progressions.toList.filter fun p => module.isNone || some p.1.2 == module).map (·.2)

end Dictionaries

end Pathway
