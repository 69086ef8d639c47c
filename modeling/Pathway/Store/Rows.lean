import Pathway.Number.Binary64
import Pathway.Progress.Reading
import Pathway.Store.Facts
import Pathway.Table

/-!
# A database

Tables of rows. A module is a document beside the columns that it is chosen and ordered by, a fact
is under the name of its kind, and a progression is split into columns and takes its ids from its
key. A column holds integers of 64 bits and no number that is none, and a zero without its sign.
-/

namespace Pathway

/-! ## Columns -/

namespace Column

def check (i : Int) : Except Failure Unit :=
  if Number.isSignedWord i then .ok () else .error .oversizedInteger

def checkOptional : Option Int → Except Failure Unit
  | some i => check i
  | none => .ok ()

def ofReal (x : Binary64) : Option Binary64 := if x = .nan then none else some x.dropZeroSign

end Column

/-! ## Rows -/

structure ModuleRow where
  course : Option CourseId
  position : Int
  definition : Document

namespace ModuleRow

def read (row : ModuleRow) : Except Failure Module :=
  (Module.ofDocument row.definition).orFail .module

/-- What is read of the row of an id has that id, and the position that the row has. -/
def Fits (id : ModuleId) (row : ModuleRow) : Prop :=
  ∀ m, row.read = .ok m → m.place = (row.position, id)

instance (id : ModuleId) (row : ModuleRow) : Decidable (row.Fits id) :=
  match h : row.read with
  | .ok m =>
    decidable_of_iff (m.place = (row.position, id))
      ⟨fun hm n hn => by cases h.symm.trans hn; exact hm, fun hf => hf m h⟩
  | .error e => .isTrue fun n hn => by cases h.symm.trans hn

theorem fits_of {m : Module} {course : Option CourseId} :
    (⟨course, m.position, m.document⟩ : ModuleRow).Fits m.id :=
  fun _ h => Module.place_of_ofDocument (Checked.valid_of_orFail h)

end ModuleRow

structure FactRow where
  satisfiedAt : Timestamp
  score : Option Binary64

def FactRow.read (row : FactRow) (item : ItemId) (kind : RequirementKind) : Fact :=
  ⟨item, kind, row.satisfiedAt.toInstant, row.score⟩

structure ProgressionRow where
  state : String
  met : Document
  unmet : Document
  currentPosition : Option Int
  completedAt : Option Timestamp
  collapsed : Int

namespace ProgressionRow

def of (p : Progression) : ProgressionRow where
  state := p.state.name
  met := .list (p.met.map Met.document)
  unmet := .list (p.unmet.map Unmet.document)
  currentPosition := p.currentPosition
  completedAt := p.completedAt.map (·.toTimestamp)
  collapsed := if p.collapsed then 1 else 0

/-- The progression in the row of a learner and a module. -/
def read (row : ProgressionRow) (learner : LearnerId) (module : ModuleId) :
    Option Progression := do
  let state ← ModuleState.ofName? row.state
  let met ← (Check.list Met.ofDocument row.met).toOption
  let unmet ← (Check.list Unmet.ofDocument row.unmet).toOption
  return ⟨learner, module, state, met, unmet, row.currentPosition,
    row.completedAt.map (·.toInstant), row.collapsed != 0⟩

end ProgressionRow

/-! ## Tables -/

structure Rows where
  learners : Table String
  modules : Table ModuleRow
  /-- By learner, item and name of the kind. -/
  facts : TripleTable FactRow
  /-- Each row was written for some progression. -/
  progressions : PairTable { row : ProgressionRow // ∃ p, ProgressionRow.of p = row }
  fits : ∀ (id : ModuleId) (row : ModuleRow), modules[id]? = some row → row.Fits id
  kinds : ∀ key, facts.contains key = true → ∃ kind : RequirementKind, kind.name = key.2.2

namespace Rows

theorem kinds_empty : ∀ key, (∅ : TripleTable FactRow).contains key = true →
    ∃ kind : RequirementKind, kind.name = key.2.2 := by
  simp

def empty : Rows := ⟨∅, ∅, ∅, ∅, by simp, kinds_empty⟩

/-! ## Learners -/

/-- A learner added again only changes the name. -/
def addLearner (r : Rows) (id : LearnerId) (name : String) : Rows :=
  { r with learners := r.learners.insert id name }

def hasLearner (r : Rows) (id : LearnerId) : Bool := r.learners.contains id

def learnerIds (r : Rows) : List LearnerId := r.learners.keys

/-- The rows of facts that do not meet the condition, and how many do. -/
def deleteFacts (r : Rows) (p : String × String × String → Bool) : Rows × Nat :=
  ({ r with
      facts := r.facts.filter fun key _ => !p key
      kinds := fun key h => r.kinds key (Std.ExtTreeMap.contains_of_contains_filter h) },
    (r.facts.filter fun key _ => p key).size)

/-- Deletes every fact and progression of a learner, but not the learner. -/
def resetLearner (r : Rows) (id : LearnerId) : Rows :=
  { (r.deleteFacts fun key => key.1 == id).1 with
    progressions := r.progressions.filter fun key _ => key.1 != id }

/-! ## Modules -/

def insertModule (r : Rows) (id : ModuleId) (row : ModuleRow) (h : row.Fits id) : Rows :=
  { r with
    modules := r.modules.insert id row
    fits := fun i t ht => by
      rw [Std.ExtTreeMap.getElem?_insert] at ht
      split at ht
      · next he =>
        cases ht
        rw [← Std.LawfulEqCmp.eq_of_compare he]
        exact h
      · exact r.fits i t ht }

/-- The row that is there keeps its course if no course is given. -/
def placeModule (r : Rows) (m : Module) (course : Option CourseId) : Rows :=
  let old := r.modules[m.id]?.bind (·.course)
  r.insertModule m.id ⟨course.or old, m.position, m.document⟩ ModuleRow.fits_of

def putModule (r : Rows) (m : Module) (course : Option CourseId) : Except Failure Rows := do
  Column.check m.position
  return r.placeModule m course

def getModule (r : Rows) (id : ModuleId) : Except Failure Module :=
  match r.modules[id]? with
  | some row => row.read
  | none => .error (.notFound .module id)

def hasModule (r : Rows) (id : ModuleId) : Bool := r.modules.contains id

def removeModule (r : Rows) (id : ModuleId) : Rows :=
  { r with
    modules := r.modules.erase id
    progressions := r.progressions.filter fun key _ => key.2 != id
    fits := fun i t ht => by
      rw [Std.ExtTreeMap.getElem?_erase] at ht
      split at ht
      · cases ht
      · exact r.fits i t ht }

/-- The ids of the modules of a course, or of all, by position and then by id. -/
def moduleIds (r : Rows) (course : Option CourseId) : List ModuleId :=
  let chosen := r.modules.toList.filter fun p => course.isNone || p.2.course == course
  (sortByPlace (fun p => (p.2.position, p.1)) chosen).map (·.1)

/-! ## Facts -/

def itemFacts (r : Rows) (learner : LearnerId) (item : ItemId) : ItemFacts :=
  fun kind => r.facts[(learner, item, kind.name)]?.map (·.read item kind)

def record (r : Rows) (learner : LearnerId) (item : ItemId) (kind : RequirementKind)
    (score : Option Binary64) (satisfiedAt : Instant) : Rows :=
  let row : FactRow := ⟨satisfiedAt.toTimestamp, score.bind Column.ofReal⟩
  { r with
    facts := r.facts.insert (learner, item, kind.name) row
    kinds := fun key h => by
      rw [Std.ExtTreeMap.contains_insert, Bool.or_eq_true] at h
      rcases h with h | h
      · rw [← Std.LawfulEqCmp.eq_of_compare (eq_of_beq h)]
        exact ⟨kind, rfl⟩
      · exact r.kinds key h }

/-- Deletes the facts of one kind, or all, and says how many they were. -/
def clear (r : Rows) (learner : LearnerId) (item : ItemId) (kind : Option String) :
    Except Failure (Rows × Nat) := do
  let kind ← kind.mapM Store.kindNamed
  return r.deleteFacts fun key =>
    key.1 == learner && key.2.1 == item && kind.all (·.name == key.2.2)

/-! ## Progressions -/

def loadProgression (r : Rows) (learner : LearnerId) (module : ModuleId) : Option Progression :=
  r.progressions[(learner, module)]?.bind (·.1.read learner module)

def insertProgression (r : Rows) (learner : LearnerId) (module : ModuleId) (p : Progression) :
    Rows :=
  { r with progressions := r.progressions.insert (learner, module) ⟨.of p, p, rfl⟩ }

def saveProgression (r : Rows) (learner : LearnerId) (module : ModuleId) (p : Progression) :
    Except Failure Rows := do
  Column.checkOptional p.currentPosition
  return r.insertProgression learner module p

/-- The progressions on a module, or all, by learner and then by module. -/
def listProgressions (r : Rows) (module : Option ModuleId) : List Progression :=
  let keys := r.progressions.keys.filter fun key => module.isNone || some key.2 == module
  keys.filterMap fun key => r.loadProgression key.1 key.2

end Rows

end Pathway
