import Pathway.Store.Dictionaries
import Pathway.Store.Rows

/-!
# Stores

A store holds learners, modules, facts and progressions, and is one of two: dictionaries in memory
or a database. Each has its own way to do what is asked of a store.
-/

namespace Pathway

inductive Backing where
  | memory
  | database
deriving DecidableEq, Repr, Inhabited

inductive Store where
  | memory (d : Dictionaries)
  | database (r : Rows)

namespace Store

def empty : Backing → Store
  | .memory => memory .empty
  | .database => database .empty

def backing : Store → Backing
  | memory _ => .memory
  | database _ => .database

/-! ## Learners -/

def addLearner (s : Store) (id : LearnerId) (name : String) : Store :=
  match s with
  | memory d => memory (d.addLearner id name)
  | database r => database (r.addLearner id name)

def hasLearner (s : Store) (id : LearnerId) : Bool :=
  match s with
  | memory d => d.hasLearner id
  | database r => r.hasLearner id

def learnerIds : Store → List LearnerId
  | memory d => d.learnerIds
  | database r => r.learnerIds

def resetLearner (s : Store) (id : LearnerId) : Store :=
  match s with
  | memory d => memory (d.resetLearner id)
  | database r => database (r.resetLearner id)

/-! ## Modules -/

def putModule (s : Store) (m : Module) (course : Option CourseId) : Except Failure Store :=
  match s with
  | memory d => .ok (memory (d.putModule m course))
  | database r => (r.putModule m course).map database

def getModule (s : Store) (id : ModuleId) : Except Failure Module :=
  match s with
  | memory d => d.getModule id
  | database r => r.getModule id

def hasModule (s : Store) (id : ModuleId) : Bool :=
  match s with
  | memory d => d.hasModule id
  | database r => r.hasModule id

def removeModule (s : Store) (id : ModuleId) : Store :=
  match s with
  | memory d => memory (d.removeModule id)
  | database r => database (r.removeModule id)

def moduleIds (s : Store) (course : Option CourseId) : List ModuleId :=
  match s with
  | memory d => d.moduleIds course
  | database r => r.moduleIds course

/-! ## Facts -/

def itemFacts (s : Store) (learner : LearnerId) (item : ItemId) : ItemFacts :=
  match s with
  | memory d => d.itemFacts learner item
  | database r => r.itemFacts learner item

def record (s : Store) (learner : LearnerId) (item : ItemId) (kind : RequirementKind)
    (score : Option Score) (satisfiedAt : Instant) : Except Failure Store := do
  let score ← score.mapM Score.read
  match s with
  | memory d => return memory (d.record learner item kind score satisfiedAt)
  | database r => return database (r.record learner item kind score satisfiedAt)

/-- The store with the facts of one kind, or all, forgotten, and how many they were. -/
def clearNamed (s : Store) (learner : LearnerId) (item : ItemId) (kind : Option String) :
    Except Failure (Store × Nat) :=
  match s with
  | memory d => (d.clear learner item kind).map fun (d, n) => (memory d, n)
  | database r => (r.clear learner item kind).map fun (r, n) => (database r, n)

/-! ## Progressions -/

def loadProgression (s : Store) (learner : LearnerId) (module : ModuleId) : Option Progression :=
  match s with
  | memory d => d.loadProgression learner module
  | database r => r.loadProgression learner module

def saveProgression (s : Store) (learner : LearnerId) (module : ModuleId) (p : Progression) :
    Except Failure Store :=
  match s with
  | memory d => .ok (memory (d.saveProgression learner module p))
  | database r => (r.saveProgression learner module p).map database

def listProgressions (s : Store) (module : Option ModuleId) : List Progression :=
  match s with
  | memory d => d.listProgressions module
  | database r => r.listProgressions module

end Store

/-! ## The modules of a store -/

/-- A module as a store keeps it. -/
inductive Definition where
  | value (m : Module)
  | document (d : Document)

def Definition.read : Definition → Except Failure Module
  | .value m => .ok m
  | .document d => (Module.ofDocument d).orFail .module

/-- A module with what the store orders and selects it by. -/
structure StoredModule where
  definition : Definition
  position : Int
  course : Option CourseId

/-- The modules of the dictionaries, with their positions and courses. -/
def Dictionaries.storedModules (d : Dictionaries) : Table StoredModule :=
  d.modules.map fun id m => ⟨.value m, m.position, d.courses.getD id none⟩

def Rows.storedModules (r : Rows) : Table StoredModule :=
  r.modules.map fun _ row => ⟨.document row.definition, row.position, row.course⟩

/-- The modules of a store, by id. -/
def Store.modules : Store → Table StoredModule
  | memory d => d.storedModules
  | database r => r.storedModules

end Pathway
