import Pathway.Issue
import Pathway.Store.Basic

/-!
# Sessions

A session is a store with what has been noted while working on it. An action changes a session and
gives a result or a failure; what it did before it failed stays done.
-/

namespace Pathway

structure Session where
  store : Store
  /-- The issues reported so far, each once. -/
  issues : List Issue
  /-- The journal, from the first notice on. -/
  journal : Array Notice
  saves : Nat

abbrev Action := EStateM Failure Session

namespace Session

def ofStore (s : Store) : Session := ⟨s, [], #[], 0⟩

def note (s : Session) (n : Notice) : Session := { s with journal := s.journal.push n }

/-- An issue is kept and noted when it is first seen. -/
def report (s : Session) (i : Issue) : Session :=
  if s.issues.any i.same then s
  else { s with issues := s.issues ++ [i], journal := s.journal.push i.notice }

def noteAll (s : Session) (ns : List Notice) : Session := ns.foldl note s

def reportAll (s : Session) (is : List Issue) : Session := is.foldl report s

end Session

namespace Action

variable {α : Type}

def note (n : Notice) : Action Unit := modify (·.note n)

def noteAll (ns : List Notice) : Action Unit := modify (·.noteAll ns)

def report (i : Issue) : Action Unit := modify (·.report i)

def reportAll (is : List Issue) : Action Unit := modify (·.reportAll is)

def ofExcept (x : Except Failure α) : Action α :=
  match x with
  | .ok a => pure a
  | .error e => throw e

/-- Runs an action to its end and gives its failure as a result. -/
def attempt (x : Action α) : Action (Except Failure α) := fun s =>
  match x s with
  | .ok a s => .ok (.ok a) s
  | .error e s => .ok (.error e) s

/-! ## The store of a session -/

def ask (f : Store → α) : Action α := do return f (← get).store

def askOrFail (f : Store → Except Failure α) : Action α := do ofExcept (f (← get).store)

def update (f : Store → Store) : Action Unit := modify fun s => { s with store := f s.store }

def updateOrFail (f : Store → Except Failure Store) : Action Unit := do
  let store ← askOrFail f
  modify fun s => { s with store }

def saveProgression (learner : LearnerId) (module : ModuleId) (p : Progression) : Action Unit := do
  modify fun s => { s with saves := s.saves + 1 }
  updateOrFail fun s => s.saveProgression learner module p

/-- Stores the modules of a course one by one. A database notes it when all are stored. -/
def putCourse (c : Course) : Action Unit := do
  for m in c.modules do
    updateOrFail fun s => s.putModule m (some c.id)
  if (← get).store.backing = .database then
    note ⟨.debug, s!"Stored {c.modules.length} modules for course {c.id}"⟩

end Action

end Pathway
