import Pathway.Evaluation.Assessment
import Pathway.Evaluation.Closure
import Pathway.Prerequisites.Cycles
import Pathway.Session
import Pathway.Settings.Basic

/-!
# Evaluation

An evaluation takes the modules asked for with all they require, generation by generation, so that
every prerequisite is assessed before what requires it. Modules on a circle are locked, and so are
modules behind a chain longer than the limit. A progression is saved if it differs from the stored
one.
-/

namespace Pathway

structure Evaluator where
  /-- How many components of a generation are evaluated at once. -/
  workers : Nat
  /-- The longest chain of prerequisites that is accepted. -/
  depthLimit : Option Nat
deriving DecidableEq, Repr, Inhabited

namespace Evaluator

/-- Both numbers are at least one. -/
def of (workers : Int) (depthLimit : Option Int) : Evaluator :=
  ⟨(max 1 workers).toNat, depthLimit.map fun d => (max 1 d).toNat⟩

def ofSettings (s : Settings) : Evaluator := .of s.workers (s.depthLimit.map Int.ofNat)

end Evaluator

namespace Evaluation

abbrev Memo := Table Progression

/-- What stays the same during one evaluation. -/
structure Run where
  learner : LearnerId
  now : Instant
  modules : Table Module
  graph : Graph
  /-- The generation from which on a chain is too long. -/
  limit : Nat

/-! ## Modules -/

/-- A prerequisite that is not in the memo is unknown, and asks for nothing. -/
def prerequisiteMet (memo : Memo) (id : ModuleId) : Bool :=
  match memo[id]? with
  | some p => p.isCompleted
  | none => true

/-- The progression that the store gives rise to. -/
def progressionIn (run : Run) (store : Store) (m : Module) (prerequisitesMet : Bool) :
    Progression :=
  Assessment.progression (store.itemFacts run.learner) run.learner run.now m prerequisitesMet
    (store.loadProgression run.learner m.id)

def issuesIn (run : Run) (store : Store) (m : Module) (prerequisitesMet : Bool) : List Issue :=
  Assessment.issues (store.itemFacts run.learner) run.learner run.now m prerequisitesMet

def evaluatedNotice (p : Progression) : Notice :=
  ⟨.debug, s!"Evaluated module {p.module} for learner {p.learner}: {p.state.name}"⟩

/-- Assesses one module and saves its progression if it has changed. -/
def evaluateModule (run : Run) (m : Module) (prerequisitesMet : Bool) (memo : Memo) :
    Action Memo := do
  let store ← Action.ask id
  Action.reportAll (issuesIn run store m prerequisitesMet)
  let p := progressionIn run store m prerequisitesMet
  unless (store.loadProgression run.learner m.id).any p.same do
    Action.saveProgression run.learner m.id p
  Action.note (evaluatedNotice p)
  return memo.insert m.id p

/-! ## Components -/

def tooDeepNotice (run : Run) (c : Graph.Component) : Notice :=
  ⟨.warning, s!"Prerequisite chain of module {Graph.leader c} is longer than "
    ++ s!"{run.limit}, treating its prerequisites as not completed"⟩

def evaluateMembers (run : Run) (barred : Bool) : Graph.Component → Memo → Action Memo
  | [], memo => pure memo
  | id :: ids, memo => do
    match run.modules[id]? with
    | none => evaluateMembers run barred ids memo
    | some m =>
      let met := !barred && m.prerequisites.all (prerequisiteMet memo)
      let memo ← evaluateModule run m met memo
      evaluateMembers run barred ids memo

/-- On a circle, or behind too long a chain, the prerequisites are not met. -/
def evaluateComponent (run : Run) (depth : Nat) (c : Graph.Component) (memo : Memo) :
    Action Memo := do
  let cyclic := run.graph.isCyclic c
  let tooDeep := decide (run.limit ≤ depth)
  if cyclic then
    Action.report (.circularPrerequisites (run.graph.circleIn c))
  else if tooDeep then
    Action.note (tooDeepNotice run c)
  evaluateMembers run (cyclic || tooDeep) c memo

/-! ## Generations -/

/-- One component after the other, up to the first failure. -/
def evaluateInTurn (run : Run) (depth : Nat) : List Graph.Component → Memo → Action Memo
  | [], memo => pure memo
  | c :: cs, memo => do
    let memo ← evaluateComponent run depth c memo
    evaluateInTurn run depth cs memo

/-- All components, whatever fails; then the first failure, if there is one. -/
def evaluateTogether (run : Run) (depth : Nat) : List Graph.Component → Memo → Action Memo
  | [], memo => pure memo
  | c :: cs, memo => do
    match ← Action.attempt (evaluateComponent run depth c memo) with
    | .ok memo => evaluateTogether run depth cs memo
    | .error e =>
      let _ ← Action.attempt (evaluateTogether run depth cs memo)
      throw e

def evaluateGenerations (e : Evaluator) (run : Run) :
    Nat → List (List Graph.Component) → Memo → Action Memo
  | _, [], memo => pure memo
  | depth, g :: gs, memo => do
    let memo ←
      if 1 < e.workers then evaluateTogether run depth g memo
      else evaluateInTurn run depth g memo
    evaluateGenerations e run (depth + 1) gs memo

def unknownNotice (p : ModuleId × ModuleId) : Notice :=
  ⟨.warning, s!"Module {p.1} lists unknown prerequisite {p.2}, skipping"⟩

def tableOf (ms : List Module) : Table Module :=
  Std.ExtTreeMap.ofList (ms.map fun m => (m.id, m))

/-- Without a limit, a chain may be as long as there are modules. -/
def runOf (e : Evaluator) (learner : LearnerId) (now : Instant) (all : List Module) : Run :=
  ⟨learner, now, tableOf all, Graph.ofModules all, e.depthLimit.getD all.length⟩

end Evaluation

/-! ## Requests -/

namespace Evaluator

open Evaluation

def requireLearner (learner : LearnerId) : Action Unit := do
  unless ← Action.ask (·.hasLearner learner) do
    throw (.notFound .learner learner)

/-- What is to be evaluated for the given modules: these, and all they require. -/
def plan (e : Evaluator) (now : Instant) (learner : LearnerId) (ids : List ModuleId) :
    Action Run := do
  requireLearner learner
  let ms ← ids.eraseDups.mapM fun id => Action.askOrFail (·.getModule id)
  let all ← Action.askOrFail fun s => closure s ms
  Action.noteAll ((Graph.unknownPrerequisites all).map unknownNotice)
  return runOf e learner now all

/-- The progressions of the given modules and of all they require. -/
def evaluateClosure (e : Evaluator) (now : Instant) (learner : LearnerId) (ids : List ModuleId) :
    Action Memo := do
  let run ← e.plan now learner ids
  evaluateGenerations e run 0 run.graph.generations ∅

/-- The progression of each of the given modules, in that order. -/
def evaluateAll (e : Evaluator) (now : Instant) (learner : LearnerId) (ids : List ModuleId) :
    Action (List (ModuleId × Progression)) := do
  let memo ← e.evaluateClosure now learner ids
  return ids.eraseDups.filterMap fun id => memo[id]?.map (id, ·)

def evaluateEvery (e : Evaluator) (now : Instant) (learner : LearnerId) :
    Action (List (ModuleId × Progression)) := do
  requireLearner learner
  e.evaluateAll now learner (← Action.ask (·.moduleIds none))

def evaluate (e : Evaluator) (now : Instant) (learner : LearnerId) (id : ModuleId) :
    Action Progression := do
  let results ← e.evaluateAll now learner [id]
  match results with
  | (_, p) :: _ => return p
  | [] => throw (.notFound .module id)

/-- One module for several learners. A learner named twice is evaluated twice, and the last result
stands at the first place. -/
def evaluateLearners (e : Evaluator) (now : Instant) (id : ModuleId) (learners : List LearnerId) :
    Action (List (LearnerId × Progression)) := do
  let results ← learners.mapM fun l => do return (l, ← e.evaluate now l id)
  return learners.eraseDups.filterMap fun l => results.reverse.find? (·.1 == l)

end Evaluator

end Pathway
