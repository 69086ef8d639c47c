import Pathway.Navigation.Navigator

/-!
# Calls

What can be asked of a store, and of an evaluator or a navigator that works on it, with the answers
that are given. A run is a list of requests; a request that fails does not stop it.
-/

namespace Pathway

inductive Call where
  | addLearner (learner : LearnerId) (name : String)
  | hasLearner (learner : LearnerId)
  | learnerIds
  | resetLearner (learner : LearnerId)
  | putModule (m : Module) (course : Option CourseId)
  | putCourse (c : Course)
  | removeModule (id : ModuleId)
  | getModule (id : ModuleId)
  | moduleIds (course : Option CourseId)
  /-- The kind is given by its name, and the moment may be left out. -/
  | record (learner : LearnerId) (item : ItemId) (kind : String) (score : Option Store.Score)
      (satisfiedAt : Option Instant)
  | recordScore (learner : LearnerId) (item : ItemId) (score : Store.Score)
      (satisfiedAt : Option Instant)
  | clear (learner : LearnerId) (item : ItemId) (kind : Option String)
  | completions (learner : LearnerId) (items : List ItemId)
  | loadProgression (learner : LearnerId) (id : ModuleId)
  | saveProgression (learner : LearnerId) (id : ModuleId) (p : Progression)
  | listProgressions (id : Option ModuleId)
  | evaluate (learner : LearnerId) (id : ModuleId)
  /-- Of the given modules, or of all. -/
  | evaluateAll (learner : LearnerId) (ids : Option (List ModuleId))
  | evaluateLearners (id : ModuleId) (learners : List LearnerId)
  /-- A new evaluator knows of no issues. -/
  | newEvaluator
  | issues
  | gateReport (learner : LearnerId) (id : ModuleId) (item : Option ItemId)
  | itemAvailability (learner : LearnerId) (id : ModuleId) (item : ItemId)
  | openItem (learner : LearnerId) (id : ModuleId) (item : ItemId)
  | setCollapsed (learner : LearnerId) (id : ModuleId) (collapsed : Bool)
  | setAllCollapsed (learner : LearnerId) (collapsed : Bool)
  | tree (learner : LearnerId)
  | summary (learner : LearnerId)

inductive Answer where
  | done
  | flag (b : Bool)
  | count (n : Nat)
  | ids (ids : List String)
  | module (m : Module)
  /-- The items for which there are facts, with their facts by kind. -/
  | facts (facts : List (ItemId × ItemFacts))
  | stored (p : Option Progression)
  | listed (ps : List Progression)
  | result (p : Progression)
  | results (results : List (String × Progression))
  | issues (issues : List Issue)
  | gate (report : GateReport)
  | availability (a : Availability)
  | opened (p : Progression) (a : Availability)
  | navigation (modules : List NavigationModule)
  | summary (s : Summary)

namespace Store

/-- The items of a list for which a learner has facts. -/
def completionsFor (s : Store) (learner : LearnerId) (items : List ItemId) :
    List (ItemId × ItemFacts) :=
  (items.eraseDups.map fun i => (i, s.itemFacts learner i)).filter fun f => !f.2.isEmpty

end Store

open Pathway.Action in
/-- What the call does, with an evaluator and at a moment. -/
def Call.perform (e : Evaluator) (now : Instant) : Call → Action Answer
  | addLearner learner name => do
    update (·.addLearner learner name)
    return .done
  | hasLearner learner => do return .flag (← ask (·.hasLearner learner))
  | learnerIds => do return .ids (← ask (·.learnerIds))
  | resetLearner learner => do
    update (·.resetLearner learner)
    return .done
  | putModule m course => do
    updateOrFail (·.putModule m course)
    return .done
  | putCourse c => do
    Action.putCourse c
    return .done
  | removeModule id => do
    let known ← ask (·.hasModule id)
    update (·.removeModule id)
    return .flag known
  | getModule id => do return .module (← askOrFail (·.getModule id))
  | moduleIds course => do return .ids (← ask (·.moduleIds course))
  | record learner item kind score satisfiedAt => do
    let kind ← Action.ofExcept (Store.kindNamed kind)
    updateOrFail (·.record learner item kind score (satisfiedAt.getD now))
    return .done
  | recordScore learner item score satisfiedAt => do
    updateOrFail (·.record learner item .minScore (some score) (satisfiedAt.getD now))
    return .done
  | clear learner item kind => do
    let (store, n) ← askOrFail (·.clearNamed learner item kind)
    update fun _ => store
    return .count n
  | completions learner items => do return .facts (← ask (·.completionsFor learner items))
  | loadProgression learner id => do return .stored (← ask (·.loadProgression learner id))
  | saveProgression learner id p => do
    Action.saveProgression learner id p
    return .done
  | listProgressions id => do return .listed (← ask (·.listProgressions id))
  | evaluate learner id => do return .result (← e.evaluate now learner id)
  | evaluateAll learner (some ids) => do return .results (← e.evaluateAll now learner ids)
  | evaluateAll learner none => do return .results (← e.evaluateEvery now learner)
  | evaluateLearners id learners => do return .results (← e.evaluateLearners now id learners)
  | newEvaluator => do
    modify fun σ => { σ with issues := [] }
    return .done
  | issues => do return .issues (← get).issues
  | gateReport learner id item => do return .gate (← e.gateReport now learner id item)
  | itemAvailability learner id item => do
    return .availability (← e.itemAvailability now learner id item)
  | openItem learner id item => do
    let (p, a) ← e.openItem now learner id item
    return .opened p a
  | setCollapsed learner id collapsed => do
    return .result (← e.setCollapsed now learner id collapsed)
  | setAllCollapsed learner collapsed => do
    return .listed (← e.setAllCollapsed now learner collapsed)
  | tree learner => do return .navigation (← e.tree now learner)
  | summary learner => do return .summary (← e.summary now learner)

/-! ## Runs -/

/-- A call with the evaluator that serves it and the moment at which it is made. -/
structure Request where
  evaluator : Evaluator
  now : Instant
  call : Call

namespace Session

def perform (σ : Session) (r : Request) : EStateM.Result Failure Session Answer :=
  r.call.perform r.evaluator r.now σ

def answer (σ : Session) (r : Request) : Except Failure Answer :=
  match σ.perform r with
  | .ok a _ => .ok a
  | .error f _ => .error f

/-- What a failing request did before it failed stays done. -/
def next (σ : Session) (r : Request) : Session :=
  match σ.perform r with
  | .ok _ τ => τ
  | .error _ τ => τ

def answers (σ : Session) : List Request → List (Except Failure Answer)
  | [] => []
  | r :: rs => σ.answer r :: (σ.next r).answers rs

def after (σ : Session) (rs : List Request) : Session := rs.foldl next σ

theorem answer_eq_ok {σ : Session} {r : Request} {a : Answer} :
    σ.answer r = .ok a ↔ σ.perform r = .ok a (σ.next r) := by
  unfold answer next
  cases σ.perform r <;> simp

end Session

end Pathway
