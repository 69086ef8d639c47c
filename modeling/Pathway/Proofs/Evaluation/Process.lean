import Pathway.Proofs.Evaluation.Outcome

/-!
# Components as processes

The evaluation of a component is a process: a sequence of steps, each one question to what all
components share or one change to it. A process that runs alone does what the evaluation of its
component does.
-/

namespace Pathway

open Evaluation

namespace Evaluation

/-! ## Steps -/

/-- What the components of an evaluation share. -/
structure Shared where
  memo : Memo
  session : Session

/-- A question, by the type of its answer. -/
inductive Query : Type → Type 1 where
  /-- What has been found for a module. -/
  | found (id : ModuleId) : Query (Option Progression)
  /-- What the store holds of a module. -/
  | load (id : ModuleId) : Query (Option Progression)
  /-- What the learner did. -/
  | facts : Query Assessment.Facts

def Query.answer {α : Type} (learner : LearnerId) (st : Shared) : Query α → α
  | found id => st.memo[id]?
  | load id => st.session.store.loadProgression learner id
  | facts => st.session.store.itemFacts learner

inductive Effect where
  | remember (id : ModuleId) (p : Progression)
  | save (id : ModuleId) (p : Progression)
  | report (i : Issue)
  | note (n : Notice)

namespace Effect

/-- Only the store can refuse a change. -/
def check (st : Shared) : Effect → Except Failure Unit
  | save _ p => st.session.store.checkProgression p
  | _ => .ok ()

def change (learner : LearnerId) (st : Shared) : Effect → Shared
  | remember id p => { st with memo := st.memo.insert id p }
  | save id p =>
    let store := st.session.store.putProgression learner id p
    { st with session := { st.session with store, saves := st.session.saves + 1 } }
  | report i => { st with session := st.session.report i }
  | note n => { st with session := st.session.note n }

end Effect

/-! ## Processes -/

inductive Process : Type 1 where
  | done
  | failed (f : Failure)
  | ask {α : Type} (q : Query α) (next : α → Process)
  | act (x : Effect) (next : Process)

namespace Process

/-- One step. A change that is refused ends the process. -/
def step (learner : LearnerId) (st : Shared) : Process → Option (Process × Shared)
  | done => none
  | failed _ => none
  | ask q next => some (next (q.answer learner st), st)
  | act x next =>
    match x.check st with
    | .ok _ => some (next, x.change learner st)
    | .error f => some (failed f, st)

/-- All steps, with nothing in between. -/
def run (learner : LearnerId) : Process → Shared → Except Failure Shared
  | done, st => .ok st
  | failed f, _ => .error f
  | ask q next, st => run learner (next (q.answer learner st)) st
  | act x next, st =>
    match x.check st with
    | .ok _ => run learner next (x.change learner st)
    | .error f => .error f

/-! ## The process of a component -/

def reportAll : List Issue → Process → Process
  | [], next => next
  | i :: is, next => act (.report i) (reportAll is next)

/-- Asks for one prerequisite after the other, up to the first that is not met. -/
def askMet : List ModuleId → (Bool → Process) → Process
  | [], next => next true
  | id :: ids, next =>
    ask (.found id) fun found =>
      if found.all (·.isCompleted) then askMet ids next else next false

/-- The end of a module: its progression is remembered, and saved if it has changed. -/
def settle (m : Module) (previous : Option Progression) (p : Progression) (next : Process) :
    Process :=
  act (.remember m.id p) <|
    if previous.any p.same then act (.note (evaluatedNotice p)) next
    else act (.save m.id p) (act (.note (evaluatedNotice p)) next)

/-- The facts are asked for only if the module is open. -/
def ofModule (r : Run) (m : Module) (met : Bool) (next : Process) : Process :=
  ask (.load m.id) fun previous =>
    reportAll (Assessment.countIssues m) <|
      if Assessment.isOpen r.now m met then
        ask .facts fun facts =>
          reportAll (Assessment.factIssues facts r.learner m) <|
            settle m previous (Assessment.unlocked facts r.learner m previous) next
      else settle m previous (Assessment.locked r.learner m previous) next

def ofMembers (r : Run) (barred : Bool) : Graph.Component → Process
  | [] => done
  | id :: ids =>
    match r.modules[id]? with
    | none => ofMembers r barred ids
    | some m =>
      if barred then ofModule r m false (ofMembers r barred ids)
      else askMet m.prerequisites fun met => ofModule r m met (ofMembers r barred ids)

def ofComponent (r : Run) (depth : Nat) (c : Graph.Component) : Process :=
  let cyclic := r.graph.isCyclic c
  let tooDeep := decide (r.limit ≤ depth)
  let members := ofMembers r (cyclic || tooDeep) c
  if cyclic then act (.report (.circularPrerequisites (r.graph.circleIn c))) members
  else if tooDeep then act (.note (tooDeepNotice r c)) members
  else members

end Process

/-! ## A process alone -/

/-- What is left of the end of an action that works on the memo. -/
def outcome : EStateM.Result Failure Session Memo → Except Failure Shared
  | .ok memo σ => .ok ⟨memo, σ⟩
  | .error f _ => .error f

variable {r : Run} {m : Module} {met barred : Bool} {memo : Memo} {σ : Session} {st : Shared}
  {learner : LearnerId} {next : Process} {k : Memo → Action Memo} {p : Progression}
  {previous : Option Progression} {c : Graph.Component} {cs : List Graph.Component} {depth : Nat}

/-- The process does what the action does, from whatever memo and session. -/
def Process.Does (learner : LearnerId) (next : Process) (k : Memo → Action Memo) : Prop :=
  ∀ memo σ, outcome (k memo σ) = next.run learner ⟨memo, σ⟩

namespace Process

theorem run_ask {α : Type} {q : Query α} {f : α → Process} :
    (ask q f).run learner st = (f (q.answer learner st)).run learner st := rfl

theorem run_act_of_ok (x : Effect) (h : x.check st = .ok ()) :
    (act x next).run learner st = next.run learner (x.change learner st) := by
  rw [run, h]

theorem run_act_of_error (x : Effect) {f : Failure} (h : x.check st = .error f) :
    (act x next).run learner st = .error f := by
  rw [run, h]

theorem run_reportAll (is : List Issue) :
    (reportAll is next).run learner st =
      next.run learner { st with session := st.session.reportAll is } := by
  induction is generalizing st with
  | nil => rfl
  | cons i is ih => exact ih

theorem run_askMet (ids : List ModuleId) (f : Bool → Process) :
    (askMet ids f).run learner st = (f (ids.all (prerequisiteMet st.memo))).run learner st := by
  induction ids with
  | nil => rfl
  | cons id ids ih =>
    have hmet : prerequisiteMet st.memo id = (st.memo[id]?).all (·.isCompleted) := by
      unfold prerequisiteMet
      cases st.memo[id]? <;> rfl
    rw [askMet, run_ask, List.all_cons, hmet]
    have hanswer : Query.answer learner st (.found id) = st.memo[id]? := rfl
    rw [hanswer]
    by_cases h : (st.memo[id]?).all (·.isCompleted) = true
    · rw [if_pos h, ih, h, Bool.true_and]
    · rw [if_neg h, Bool.eq_false_iff.2 h, Bool.false_and]

theorem run_settle (hnext : next.Does learner k) :
    (settle m previous p next).run learner ⟨memo, σ⟩ =
      outcome ((do
        unless previous.any p.same do
          Action.saveProgression learner m.id p
        Action.note (evaluatedNotice p)
        k (memo.insert m.id p)) σ) := by
  unfold settle
  rw [run_act_of_ok _ rfl]
  dsimp only [Effect.change]
  split
  · next hsame =>
    rw [run_act_of_ok _ rfl]
    exact (hnext _ _).symm
  · next hsame =>
    cases hs : σ.store.saveProgression learner m.id p with
    | ok s =>
      obtain ⟨hok, rfl⟩ := Store.saveProgression_eq_ok.1 hs
      have hcheck : (Effect.save m.id p).check ⟨memo.insert m.id p, σ⟩ = .ok () := hok
      rw [run_act_of_ok _ hcheck, run_act_of_ok _ rfl]
      simp only [Bind.bind, EStateM.bind, Action.saveProgression_of_ok hs]
      exact (hnext _ _).symm
    | error f =>
      rw [run_act_of_error (.save m.id p) (Store.saveProgression_eq_error.1 hs)]
      simp only [Bind.bind, EStateM.bind, Action.saveProgression_of_error hs]
      rfl

theorem run_ofModule :
    (ofModule r m met next).run r.learner ⟨memo, σ⟩ =
      (settle m (σ.store.loadProgression r.learner m.id) (progressionIn r σ.store m met) next).run
        r.learner ⟨memo, σ.reportAll (issuesIn r σ.store m met)⟩ := by
  unfold ofModule progressionIn issuesIn Assessment.progression Assessment.issues
  rw [run_ask, run_reportAll]
  dsimp only [Query.answer]
  split
  · rw [run_ask]
    dsimp only [Query.answer]
    rw [Session.store_reportAll, run_reportAll, Session.reportAll_append]
  · rw [List.append_nil]

theorem does_ofModule (hnext : next.Does r.learner k) :
    (ofModule r m met next).Does r.learner fun memo => evaluateModule r m met memo >>= k := by
  intro memo σ
  rw [run_ofModule, run_settle hnext]
  unfold evaluateModule
  simp only [bind_assoc]
  rw [Action.ask_bind, Action.reportAll_bind]
  split
  · next hsame =>
    rw [if_pos (by exact hsame)]
    rfl
  · next hsame =>
    rw [if_neg (by exact hsame), bind_assoc]
    rfl

theorem does_ofMembers :
    (ofMembers r barred c).Does r.learner (evaluateMembers r barred c) := by
  induction c with
  | nil => exact fun _ _ => rfl
  | cons id ids ih =>
    intro memo σ
    unfold ofMembers evaluateMembers
    cases hm : r.modules[id]? with
    | none => exact ih memo σ
    | some m =>
      dsimp only
      cases barred with
      | true => exact does_ofModule ih memo σ
      | false =>
        rw [if_neg Bool.false_ne_true, run_askMet]
        exact does_ofModule ih memo σ

theorem does_ofComponent (r : Run) (depth : Nat) (c : Graph.Component) :
    (ofComponent r depth c).Does r.learner (evaluateComponent r depth c) := by
  intro memo σ
  unfold ofComponent evaluateComponent
  dsimp only
  split
  · exact does_ofMembers memo _
  · split
    · exact does_ofMembers memo _
    · exact does_ofMembers memo _

end Process

end Evaluation

end Pathway
