import Pathway.Proofs.Calls.Changes

/-!
# All or nothing

A request that works on the store alone and fails leaves a session in which everything goes on as
before. A course is the exception: its modules are put one by one, and those before the one that is
refused stay.
-/

namespace Pathway

open Evaluation Pathway.Action

variable {σ τ : Session} {r : Request} {f : Failure} {e : Evaluator} {now : Instant} {c : Call}

/-! ## Sessions that no request tells apart -/

/-- The same store and the same issues. How often something was saved is not answered, and neither
is the journal. -/
structure Session.Alike (σ τ : Session) : Prop where
  store : τ.store = σ.store
  issues : τ.issues = σ.issues

namespace Session.Alike

theorem refl (σ : Session) : σ.Alike σ := ⟨rfl, rfl⟩

theorem note (h : σ.Alike τ) (n : Notice) : (σ.note n).Alike (τ.note n) := ⟨h.store, h.issues⟩

theorem report (h : σ.Alike τ) (i : Issue) : (σ.report i).Alike (τ.report i) := by
  refine ⟨by rw [store_report, store_report, h.store], ?_⟩
  unfold Session.report
  rw [h.issues]
  split
  · exact h.issues
  · rfl

theorem reportAll (h : σ.Alike τ) (is : List Issue) : (σ.reportAll is).Alike (τ.reportAll is) := by
  induction is generalizing σ τ with
  | nil => exact h
  | cons i is ih => exact ih (h.report i)

theorem withStore (h : σ.Alike τ) (s : Store) : { σ with store := s }.Alike { τ with store := s } :=
  ⟨rfl, h.issues⟩

theorem tandem_update (h : σ.Alike τ) (g : Store → Store) :
    (update g).Tandem (update g) σ τ Eq Alike := ⟨rfl, congrArg g h.store, h.issues⟩

theorem tandem_updateOrFail (h : σ.Alike τ) (g : Store → Except Failure Store) :
    (updateOrFail g).Tandem (updateOrFail g) σ τ Eq Alike := by
  unfold Tandem
  cases hs : g σ.store with
  | ok s =>
    rw [updateOrFail_of_ok hs, updateOrFail_of_ok (h.store ▸ hs)]
    exact ⟨rfl, h.withStore s⟩
  | error f =>
    rw [updateOrFail_of_error hs, updateOrFail_of_error (h.store ▸ hs)]
    exact ⟨rfl, h⟩

theorem tandem_saveProgression (h : σ.Alike τ) (learner : LearnerId) (id : ModuleId)
    (p : Progression) :
    (Action.saveProgression learner id p).Tandem (Action.saveProgression learner id p) σ τ Eq
      Alike :=
  tandem_updateOrFail (σ := { σ with saves := σ.saves + 1 })
    (τ := { τ with saves := τ.saves + 1 }) ⟨h.store, h.issues⟩ _

theorem accord : Accord Set.univ Alike Eq fun _ => True where
  hasLearner _ h := by rw [h.store]
  getModule h id := by rw [h.store]
  moduleIds h := by rw [h.store]
  good _ _ := trivial
  note h := h.note
  report h := h.report
  state h := by rw [h]
  met h := by rw [h]
  collapsed h := by rw [h]
  fold h := by rw [h]
  assess _ h _ hmemo := by
    obtain rfl : _ = _ := hmemo.eq
    refine tandem_evaluateModule (by rw [h.store]) (by rw [h.store]) ?_ (fun h => h.note)
      fun h => h.tandem_saveProgression _ _ _
    unfold looked
    rw [h.store]
    exact h.reportAll _
  save _ h hpq _ := hpq ▸ h.tandem_saveProgression _ _ _

theorem tandem_putCourse (h : σ.Alike τ) (c : Course) :
    (Action.putCourse c).Tandem (Action.putCourse c) σ τ Eq Alike := by
  unfold Action.putCourse
  refine (tandem_forIn (fun m _ _ _ h => h.tandem_updateOrFail _) h).bind fun _ _ σ τ _ _ h => ?_
  show ((if σ.store.backing = .database then Action.note _ else pure ()) : Action Unit).Tandem
    (if τ.store.backing = .database then Action.note _ else pure ()) σ τ Eq Alike
  rw [h.store]
  split
  · exact ⟨rfl, h.note _⟩
  · exact ⟨rfl, h⟩

theorem tandem_perform (h : σ.Alike τ) (c : Call) :
    (c.perform e now).Tandem (c.perform e now) σ τ Eq Alike := by
  by_cases heval : c.Evaluates
  · exact accord.perform_eq heval (fun _ _ => trivial) h
  -- What is left reads the store or writes to it, and the stores are the same.
  cases c with
  | addLearner | resetLearner =>
    exact (h.tandem_update _).bind fun _ _ _ _ _ _ h => tandem_pure rfl h
  | hasLearner | learnerIds | moduleIds | completions | loadProgression | listProgressions =>
    exact ⟨by rw [h.store], h⟩
  | putModule m course =>
    exact (h.tandem_updateOrFail _).bind fun _ _ _ _ _ _ h => tandem_pure rfl h
  | putCourse c => exact (h.tandem_putCourse c).bind fun _ _ _ _ _ _ h => tandem_pure rfl h
  | removeModule id =>
    refine tandem_ask ?_
    rw [h.store]
    exact (h.tandem_update _).bind fun _ _ _ _ _ _ h => tandem_pure rfl h
  | getModule id =>
    refine (tandem_askOrFail (by rw [h.store]) h).bind fun m _ _ _ _ hm h => ?_
    subst hm
    exact tandem_pure rfl h
  | record learner item kind score satisfiedAt =>
    refine (tandem_ofExcept h).bind fun kind _ _ _ _ hk h => ?_
    subst hk
    exact (h.tandem_updateOrFail _).bind fun _ _ _ _ _ _ h => tandem_pure rfl h
  | recordScore learner item score satisfiedAt =>
    exact (h.tandem_updateOrFail _).bind fun _ _ _ _ _ _ h => tandem_pure rfl h
  | clear learner item kind =>
    refine (tandem_askOrFail (by rw [h.store]) h).bind fun x _ _ _ _ hx h => ?_
    subst hx
    exact ⟨rfl, h.withStore x.1⟩
  | saveProgression learner id p =>
    exact (h.tandem_saveProgression _ _ _).bind fun _ _ _ _ _ _ h => tandem_pure rfl h
  | newEvaluator => exact ⟨rfl, h.store, rfl⟩
  | issues => exact ⟨congrArg Answer.issues h.issues.symm, h⟩
  | _ => exact absurd trivial heval

theorem answers_eq (h : σ.Alike τ) (rs : List Request) : τ.answers rs = σ.answers rs := by
  have hstep : ∀ (r : Request) (σ τ : Session), True → σ.Alike τ →
      (r.call.perform r.evaluator r.now).Tandem (r.call.perform r.evaluator r.now) σ τ Eq Alike :=
    fun r _ _ _ h => h.tandem_perform r.call
  exact (Pathway.answers_eq hstep (fun _ _ => trivial) h).1

end Session.Alike

/-! ## Failures -/

/-- If the action fails, it has changed nothing that a request can tell. -/
def Action.AllOrNothing {α : Type} (x : Action α) (σ : Session) : Prop :=
  ∀ f τ, x σ = .error f τ → σ.Alike τ

namespace Action

variable {α β : Type} {x : Action α} {k : α → Action β}

theorem allOrNothing_updateOrFail (g : Store → Except Failure Store) :
    (updateOrFail g).AllOrNothing σ := by
  intro f τ h
  cases hs : g σ.store with
  | ok s =>
    rw [updateOrFail_of_ok hs] at h
    cases h
  | error f =>
    rw [updateOrFail_of_error hs] at h
    cases h
    exact .refl σ

theorem allOrNothing_saveProgression (learner : LearnerId) (id : ModuleId) (p : Progression) :
    (Action.saveProgression learner id p).AllOrNothing σ := by
  intro f τ h
  obtain ⟨hstore, hissues⟩ :=
    allOrNothing_updateOrFail (σ := { σ with saves := σ.saves + 1 }) _ f τ h
  exact ⟨hstore, hissues⟩

theorem AllOrNothing.after {a : α} (hx : x σ = .ok a σ) (hk : (k a).AllOrNothing σ) :
    (x >>= k).AllOrNothing σ := by
  intro f τ h
  rw [bind_of_ok hx] at h
  exact hk f τ h

theorem allOrNothing_of_error (hx : x σ = .error f σ) : (x >>= k).AllOrNothing σ := by
  intro g τ h
  rw [bind_of_error hx] at h
  cases h
  exact .refl σ

theorem allOrNothing_of_ok {a : α} (hx : x σ = .ok a τ) : x.AllOrNothing σ := by
  intro f υ h
  cases hx.symm.trans h

theorem AllOrNothing.bind_pure {g : α → β} (hx : x.AllOrNothing σ) :
    (x >>= fun a => pure (g a)).AllOrNothing σ :=
  fun f τ h => hx f τ (error_of_bind h fun _ _ => ⟨_, _, rfl⟩)

end Action

theorem allOrNothing_perform (hc : ¬ c.Evaluates) (hcourse : ∀ d, c ≠ .putCourse d) :
    (c.perform e now).AllOrNothing σ := by
  cases c with
  | putModule m course => exact (allOrNothing_updateOrFail _).bind_pure
  | putCourse d => exact absurd rfl (hcourse d)
  | getModule id =>
    cases hm : σ.store.getModule id with
    | ok m => exact .after (askOrFail_of_ok hm) (allOrNothing_of_ok rfl)
    | error f => exact allOrNothing_of_error (askOrFail_of_error hm)
  | record learner item kind score satisfiedAt =>
    cases hk : Store.kindNamed kind with
    | ok k =>
      exact .after (by rw [hk, ofExcept_ok]) (allOrNothing_updateOrFail _).bind_pure
    | error f => exact allOrNothing_of_error (by rw [hk, ofExcept_error])
  | recordScore learner item score satisfiedAt => exact (allOrNothing_updateOrFail _).bind_pure
  | clear learner item kind =>
    cases hx : σ.store.clearNamed learner item kind with
    | ok x => exact .after (askOrFail_of_ok hx) (allOrNothing_of_ok rfl)
    | error f => exact allOrNothing_of_error (askOrFail_of_error hx)
  | saveProgression learner id p => exact (allOrNothing_saveProgression _ _ _).bind_pure
  | evaluate | evaluateAll | evaluateLearners | gateReport | itemAvailability | openItem
  | setCollapsed | setAllCollapsed | tree | summary => exact absurd trivial hc
  | _ => exact allOrNothing_of_ok rfl

/-! ## Courses -/

/-- The requests that put some modules into a course one by one. -/
def Request.putEach (r : Request) (course : CourseId) (ms : List Module) : List Request :=
  ms.map fun m => { r with call := .putModule m (some course) }

/-- The course was put up to a module whose position has no column. The session is the one after
each module before it was put by itself. -/
structure PutUpTo (σ : Session) (r : Request) (course : CourseId) (before : List Module)
    (m : Module) (τ : Session) : Prop where
  each : τ = σ.after (r.putEach course before)
  done : ∀ x ∈ σ.answers (r.putEach course before), x = .ok .done
  refused : Number.isSignedWord m.position = false

theorem Store.exists_of_putModule_error {s : Store} {m : Module} {course : Option CourseId}
    (h : s.putModule m course = .error f) :
    f = .oversizedInteger ∧ s.backing = .database ∧ Number.isSignedWord m.position = false := by
  rw [putModule_eq_error] at h
  cases s with
  | memory d => cases h
  | database r =>
    obtain ⟨hf, hword⟩ := Column.check_eq_error.1 h
    exact ⟨hf, rfl, hword⟩

theorem answer_and_next_of_putModule {s : Store} {m : Module} {course : CourseId}
    (h : σ.store.putModule m (some course) = .ok s) :
    σ.answer { r with call := .putModule m (some course) } = .ok .done ∧
      σ.next { r with call := .putModule m (some course) } = { σ with store := s } := by
  have hperform : σ.perform { r with call := .putModule m (some course) } =
      .ok .done { σ with store := s } := bind_of_ok (updateOrFail_of_ok h)
  rw [Session.answer, Session.next, hperform]
  exact ⟨rfl, rfl⟩

theorem exists_of_putCourse_error {course : CourseId} {ms : List Module}
    (h : (forIn ms PUnit.unit fun m _ => do
      updateOrFail fun s => s.putModule m (some course)
      pure (ForInStep.yield PUnit.unit) : Action PUnit) σ = .error f τ) :
    ∃ before m after, ms = before ++ m :: after ∧ f = .oversizedInteger ∧
      σ.store.backing = .database ∧ PutUpTo σ r course before m τ := by
  induction ms generalizing σ with
  | nil => cases h
  | cons m ms ih =>
    rw [List.forIn_cons, bind_assoc] at h
    cases hs : σ.store.putModule m (some course) with
    | error g =>
      rw [bind_of_error (updateOrFail_of_error hs)] at h
      cases h
      obtain ⟨rfl, hdb, hword⟩ := Store.exists_of_putModule_error hs
      exact ⟨[], m, ms, rfl, rfl, hdb, rfl, by simp [Request.putEach, Session.answers], hword⟩
    | ok s =>
      rw [bind_of_ok (updateOrFail_of_ok hs)] at h
      obtain ⟨before, n, after, rfl, rfl, hdb, hup⟩ := ih h
      obtain ⟨hanswer, hnext⟩ := answer_and_next_of_putModule (r := r) hs
      refine ⟨m :: before, n, after, rfl, rfl, (Store.backing_putModule hs).symm.trans hdb, ?_, ?_,
        hup.refused⟩
      · rw [Request.putEach, List.map_cons, Session.after, List.foldl_cons, hnext]
        exact hup.each
      · rw [Request.putEach, List.map_cons, Session.answers, hanswer, hnext]
        exact List.forall_mem_cons.2 ⟨rfl, hup.done⟩

theorem putCourse_error {c : Course} (h : Action.putCourse c σ = .error f τ) :
    (forIn c.modules PUnit.unit fun m _ => do
      updateOrFail fun s => s.putModule m (some c.id)
      pure (ForInStep.yield PUnit.unit) : Action PUnit) σ = .error f τ := by
  unfold Action.putCourse at h
  refine error_of_bind h fun _ σ => ?_
  show ∃ b υ, (if σ.store.backing = .database then Action.note _ else pure () : Action Unit) σ =
    .ok b υ
  split <;> exact ⟨_, _, rfl⟩

/-! ## Failed requests -/

theorem perform_of_answer_error (h : σ.answer r = .error f) :
    σ.perform r = .error f (σ.next r) := by
  unfold Session.answer at h
  unfold Session.next
  cases hr : σ.perform r with
  | ok a τ =>
    rw [hr] at h
    cases h
  | error g τ =>
    rw [hr] at h
    cases h
    rfl

/-- A request that fails without an evaluation leaves a session in which every later request is
answered as before. Only a course may leave something: it fails at a module whose position a
database has no column for, and the modules before that one are put as if each by itself. -/
theorem failed_request_leaves_nothing_but_modules_of_a_course (hr : ¬ r.call.Evaluates)
    (hf : σ.answer r = .error f) :
    ((∀ c, r.call ≠ .putCourse c) →
      (σ.next r).store = σ.store ∧ ∀ rs, (σ.next r).answers rs = σ.answers rs) ∧
    ∀ c, r.call = .putCourse c → ∃ before m after, c.modules = before ++ m :: after ∧
      f = .oversizedInteger ∧ σ.store.backing = .database ∧
      PutUpTo σ r c.id before m (σ.next r) := by
  have hperform := perform_of_answer_error hf
  constructor
  · intro hcourse
    have halike := allOrNothing_perform hr hcourse f _ hperform
    exact ⟨halike.store, halike.answers_eq⟩
  · rintro c hc
    rw [Session.perform, hc] at hperform
    have hput := error_of_bind hperform fun _ _ => ⟨_, _, rfl⟩
    exact exists_of_putCourse_error (putCourse_error hput)

/-! ## A course that is put in part -/

namespace Sample

/-- The first position that is too far. -/
def beyond : Module := ⟨"beyond", "", 2 ^ 63, [], [], false, 0, none⟩

def biology : Course := ⟨"biology", "", [⟨"near", "", 0, [], [], false, 0, none⟩, beyond]⟩

def putsBeyond : Request := ⟨⟨1, none⟩, ⟨0, 0⟩, .putModule beyond none⟩

def putsBiology : Request := ⟨⟨1, none⟩, ⟨0, 0⟩, .putCourse biology⟩

def listsModules : Request := ⟨⟨1, none⟩, ⟨0, 0⟩, .moduleIds none⟩

end Sample

theorem sample_failed_requests :
    (∀ rs, ((Session.ofStore (.empty .database)).next Sample.putsBeyond).answers rs =
      (Session.ofStore (.empty .database)).answers rs) ∧
    ∃ before m after, Sample.biology.modules = before ++ m :: after ∧
      PutUpTo (Session.ofStore (.empty .database)) Sample.putsBiology "biology" before m
        ((Session.ofStore (.empty .database)).next Sample.putsBiology) := by
  constructor
  · exact ((failed_request_leaves_nothing_but_modules_of_a_course (r := Sample.putsBeyond)
      (σ := Session.ofStore (.empty .database)) (f := .oversizedInteger) id rfl).1 nofun).2
  · obtain ⟨before, m, after, hmodules, -, -, hup⟩ :=
      (failed_request_leaves_nothing_but_modules_of_a_course (r := Sample.putsBiology)
        (σ := Session.ofStore (.empty .database)) (f := .oversizedInteger) id rfl).2
        Sample.biology rfl
    exact ⟨before, m, after, hmodules, hup⟩

/-- A database refuses the course, and then has a module that it did not have before. -/
theorem refused_course_leaves_module :
    (Session.ofStore (.empty .database)).answer Sample.putsBiology = .error .oversizedInteger ∧
    (Session.ofStore (.empty .database)).answer Sample.listsModules = .ok (.ids []) ∧
    ((Session.ofStore (.empty .database)).next Sample.putsBiology).answer Sample.listsModules =
      .ok (.ids ["near"]) := by
  have hbefore : (Session.ofStore (.empty .database)).store.moduleIds none = [] := by
    decide +kernel
  have hafter : ((Session.ofStore (.empty .database)).next
      Sample.putsBiology).store.moduleIds none = ["near"] := by decide +kernel
  exact ⟨rfl, congrArg (fun ids => Except.ok (Answer.ids ids)) hbefore,
    congrArg (fun ids => Except.ok (Answer.ids ids)) hafter⟩

end Pathway
