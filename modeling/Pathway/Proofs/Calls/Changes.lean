import Pathway.Proofs.Calls.Invariants
import Pathway.Proofs.Evaluation.CatchUp
import Pathway.Proofs.Evaluation.Completion

/-!
# What requests change

A request that evaluates changes progressions and nothing else. Any other makes a chain of changes
of a few kinds, and its call says of which. What each kind of change keeps, a run keeps.
-/

open Relation

namespace Pathway

open Evaluation

variable {s t : Store} {l learner : LearnerId} {id i : ModuleId} {item : ItemId} {m : Module}
  {course : Option CourseId} {p : Progression} {c : Call} {σ : Session} {r : Request}
  {rs : List Request}

/-! ## Putting and removing modules -/

namespace Store

theorem backing_putModule (h : s.putModule m course = .ok t) : t.backing = s.backing := by
  obtain ⟨-, rfl⟩ := putModule_eq_ok.1 h
  exact s.backing_placeModule m course

theorem getModule_putModule (h : s.putModule m course = .ok t) (id : ModuleId) :
    t.getModule id =
      if m.id = id then (Definition.of s.backing m).read else s.getModule id := by
  obtain ⟨-, rfl⟩ := putModule_eq_ok.1 h
  exact s.getModule_placeModule id m course

end Store

/-! ## One call -/

namespace Call

/-- The modules that the call puts into a store. -/
def puts : Call → List Module
  | putModule m _ => [m]
  | putCourse c => c.modules
  | _ => []

/-- The call records or clears facts of the item for the learner. -/
def Marks (learner : LearnerId) (item : ItemId) : Call → Prop
  | record l i .. | recordScore l i .. | clear l i .. => l = learner ∧ i = item
  | _ => False

/-- A change that the call may make to a store. -/
inductive Changes (c : Call) (s : Store) : Store → Prop
  | learners {learner : LearnerId} {name : String} : c = .addLearner learner name →
      Changes c s (s.addLearner learner name)
  | reset {learner : LearnerId} : c = .resetLearner learner → Changes c s (s.resetLearner learner)
  | put {m : Module} {course : Option CourseId} {t : Store} : m ∈ c.puts →
      s.putModule m course = .ok t → Changes c s t
  | removal {id : ModuleId} : c = .removeModule id → Changes c s (s.removeModule id)
  | facts {learner : LearnerId} {item : ItemId} {facts : ItemFacts} {t : Store} :
      c.Marks learner item → s.FactsSet learner item facts t → Changes c s t
  | save {learner : LearnerId} {id : ModuleId} {p : Progression} {t : Store} :
      c = .saveProgression learner id p → s.saveProgression learner id p = .ok t → Changes c s t

end Call

theorem changes_record {kind : RequirementKind} {score : Option Store.Score} {at' : Instant}
    (hc : c.Marks learner item) (h : s.record learner item kind score at' = .ok t) :
    c.Changes s t := by
  obtain ⟨kept, -, hset⟩ := Store.factsSet_of_record h
  exact .facts hc hset

theorem reflTransGen_updateOrFail {f : Store → Except Failure Store}
    (h : ∀ t, f σ.store = .ok t → c.Changes σ.store t) :
    ReflTransGen c.Changes σ.store ((Action.updateOrFail f).finish σ).store := by
  rw [Action.store_finish_updateOrFail]
  split
  · next t ht => exact .single (h t ht)
  · exact .refl

theorem updated_of_done {f : Store → Except Failure Store}
    (hperform : r.call.perform r.evaluator r.now = Action.updateOrFail f >>= fun _ => pure .done)
    (h : σ.answer r = .ok .done) : f σ.store = .ok (σ.next r).store := by
  rw [Session.answer_eq_ok, Session.perform, hperform] at h
  obtain ⟨_, hupdate, -⟩ := Action.bind_pure_eq_ok.1 h
  cases hs : f σ.store with
  | ok s =>
    rw [Action.updateOrFail_of_ok hs] at hupdate
    rw [← (EStateM.Result.ok.inj hupdate).2]
  | error e =>
    rw [Action.updateOrFail_of_error hs] at hupdate
    cases hupdate

theorem reflTransGen_putCourse {d : Course} :
    ReflTransGen (Call.putCourse d).Changes σ.store ((Action.putCourse d).finish σ).store := by
  -- The loop beside itself, with the chain so far as its invariant.
  have h : (Action.putCourse d).Tandem (Action.putCourse d) σ σ Eq fun a b =>
      b = a ∧ ReflTransGen (Call.putCourse d).Changes σ.store a.store := by
    unfold Action.putCourse
    refine (Action.tandem_forIn (fun m hm a b h => ?_) ⟨rfl, .refl⟩).bind fun _ _ a b _ _ h => ?_
    · obtain ⟨rfl, h⟩ := h
      exact Action.tandem_self (fun _ => rfl)
        ⟨rfl, h.trans (reflTransGen_updateOrFail fun _ => .put hm)⟩
    · obtain ⟨rfl, h⟩ := h
      refine Action.tandem_self (fun _ => rfl) ⟨rfl, ?_⟩
      show ReflTransGen _ _ ((if b.store.backing = .database then Action.note _ else pure () :
        Action Unit).finish b).store
      split <;> exact h
  exact h.finish.2

theorem reflTransGen_next (hr : ¬ r.call.Evaluates) :
    ReflTransGen r.call.Changes σ.store (σ.next r).store := by
  obtain ⟨e, now, c⟩ := r
  rw [Session.next_eq_finish]
  cases c with
  | addLearner learner name => exact .single (.learners rfl)
  | resetLearner learner => exact .single (.reset rfl)
  | putModule m course =>
    rw [Call.perform, Action.finish_bind fun _ _ => rfl]
    exact reflTransGen_updateOrFail fun _ => .put (List.mem_singleton.2 rfl)
  | putCourse d =>
    rw [Call.perform, Action.finish_bind fun _ _ => rfl]
    exact reflTransGen_putCourse
  | removeModule id => exact .single (.removal rfl)
  | getModule id =>
    rw [Call.perform, Action.finish_bind fun _ _ => rfl]
    exact (congrArg Session.store Action.finish_ofExcept) ▸ .refl
  | record learner item kind score satisfiedAt =>
    rw [Call.perform]
    cases hk : Store.kindNamed kind with
    | error f => exact .refl
    | ok k =>
      show ReflTransGen _ _
        ((Action.updateOrFail _ >>= fun _ => pure _ : Action Answer).finish σ).store
      rw [Action.finish_bind fun _ _ => rfl]
      exact reflTransGen_updateOrFail fun _ => changes_record ⟨rfl, rfl⟩
  | recordScore learner item score satisfiedAt =>
    rw [Call.perform, Action.finish_bind fun _ _ => rfl]
    exact reflTransGen_updateOrFail fun _ => changes_record ⟨rfl, rfl⟩
  | clear learner item kind =>
    rw [Call.perform]
    cases hc : σ.store.clearNamed learner item kind with
    | error f =>
      rw [Action.finish, Action.bind_of_error (Action.askOrFail_of_error hc)]
    | ok x =>
      rw [Action.finish_bind_of_ok (Action.askOrFail_of_ok hc)]
      exact .single (.facts ⟨rfl, rfl⟩ (Store.factsSet_of_clearNamed hc).1)
  | saveProgression learner id p =>
    rw [Call.perform, Action.finish_bind fun _ _ => rfl]
    rcases store_finish_saveProgression learner id p σ with h | h
    · exact h ▸ .refl
    · exact .single (.save rfl h)
  | evaluate | evaluateAll | evaluateLearners | gateReport | itemAvailability | openItem
  | setCollapsed | setAllCollapsed | tree | summary => exact absurd trivial hr
  | _ => exact .refl

/-! ## Requests that evaluate -/

theorem Store.SameBase.save (h : s.SameBase t) {u : Store}
    (hu : t.saveProgression l id p = .ok u) : s.SameBase u := by
  obtain ⟨-, rfl⟩ := Store.saveProgression_eq_ok.1 hu
  exact h.trans (t.sameBase_putProgression l id p)

/-- What each progression that is saved for some learners keeps, a request that evaluates for them
keeps. -/
theorem kept_of_save_for {Who : Set LearnerId} {I : Store → Prop}
    (hI : ∀ s t l id p, l ∈ Who → I s → s.saveProgression l id p = .ok t → I t) :
    Kept Who (fun σ => I σ.store) fun _ => True where
  good _ _ := trivial
  note h _ := h
  report h i := by
    rw [Session.store_report]
    exact h
  assess {σ run m met memo} hl h _ := by
    rcases store_finish_evaluateModule run m met memo σ with hs | hs
    · rw [hs]
      exact h
    · exact hI _ _ _ _ _ hl h hs
  save {σ l id p b} hl h _ := by
    rcases store_finish_saveProgression l id { p with collapsed := b } σ with hs | hs
    · rw [hs]
      exact h
    · exact hI _ _ _ _ _ hl h hs

theorem kept_of_save {I : Store → Prop}
    (hI : ∀ s t l id p, I s → s.saveProgression l id p = .ok t → I t) :
    Kept Set.univ (fun σ => I σ.store) fun _ => True :=
  kept_of_save_for fun s t l id p _ => hI s t l id p

theorem sameBase_next (hr : r.call.Evaluates) (σ : Session) :
    σ.store.SameBase (σ.next r).store :=
  (kept_of_save (I := σ.store.SameBase) fun _ _ _ _ _ h ht => h.save ht).next hr (.refl σ.store)

/-! ## Runs -/

namespace Session

theorem next_of_changes {I : Store → Prop} (hr : ¬ r.call.Evaluates) (hI : I σ.store)
    (h : ∀ s t, I s → r.call.Changes s t → I t) : I (σ.next r).store := by
  have hlift : ∀ t, ReflTransGen r.call.Changes σ.store t → I t := by
    intro t ht
    induction ht with
    | refl => exact hI
    | tail _ hst ih => exact h _ _ ih hst
  exact hlift _ (reflTransGen_next hr)

theorem after_of_next {I : Session → Prop} (hI : I σ)
    (h : ∀ r ∈ rs, ∀ σ, I σ → I (σ.next r)) : I (σ.after rs) := by
  induction rs generalizing σ with
  | nil => exact hI
  | cons r rs ih =>
    obtain ⟨hr, hrs⟩ := List.forall_mem_cons.1 h
    exact ih (hr σ hI) hrs

end Session

end Pathway
