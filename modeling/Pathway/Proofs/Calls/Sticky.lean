import Pathway.Proofs.Calls.Changes
import Pathway.Proofs.Calls.History
import Pathway.Proofs.Sample

/-!
# Completed is sticky

Once a module is completed for a learner, no request takes that back but the three that are meant to
and an evaluation that finds the module locked.
-/

namespace Pathway

open Evaluation

variable {l learner : LearnerId} {id i : ModuleId} {p : Progression} {ps : List Progression}
  {σ τ : Session} {r : Request} {rs : List Request}

/-! ## Requests that evaluate -/

theorem completion?_of_folded {e : Evaluator} {now : Instant} {collapsed : Bool}
    (h : e.evaluate now learner id σ = .ok p τ) :
    ((Action.saveProgression learner id { p with collapsed }).finish τ).store.completion? l i =
      τ.store.completion? l i := by
  rcases store_finish_saveProgression learner id { p with collapsed } τ with hs | hs
  · rw [hs]
  · rw [← (Store.saveProgression_eq_ok.1 hs).2, Store.completion?_putProgression]
    split
    · next heq =>
      obtain ⟨rfl, rfl⟩ := heq
      exact (completion?_of_evaluate h).symm
    · rfl

theorem History.lasts (h : History σ ps τ) (hstart : (σ.store.completion? l id).isSome = true)
    (hopen : ∀ p ∈ ps, p.IsOf l id → p.isLocked = false) :
    Lasts (σ.store.completion? l id) (τ.store.completion? l id) ∧
      ∀ p ∈ ps, p.IsOf l id → p.isCompleted = true := by
  -- The completion has lasted up to each step, so each assessment starts from a completed module.
  induction h with
  | start => exact ⟨.refl hstart, by simp⟩
  | noted n _ ih => exact ih hopen
  | reported j _ ih =>
    rw [Session.store_report]
    exact ih hopen
  | @assessed _ τ run m met memo _ ih =>
    obtain ⟨hlasts, hcompleted⟩ := ih fun p hp => hopen p (List.mem_append_left _ hp)
    have hkey := isOf_progressionIn run τ.store m met
    have hfound := hopen _ (List.mem_append_right _ List.mem_cons_self)
    refine ⟨hlasts.trans (lasts_evaluateModule hlasts.1 ?_), fun p hp hof => ?_⟩
    · rintro rfl rfl
      exact hfound hkey
    · rcases List.mem_append.1 hp with hp | hp
      · exact hcompleted p hp hof
      · obtain rfl := List.mem_singleton.1 hp
        obtain ⟨rfl, rfl⟩ := hof
        rw [← Progression.isSome_completion?]
        rw [hkey.1, hkey.2] at hlasts
        exact (Store.lasts_progressionIn hlasts.1 (hfound ⟨rfl, rfl⟩)).1
  | folded collapsed _ heval ih =>
    rw [completion?_of_folded heval]
    exact ih hopen

/-! ## Requests that do not evaluate -/

/-- The call is not one that forgets the learner's progression on the module, or replaces it. -/
def Call.Spares (learner : LearnerId) (id : ModuleId) : Call → Prop
  | resetLearner l => l ≠ learner
  | removeModule i => i ≠ id
  | saveProgression l i _ => ¬ (l = learner ∧ i = id)
  | _ => True

theorem Call.Changes.loadProgression {c : Call} {s t : Store} (h : c.Changes s t)
    (hs : c.Spares l id) : t.loadProgression l id = s.loadProgression l id := by
  cases h with
  | learners => exact s.loadProgression_addLearner ..
  | facts _ ht => exact ht.rest.loadProgression l id
  | put _ ht =>
    obtain ⟨-, rfl⟩ := Store.putModule_eq_ok.1 ht
    exact s.loadProgression_placeModule ..
  | reset hc =>
    subst hc
    exact Store.loadProgression_resetLearner.trans (if_neg fun h => hs h.symm)
  | removal hc =>
    subst hc
    exact Store.loadProgression_removeModule.trans (if_neg fun h => hs h.symm)
  | save hc ht =>
    subst hc
    obtain ⟨-, rfl⟩ := Store.saveProgression_eq_ok.1 ht
    rw [Store.loadProgression_putProgression, if_neg hs]

theorem loadProgression_next (hr : ¬ r.call.Evaluates) (hs : r.call.Spares l id) :
    (σ.next r).store.loadProgression l id = σ.store.loadProgression l id :=
  Session.next_of_changes (I := fun t => t.loadProgression l id = σ.store.loadProgression l id) hr
    rfl fun _ _ h ht => (ht.loadProgression hs).trans h

/-! ## Runs -/

theorem Trace.lasts (h : Trace σ rs ps) (hspare : ∀ r ∈ rs, r.call.Spares l id)
    (hstart : (σ.store.completion? l id).isSome = true)
    (hopen : ∀ p ∈ ps, p.IsOf l id → p.isLocked = false) :
    Lasts (σ.store.completion? l id) ((σ.after rs).store.completion? l id) ∧
      ∀ p ∈ ps, p.IsOf l id → p.isCompleted = true := by
  induction h with
  | nil => exact ⟨.refl hstart, by simp⟩
  | @evaluating σ r rs ps qs _ hps _ ih =>
    obtain ⟨hlasts, hcompleted⟩ := hps.lasts hstart fun p hp => hopen p (List.mem_append_left _ hp)
    obtain ⟨hrest, hcompleted'⟩ := ih (fun r hr => hspare r (List.mem_cons_of_mem _ hr)) hlasts.1
      fun p hp => hopen p (List.mem_append_right _ hp)
    refine ⟨hlasts.trans hrest, fun p hp => ?_⟩
    rcases List.mem_append.1 hp with hp | hp
    · exact hcompleted p hp
    · exact hcompleted' p hp
  | @other σ r rs qs hr _ ih =>
    have hnext : (σ.next r).store.completion? l id = σ.store.completion? l id := by
      unfold Store.completion?
      rw [loadProgression_next hr (hspare r List.mem_cons_self)]
    rw [← hnext] at hstart ⊢
    exact ih (fun r hr => hspare r (List.mem_cons_of_mem _ hr)) hstart hopen

/-- The answer to the call says of the progression that it is the one on the module for the
learner. -/
def Call.Gives (learner : LearnerId) (id : ModuleId) : Call → Answer → Progression → Prop
  | evaluate l i, .result q, p => l = learner ∧ i = id ∧ q = p
  | evaluateAll l _, .results qs, p => l = learner ∧ (id, p) ∈ qs
  | evaluateLearners i _, .results qs, p => i = id ∧ (learner, p) ∈ qs
  | _, _, _ => False

theorem completion?_of_gives {a : Answer} (h : σ.answer r = .ok a)
    (hp : r.call.Gives learner id a p) :
    (σ.next r).store.completion? learner id = p.completion? := by
  obtain ⟨e, now, c⟩ := r
  have hperform := Session.answer_eq_ok.1 h
  cases c with
  | evaluate l i =>
    obtain ⟨q, heval, rfl⟩ := Action.bind_pure_eq_ok.1 hperform
    obtain ⟨rfl, rfl, rfl⟩ := hp
    exact completion?_of_evaluate heval
  | evaluateAll l ids =>
    cases ids with
    | some ids =>
      obtain ⟨qs, heval, rfl⟩ := Action.bind_pure_eq_ok.1 hperform
      obtain ⟨rfl, hp⟩ := hp
      exact completion?_of_evaluateAll heval hp
    | none =>
      obtain ⟨qs, heval, rfl⟩ := Action.bind_pure_eq_ok.1 hperform
      obtain ⟨rfl, hp⟩ := hp
      exact completion?_of_evaluateEvery heval hp
  | evaluateLearners i ls =>
    obtain ⟨qs, heval, rfl⟩ := Action.bind_pure_eq_ok.1 hperform
    obtain ⟨rfl, hp⟩ := hp
    exact completion?_of_evaluateLearners heval hp
  | _ => cases a <;> exact hp.elim

/-- Every run of requests has a trace. If none of the three calls that are meant to takes the
completion back, and the trace finds the module locked nowhere, then it finds it completed
everywhere, the store says so after every request, requests for it are answered so, and from the
first moment on there is no other. -/
theorem completed_sticky (learner : LearnerId) (id : ModuleId) (σ : Session) (rs : List Request)
    (hspare : ∀ r ∈ rs, r.call.Spares learner id)
    (hstart : (σ.store.completion? learner id).isSome = true) :
    (∃ ps, Trace σ rs ps) ∧
    ∀ ps, Trace σ rs ps → (∀ p ∈ ps, p.IsOf learner id → p.isLocked = false) →
      (∀ p ∈ ps, p.IsOf learner id → p.isCompleted = true) ∧
      (∀ before between after, rs = before ++ between ++ after →
        Lasts ((σ.after before).store.completion? learner id)
          ((σ.after (before ++ between)).store.completion? learner id)) ∧
      ∀ before r after a p, rs = before ++ r :: after → (σ.after before).answer r = .ok a →
        r.call.Gives learner id a p →
        Lasts ((σ.after before).store.completion? learner id) p.completion? := by
  refine ⟨exists_trace σ rs, fun ps hps hopen => ?_⟩
  have lasts : ∀ before between after, rs = before ++ between ++ after →
      Lasts ((σ.after before).store.completion? learner id)
        ((σ.after (before ++ between)).store.completion? learner id) := by
    rintro before between after rfl
    rw [List.append_assoc] at hps
    obtain ⟨qs₁, qs, rfl, htrace₁, htrace⟩ := hps.of_append
    obtain ⟨qs₂, qs₃, rfl, htrace₂, -⟩ := htrace.of_append
    have hstart₂ := (htrace₁.lasts (fun r hr => hspare r (by simp [hr])) hstart
      fun p hp => hopen p (by simp [hp])).1.1
    have hafter : σ.after (before ++ between) = (σ.after before).after between := List.foldl_append
    rw [hafter]
    exact (htrace₂.lasts (fun r hr => hspare r (by simp [hr])) hstart₂
      fun p hp => hopen p (by simp [hp])).1
  refine ⟨(hps.lasts hspare hstart hopen).2, lasts, ?_⟩
  intro before r after a p hrs ha hp
  have hstep := lasts before [r] after (by rw [hrs, List.append_assoc]; rfl)
  have hafter : σ.after (before ++ [r]) = (σ.after before).next r := List.foldl_append
  rw [hafter, completion?_of_gives ha hp] at hstep
  exact hstep

/-! ## A run of the sample course -/

namespace Sample

def passed : Progression :=
  ⟨"ada", "orientation", .completed, [⟨"welcome-page", .view⟩, ⟨"syllabus-quiz", .minScore⟩], [],
    none, some ⟨0, 0⟩, false⟩

/-- The module was completed once, and no facts are left. -/
def afterOrientation : Session := .ofStore (store.putProgression "ada" "orientation" passed)

/-- A day later. -/
def laterRequests : List Request :=
  [.evaluate "ada" "orientation", .clear "ada" "welcome-page" none,
    .putModule { orientation with requiredCount := 1 } none].map
    fun c => ⟨⟨1, none⟩, ⟨Instant.microsPerDay, 0⟩, c⟩

def orientationRun : Run := runOf ⟨1, none⟩ "ada" ⟨Instant.microsPerDay, 0⟩ [orientation]

theorem plan_orientation :
    Evaluator.plan ⟨1, none⟩ ⟨Instant.microsPerDay, 0⟩ "ada" ["orientation"] afterOrientation =
      .ok orientationRun afterOrientation := by
  have hget : afterOrientation.store.getModule "orientation" = .ok orientation := by
    show store.getModule "orientation" = _
    rw [getModule_store]
    rfl
  have hreq : afterOrientation.store.required "ada" ["orientation"] = .ok [orientation] := by
    have hids : ["orientation"].eraseDups = ["orientation"] := rfl
    have hl : afterOrientation.store.hasLearner "ada" = true := rfl
    rw [Store.required, if_pos hl, hids, List.mapM_cons, hget]
    exact closure_of_no_prerequisites rfl
  rw [plan_apply, hreq]
  rfl

theorem finish_evaluate_orientation :
    (Evaluator.evaluate ⟨1, none⟩ ⟨Instant.microsPerDay, 0⟩ "ada" "orientation").finish
        afterOrientation =
      (evaluateModule orientationRun orientation true ∅).finish afterOrientation := by
  have hgenerations : orientationRun.graph.generations = [[["orientation"]]] := by decide +kernel
  have hcyclic : orientationRun.graph.isCyclic ["orientation"] = false := by decide +kernel
  have hread : orientationRun.modules["orientation"]? = some orientation := by rfl
  have hdeep : decide (orientationRun.limit ≤ 0) = false := by rfl
  unfold Evaluator.evaluate
  rw [Action.finish_bind fun results τ => by cases results <;> rfl]
  unfold Evaluator.evaluateAll
  rw [Action.finish_bind fun memo τ => rfl]
  unfold Evaluator.evaluateClosure
  rw [Action.finish_bind_of_ok plan_orientation, hgenerations]
  simp only [evaluateGenerations, evaluateInTurn, evaluateComponent, evaluateMembers, hcyclic,
    hdeep, hread, bind_pure]
  rfl

end Sample

theorem sample_completed_sticky :
    ∃ p, Trace Sample.afterOrientation Sample.laterRequests [p] ∧ p.IsOf "ada" "orientation" ∧
      p.isLocked = false ∧ p.isCompleted = true ∧
      Lasts (some (some ⟨0, 0⟩))
        ((Sample.afterOrientation.after Sample.laterRequests).store.completion? "ada"
          "orientation") := by
  have hspare : ∀ r ∈ Sample.laterRequests, r.call.Spares "ada" "orientation" := by
    simp [Sample.laterRequests, Call.Spares]
  have hstart : Sample.afterOrientation.store.completion? "ada" "orientation" =
      some (some ⟨0, 0⟩) := by rfl
  have hopen : (progressionIn Sample.orientationRun Sample.afterOrientation.store
      Sample.orientation true).isLocked = false := by decide +kernel
  have hhistory : History Sample.afterOrientation
      [progressionIn Sample.orientationRun Sample.afterOrientation.store Sample.orientation true]
      (Sample.afterOrientation.next
        ⟨⟨1, none⟩, ⟨Instant.microsPerDay, 0⟩, .evaluate "ada" "orientation"⟩) := by
    rw [Session.next_eq_finish, Call.perform, Action.finish_bind fun _ _ => rfl,
      Sample.finish_evaluate_orientation]
    exact History.start.assessed _ _ _ _
  have hevaluates : (Call.evaluate "ada" "orientation").Evaluates := trivial
  have htrace : Trace Sample.afterOrientation Sample.laterRequests
      [progressionIn Sample.orientationRun Sample.afterOrientation.store Sample.orientation true] :=
    .evaluating hevaluates hhistory (.other (fun h => h) (.other (fun h => h) .nil))
  obtain ⟨-, hall⟩ := completed_sticky "ada" "orientation" Sample.afterOrientation
    Sample.laterRequests hspare (by rw [hstart]; rfl)
  obtain ⟨hcompleted, hlasts, -⟩ := hall _ htrace fun p hp _ => by
    rw [List.mem_singleton.1 hp]
    exact hopen
  refine ⟨_, htrace, isOf_progressionIn _ _ _ _, hopen, ?_, ?_⟩
  · exact hcompleted _ List.mem_cons_self (isOf_progressionIn _ _ _ _)
  · rw [← hstart]
    exact hlasts [] Sample.laterRequests [] (by simp)

end Pathway
