import Pathway.Evaluation.Evaluator
import Pathway.Proofs.Session

/-!
# The steps of an evaluation

What planning and the assessment of one module come to, said as functions of the store. Both touch
little: a plan adds to the journal, and an assessment may save one progression.
-/

namespace Pathway

open Evaluation

/-! ## Looking up -/

theorem mapM_eq_ok {α β : Type} {g : α → Except Failure β} {v : α → β} {l : List α}
    (h : ∀ a ∈ l, g a = .ok (v a)) : l.mapM g = .ok (l.map v) := by
  induction l with
  | nil => rfl
  | cons a l ih =>
    obtain ⟨ha, hl⟩ := List.forall_mem_cons.1 h
    rw [List.mapM_cons, ha, ih hl]
    rfl

theorem forall₂_of_mapM {α β : Type} {g : α → Except Failure β} {l : List α} {bs : List β}
    (h : l.mapM g = .ok bs) : List.Forall₂ (fun a b => g a = .ok b) l bs := by
  induction l generalizing bs with
  | nil =>
    cases h
    exact .nil
  | cons a l ih =>
    rw [List.mapM_cons] at h
    cases ha : g a with
    | error f =>
      rw [ha] at h
      cases h
    | ok b =>
      cases hl : l.mapM g with
      | error f =>
        rw [ha, hl] at h
        cases h
      | ok bs' =>
        rw [ha, hl] at h
        cases h
        exact .cons ha (ih hl)

theorem exists_mapM {α β : Type} {g : α → Except Failure β} {l : List α}
    (h : ∀ a ∈ l, ∃ b, g a = .ok b) : ∃ bs, l.mapM g = .ok bs := by
  induction l with
  | nil => exact ⟨[], rfl⟩
  | cons a l ih =>
    obtain ⟨⟨b, hb⟩, hl⟩ := List.forall_mem_cons.1 h
    obtain ⟨bs, hbs⟩ := ih hl
    exact ⟨b :: bs, by rw [List.mapM_cons, hb, hbs]; rfl⟩

theorem exists_of_mapM_error {α β : Type} {g : α → Except Failure β} {l : List α} {f : Failure}
    (h : l.mapM g = .error f) : ∃ a ∈ l, g a = .error f := by
  induction l with
  | nil => cases h
  | cons a l ih =>
    rw [List.mapM_cons] at h
    cases ha : g a with
    | error f' =>
      rw [ha] at h
      cases h
      exact ⟨a, List.mem_cons_self, ha⟩
    | ok b =>
      cases hl : l.mapM g with
      | error f' =>
        rw [ha, hl] at h
        cases h
        obtain ⟨a', ha', hf⟩ := ih hl
        exact ⟨a', List.mem_cons_of_mem _ ha', hf⟩
      | ok bs =>
        rw [ha, hl] at h
        cases h

theorem exists_of_mapM {α β : Type} {g : α → Except Failure β} {l : List α} {bs : List β} {b : β}
    (h : l.mapM g = .ok bs) (hb : b ∈ bs) : ∃ a ∈ l, g a = .ok b := by
  have hall := forall₂_of_mapM h
  clear h
  induction hall with
  | nil => cases hb
  | cons hg _ ih =>
    rcases List.mem_cons.1 hb with rfl | hb
    · exact ⟨_, List.mem_cons_self, hg⟩
    · obtain ⟨a, ha, hg⟩ := ih hb
      exact ⟨a, List.mem_cons_of_mem _ ha, hg⟩

theorem mapM_eq_error {α β : Type} {g : α → Except Failure β} {bad : α → Bool} {l : List α} {a : α}
    (h : l.find? bad = some a) (hf : g a = .error f)
    (hok : ∀ a, bad a = false → ∃ b, g a = .ok b) : l.mapM g = .error f := by
  induction l with
  | nil => cases h
  | cons b l ih =>
    rw [List.mapM_cons]
    cases hb : bad b with
    | true =>
      rw [List.find?_cons, hb] at h
      cases h
      rw [hf]
      rfl
    | false =>
      rw [List.find?_cons, hb] at h
      obtain ⟨c, hc⟩ := hok b hb
      rw [hc, ih h]
      rfl

namespace Action

variable {α γ : Type} {σ : Session} {f : Failure}

theorem mapM_askOrFail_apply {g : γ → Store → Except Failure α} (l : List γ) :
    (l.mapM fun c => askOrFail (g c)) σ = ofExcept (l.mapM fun c => g c σ.store) σ := by
  induction l with
  | nil => rfl
  | cons c l ih =>
    rw [List.mapM_cons, List.mapM_cons]
    cases hc : g c σ.store with
    | error f => exact bind_of_error (askOrFail_of_error hc)
    | ok a =>
      rw [bind_of_ok (askOrFail_of_ok hc)]
      cases hl : l.mapM (fun c => g c σ.store) with
      | error f => exact bind_of_error (by rw [ih, hl, ofExcept_error])
      | ok as => exact bind_of_ok (by rw [ih, hl, ofExcept_ok])

end Action

/-! ## Planning -/

/-- The modules of a plan: those asked for, and all they require. -/
def Store.required (s : Store) (learner : LearnerId) (ids : List ModuleId) :
    Except Failure (List Module) := do
  if s.hasLearner learner then
    closure s (← ids.eraseDups.mapM s.getModule)
  else throw (.notFound .learner learner)

variable {e : Evaluator} {learner : LearnerId} {now : Instant} {ids : List ModuleId}
  {σ σ' : Session} {run : Run} {f : Failure} {m : Module} {met : Bool} {memo memo' : Memo}

def unknownNotices (all : List Module) : List Notice :=
  (Graph.unknownPrerequisites all).map unknownNotice

theorem requireLearner_apply :
    Evaluator.requireLearner learner σ =
      if σ.store.hasLearner learner then .ok () σ
      else .error (.notFound .learner learner) σ := by
  unfold Evaluator.requireLearner
  rw [Action.ask_bind]
  split <;> rfl

theorem plan_apply :
    e.plan now learner ids σ =
      match σ.store.required learner ids with
      | .ok all => .ok (runOf e learner now all) (σ.noteAll (unknownNotices all))
      | .error f => .error f σ := by
  unfold Evaluator.plan Store.required
  by_cases hl : σ.store.hasLearner learner = true
  · rw [Action.bind_of_ok (by rw [requireLearner_apply, if_pos hl]), if_pos hl]
    cases hms : ids.eraseDups.mapM σ.store.getModule with
    | error f =>
      exact Action.bind_of_error (by
        rw [Action.mapM_askOrFail_apply, hms, Action.ofExcept_error])
    | ok ms =>
      rw [Action.bind_of_ok (by rw [Action.mapM_askOrFail_apply, hms, Action.ofExcept_ok])]
      simp only [Bind.bind, Except.bind]
      cases hall : closure σ.store ms with
      | error f =>
        exact Action.bind_of_error (Action.askOrFail_of_error hall)
      | ok all =>
        exact Action.bind_of_ok (Action.askOrFail_of_ok hall)
  · rw [Action.bind_of_error (by rw [requireLearner_apply, if_neg hl]), if_neg hl]
    rfl

/-! ## One module -/

/-- The session once the issues of a module are reported. -/
def looked (run : Run) (m : Module) (met : Bool) (σ : Session) : Session :=
  σ.reportAll (issuesIn run σ.store m met)

theorem store_looked : (looked run m met σ).store = σ.store := Session.store_reportAll _

/-- The session once a progression is saved, whatever the store makes of it. -/
def Session.withSave (σ : Session) (s : Store) : Session :=
  { σ with store := s, saves := σ.saves + 1 }

theorem evaluateModule_apply {p : Progression} (hp : progressionIn run σ.store m met = p) :
    evaluateModule run m met memo σ =
      if (σ.store.loadProgression run.learner m.id).any p.same then
        .ok (memo.insert m.id p) ((looked run m met σ).note (evaluatedNotice p))
      else
        match σ.store.saveProgression run.learner m.id p with
        | .ok s =>
          .ok (memo.insert m.id p) (((looked run m met σ).withSave s).note (evaluatedNotice p))
        | .error f => .error f ((looked run m met σ).withSave σ.store) := by
  unfold evaluateModule
  rw [Action.ask_bind, Action.reportAll_bind]
  subst hp
  dsimp only [id]
  split
  · rfl
  · -- What is reported does not change the store that is saved to.
    have hstore : (σ.reportAll (issuesIn run σ.store m met)).store = σ.store := store_looked
    cases hs : σ.store.saveProgression run.learner m.id (progressionIn run σ.store m met) with
    | ok s => exact Action.bind_of_ok (Action.saveProgression_of_ok (by rw [hstore, hs]))
    | error f =>
      rw [Action.bind_of_error (Action.saveProgression_of_error (by rw [hstore, hs]))]
      exact congrArg (EStateM.Result.error f <| (looked run m met σ).withSave ·) hstore

end Pathway
