import Pathway.Proofs.Evaluation.Repetition
import Pathway.Proofs.Tandem

/-!
# Completions last

A module that is completed for a learner stays so, and keeps the moment, until it is found locked.
-/

namespace Pathway

open Evaluation

variable {s t : Store} {learner l : LearnerId} {id i : ModuleId} {p q : Progression}

/-! ## Completions -/

/-- Whether a progression is completed, with the moment if one is kept. -/
def Progression.completion? (p : Progression) : Option (Option Instant) :=
  if p.isCompleted then some p.completedAt else none

def Store.completion? (s : Store) (learner : LearnerId) (id : ModuleId) :
    Option (Option Instant) :=
  (s.loadProgression learner id).bind (·.completion?)

theorem Store.SameButFacts.completion? {s t : Store} (h : s.SameButFacts t) (learner : LearnerId)
    (id : ModuleId) : t.completion? learner id = s.completion? learner id := by
  unfold Store.completion?
  rw [h.loadProgression]

/-- Still a completion, and of the same moment if there was one. -/
def Lasts (before after : Option (Option Instant)) : Prop :=
  after.isSome = true ∧ ∀ t, before = some (some t) → after = some (some t)

theorem Progression.isSome_completion? (p : Progression) :
    p.completion?.isSome = p.isCompleted := by
  unfold completion?
  cases p.isCompleted <;> rfl

section Lasts

variable {a b c : Option (Option Instant)}

theorem Lasts.refl (h : a.isSome = true) : Lasts a a := ⟨h, fun _ h => h⟩

theorem Lasts.trans (hab : Lasts a b) (hbc : Lasts b c) : Lasts a c :=
  ⟨hbc.1, fun t h => hbc.2 t (hab.2 t h)⟩

end Lasts

/-! ## Assessments -/

namespace Assessment

variable {facts : Facts} {now : Instant} {m : Module} {met : Bool} {previous : Option Progression}

theorem completion?_unlocked (h : wasCompleted previous = true) :
    (unlocked facts learner m previous).completion? = some (completedAt facts m previous) := by
  have hstate : stateOf facts m previous = .completed := by
    rw [stateOf, h, Bool.or_true, if_pos rfl]
  rw [Progression.completion?, Progression.isCompleted, unlocked, hstate]
  rfl

/-- Only a module that is locked is set back. -/
theorem lasts_progression (hq : q.isCompleted = true)
    (hopen : (progression facts learner now m met (some q)).isLocked = false) :
    Lasts q.completion? (progression facts learner now m met (some q)).completion? := by
  have hwas : wasCompleted (some q) = true := hq
  unfold progression at hopen ⊢
  split at hopen
  · rw [if_pos ‹_›, completion?_unlocked hwas]
    refine ⟨rfl, fun t ht => ?_⟩
    rw [Progression.completion?, if_pos hq, Option.some_inj] at ht
    rw [completedAt_eq, keptMoment, Option.bind_some, if_pos hq, ht, Option.some_or]
  · cases hopen

theorem completion?_of_same
    (h : (progression facts learner now m met (some q)).same q = true) :
    q.completion? = (progression facts learner now m met (some q)).completion? := by
  have hlasts : q.isCompleted = true →
      (progression facts learner now m met (some q)).isLocked = false →
      Lasts q.completion? (progression facts learner now m met (some q)).completion? :=
    lasts_progression
  generalize progression facts learner now m met (some q) = p at h hlasts
  simp only [Progression.same, Bool.and_eq_true, beq_iff_eq] at h
  -- Being the same leaves the writing of the moment open, but a kept moment is kept as it was.
  have hstate : p.state = q.state := h.1.1.1.1.1.2
  have hmoment : sameOption Instant.same p.completedAt q.completedAt = true := h.1.2
  have hcompleted : q.isCompleted = p.isCompleted := by
    rw [Progression.isCompleted, Progression.isCompleted, hstate]
  cases hc : p.isCompleted with
  | false => simp [Progression.completion?, hcompleted, hc]
  | true =>
    have hq : q.completion? = some q.completedAt := by
      rw [Progression.completion?, hcompleted, hc, if_pos rfl]
    cases ht : q.completedAt with
    | some t =>
      rw [hq, ht]
      exact ((hlasts (hcompleted.trans hc) (not_isLocked_of_isCompleted hc)).2 t
        (by rw [hq, ht])).symm
    | none =>
      rw [hq, ht, Progression.completion?, hc, if_pos rfl]
      rw [ht] at hmoment
      cases hpt : p.completedAt with
      | none => rfl
      | some t =>
        rw [hpt] at hmoment
        cases hmoment

end Assessment

/-! ## One module -/

section Module

variable {run : Run} {m : Module} {met : Bool} {memo : Memo} {σ : Session}

theorem store_finish_saveProgression (learner : LearnerId) (id : ModuleId) (p : Progression)
    (σ : Session) :
    ((Action.saveProgression learner id p).finish σ).store = σ.store ∨
      σ.store.saveProgression learner id p =
        .ok ((Action.saveProgression learner id p).finish σ).store := by
  unfold Action.finish
  cases hs : σ.store.saveProgression learner id p with
  | ok s =>
    rw [Action.saveProgression_of_ok hs]
    exact Or.inr rfl
  | error f =>
    rw [Action.saveProgression_of_error hs]
    exact Or.inl rfl

theorem store_finish_evaluateModule (run : Run) (m : Module) (met : Bool) (memo : Memo)
    (σ : Session) :
    ((evaluateModule run m met memo).finish σ).store = σ.store ∨
      σ.store.saveProgression run.learner m.id (progressionIn run σ.store m met) =
        .ok ((evaluateModule run m met memo).finish σ).store := by
  unfold Action.finish
  rw [evaluateModule_apply rfl]
  split_ifs
  · exact Or.inl store_looked
  · cases hs : σ.store.saveProgression run.learner m.id (progressionIn run σ.store m met) with
    | ok s => exact Or.inr rfl
    | error f => exact Or.inl rfl

theorem Store.completion?_putProgression :
    (s.putProgression learner id p).completion? l i =
      if learner = l ∧ id = i then p.completion? else s.completion? l i := by
  have hkept : (s.keepProgression learner id p).completion? = p.completion? := by
    unfold Store.keepProgression
    split <;> rfl
  unfold Store.completion?
  rw [Store.loadProgression_putProgression]
  split
  · exact hkept
  · rfl

theorem Store.lasts_progressionIn (h : (σ.store.completion? run.learner m.id).isSome = true)
    (hopen : (progressionIn run σ.store m met).isLocked = false) :
    Lasts (σ.store.completion? run.learner m.id) (progressionIn run σ.store m met).completion? := by
  unfold Store.completion? progressionIn at *
  cases hq : σ.store.loadProgression run.learner m.id with
  | none =>
    rw [hq] at h
    cases h
  | some q =>
    rw [hq] at h hopen
    exact Assessment.lasts_progression (q.isSome_completion?.symm.trans h) hopen

theorem lasts_evaluateModule (h : (σ.store.completion? l id).isSome = true)
    (hopen : run.learner = l → m.id = id → (progressionIn run σ.store m met).isLocked = false) :
    Lasts (σ.store.completion? l id)
      (((evaluateModule run m met memo).finish σ).store.completion? l id) := by
  rcases store_finish_evaluateModule run m met memo σ with hs | hs
  · rw [hs]
    exact .refl h
  · rw [← (Store.saveProgression_eq_ok.1 hs).2, Store.completion?_putProgression]
    split
    · next heq =>
      obtain ⟨rfl, rfl⟩ := heq
      exact Store.lasts_progressionIn h (hopen rfl rfl)
    · exact .refl h

end Module

/-! ## Requests -/

section Requests

variable {e : Evaluator} {now : Instant} {ids : List ModuleId} {σ σ' : Session} {memo : Memo}

theorem Evaluated.completion? (h : Evaluated e now learner ids σ memo σ')
    (hp : memo[id]? = some p) :
    σ'.store.completion? learner id = p.completion? := by
  obtain ⟨hin, href⟩ := h.reference_of_memo hp
  obtain ⟨m, met, -, -, hassessed⟩ := exists_assessment href
  have hheld := h.found.held id hin p href
  unfold Store.completion?
  rw [hheld, Store.heldAfter]
  split
  · next hsame =>
    obtain ⟨q, hq, hsame⟩ := (Option.any_eq_true _ _).1 hsame
    rw [hq] at hassessed ⊢
    subst hassessed
    exact Assessment.completion?_of_same hsame
  · unfold Store.keepProgression
    split <;> rfl

theorem completion?_of_evaluateAll {results : List (ModuleId × Progression)}
    (h : e.evaluateAll now learner ids σ = .ok results σ') (hp : (id, p) ∈ results) :
    σ'.store.completion? learner id = p.completion? := by
  obtain ⟨memo, hev, rfl⟩ := (ends_evaluateAll e now learner ids σ).of_ok h
  exact hev.completion? (mem_answers.1 hp).2

theorem completion?_of_evaluateEvery {results : List (ModuleId × Progression)}
    (h : e.evaluateEvery now learner σ = .ok results σ') (hp : (id, p) ∈ results) :
    σ'.store.completion? learner id = p.completion? := by
  rw [evaluateEvery_apply ((ends_evaluateEvery e now learner σ).of_ok h)] at h
  exact completion?_of_evaluateAll h hp

theorem completion?_of_evaluate (h : e.evaluate now learner id σ = .ok p σ') :
    σ'.store.completion? learner id = p.completion? := by
  obtain ⟨memo, hev, hp⟩ := (ends_evaluate e now learner id σ).of_ok h
  exact hev.completion? hp

theorem completion?_of_other_learner (h : e.evaluate now learner id σ = .ok p σ')
    (hl : l ≠ learner) :
    σ'.store.completion? l i = σ.store.completion? l i := by
  obtain ⟨memo, hev, -⟩ := (ends_evaluate e now learner id σ).of_ok h
  unfold Store.completion?
  rw [hev.found.untouched l i (Or.inl hl)]

/-- The evaluation of a module for one learner after the other. The last one for a learner counts,
and those for others do not touch what is stored of it. -/
theorem completion?_of_mapM {learners : List LearnerId} {results : List (LearnerId × Progression)}
    (h : (learners.mapM fun l => do return (l, ← e.evaluate now l id)) σ = .ok results σ') :
    results.map (·.1) = learners ∧
      (∀ r, results.reverse.find? (·.1 == l) = some r →
        σ'.store.completion? l id = r.2.completion?) ∧
      (l ∉ learners → σ'.store.completion? l id = σ.store.completion? l id) := by
  induction learners generalizing σ results with
  | nil =>
    rw [List.mapM_nil] at h
    cases h
    exact ⟨rfl, by simp, fun _ => rfl⟩
  | cons l₀ ls ih =>
    rw [List.mapM_cons] at h
    obtain ⟨r₀, σ₁, hfirst, h⟩ := Action.bind_eq_ok.1 h
    obtain ⟨p₀, heval, rfl⟩ := Action.bind_pure_eq_ok.1 hfirst
    obtain ⟨rest, hrest, rfl⟩ := Action.bind_pure_eq_ok.1 h
    obtain ⟨hkeys, hfound, hkept⟩ := ih hrest
    refine ⟨by rw [List.map_cons, hkeys], fun r hr => ?_, fun hl => ?_⟩
    · rw [List.reverse_cons, List.find?_append, Option.or_eq_some_iff] at hr
      rcases hr with hr | ⟨hnone, hr⟩
      · exact hfound r hr
      · -- The learner is not among the rest, so what was stored first is still there.
        have hl : l ∉ ls := by
          rw [← hkeys, List.mem_map]
          rintro ⟨x, hx, rfl⟩
          simpa using List.find?_eq_none.1 hnone x (List.mem_reverse.2 hx)
        simp only [List.find?_singleton, Option.ite_none_right_eq_some, beq_iff_eq,
          Option.some_inj] at hr
        obtain ⟨rfl, rfl⟩ := hr
        rw [hkept hl, completion?_of_evaluate heval]
    · rw [List.mem_cons, not_or] at hl
      rw [hkept hl.2, completion?_of_other_learner heval hl.1]

theorem completion?_of_evaluateLearners {learners : List LearnerId}
    {results : List (LearnerId × Progression)}
    (h : e.evaluateLearners now id learners σ = .ok results σ') (hp : (l, p) ∈ results) :
    σ'.store.completion? l id = p.completion? := by
  obtain ⟨all, hall, rfl⟩ := Action.bind_pure_eq_ok.1 h
  obtain ⟨l', -, hfind⟩ := List.mem_filterMap.1 hp
  have hl : l = l' := by simpa using List.find?_some hfind
  subst hl
  exact (completion?_of_mapM hall).2.1 (l, p) hfind

end Requests

end Pathway
