import Pathway.Proofs.Calls.Invariants
import Pathway.Proofs.Evaluation.Trail

/-!
# Histories

A history tells the steps of a request for evaluations one after the other, with the progressions
that are found, and a trace does so for a run of requests.
-/

namespace Pathway

open Evaluation

variable {σ₀ σ τ : Session} {ps qs : List Progression} {r : Request} {rs : List Request}

def Progression.IsOf (p : Progression) (learner : LearnerId) (id : ModuleId) : Prop :=
  p.learner = learner ∧ p.module = id

theorem isOf_progressionIn (run : Run) (s : Store) (m : Module) (met : Bool) :
    (progressionIn run s m met).IsOf run.learner m.id :=
  ⟨Assessment.learner_progression, Assessment.module_progression⟩

/-- From the one session to the other, with these findings on the way. -/
inductive History (σ : Session) : List Progression → Session → Prop
  | start : History σ [] σ
  | noted {ps : List Progression} {τ : Session} (n : Notice) :
      History σ ps τ → History σ ps (τ.note n)
  | reported {ps : List Progression} {τ : Session} (i : Issue) :
      History σ ps τ → History σ ps (τ.report i)
  /-- A module is assessed, also if its progression cannot be saved. -/
  | assessed {ps : List Progression} {τ : Session} (run : Run) (m : Module) (met : Bool)
      (memo : Memo) : History σ ps τ →
      History σ (ps ++ [progressionIn run τ.store m met]) ((evaluateModule run m met memo).finish τ)
  /-- A flag is set in the progression that an evaluation has just given. -/
  | folded {ps : List Progression} {τ τ₀ : Session} {e : Evaluator} {now : Instant}
      {learner : LearnerId} {id : ModuleId} {p : Progression} (collapsed : Bool) :
      History σ ps τ → e.evaluate now learner id τ₀ = .ok p τ →
      History σ ps ((Action.saveProgression learner id { p with collapsed }).finish τ)

/-- A run of requests with all that is found on the way. Requests that do not evaluate find
nothing. -/
inductive Trace : Session → List Request → List Progression → Prop
  | nil {σ : Session} : Trace σ [] []
  | evaluating {σ : Session} {r : Request} {rs : List Request} {ps qs : List Progression} :
      r.call.Evaluates → History σ ps (σ.next r) → Trace (σ.next r) rs qs →
      Trace σ (r :: rs) (ps ++ qs)
  | other {σ : Session} {r : Request} {rs : List Request} {qs : List Progression} :
      ¬ r.call.Evaluates → Trace (σ.next r) rs qs → Trace σ (r :: rs) qs

/-! ## There is one -/

theorem kept_history (σ₀ : Session) :
    Kept Set.univ (fun σ => ∃ ps, History σ₀ ps σ) fun _ => True where
  good _ _ := trivial
  note h n := h.imp fun _ hps => hps.noted n
  report h i := h.imp fun _ hps => hps.reported i
  assess _ h _ := by
    obtain ⟨ps, hps⟩ := h
    exact ⟨_, hps.assessed _ _ _ _⟩
  save _ h heval := by
    obtain ⟨ps, hps⟩ := h
    obtain ⟨e, now, σ₁, heval⟩ := heval
    exact ⟨ps, hps.folded _ heval⟩

theorem exists_history (hr : r.call.Evaluates) (σ : Session) : ∃ ps, History σ ps (σ.next r) :=
  (kept_history σ).next hr ⟨[], .start⟩

theorem exists_trace (σ : Session) (rs : List Request) : ∃ ps, Trace σ rs ps := by
  induction rs generalizing σ with
  | nil => exact ⟨[], .nil⟩
  | cons r rs ih =>
    obtain ⟨qs, hqs⟩ := ih (σ.next r)
    by_cases hr : r.call.Evaluates
    · obtain ⟨ps, hps⟩ := exists_history hr σ
      exact ⟨ps ++ qs, .evaluating hr hps hqs⟩
    · exact ⟨qs, .other hr hqs⟩

/-! ## The history of an evaluation that ends well

Its findings are those of its own trail: each module of the closure is assessed, once. -/

section Evaluation

variable {run : Run} {memo memo' : Memo} {circles : List (List ModuleId)}
  {found : List (Module × Progression)} {e : Evaluator} {now : Instant} {learner : LearnerId}
  {ids : List ModuleId}

theorem History.notedAll (h : History σ₀ ps σ) (ns : List Notice) :
    History σ₀ ps (σ.noteAll ns) := by
  induction ns generalizing σ with
  | nil => exact h
  | cons n ns ih => exact ih (h.noted n)

theorem History.trail (h : History σ₀ ps σ) (ht : run.Trail σ memo circles found τ memo') :
    History σ₀ (ps ++ found.map Prod.snd) τ := by
  induction ht generalizing ps with
  | done => rwa [List.map_nil, List.append_nil]
  | circle _ ih => exact ih (h.reported _)
  | tooDeep _ ih => exact ih (h.noted _)
  | @assess σ τ υ memo _ _ m met _ _ hm _ ih =>
    have hfinish : (evaluateModule run m met memo).finish σ = τ := by
      rw [Action.finish, hm]
    rw [List.map_cons, List.append_cons]
    exact ih (hfinish ▸ h.assessed run m met memo)

theorem Evaluation.Run.Trail.isOf (ht : run.Trail σ memo circles found τ memo') :
    ∀ x ∈ found, x.2.IsOf run.learner x.1.id := by
  induction ht with
  | done => exact List.forall_mem_nil _
  | circle _ ih => exact ih
  | tooDeep _ ih => exact ih
  | assess _ _ ih => exact List.forall_mem_cons.2 ⟨isOf_progressionIn .., ih⟩

theorem history_of_evaluateClosure (h : e.evaluateClosure now learner ids σ = .ok memo τ) :
    ∃ (all : List Module) (found : List (Module × Progression)),
      σ.store.required learner ids = .ok all ∧ (found.map Prod.fst).Perm all ∧
      (∀ x ∈ found, x.2.IsOf learner x.1.id) ∧ History σ (found.map Prod.snd) τ := by
  obtain ⟨all, found, hall, hperm, htrail⟩ := trail_evaluateClosure h
  exact ⟨all, found, hall, hperm, htrail.isOf, (History.start.notedAll _).trail htrail⟩

end Evaluation

/-! ## Traces in two parts -/

theorem Trace.of_append {rs' : List Request} (h : Trace σ (rs ++ rs') ps) :
    ∃ qs qs', ps = qs ++ qs' ∧ Trace σ rs qs ∧ Trace (σ.after rs) rs' qs' := by
  induction rs generalizing σ ps with
  | nil => exact ⟨[], ps, rfl, .nil, h⟩
  | cons r rs ih =>
    cases h with
    | evaluating hr hps hrest =>
      obtain ⟨qs, qs', rfl, hqs, hqs'⟩ := ih hrest
      exact ⟨_, qs', (List.append_assoc ..).symm, .evaluating hr hps hqs, hqs'⟩
    | other hr hrest =>
      obtain ⟨qs, qs', rfl, hqs, hqs'⟩ := ih hrest
      exact ⟨qs, qs', rfl, .other hr hqs, hqs'⟩

end Pathway
