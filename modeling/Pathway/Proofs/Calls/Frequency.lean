import Pathway.Proofs.Calls.Invariants
import Pathway.Proofs.Evaluation.Earned
import Pathway.Proofs.Evaluation.Monotone

/-!
# How often one evaluates

While no fact of a learner is set back, it does not matter when, how often and for which modules
progressions are evaluated in between. A completion that such an evaluation stores is one that the
facts earn, then and from then on.
-/

namespace Pathway

open Evaluation

variable {s t : Store} {learner : LearnerId} {item : ItemId} {kind : RequirementKind}
  {score : Option Store.Score} {satisfiedAt : Instant} {σ τ : Session} {r : Request}
  {rs : List Request}

/-- A fact of the learner is recorded. -/
def Call.records (learner : LearnerId) : Call → Bool
  | record l .. | recordScore l .. => l == learner
  | _ => false

def recordings (learner : LearnerId) (rs : List Request) : List Request :=
  rs.filter fun r => r.call.records learner

/-- Each request of the run evaluates something, or records a fact of the learner and sets none
back. -/
inductive Improving (learner : LearnerId) : Session → List Request → Prop
  | nil {σ : Session} : Improving learner σ []
  | evaluating {σ : Session} {r : Request} {rs : List Request} : r.call.Evaluates →
      Improving learner (σ.next r) rs → Improving learner σ (r :: rs)
  | recording {σ : Session} {r : Request} {rs : List Request} : r.call.records learner = true →
      Assessment.Improved (σ.store.itemFacts learner) ((σ.next r).store.itemFacts learner) →
      Improving learner (σ.next r) rs → Improving learner σ (r :: rs)

theorem records_of_evaluates (h : r.call.Evaluates) : r.call.records learner = false := by
  obtain ⟨e, now, c⟩ := r
  cases c <;> first | rfl | exact h.elim

/-! ## Requests that evaluate -/

theorem Store.isSome_completion? {id : ModuleId} :
    (s.completion? learner id).isSome =
      Assessment.wasCompleted (s.loadProgression learner id) := by
  unfold Store.completion?
  cases s.loadProgression learner id with
  | none => rfl
  | some p => exact p.isSome_completion?

theorem kept_earned (learner : LearnerId) (t : Store) :
    Kept Set.univ (fun σ => σ.store.Earned learner t) fun m => t.getModule m.id = .ok m where
  good h hm := by
    obtain rfl := Store.id_of_getModule hm
    exact (h.getModule _).trans hm
  note h _ := h
  report h i := by
    rw [Session.store_report]
    exact h
  assess {σ run m met memo} _ h hm := by
    rcases store_finish_evaluateModule run m met memo σ with hs | hs
    · rw [hs]
      exact h
    · refine h.save hs fun hl m' hm' hid => ?_
      have hread := (h.getModule m.id).symm.trans hm
      rw [hid, hread] at hm'
      cases hm'
      subst hl
      exact Assessment.earned_progression (h.earned m hread)
  save {σ l id p b} _ h heval := by
    rcases store_finish_saveProgression l id { p with collapsed := b } σ with hs | hs
    · rw [hs]
      exact h
    · -- The flag is set in what was just stored, so the completion is one that is earned.
      obtain ⟨e, now, σ₀, heval⟩ := heval
      refine h.save hs fun hl m hm hid hwas => h.earned m hm ?_
      subst hl hid
      rw [← Store.isSome_completion?, completion?_of_evaluate heval, p.isSome_completion?]
      exact hwas

/-! ## Recordings -/

theorem finish_record :
    (∀ σ : Session,
      ((Action.updateOrFail (·.record learner item kind score satisfiedAt)).finish σ).store =
        σ.store) ∨
      ∃ l i k kept at', ∀ σ : Session,
        ((Action.updateOrFail (·.record learner item kind score satisfiedAt)).finish σ).store =
          σ.store.putFact l i k kept at' := by
  simp only [Action.store_finish_updateOrFail, Store.record_eq]
  cases score.mapM Store.Score.read with
  | error f => exact Or.inl fun _ => rfl
  | ok x => exact Or.inr ⟨learner, item, kind, x, satisfiedAt, fun _ => rfl⟩

theorem next_record {e : Evaluator} {now : Instant} {name : String} {satisfiedAt : Option Instant}
    (hk : Store.kindNamed name = .ok kind) :
    σ.next ⟨e, now, .record learner item name score satisfiedAt⟩ =
      (Action.updateOrFail (·.record learner item kind score (satisfiedAt.getD now))).finish σ := by
  rw [Session.next_eq_finish, Call.perform, hk,
    Action.finish_bind_of_ok (Action.ofExcept_ok kind), Action.finish_bind fun _ _ => rfl]

theorem next_recordScore {e : Evaluator} {now : Instant} {score : Store.Score}
    {satisfiedAt : Option Instant} :
    σ.next ⟨e, now, .recordScore learner item score satisfiedAt⟩ =
      (Action.updateOrFail
        (·.record learner item .minScore (some score) (satisfiedAt.getD now))).finish σ := by
  rw [Session.next_eq_finish, Call.perform, Action.finish_bind fun _ _ => rfl]

/-- What is recorded, if anything is, does not depend on the store. -/
theorem next_of_records (hr : r.call.records learner = true) :
    (∀ σ : Session, (σ.next r).store = σ.store) ∨
      ∃ l item kind kept satisfiedAt, ∀ σ : Session,
        (σ.next r).store = σ.store.putFact l item kind kept satisfiedAt := by
  obtain ⟨e, now, c⟩ := r
  cases c with
  | record l item name score satisfiedAt =>
    cases hk : Store.kindNamed name with
    | error f =>
      refine Or.inl fun σ => ?_
      rw [Session.next_eq_finish, Call.perform, hk]
      rfl
    | ok kind =>
      have hnext : ∀ σ : Session, σ.next ⟨e, now, .record l item name score satisfiedAt⟩ = _ :=
        fun _ => next_record hk
      simp only [hnext]
      exact finish_record
  | recordScore l item score satisfiedAt =>
    simp only [next_recordScore]
    exact finish_record
  | _ => cases hr

theorem Store.Earned.recording (h : σ.store.Earned learner τ.store)
    (hr : r.call.records learner = true)
    (himp : Assessment.Improved (σ.store.itemFacts learner) ((σ.next r).store.itemFacts learner)) :
    (σ.next r).store.Earned learner (τ.next r).store := by
  rcases next_of_records hr with hstays | ⟨l, item, kind, score, satisfiedAt, hput⟩
  · rw [hstays, hstays]
    exact h
  · rw [hput] at himp ⊢
    rw [hput]
    exact h.improved (σ.store.sameButFacts_putFact ..) (τ.store.sameButFacts_putFact ..)
      (h.toSameBase.putFact ..) himp

/-! ## Runs -/

theorem Improving.earned (hrun : Improving learner σ rs) (h : σ.store.Earned learner τ.store) :
    (σ.after rs).store.Earned learner (τ.after (recordings learner rs)).store := by
  induction hrun generalizing τ with
  | nil => exact h
  | @evaluating σ r rs hr _ ih =>
    have hrs : recordings learner (r :: rs) = recordings learner rs :=
      List.filter_cons_of_neg (by simp [records_of_evaluates hr])
    rw [hrs]
    exact ih ((kept_earned learner τ.store).next hr h)
  | @recording σ r rs hr himp _ ih =>
    have hrs : recordings learner (r :: rs) = r :: recordings learner rs :=
      List.filter_cons_of_pos hr
    rw [hrs]
    exact ih (h.recording hr himp)

/-- A learner starts with no progressions, and no fact is set back. What is evaluated at the end has
the standings that it has after the recordings alone: the same state, requirements met and not met,
and position for every module. It fails just when it fails there. -/
theorem standings_independent_of_evaluations (learner : LearnerId) (σ : Session)
    (rs : List Request) (hblank : ∀ id, σ.store.loadProgression learner id = none)
    (hrun : Improving learner σ rs) (e : Evaluator) (now : Instant) :
    (∀ ids, SameStandings (e.evaluateAll now learner ids) (σ.after rs)
      (σ.after (recordings learner rs))) ∧
    SameStandings (e.evaluateEvery now learner) (σ.after rs)
      (σ.after (recordings learner rs)) := by
  have h := hrun.earned (.start hblank)
  exact ⟨sameStandings_evaluateAll h, sameStandings_evaluateEvery h⟩

namespace Sample

def start : Session := .ofStore store

theorem blank_start (id : ModuleId) : start.store.loadProgression "ada" id = none := by
  simp [start, Session.ofStore, store]

def passesQuiz : Request :=
  ⟨⟨1, none⟩, ⟨0, 0⟩, .recordScore "ada" "syllabus-quiz" (.real (.ofNat 80)) none⟩

def evaluatesModule : Request := ⟨⟨1, none⟩, ⟨1, 0⟩, .evaluate "ada" "orientation"⟩

def readsPage : Request :=
  ⟨⟨1, none⟩, ⟨2, 0⟩, .record "ada" "welcome-page" RequirementKind.view.name none none⟩

/-- The module is evaluated when half of it is done. -/
def studying : List Request := [passesQuiz, evaluatesModule, readsPage]

theorem improving_studying : Improving "ada" start studying := by
  have hrecord : start.store.record "ada" "syllabus-quiz" .minScore (some (.real (.ofNat 80)))
      ⟨0, 0⟩ = .ok (start.next passesQuiz).store := rfl
  have hquiz : start.store.Improves "ada" (start.next passesQuiz).store :=
    Store.improves_record hrecord rfl
  have hpage : ∀ σ : Session, σ.store.itemFacts "ada" "welcome-page" .view = none →
      σ.store.Improves "ada" (σ.next readsPage).store := by
    intro σ hnew
    have hrecord : σ.store.record "ada" "welcome-page" .view none ⟨2, 0⟩ =
        .ok (σ.store.putFact "ada" "welcome-page" .view none ⟨2, 0⟩) := Store.record_eq ..
    have hnext : (σ.next readsPage).store =
        σ.store.putFact "ada" "welcome-page" .view none ⟨2, 0⟩ := by
      rw [readsPage, next_record rfl, Action.store_finish_updateOrFail, Option.getD_none, hrecord]
    rw [hnext]
    exact Store.improves_record hrecord hnew
  have hkept := (kept_earned "ada" (start.next passesQuiz).store).next (r := evaluatesModule)
    trivial ((Store.Earned.start blank_start).recording rfl hquiz.facts)
  refine .recording rfl hquiz.facts (.evaluating trivial (.recording rfl (hpage _ ?_).facts .nil))
  rw [← hkept.itemFacts]
  rfl

end Sample

theorem sample_standings_independent_of_evaluations :
    ∃ results σ results' τ,
      Evaluator.evaluateEvery ⟨1, none⟩ ⟨Instant.microsPerDay, 0⟩ "ada"
        (Sample.start.after Sample.studying) = .ok results σ ∧
      Evaluator.evaluateEvery ⟨1, none⟩ ⟨Instant.microsPerDay, 0⟩ "ada"
        (Sample.start.after [Sample.passesQuiz, Sample.readsPage]) = .ok results' τ ∧
      standings results' = standings results := by
  have h := (standings_independent_of_evaluations "ada" Sample.start Sample.studying
    Sample.blank_start Sample.improving_studying ⟨1, none⟩ ⟨Instant.microsPerDay, 0⟩).2
  have hrecordings : recordings "ada" Sample.studying = [Sample.passesQuiz, Sample.readsPage] := rfl
  rw [hrecordings] at h
  have hrest : Sample.store.SameButFacts
      (Sample.start.after [Sample.passesQuiz, Sample.readsPage]).store := ⟨rfl⟩
  obtain ⟨_, _, hanswered, -⟩ := (ends_evaluateEvery ⟨1, none⟩ ⟨Instant.microsPerDay, 0⟩ "ada"
    (Sample.start.after [Sample.passesQuiz, Sample.readsPage])).exists_ok fun f => by
      refine not_refusal_of_memory hrest.backing (hrest.hasLearner "ada") fun id hin => ?_
      rw [hrest.sameModules.inClosure, hrest.moduleIds] at hin
      simp only [hrest.getModule]
      exact Store.exists_module_of_inClosure (fun _ => Sample.exists_module_store)
        (fun _ => Store.mem_moduleIds.1) hin
  obtain ⟨results, σ, hresults, results', τ, hresults', hsame⟩ :=
    Action.Ends.exists_ok h fun f hf => by
      obtain ⟨g, τ, hfails⟩ := hf
      cases hanswered.symm.trans hfails
  exact ⟨results, σ, results', τ, hresults, hresults', hsame⟩

end Pathway
