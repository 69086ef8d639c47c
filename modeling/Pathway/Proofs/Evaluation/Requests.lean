import Pathway.Proofs.Evaluation.Assessment
import Pathway.Proofs.Evaluation.Outcome

/-!
# What the requests answer

A request for one module and a request for several are answered from the memo of an evaluation, and
so with reference results. What is asked for besides a module does not touch its result.
-/

open Relation

namespace Pathway

open Evaluation

variable {e : Evaluator} {learner : LearnerId} {now : Instant} {ids : List ModuleId} {id : ModuleId}
  {σ σ' : Session} {memo : Memo}

/-! ## Answers from the memo -/

/-- The evaluation ended with this memo in this session, and found what it should. -/
structure Evaluated (e : Evaluator) (now : Instant) (learner : LearnerId) (ids : List ModuleId)
    (σ : Session) (memo : Memo) (σ' : Session) : Prop where
  ended : e.evaluateClosure now learner ids σ = .ok memo σ'
  known : σ.store.hasLearner learner = true
  found : Found σ.store learner now e.depthLimit {v | σ.store.InClosure ids v} memo σ'.store

theorem ends_evaluated (e : Evaluator) (now : Instant) (learner : LearnerId) (ids : List ModuleId)
    (σ : Session) :
    (e.evaluateClosure now learner ids).Ends σ (Evaluated e now learner ids σ)
      (Refusal σ.store learner now e.depthLimit ids) := by
  have h := ends_evaluateClosure e now learner ids σ
  unfold Action.Ends at *
  split at h
  · next hx => exact ⟨hx, h.1, h.2⟩
  · exact h

namespace Evaluated

theorem inClosure_of_mem (hid : id ∈ ids) : σ.store.InClosure ids id := ⟨id, hid, .refl⟩

theorem exists_result (h : Evaluated e now learner ids σ memo σ')
    (hid : σ.store.InClosure ids id) :
    ∃ p, reference σ.store learner now e.depthLimit id = some p ∧ memo[id]? = some p :=
  h.found.exists_result hid

theorem reference_of_memo (h : Evaluated e now learner ids σ memo σ') {p : Progression}
    (hp : memo[id]? = some p) :
    σ.store.InClosure ids id ∧ reference σ.store learner now e.depthLimit id = some p := by
  by_cases hin : σ.store.InClosure ids id
  · exact ⟨hin, (h.found.result id hin).symm.trans hp⟩
  · cases (h.found.nothing id hin).symm.trans hp

end Evaluated

def answers (memo : Memo) (ids : List ModuleId) : List (ModuleId × Progression) :=
  ids.filterMap fun id => memo[id]?.map (id, ·)

theorem map_fst_answers (h : ∀ id ∈ ids, ∃ p, memo[id]? = some p) :
    (answers memo ids).map Prod.fst = ids := by
  unfold answers
  induction ids with
  | nil => rfl
  | cons id ids ih =>
    obtain ⟨p, hp⟩ := h id List.mem_cons_self
    rw [List.filterMap_cons, hp, Option.map_some]
    exact congrArg (id :: ·) (ih fun i hi => h i (List.mem_cons_of_mem _ hi))

theorem mem_answers {p : Progression} :
    (id, p) ∈ answers memo ids ↔ id ∈ ids ∧ memo[id]? = some p := by
  simp only [answers, List.mem_filterMap, Option.map_eq_some_iff, Prod.mk.injEq]
  constructor
  · rintro ⟨i, hi, q, hq, rfl, rfl⟩
    exact ⟨hi, hq⟩
  · rintro ⟨hi, hp⟩
    exact ⟨id, hi, p, hp, rfl, rfl⟩

theorem answers_single {p : Progression} (hp : memo[id]? = some p) :
    answers memo [id].eraseDups = [(id, p)] := by
  have hdups : [id].eraseDups = [id] := rfl
  rw [hdups, answers, List.filterMap_cons, hp, Option.map_some, List.filterMap_nil]

theorem ends_evaluateAll (e : Evaluator) (now : Instant) (learner : LearnerId)
    (ids : List ModuleId) (σ : Session) :
    (e.evaluateAll now learner ids).Ends σ
      (fun results σ' => ∃ memo, Evaluated e now learner ids σ memo σ' ∧
        results = answers memo ids.eraseDups)
      (Refusal σ.store learner now e.depthLimit ids) := by
  unfold Evaluator.evaluateAll
  refine (ends_evaluated e now learner ids σ).bind fun memo σ' h => ?_
  exact Action.ends_pure ⟨memo, h, rfl⟩

theorem exists_error_of_refusal {f : Failure}
    (hf : Refusal σ.store learner now e.depthLimit ids f) :
    ∃ f σ', e.evaluateAll now learner ids σ = .error f σ' := by
  cases h : e.evaluateAll now learner ids σ with
  | ok results σ' =>
    obtain ⟨memo, hev, -⟩ := (ends_evaluateAll e now learner ids σ).of_ok h
    exact absurd hf (hev.found.not_refusal hev.known)
  | error f σ' => exact ⟨f, σ', rfl⟩

theorem ends_evaluate (e : Evaluator) (now : Instant) (learner : LearnerId) (id : ModuleId)
    (σ : Session) :
    (e.evaluate now learner id).Ends σ
      (fun p σ' => ∃ memo, Evaluated e now learner [id] σ memo σ' ∧ memo[id]? = some p)
      (Refusal σ.store learner now e.depthLimit [id]) := by
  unfold Evaluator.evaluate
  refine (ends_evaluateAll e now learner [id] σ).bind ?_
  rintro results σ' ⟨memo, h, rfl⟩
  obtain ⟨p, -, hp⟩ := h.exists_result (Evaluated.inClosure_of_mem List.mem_cons_self)
  rw [answers_single hp]
  exact Action.ends_pure ⟨memo, h, hp⟩

theorem key_of_evaluate {p : Progression} (h : e.evaluate now learner id σ = .ok p σ') :
    p.learner = learner ∧ p.module = id := by
  obtain ⟨memo, hev, hp⟩ := (ends_evaluate e now learner id σ).of_ok h
  obtain ⟨m, met, -, rfl, rfl⟩ := exists_assessment (hev.reference_of_memo hp).2
  exact ⟨Assessment.learner_progression, Assessment.module_progression⟩

theorem exists_results_of_memory (hb : σ.store.backing = .memory)
    (hl : σ.store.hasLearner learner = true)
    (hread : ∀ id, σ.store.InClosure ids id → ∃ m, σ.store.getModule id = .ok m) :
    ∃ results σ', e.evaluateAll now learner ids σ = .ok results σ' := by
  obtain ⟨results, σ', h, -⟩ := (ends_evaluateAll e now learner ids σ).exists_ok fun f =>
    not_refusal_of_memory hb hl hread
  exact ⟨results, σ', h⟩

/-! ## Results are reference results -/

/-- The evaluation ended with the reference result of every module of the closure in its memo, and
with what the store takes of these results in the store. -/
def EndsInReference (workers : Nat) (now : Instant) (learner : LearnerId) (ids : List ModuleId)
    (σ σ' : Session) : Prop :=
  ∃ memo, Evaluator.evaluateClosure ⟨workers, none⟩ now learner ids σ = .ok memo σ' ∧
    ∀ id, σ.store.InClosure ids id → ∃ p, reference σ.store learner now none id = some p ∧
      memo[id]? = some p ∧
      σ'.store.loadProgression learner id = σ.store.heldAfter learner id p

theorem Evaluated.endsInReference {workers : Nat}
    (h : Evaluated ⟨workers, none⟩ now learner ids σ memo σ') :
    EndsInReference workers now learner ids σ σ' := by
  refine ⟨memo, h.ended, fun id hid => ?_⟩
  obtain ⟨p, hp, hmemo⟩ := h.exists_result hid
  exact ⟨p, hp, hmemo, h.found.held id hid p hp⟩

/-- Without a limit on chains, a request gives the modules asked for their reference results. It
fails just when something is refused. -/
theorem requests_refine_reference (workers : Nat) (now : Instant) (learner : LearnerId)
    (σ : Session) :
    (∀ ids, (Evaluator.evaluateAll ⟨workers, none⟩ now learner ids).Ends σ
      (fun results σ' => results.map Prod.fst = ids.eraseDups ∧
        (∀ r ∈ results, reference σ.store learner now none r.1 = some r.2) ∧
        EndsInReference workers now learner ids σ σ' ∧
        ∀ f, ¬ Refusal σ.store learner now none ids f)
      (Refusal σ.store learner now none ids)) ∧
    ∀ id, (Evaluator.evaluate ⟨workers, none⟩ now learner id).Ends σ
      (fun p σ' => reference σ.store learner now none id = some p ∧
        EndsInReference workers now learner [id] σ σ' ∧
        ∀ f, ¬ Refusal σ.store learner now none [id] f)
      (Refusal σ.store learner now none [id]) := by
  constructor
  · intro ids
    refine (ends_evaluateAll _ now learner ids σ).imp ?_ fun _ hf => hf
    rintro results σ' ⟨memo, h, rfl⟩
    refine ⟨map_fst_answers fun id hid => ?_, fun r hr => ?_, h.endsInReference,
      fun _ => h.found.not_refusal h.known⟩
    · obtain ⟨p, -, hp⟩ := h.exists_result (Evaluated.inClosure_of_mem (List.mem_eraseDups.1 hid))
      exact ⟨p, hp⟩
    · exact (h.reference_of_memo (mem_answers.1 hr).2).2
  · intro id
    refine (ends_evaluate _ now learner id σ).imp ?_ fun _ hf => hf
    rintro p σ' ⟨memo, h, hp⟩
    exact ⟨(h.reference_of_memo hp).2, h.endsInReference, fun _ => h.found.not_refusal h.known⟩

/-! ## What else was asked for -/

theorem Store.InClosure.trans {s : Store} {ids' : List ModuleId} (h : s.InClosure ids id)
    (hids : ∀ a ∈ ids, s.InClosure ids' a) : s.InClosure ids' id := by
  obtain ⟨a, ha, hr⟩ := h
  obtain ⟨b, hb, hba⟩ := hids a ha
  exact ⟨b, hb, hba.trans hr⟩

theorem Store.InClosure.mono {s : Store} {a : ModuleId} (h : s.InClosure [a] id) (ha : a ∈ ids) :
    s.InClosure ids id :=
  h.trans fun b hb => ⟨b, List.mem_singleton.1 hb ▸ ha, .refl⟩

theorem Refusal.of_inClosure {s : Store} {limit : Option Nat} {ids' : List ModuleId} {f : Failure}
    (h : Refusal s learner now limit ids f) (hids : ∀ a ∈ ids, s.InClosure ids' a) :
    Refusal s learner now limit ids' f := by
  rcases h with hl | ⟨hin, hf⟩ | ⟨hin, hp, hne, hf⟩
  · exact .learner hl
  · exact .module (hin.trans hids) hf
  · exact .progression (hin.trans hids) hp hne hf

theorem Refusal.mono {s : Store} {limit : Option Nat} {a : ModuleId} {f : Failure}
    (h : Refusal s learner now limit [a] f) (ha : a ∈ ids) : Refusal s learner now limit ids f :=
  h.of_inClosure fun b hb => ⟨b, List.mem_singleton.1 hb ▸ ha, .refl⟩

theorem Closed.same_level {s : Store} {ids' : List ModuleId} {all all' : List Module}
    (hc : Closed s ids all) (hc' : Closed s ids' all') (h : s.InClosure ids id)
    (h' : s.InClosure ids' id) :
    (runOf e learner now all).graph.level id = (runOf e learner now all').graph.level id ∧
      ((runOf e learner now all).limit ≤ (runOf e learner now all).graph.level id ↔
        (runOf e learner now all').limit ≤ (runOf e learner now all').graph.level id) := by
  have hlevel : ∀ n, n ≤ (Graph.ofModules all).level id ↔ n ≤ (Graph.ofModules all').level id :=
    fun n => (hc.chain_iff h).symm.trans (hc'.chain_iff h')
  exact ⟨Nat.le_antisymm ((hlevel _).1 le_rfl) ((hlevel _).2 le_rfl),
    (hc.limit_le_iff h).trans (hc'.limit_le_iff h').symm⟩

/-- One module asked for alone, or among others in whatever order, gets the same result, and the
store then holds the same of it and of all that it requires. The generation of a module and the
verdict on its chain are the same too. -/
theorem result_independent_of_request (e : Evaluator) (now : Instant) (learner : LearnerId)
    (ids : List ModuleId) (σ : Session) :
    (e.evaluateAll now learner ids).Ends σ
      (fun results σ₁ => ∀ m ∈ ids, ∃ p σ₂, e.evaluate now learner m σ = .ok p σ₂ ∧
        (∀ q, (m, q) ∈ results ↔ q = p) ∧
        (∀ id, σ.store.InClosure [m] id →
          σ₁.store.loadProgression learner id = σ₂.store.loadProgression learner id) ∧
        ∃ run₁ run₂ σ₃ σ₄, e.plan now learner ids σ = .ok run₁ σ₃ ∧
          e.plan now learner [m] σ = .ok run₂ σ₄ ∧
          ∀ id, σ.store.InClosure [m] id → run₁.graph.level id = run₂.graph.level id ∧
            (run₁.limit ≤ run₁.graph.level id ↔ run₂.limit ≤ run₂.graph.level id))
      (Refusal σ.store learner now e.depthLimit ids) := by
  refine (ends_evaluateAll e now learner ids σ).imp ?_ fun _ hf => hf
  rintro results σ₁ ⟨memo, h, rfl⟩ m hm
  have hno : ∀ f, ¬ Refusal σ.store learner now e.depthLimit ids f :=
    fun _ => h.found.not_refusal h.known
  have hno' : ∀ f, ¬ Refusal σ.store learner now e.depthLimit [m] f :=
    fun f hf => hno f (hf.mono hm)
  obtain ⟨p, σ₂, hone, memo', h', hp⟩ :=
    (ends_evaluate e now learner m σ).exists_ok hno'
  have hp' := (h'.reference_of_memo hp).2
  refine ⟨p, σ₂, hone, fun q => ?_, fun id hid => ?_, ?_⟩
  · rw [mem_answers, List.mem_eraseDups, h.found.result m (Evaluated.inClosure_of_mem hm), hp',
      Option.some.injEq, eq_comm]
    exact and_iff_right hm
  · obtain ⟨q, hq, -⟩ := h'.exists_result hid
    rw [h.found.held id (hid.mono hm) q hq, h'.found.held id hid q hq]
  · obtain ⟨run₁, σ₃, hplan, -, ⟨all, hc, rfl⟩, -⟩ :=
      (ends_plan e now learner ids σ).exists_ok hno
    obtain ⟨run₂, σ₄, hplan', -, ⟨all', hc', rfl⟩, -⟩ :=
      (ends_plan e now learner [m] σ).exists_ok hno'
    exact ⟨_, _, σ₃, σ₄, hplan, hplan', fun id hid => hc.same_level hc' (hid.mono hm) hid⟩

end Pathway
