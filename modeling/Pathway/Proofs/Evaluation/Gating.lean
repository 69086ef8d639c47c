import Pathway.Proofs.Evaluation.Requests

/-!
# Gating

A module is open only if all it requires, however far behind, is completed and open too. So one
circle, one module that opens later or one unfinished module locks everything that leads to it.
-/

open Relation

namespace Pathway

open Evaluation

variable {e : Evaluator} {learner : LearnerId} {now : Instant} {limit : Option Nat}
  {ids : List ModuleId} {s : Store} {a b id : ModuleId} {p : Progression} {σ σ' : Session}
  {memo : Memo}

/-- The module is on no circle, and the moment from which it opens has come. -/
def Store.Accessible (s : Store) (now : Instant) (id : ModuleId) : Prop :=
  ¬ OnCircle s.Requires id ∧ ∀ m, s.getModule id = .ok m → m.toBeUnlocked now = false

/-! ## One prerequisite, and a chain of them -/

theorem accessible_of_not_isLocked (h : reference s learner now limit a = some p)
    (hl : p.isLocked = false) : s.Accessible now a := by
  cases hm : s.getModule a with
  | error f => cases (reference_of_error hm).symm.trans h
  | ok m =>
    obtain rfl := Store.id_of_getModule hm
    obtain ⟨⟨hb, -⟩, hopen⟩ := reachable_of_not_isLocked hm h hl
    refine ⟨fun hc => hb (Or.inl hc), fun n hn => ?_⟩
    cases hm.symm.trans hn
    exact hopen

theorem completed_of_requires (h : reference s learner now limit a = some p)
    (hl : p.isLocked = false) (hr : s.Requires a b) :
    ∃ q, reference s learner now limit b = some q ∧ q.isCompleted = true := by
  obtain ⟨⟨m, hm, hb⟩, hk⟩ := hr
  obtain rfl := Store.id_of_getModule hm
  obtain ⟨⟨-, hall⟩, -⟩ := reachable_of_not_isLocked hm h hl
  exact (Option.any_eq_true _ _).1 (hall b hb hk)

theorem completed_of_transGen (h : reference s learner now limit a = some p)
    (hl : p.isLocked = false) (hr : TransGen s.Requires a b) :
    ∃ q, reference s learner now limit b = some q ∧ q.isCompleted = true := by
  induction hr with
  | single hab => exact completed_of_requires h hl hab
  | tail _ hbc ih =>
    obtain ⟨q, hq, hcompl⟩ := ih
    exact completed_of_requires hq (not_isLocked_of_isCompleted hcompl) hbc

/-! ## Something to work on -/

/-- Where nothing is closed, what stands in the way of an unfinished module leads back to one that
the learner can work on. -/
theorem exists_underway (hread : ∀ c, ReflTransGen s.Requires a c → ∃ m, s.getModule c = .ok m)
    (hopen : ∀ c, ReflTransGen s.Requires a c → s.Accessible now c)
    (hp : reference s learner now none a = some p) (hc : p.isCompleted = false) :
    ∃ b q, ReflTransGen s.Requires a b ∧ reference s learner now none b = some q ∧
      q.isLocked = false ∧ q.isCompleted = false := by
  induction a using s.prerequisite_induction none generalizing p with
  | step a ih =>
    cases hl : p.isLocked with
    | false => exact ⟨a, p, .refl, hp, hl, hc⟩
    | true =>
      obtain ⟨m, hm⟩ := hread a .refl
      obtain rfl := Store.id_of_getModule hm
      obtain ⟨hcircle, hdate⟩ := hopen m.id .refl
      have hnb : ¬ s.Barred none m.id := by
        rintro (hcirc | ⟨n, hn, -⟩)
        · exact hcircle hcirc
        · cases hn
      have hnot : ¬ Reachable s learner now none m := by
        intro hr
        have := not_isLocked_of_reachable hm hp hr (hdate m hm)
        rw [hl] at this
        cases this
      -- So one of the prerequisites is unfinished.
      obtain ⟨u, hu, hk, hnc⟩ : ∃ u ∈ m.prerequisites, s.hasModule u = true ∧
          ¬ (reference s learner now none u).any (·.isCompleted) = true := by
        by_contra hall
        push Not at hall
        exact hnot ⟨hnb, hall⟩
      have hreq : s.Requires m.id u := ⟨⟨m, hm, hu⟩, hk⟩
      obtain ⟨x, hx⟩ := hread u (.single hreq)
      obtain rfl := Store.id_of_getModule hx
      obtain ⟨q, hq⟩ := exists_reference learner now none hx
      have hqc : q.isCompleted = false := by
        rw [hq, Option.any_some, Bool.not_eq_true] at hnc
        exact hnc
      obtain ⟨b, r, hb, hrest⟩ := ih hnb x.id hreq (fun c hc => hread c (.head hreq hc))
        (fun c hc => hopen c (.head hreq hc)) hq hqc
      exact ⟨b, r, .head hreq hb, hrest⟩

/-! ## The results of one call -/

/-- What the results of one call say of each other. -/
structure Gated (s : Store) (now : Instant) (ids : List ModuleId) (memo : Memo) : Prop where
  computed : ∀ id, s.InClosure ids id → ∃ p, memo[id]? = some p
  accessible : ∀ id p, memo[id]? = some p → p.isLocked = false → s.Accessible now id
  completed : ∀ id p, memo[id]? = some p → p.isLocked = false → ∀ b, TransGen s.Requires id b →
    s.Accessible now b ∧ ∃ q, memo[b]? = some q ∧ q.isCompleted = true
  /-- A module from which something closed or something unfinished can be reached is locked. -/
  locked : ∀ id p, memo[id]? = some p → ∀ b, ReflTransGen s.Requires id b →
    (¬ s.Accessible now b ∨
      (TransGen s.Requires id b ∧ ∀ q, memo[b]? = some q → q.isCompleted = false)) →
    p.isLocked = true

theorem Evaluated.gated (h : Evaluated e now learner ids σ memo σ') :
    Gated σ.store now ids memo := by
  have accessible : ∀ id p, memo[id]? = some p → p.isLocked = false → σ.store.Accessible now id :=
    fun id p hp hl => accessible_of_not_isLocked (h.reference_of_memo hp).2 hl
  have completed : ∀ id p, memo[id]? = some p → p.isLocked = false →
      ∀ b, TransGen σ.store.Requires id b →
        σ.store.Accessible now b ∧ ∃ q, memo[b]? = some q ∧ q.isCompleted = true := by
    intro id p hp hl b hb
    obtain ⟨⟨a, ha, hai⟩, hp'⟩ := h.reference_of_memo hp
    obtain ⟨q, hq, hcompl⟩ := completed_of_transGen hp' hl hb
    have hin : σ.store.InClosure ids b := ⟨a, ha, hai.trans hb.to_reflTransGen⟩
    exact ⟨accessible_of_not_isLocked hq (not_isLocked_of_isCompleted hcompl), q,
      (h.found.result b hin).trans hq, hcompl⟩
  refine ⟨fun id hid => ?_, accessible, completed, fun id p hp b hb hor => ?_⟩
  · obtain ⟨p, -, hp⟩ := h.exists_result hid
    exact ⟨p, hp⟩
  · rw [← Bool.not_eq_false]
    intro hl
    rcases hor with hnot | ⟨hb, hall⟩
    · rcases reflTransGen_iff_eq_or_transGen.1 hb with rfl | hb
      · exact hnot (accessible _ p hp hl)
      · exact hnot (completed id p hp hl b hb).1
    · obtain ⟨-, q, hq, hcompl⟩ := completed id p hp hl b hb
      cases hcompl.symm.trans (hall q hq)

/-- In every call, whatever the limit and whatever was stored before, an open result rests on
completed and accessible modules alone. -/
theorem results_gated (e : Evaluator) (now : Instant) (learner : LearnerId) (σ : Session) :
    (∀ ids, (e.evaluateAll now learner ids).Ends σ
      (fun results σ' => ∃ memo, e.evaluateClosure now learner ids σ = .ok memo σ' ∧
        (∀ r ∈ results, memo[r.1]? = some r.2) ∧ Gated σ.store now ids memo)
      (Refusal σ.store learner now e.depthLimit ids)) ∧
    ∀ id, (e.evaluate now learner id).Ends σ
      (fun p σ' => ∃ memo, e.evaluateClosure now learner [id] σ = .ok memo σ' ∧
        memo[id]? = some p ∧ Gated σ.store now [id] memo)
      (Refusal σ.store learner now e.depthLimit [id]) := by
  constructor
  · intro ids
    refine (ends_evaluateAll e now learner ids σ).imp ?_ fun _ hf => hf
    rintro results σ' ⟨memo, h, rfl⟩
    exact ⟨memo, h.ended, fun r hr => (mem_answers.1 hr).2, h.gated⟩
  · intro id
    refine (ends_evaluate e now learner id σ).imp ?_ fun _ hf => hf
    rintro p σ' ⟨memo, h, hp⟩
    exact ⟨memo, h.ended, hp, h.gated⟩

end Pathway
