import Pathway.Navigation.Navigator
import Pathway.Proofs.Evaluation.Repetition

/-!
# Stores that caught up

What an evaluation stores are results. A later evaluation at the same moment that finds some of them
stored comes to the same results, for these modules and for all others, and is refused nothing that
was not refused before.
-/

open Relation

namespace Pathway

open Evaluation

variable {s t u : Store} {e : Evaluator} {learner : LearnerId} {now : Instant} {limit : Option Nat}
  {ids : List ModuleId} {id : ModuleId} {p : Progression} {σ σ' : Session} {memo : Memo}
  {f : Failure}

/-! ## Stores that differ in progressions -/

namespace Store.SameBase

theorem putProgression (h : s.SameBase t) (l : LearnerId) (id : ModuleId) (p : Progression) :
    (s.putProgression l id p).SameBase t :=
  (s.sameBase_putProgression l id p).symm.trans h

theorem prerequisiteChain (h : s.SameBase t) (m : Module) :
    prerequisiteChain t m = prerequisiteChain s m := by
  unfold Pathway.prerequisiteChain
  rw [h.modules]

end Store.SameBase

/-- From the first store to the second, only progressions have changed, and those of the learner at
most to what an evaluation of the first finds. -/
structure Store.CaughtUp (learner : LearnerId) (now : Instant) (limit : Option Nat)
    (s t : Store) : Prop extends Store.SameBase s t where
  held : ∀ id, t.loadProgression learner id = s.loadProgression learner id ∨
    t.loadProgression learner id = reference s learner now limit id

theorem Store.CaughtUp.refl (s : Store) : s.CaughtUp learner now limit s :=
  ⟨.refl s, fun _ => Or.inl rfl⟩

/-! ## The same results -/

/-- A module whose result is stored has it again, and its prerequisites, where less is reached, have
theirs. -/
theorem reference_caughtUp (h : s.CaughtUp learner now limit t) (id : ModuleId) :
    reference t learner now limit id = reference s learner now limit id := by
  induction id using s.prerequisite_induction limit with
  | step id ih =>
    cases hm : s.getModule id with
    | error f => rw [reference_of_error hm, reference_of_error ((h.getModule id).trans hm)]
    | ok m =>
      obtain rfl := Store.id_of_getModule hm
      have hreach : Reachable t learner now limit m ↔ Reachable s learner now limit m :=
        h.sameModules.reachable fun hb b hmem hk => by rw [ih hb b ⟨⟨m, hm, hmem⟩, hk⟩]
      obtain ⟨met, hmet, hresult⟩ := exists_met learner now limit hm
      rw [reference_eq ((h.getModule m.id).trans hm) (hmet.trans hreach.symm), h.itemFacts]
      rcases h.held m.id with hkept | hstored
      · rw [hkept, hresult]
      · rw [hstored, hresult, Assessment.progression_again]

theorem Store.CaughtUp.trans (h : s.CaughtUp learner now limit t)
    (g : t.CaughtUp learner now limit u) : s.CaughtUp learner now limit u where
  toSameBase := h.toSameBase.trans g.toSameBase
  held id := by
    rw [← reference_caughtUp h id]
    rcases g.held id with hg | hg
    · rw [hg, reference_caughtUp h id]
      exact h.held id
    · exact Or.inr hg

theorem Store.CaughtUp.refusal (h : s.CaughtUp learner now limit t)
    (hf : Refusal t learner now limit ids f) : Refusal s learner now limit ids f := by
  refine hf.of_sameModules h.sameModules (h.hasLearner learner) fun id p hin hp hne hsave => ?_
  rw [reference_caughtUp h] at hp
  rcases h.held id with hkept | hstored
  · refine .progression hin hp (hkept ▸ hne) ?_
    rw [Store.saveProgression_eq_error] at hsave ⊢
    exact (Store.checkProgression_congr h.backing).symm.trans hsave
  · -- A result that is stored is not saved again.
    rw [hstored, hp, Option.any_some, Progression.same_refl] at hne
    cases hne

/-! ## Evaluations catch up -/

theorem key_of_reference (h : reference s learner now limit id = some p) :
    p.learner = learner ∧ p.module = id := by
  obtain ⟨m, met, -, rfl, rfl⟩ := exists_assessment h
  exact ⟨Assessment.learner_progression, Assessment.module_progression⟩

theorem Store.keepProgression_of_key (hl : p.learner = learner) (hm : p.module = id) :
    s.keepProgression learner id p = p := by
  subst hl hm
  unfold Store.keepProgression
  split <;> rfl

theorem Evaluated.caughtUp (h : Evaluated e now learner ids σ memo σ') :
    σ.store.CaughtUp learner now e.depthLimit σ'.store where
  toSameBase := h.found.base
  held id := by
    by_cases hin : σ.store.InClosure ids id
    · obtain ⟨p, hp, -⟩ := h.exists_result hin
      obtain ⟨hl, hm⟩ := key_of_reference hp
      rw [h.found.held id hin p hp, Store.heldAfter, Store.keepProgression_of_key hl hm, hp]
      split
      · exact Or.inl rfl
      · exact Or.inr rfl
    · exact Or.inl (h.found.untouched learner id (Or.inr hin))

/-! ## Requests after some evaluations -/

/-- The results of a request are what the reference finds, of modules that can all be read. -/
structure Answered (s : Store) (learner : LearnerId) (now : Instant) (limit : Option Nat)
    (ids : List ModuleId) (results : List (ModuleId × Progression)) : Prop where
  asked : results.map Prod.fst = ids.eraseDups
  result : ∀ r ∈ results, reference s learner now limit r.1 = some r.2
  read : ∀ id, s.InClosure ids id → ∃ m, s.getModule id = .ok m

namespace Answered

variable {results : List (ModuleId × Progression)}

theorem mem_iff (h : Answered s learner now limit ids results) :
    (id, p) ∈ results ↔ id ∈ ids ∧ reference s learner now limit id = some p := by
  constructor
  · intro hmem
    have hid : id ∈ results.map Prod.fst := List.mem_map_of_mem hmem
    rw [h.asked, List.mem_eraseDups] at hid
    exact ⟨hid, h.result _ hmem⟩
  · rintro ⟨hid, hp⟩
    rw [← List.mem_eraseDups, ← h.asked] at hid
    obtain ⟨r, hr, rfl⟩ := List.mem_map.1 hid
    obtain rfl := Option.some.inj ((h.result r hr).symm.trans hp)
    exact hr

theorem lookup (h : Answered s learner now limit ids results) (hid : id ∈ ids) :
    results.lookup id = reference s learner now limit id := by
  cases hl : results.lookup id with
  | some p =>
    obtain ⟨before, after, rfl, -⟩ := List.lookup_eq_some_iff.1 hl
    exact (h.result _ (List.mem_append_right _ List.mem_cons_self)).symm
  | none =>
    rw [← List.mem_eraseDups, ← h.asked] at hid
    obtain ⟨r, hr, rfl⟩ := List.mem_map.1 hid
    exact absurd rfl (bne_iff_ne.1 (List.lookup_eq_none_iff.1 hl r hr))

theorem asked_every (h : Answered s learner now limit (s.moduleIds none) results) :
    results.map Prod.fst = s.moduleIds none := by
  rw [h.asked, eraseDups_of_nodup Store.nodup_moduleIds]

theorem exists_module (h : Answered s learner now limit (s.moduleIds none) results)
    (hid : s.hasModule id = true) : ∃ m, s.getModule id = .ok m :=
  h.read id ⟨id, Store.mem_moduleIds.2 hid, .refl⟩

end Answered

theorem ends_evaluateAll_caughtUp (h : s.CaughtUp learner now e.depthLimit σ.store)
    (ids : List ModuleId) :
    (e.evaluateAll now learner ids).Ends σ
      (fun results σ' => Answered s learner now e.depthLimit ids results ∧
        s.CaughtUp learner now e.depthLimit σ'.store)
      (Refusal s learner now e.depthLimit ids) := by
  refine (ends_evaluateAll e now learner ids σ).imp ?_ fun f hf => h.refusal hf
  rintro results σ' ⟨memo, hev, rfl⟩
  refine ⟨⟨map_fst_answers fun id hid => ?_, fun r hr => ?_, fun id hid => ?_⟩,
    h.trans hev.caughtUp⟩
  · obtain ⟨p, -, hp⟩ := hev.exists_result (Evaluated.inClosure_of_mem (List.mem_eraseDups.1 hid))
    exact ⟨p, hp⟩
  · rw [← reference_caughtUp h]
    exact (hev.reference_of_memo (mem_answers.1 hr).2).2
  · obtain ⟨m, hm⟩ := hev.found.read id (h.sameModules.inClosure ▸ hid)
    exact ⟨m, (h.getModule id).symm.trans hm⟩

theorem ends_evaluateEvery_caughtUp (h : s.CaughtUp learner now e.depthLimit σ.store) :
    (e.evaluateEvery now learner).Ends σ
      (fun results σ' => Answered s learner now e.depthLimit (s.moduleIds none) results ∧
        s.CaughtUp learner now e.depthLimit σ'.store)
      (Refusal s learner now e.depthLimit (s.moduleIds none)) := by
  unfold Evaluator.evaluateEvery
  refine (ends_requireLearner.imp (fun _ _ hl => hl) fun f hf => h.refusal hf).bind ?_
  rintro _ _ ⟨rfl, -⟩
  refine Action.ends_ask ?_
  rw [h.moduleIds]
  exact ends_evaluateAll_caughtUp h _

theorem ends_evaluate_caughtUp (h : s.CaughtUp learner now e.depthLimit σ.store) (id : ModuleId) :
    (e.evaluate now learner id).Ends σ
      (fun p σ' => Answered s learner now e.depthLimit [id] [(id, p)] ∧
        s.CaughtUp learner now e.depthLimit σ'.store)
      (Refusal s learner now e.depthLimit [id]) := by
  unfold Evaluator.evaluate
  refine (ends_evaluateAll_caughtUp h [id]).bind ?_
  rintro results σ' ⟨hans, hcaught⟩
  obtain ⟨⟨i, p⟩, rfl, hi⟩ := List.map_eq_singleton_iff.1 hans.asked
  obtain rfl : i = id := hi
  exact Action.ends_pure ⟨hans, hcaught⟩

/-! ## What the evaluator finds -/

/-- What the evaluator says of a module when it is asked in the session. -/
def Evaluator.Finds (e : Evaluator) (now : Instant) (learner : LearnerId) (σ : Session)
    (id : ModuleId) (p : Progression) : Prop := ∃ σ', e.evaluate now learner id σ = .ok p σ'

theorem Evaluator.Finds.reference (h : e.Finds now learner σ id p) :
    reference σ.store learner now e.depthLimit id = some p := by
  obtain ⟨σ', h⟩ := h
  obtain ⟨memo, hev, hp⟩ := (ends_evaluate e now learner id σ).of_ok h
  exact (hev.reference_of_memo hp).2

theorem Evaluator.Finds.not_refusal (h : e.Finds now learner σ id p) (f : Failure) :
    ¬ Refusal σ.store learner now e.depthLimit [id] f := by
  obtain ⟨σ', h⟩ := h
  obtain ⟨memo, hev, -⟩ := (ends_evaluate e now learner id σ).of_ok h
  exact hev.found.not_refusal hev.known

theorem finds_iff (hno : ∀ f, ¬ Refusal σ.store learner now e.depthLimit ids f)
    (hid : σ.store.InClosure ids id) :
    e.Finds now learner σ id p ↔ reference σ.store learner now e.depthLimit id = some p := by
  refine ⟨Evaluator.Finds.reference, fun hp => ?_⟩
  obtain ⟨q, σ', hq, -⟩ := (ends_evaluate e now learner id σ).exists_ok fun f hf =>
    hno f (hf.of_inClosure fun a ha => List.mem_singleton.1 ha ▸ hid)
  have hfinds : e.Finds now learner σ id q := ⟨σ', hq⟩
  obtain rfl := Option.some.inj (hfinds.reference.symm.trans hp)
  exact hfinds

end Pathway
