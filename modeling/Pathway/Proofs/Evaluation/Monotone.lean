import Pathway.Proofs.Evaluation.Improvement
import Pathway.Proofs.Evaluation.Requests
import Pathway.Proofs.Sample

/-!
# Evaluation is monotone

A learner who did more, and no worse, is not set back on any module. The gain passes along the
prerequisites: what is completed for the first store is completed for the second.
-/

open Relation

namespace Pathway

open Evaluation

/-! ## A store that says more of a learner -/

/-- The second store has the same modules. It has every fact of the learner that the first has, with
a score that is no worse, and what was stored as completed is. -/
structure Store.Improves (learner : LearnerId) (s t : Store) : Prop where
  modules : ∀ id, t.getModule id = s.getModule id
  facts : Assessment.Improved (s.itemFacts learner) (t.itemFacts learner)
  completed : ∀ id p, s.loadProgression learner id = some p → p.isCompleted = true →
    ∃ q, t.loadProgression learner id = some q ∧ q.isCompleted = true

variable {s t : Store} {learner : LearnerId} {now now' : Instant} {limit : Option Nat}
  {id : ModuleId} {m : Module}

namespace Store.Improves

theorem sameModules (h : s.Improves learner t) : s.SameModules t := h.modules

theorem wasCompleted (h : s.Improves learner t)
    (hwas : Assessment.wasCompleted (s.loadProgression learner id) = true) :
    Assessment.wasCompleted (t.loadProgression learner id) = true := by
  unfold Assessment.wasCompleted at *
  rw [Option.any_eq_true] at *
  obtain ⟨p, hp, hc⟩ := hwas
  exact h.completed id p hp hc

end Store.Improves

theorem Store.FactsSet.improves {item : ItemId} {f : Fact}
    (h : s.FactsSet learner item ((s.itemFacts learner item).set f) t)
    (hold : ∀ g, s.itemFacts learner item f.kind = some g → NoWorseScore g.score f.score) :
    s.Improves learner t := by
  refine ⟨h.rest.getModule, fun i k g hg => ?_, fun id p hp hc =>
    ⟨p, (h.rest.loadProgression learner id).trans hp, hc⟩⟩
  rw [h.itemFacts]
  split
  · next he =>
    obtain ⟨-, rfl⟩ := he
    unfold ItemFacts.set
    split
    · next hk => exact ⟨f, rfl, hold g (hk ▸ hg)⟩
    · exact ⟨g, hg, .refl g.score⟩
  · exact ⟨g, hg, .refl g.score⟩

theorem Store.improves_record {item : ItemId} {kind : RequirementKind} {score : Option Store.Score}
    {satisfiedAt : Instant} (h : s.record learner item kind score satisfiedAt = .ok t)
    (hnew : s.itemFacts learner item kind = none) : s.Improves learner t := by
  obtain ⟨kept, -, hset⟩ := Store.factsSet_of_record h
  exact hset.improves fun g hg => by cases hnew.symm.trans hg

/-! ## Reference results -/

theorem reference_atMost (h : s.Improves learner t) (hnow : now'.before now = false)
    (hm : s.getModule m.id = .ok m) {p q : Progression}
    (hp : reference s learner now limit m.id = some p)
    (hq : reference t learner now' limit m.id = some q) : p.AtMost m q := by
  induction hid : m.id using s.prerequisite_induction limit generalizing m p q with
  | step a ih =>
    subst hid
    obtain ⟨met, hmet, hresult⟩ := exists_met learner now limit hm
    obtain ⟨met', hmet', hresult'⟩ := exists_met learner now' limit ((h.modules m.id).trans hm)
    cases hresult.symm.trans hp
    cases hresult'.symm.trans hq
    refine Assessment.atMost_progression h.facts hnow (fun hr => ?_) h.wasCompleted
    rw [hmet] at hr
    refine hmet'.2 ⟨fun hb => hr.1 (h.sameModules.barred.1 hb), fun u hu hk => ?_⟩
    -- A known prerequisite lies behind the module, and is completed in the first store.
    rw [h.sameModules.hasModule] at hk
    have hreq : s.Requires m.id u := ⟨⟨m, hm, hu⟩, hk⟩
    obtain ⟨p, hp, hpc⟩ := (Option.any_eq_true _ _).1 (hr.2 u hu hk)
    cases hread : s.getModule u with
    | error f => cases (reference_of_error hread).symm.trans hp
    | ok x =>
      obtain rfl := Store.id_of_getModule hread
      obtain ⟨q, hq⟩ := exists_reference learner now' limit ((h.modules x.id).trans hread)
      rw [hq, Option.any_some]
      exact (ih hr.1 x.id hreq hread hp hq rfl).isCompleted hpc

/-! ## Evaluations -/

/-- Whatever is asked for in the two evaluations, a module that both of them assess is in the
second nowhere behind the first. -/
theorem evaluation_monotone (e e' : Evaluator) (now now' : Instant) (learner : LearnerId)
    (σ τ : Session) (h : σ.store.Improves learner τ.store) (hnow : now'.before now = false)
    (hlimit : e'.depthLimit = e.depthLimit) :
    (∀ ids ids', (e.evaluateClosure now learner ids).Ends σ
      (fun memo _ => (e'.evaluateClosure now' learner ids').Ends τ
        (fun memo' _ => ∀ m p q, σ.store.getModule m.id = .ok m → memo[m.id]? = some p →
          memo'[m.id]? = some q → p.AtMost m q)
        (Refusal τ.store learner now' e'.depthLimit ids'))
      (Refusal σ.store learner now e.depthLimit ids)) ∧
    (∀ ids ids', (e.evaluateAll now learner ids).Ends σ
      (fun results _ => (e'.evaluateAll now' learner ids').Ends τ
        (fun results' _ => ∀ m p q, σ.store.getModule m.id = .ok m → (m.id, p) ∈ results →
          (m.id, q) ∈ results' → p.AtMost m q)
        (Refusal τ.store learner now' e'.depthLimit ids'))
      (Refusal σ.store learner now e.depthLimit ids)) ∧
    ∀ m, σ.store.getModule m.id = .ok m → (e.evaluate now learner m.id).Ends σ
      (fun p _ => (e'.evaluate now' learner m.id).Ends τ (fun q _ => p.AtMost m q)
        (Refusal τ.store learner now' e'.depthLimit [m.id]))
      (Refusal σ.store learner now e.depthLimit [m.id]) := by
  have atMost : ∀ {ids ids' memo memo' σ' τ'}, Evaluated e now learner ids σ memo σ' →
      Evaluated e' now' learner ids' τ memo' τ' → ∀ m p q, σ.store.getModule m.id = .ok m →
      memo[m.id]? = some p → memo'[m.id]? = some q → p.AtMost m q := by
    intro ids ids' memo memo' σ' τ' hm hm' m p q hread hp hq
    refine reference_atMost h hnow hread (hm.reference_of_memo hp).2 ?_
    exact hlimit ▸ (hm'.reference_of_memo hq).2
  refine ⟨fun ids ids' => ?_, fun ids ids' => ?_, fun m hread => ?_⟩
  · refine (ends_evaluated e now learner ids σ).imp (fun memo σ' hm => ?_) fun _ hf => hf
    exact (ends_evaluated e' now' learner ids' τ).imp (fun memo' τ' hm' => atMost hm hm')
      fun _ hf => hf
  · refine (ends_evaluateAll e now learner ids σ).imp ?_ fun _ hf => hf
    rintro results σ' ⟨memo, hm, rfl⟩
    refine (ends_evaluateAll e' now' learner ids' τ).imp ?_ fun _ hf => hf
    rintro results' τ' ⟨memo', hm', rfl⟩ m p q hread hp hq
    exact atMost hm hm' m p q hread (mem_answers.1 hp).2 (mem_answers.1 hq).2
  · refine (ends_evaluate e now learner m.id σ).imp ?_ fun _ hf => hf
    rintro p σ' ⟨memo, hm, hp⟩
    refine (ends_evaluate e' now' learner m.id τ).imp ?_ fun _ hf => hf
    rintro q τ' ⟨memo', hm', hq⟩
    exact atMost hm hm' m p q hread hp hq

theorem sample_evaluation_monotone :
    ∃ t p q σ' τ',
      Sample.store.record "ada" "cells-reading" .view none ⟨0, 0⟩ = .ok t ∧
      Evaluator.evaluate ⟨1, none⟩ ⟨0, 0⟩ "ada" "cells" (.ofStore Sample.store) = .ok p σ' ∧
      Evaluator.evaluate ⟨4, none⟩ ⟨Instant.microsPerDay, 0⟩ "ada" "cells" (.ofStore t) =
        .ok q τ' ∧
      p.AtMost Sample.cells q := by
  obtain ⟨t, ht⟩ : ∃ t, Sample.store.record "ada" "cells-reading" .view none ⟨0, 0⟩ = .ok t :=
    ⟨_, rfl⟩
  have himp : Sample.store.Improves "ada" t := Store.improves_record ht rfl
  have hread : Sample.store.getModule "cells" = .ok Sample.cells := Sample.getModule_store
  have hlearner : Sample.store.hasLearner "ada" = true := rfl
  have hall : ∀ id, Sample.store.InClosure ["cells"] id →
      ∃ m, Sample.store.getModule id = .ok m := by
    refine fun id => Store.exists_module_of_inClosure (fun _ => Sample.exists_module_store) ?_
    rintro _ (_ | ⟨_, ⟨⟩⟩)
    exact Store.hasModule_of_getModule hread
  have hmono := (evaluation_monotone ⟨1, none⟩ ⟨4, none⟩ ⟨0, 0⟩ ⟨Instant.microsPerDay, 0⟩ "ada"
    (.ofStore Sample.store) (.ofStore t) himp (by decide) rfl).2.2 Sample.cells hread
  obtain ⟨p, σ', hp, hq⟩ := hmono.exists_ok fun f => not_refusal_of_memory rfl hlearner hall
  obtain ⟨q, τ', hq, hle⟩ := hq.exists_ok fun f => by
    obtain ⟨kept, -, hset⟩ := Store.factsSet_of_record ht
    refine not_refusal_of_memory hset.rest.backing (hset.rest.hasLearner "ada") fun id hin => ?_
    obtain ⟨m, hm⟩ := hall id (hset.rest.sameModules.inClosure ▸ hin)
    exact ⟨m, (hset.rest.getModule id).trans hm⟩
  exact ⟨t, p, q, σ', τ', ht, hp, hq, hle⟩

end Pathway
