import Pathway.Proofs.Calls.Boundary
import Pathway.Proofs.Prerequisites.Circles

/-!
# Evaluations fail for unknown ids only

Where a store fails for nothing but a module that it does not have, an evaluation fails just for a
learner or a module that is not known, and then it has done nothing. In all other cases it finds
whatever it looks up on its way, and answers in full.
-/

open Relation

namespace Pathway

open Evaluation

variable {s : Store} {e : Evaluator} {learner : LearnerId} {now : Instant} {limit : Option Nat}
  {ids : List ModuleId} {id : ModuleId} {m : Module} {f : Failure} {σ : Session} {run : Run}
  {rs : List Request}

/-! ## Obliging stores -/

/-- The store fails for nothing but a module that it does not have. It takes every progression on a
module that it has, as long as the learner stands at an item of that module. -/
structure Store.Obliging (s : Store) : Prop where
  read : ∀ {id f}, s.getModule id = .error f → f = .notFound .module id
  save : ∀ {learner id m p}, s.getModule id = .ok m → p.IsOf learner id →
    (∀ i ∈ p.currentPosition, ∃ item ∈ m.items, item.position = i) →
    ∀ f, s.saveProgression learner id p ≠ .error f

namespace Store.Obliging

theorem exists_module (h : s.Obliging) (hid : s.hasModule id = true) :
    ∃ m, s.getModule id = .ok m := by
  rw [hasModule_iff] at hid
  cases hm : s.getModule id with
  | ok m => exact ⟨m, rfl⟩
  | error f => exact absurd (h.read hm ▸ hm) hid

theorem not_refusal (h : s.Obliging) (hl : s.hasLearner learner = true)
    (hids : ∀ id ∈ ids, s.hasModule id = true) : ¬ Refusal s learner now limit ids f := by
  rintro (hno | ⟨hin, hf⟩ | ⟨-, hp, -, hf⟩)
  · cases hl.symm.trans hno
  · obtain ⟨m, hm⟩ := exists_module_of_inClosure (fun _ => h.exists_module) hids hin
    cases hm.symm.trans hf
  · obtain ⟨m, met, hm, rfl, rfl⟩ := exists_assessment hp
    exact h.save hm ⟨Assessment.learner_progression, Assessment.module_progression⟩
      (fun i hi => Assessment.exists_item_of_currentPosition hi) _ hf

end Store.Obliging

theorem obliging_after_memory (rs : List Request) :
    ((Session.ofStore (.empty .memory)).after rs).store.Obliging where
  read {id f} hf := by
    have hreads : ((Session.ofStore (.empty .memory)).after rs).store.Reads
        fun x => ∃ m, x = .ok m :=
      reads_after fun _ _ m _ => ⟨m, rfl⟩
    by_cases hid : ((Session.ofStore (.empty .memory)).after rs).store.hasModule id = true
    · obtain ⟨m, hm⟩ := hreads id hid
      cases hm.symm.trans hf
    · rw [Store.hasModule_iff, not_not, hf] at hid
      exact Except.error.inj hid
  save {learner id m p} _ _ _ f hf := by
    obtain ⟨-, hdb, -⟩ := Store.exists_of_checkProgression (Store.saveProgression_eq_error.1 hf)
    cases hdb.symm.trans (backing_after (Session.ofStore (.empty .memory)) rs)

/-! ## Unknown ids -/

/-- The failure for the first id that the store does not know, the learner's before the modules'. -/
def Store.unknown? (s : Store) (learner : LearnerId) (ids : List ModuleId) : Option Failure :=
  if s.hasLearner learner then (ids.find? fun id => !s.hasModule id).map (.notFound .module)
  else some (.notFound .learner learner)

theorem known_of_unknown?_eq_none (h : s.unknown? learner ids = none) :
    s.hasLearner learner = true ∧ ∀ id ∈ ids, s.hasModule id = true := by
  unfold Store.unknown? at h
  split at h
  · next hl => exact ⟨hl, by simpa using h⟩
  · cases h

theorem required_of_unknown? (h : s.Obliging) (hf : s.unknown? learner ids = some f) :
    s.required learner ids = .error f := by
  unfold Store.unknown? at hf
  unfold Store.required
  split at hf
  · next hl =>
    obtain ⟨id, hid, rfl⟩ := Option.map_eq_some_iff.1 hf
    have hmissing := List.find?_some hid
    rw [Bool.not_eq_true', ← Bool.not_eq_true, Store.hasModule_iff, not_not] at hmissing
    have hmods : ids.eraseDups.mapM s.getModule = .error (.notFound .module id) := by
      refine mapM_eq_error ((find?_eraseDups _ ids).trans hid) hmissing fun a ha => ?_
      exact h.exists_module (by simpa using ha)
    rw [if_pos hl, hmods]
    rfl
  · next hl =>
    cases hf
    rw [if_neg hl]
    rfl

theorem evaluateAll_of_unknown? (h : σ.store.Obliging)
    (hf : σ.store.unknown? learner ids = some f) :
    e.evaluateAll now learner ids σ = .error f σ := by
  have hplan : e.plan now learner ids σ = .error f σ := by
    rw [plan_apply, required_of_unknown? h hf]
  exact Action.bind_of_error (Action.bind_of_error hplan)

/-! ## Lookups -/

theorem Assessment.exists_fact_of_satisfied {facts : ItemFacts} {i : Item} {r : Requirement}
    (h : satisfied facts i r = true) : ∃ fact, facts r.kind = some fact := by
  obtain ⟨-, hfact⟩ := Bool.and_eq_true_iff.1 h
  cases r with
  | minScore threshold =>
    cases hf : facts .minScore with
    | none =>
      rw [hf] at hfact
      cases hfact
    | some fact => exact ⟨fact, hf⟩
  | _ => exact Option.isSome_iff_exists.1 hfact

theorem Assessment.exists_fact_of_met {facts : Facts} {i : Item} (h : i ∈ metItems facts m) :
    ∃ r fact, i.requirement = some r ∧ facts i.id r.kind = some fact := by
  obtain ⟨-, hmet⟩ := List.mem_filter.1 h
  rw [Bool.and_eq_true, Option.isSome_iff_exists] at hmet
  obtain ⟨⟨r, hr⟩, hpasses⟩ := hmet
  rw [passes, hr] at hpasses
  obtain ⟨fact, hfact⟩ := exists_fact_of_satisfied hpasses
  exact ⟨r, fact, hr, hfact⟩

/-- What the steps of an evaluation look up is there: the modules of the components, a circle in
each cyclic component, and a fact for each requirement that is met. -/
structure Evaluation.Run.FindsAll (run : Run) : Prop where
  modules : ∀ {d c}, run.graph.InGeneration d c → ∀ v ∈ c, ∃ m, run.modules[v]? = some m
  circles : ∀ {d c}, run.graph.InGeneration d c → run.graph.isCyclic c = true →
    ∃ circle, Graph.search run.graph.dependents
      ((Std.ExtTreeSet.ofList c).erase (Graph.leader c))
      [(Graph.leader c, run.graph.dependents (Graph.leader c))] = some circle
  facts : ∀ (id : ModuleId) (m : Module), run.modules[id]? = some m → ∀ facts,
    ∀ i ∈ Assessment.metItems facts m, ∃ r fact, i.requirement = some r ∧
      facts i.id r.kind = some fact

theorem Closed.findsAll {all : List Module} (hc : Closed s ids all) :
    (runOf e learner now all).FindsAll where
  modules hgen v hv := by
    obtain ⟨m, hm, rfl, -⟩ := hc.exists_module (hc.inClosure_of_inGeneration hgen hv)
    exact ⟨m, hc.getElem?_tableOf hm⟩
  circles hgen hcyclic := by
    have hg := Graph.wellFormed_ofModules all
    obtain ⟨circle, hcircle, -⟩ :=
      Graph.exists_search_of_isCyclic hg (Graph.mem_components_of_inGeneration hg hgen) hcyclic
    exact ⟨circle, hcircle⟩
  facts _ _ _ _ _ hi := Assessment.exists_fact_of_met hi

/-! ## Requests -/

/-- The action fails with the failure and changes nothing, or if there is none it gives a result. -/
def Action.FailsOnly {α : Type} (x : Action α) (σ : Session) (f? : Option Failure)
    (P : α → Prop) : Prop :=
  match f? with
  | some f => x σ = .error f σ
  | none => ∃ a τ, x σ = .ok a τ ∧ P a

section Total

variable (h : σ.store.Obliging)
include h

theorem evaluateAll_failsOnly :
    (e.evaluateAll now learner ids).FailsOnly σ (σ.store.unknown? learner ids)
      (Complete learner ids.eraseDups) := by
  unfold Action.FailsOnly
  cases hf : σ.store.unknown? learner ids with
  | some f => exact evaluateAll_of_unknown? h hf
  | none =>
    obtain ⟨hl, hids⟩ := known_of_unknown?_eq_none hf
    obtain ⟨results, τ, heval, hans, -⟩ :=
      (ends_evaluateAll_caughtUp (.refl σ.store) ids).exists_ok fun f => h.not_refusal hl hids
    exact ⟨results, τ, heval, hans.complete⟩

theorem evaluate_failsOnly :
    (e.evaluate now learner id).FailsOnly σ (σ.store.unknown? learner [id])
      (·.IsOf learner id) := by
  unfold Action.FailsOnly
  cases hf : σ.store.unknown? learner [id] with
  | some f => exact Action.bind_of_error (evaluateAll_of_unknown? h hf)
  | none =>
    obtain ⟨hl, hids⟩ := known_of_unknown?_eq_none hf
    obtain ⟨p, τ, heval, hans, -⟩ :=
      (ends_evaluate_caughtUp (.refl σ.store) id).exists_ok fun f => h.not_refusal hl hids
    exact ⟨p, τ, heval, hans.complete.own (id, p) List.mem_cons_self⟩

theorem evaluateEvery_failsOnly :
    (e.evaluateEvery now learner).FailsOnly σ (σ.store.unknown? learner [])
      (Complete learner (σ.store.moduleIds none)) := by
  unfold Action.FailsOnly Store.unknown?
  cases hl : σ.store.hasLearner learner with
  | false => exact evaluateEvery_of_unknown hl
  | true =>
    obtain ⟨results, τ, heval, hans, -⟩ :=
      (ends_evaluateEvery_caughtUp (.refl σ.store)).exists_ok fun f =>
        h.not_refusal hl fun id hid => Store.mem_moduleIds.1 hid
    refine ⟨results, τ, heval, ?_⟩
    have hcomplete := hans.complete
    rwa [eraseDups_of_nodup Store.nodup_moduleIds] at hcomplete

theorem plan_findsAll (hf : σ.store.unknown? learner ids = none) :
    ∃ run τ, e.plan now learner ids σ = .ok run τ ∧ run.FindsAll := by
  obtain ⟨hl, hids⟩ := known_of_unknown?_eq_none hf
  obtain ⟨run, τ, hplan, -, ⟨all, hc, rfl⟩, -⟩ :=
    (ends_plan e now learner ids σ).exists_ok fun f => h.not_refusal hl hids
  exact ⟨_, τ, hplan, hc.findsAll⟩

end Total

/-- A request for progressions fails for the first id that is not known, before it has done
anything. If all are known it is answered in full, and nothing that it looks up is missing. Every
state of a store in memory is such that this holds. -/
theorem evaluation_fails_for_unknown_ids_only :
    (∀ rs, ((Session.ofStore (.empty .memory)).after rs).store.Obliging) ∧
    ∀ σ : Session, σ.store.Obliging → ∀ (e : Evaluator) (now : Instant) (learner : LearnerId),
      (∀ id, (e.evaluate now learner id).FailsOnly σ (σ.store.unknown? learner [id])
        (·.IsOf learner id)) ∧
      (∀ ids, (e.evaluateAll now learner ids).FailsOnly σ (σ.store.unknown? learner ids)
        (Complete learner ids.eraseDups)) ∧
      (e.evaluateEvery now learner).FailsOnly σ (σ.store.unknown? learner [])
        (Complete learner (σ.store.moduleIds none)) ∧
      ∀ ids, σ.store.unknown? learner ids = none →
        ∃ run τ, e.plan now learner ids σ = .ok run τ ∧ run.FindsAll :=
  ⟨obliging_after_memory, fun _ h _ _ _ => ⟨fun _ => evaluate_failsOnly h,
    fun _ => evaluateAll_failsOnly h, evaluateEvery_failsOnly h, fun _ => plan_findsAll h⟩⟩

namespace Sample

theorem obliging_store : store.Obliging where
  read {id f} hf := by
    rw [getModule_store] at hf
    split_ifs at hf
    exact (Except.error.inj hf).symm
  save _ _ _ f hf := by
    obtain ⟨-, hdb, -⟩ := Store.exists_of_checkProgression (Store.saveProgression_eq_error.1 hf)
    cases hdb

end Sample

theorem sample_fails_for_unknown_ids_only :
    Evaluator.evaluateAll ⟨1, none⟩ ⟨0, 0⟩ "ada" ["cells", "nowhere", "elsewhere"]
      (.ofStore Sample.store) = .error (.notFound .module "nowhere") (.ofStore Sample.store) ∧
    ∃ results τ, Evaluator.evaluateAll ⟨1, none⟩ ⟨0, 0⟩ "ada" ["cells", "orientation", "cells"]
        (.ofStore Sample.store) = .ok results τ ∧
      Complete "ada" ["cells", "orientation"] results := by
  obtain ⟨-, hall, -⟩ := evaluation_fails_for_unknown_ids_only.2 (.ofStore Sample.store)
    Sample.obliging_store ⟨1, none⟩ ⟨0, 0⟩ "ada"
  exact ⟨hall ["cells", "nowhere", "elsewhere"], hall ["cells", "orientation", "cells"]⟩

end Pathway
