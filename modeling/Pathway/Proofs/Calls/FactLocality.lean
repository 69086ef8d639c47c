import Pathway.Proofs.Calls.Isolation
import Pathway.Proofs.Calls.Sticky
import Pathway.Proofs.Evaluation.Locality
import Pathway.Proofs.Navigation.Views

/-!
# How far a fact reaches

A fact is kept for a learner and an item, and not for a module. It reaches the modules that have the
item, and the modules that lead to one of these. On all others it has no influence, whatever else is
asked for with them.
-/

open Relation

namespace Pathway

open Evaluation

variable {touched : Set (LearnerId × ItemId)} {Who : Set LearnerId} {s t : Store}
  {learner : LearnerId} {id : ModuleId} {ids ids' : List ModuleId} {p : Progression} {a : Answer}
  {σ σ' τ τ' : Session} {e e' : Evaluator} {now : Instant} {memo memo' : Memo} {r : Request}
  {rs : List Request}

/-- Of the learner no facts are touched on the items of any module. -/
def Store.Unconcerned (s : Store) (touched : Set (LearnerId × ItemId)) (learner : LearnerId) :
    Prop :=
  ∀ m, s.getModule m.id = .ok m → m.Untouched touched learner

/-! ## Side by side -/

/-- Two stores that differ in touched facts. From what the first of them was at the start, only
progressions tell it apart. -/
structure Store.Abreast (touched : Set (LearnerId × ItemId)) (start s t : Store) : Prop
    extends Store.FactsApart touched s t where
  base : start.SameBase s

namespace Store.Abreast

variable {start : Store}

theorem putProgression (h : start.Abreast touched s t) :
    start.Abreast touched (s.putProgression learner id p) (t.putProgression learner id p) where
  toSameButFacts := h.toSameButFacts.putProgression learner id p
  elsewhere l i hi := by
    rw [itemFacts_putProgression, itemFacts_putProgression, h.elsewhere l i hi]
  base := h.base.trans (s.sameBase_putProgression learner id p)

theorem tandem_saveProgression (h : start.Abreast touched σ.store τ.store) :
    (Action.saveProgression learner id p).Tandem (Action.saveProgression learner id p) σ τ Eq
      fun σ τ => start.Abreast touched σ.store τ.store :=
  Pathway.tandem_saveProgression h h.backing h.putProgression

theorem inStep (touched : Set (LearnerId × ItemId)) (Who : Set LearnerId) (start : Store) :
    InStep Who (fun σ τ => start.Abreast touched σ.store τ.store) Eq
      fun m => ∀ l ∈ Who, m.Untouched touched l where
  note h _ := h
  report h i := by
    rw [Session.store_report, Session.store_report]
    exact h
  state h := by rw [h]
  assess {σ τ run m met memo memo'} hl h hm hmemo := by
    obtain rfl : _ = _ := hmemo.eq
    refine tandem_evaluateModule (h.loadProgression _ m.id) ?_ ?_ (fun h _ => h)
      fun h => h.tandem_saveProgression
    · unfold progressionIn
      rw [h.loadProgression]
      exact Assessment.progression_congr fun i hi => h.elsewhere _ _ (hm _ hl i hi)
    · rw [store_looked, store_looked]
      exact h

theorem accord (Who : Set LearnerId) (hall : ∀ l ∈ Who, start.Unconcerned touched l) :
    Accord Who (fun σ τ => start.Abreast touched σ.store τ.store) Eq
      fun m => ∀ l ∈ Who, m.Untouched touched l where
  toInStep := inStep touched Who start
  hasLearner _ h := h.hasLearner _
  getModule h := h.sameModules
  moduleIds h := h.moduleIds
  good {σ τ id m} h hm l hl := by
    obtain rfl := id_of_getModule hm
    exact hall l hl m ((h.base.getModule m.id).symm.trans hm)
  met h := by rw [h]
  collapsed h := by rw [h]
  fold h := by rw [h]
  save _ h hpq _ := hpq ▸ h.tandem_saveProgression

end Store.Abreast

theorem Store.FactsApart.abreast (h : s.FactsApart touched t) : s.Abreast touched s t :=
  ⟨h, .refl s⟩

theorem tandem_of_outOfReach (h : σ.store.FactsApart touched τ.store)
    (hr : r.call.requested σ.store = some ids)
    (hout : ∀ l ∈ r.call.learners, ∀ id ∈ ids, σ.store.OutOfReach touched l id) :
    (r.call.perform r.evaluator r.now).Tandem (r.call.perform r.evaluator r.now) σ τ Eq
      fun σ' τ' => σ.store.Abreast touched σ'.store τ'.store := by
  refine (Store.Abreast.inStep touched {l | l ∈ r.call.learners} σ.store).perform
    (fun h l _ => h.hasLearner l) (fun h => h.sameModules) (fun h => h.moduleIds) ?_
    (fun _ hl => hl) hr h.abreast
  rintro σ' τ' ⟨-, hbase⟩ id m hin hm l hl
  obtain rfl := Store.id_of_getModule hm
  obtain ⟨a, ha, hreach⟩ := hbase.sameModules.inClosure ▸ hin
  exact hout l hl a ha m ((hbase.getModule m.id).symm.trans hm) hreach

theorem tandem_of_unconcerned (hr : r.call.Evaluates)
    (hall : ∀ l ∈ r.call.learners, s.Unconcerned touched l)
    (h : s.Abreast touched σ.store τ.store) :
    (r.call.perform r.evaluator r.now).Tandem (r.call.perform r.evaluator r.now) σ τ Eq
      fun σ τ => s.Abreast touched σ.store τ.store :=
  (Store.Abreast.accord {l | l ∈ r.call.learners} hall).perform_eq hr (fun _ hl => hl) h

/-! ## Results are reference results -/

theorem reference_of_gives (ha : σ.answer r = .ok a) (hp : r.call.Gives learner id a p) :
    reference σ.store learner r.now r.evaluator.depthLimit id = some p := by
  obtain ⟨e, now, c⟩ := r
  have hperform := Session.answer_eq_ok.1 ha
  cases c with
  | evaluate l i =>
    obtain ⟨q, heval, rfl⟩ := Action.bind_pure_eq_ok.1 hperform
    obtain ⟨rfl, rfl, rfl⟩ := hp
    exact Evaluator.Finds.reference ⟨_, heval⟩
  | evaluateAll l is =>
    cases is with
    | some is =>
      obtain ⟨qs, heval, rfl⟩ := Action.bind_pure_eq_ok.1 hperform
      obtain ⟨rfl, hp⟩ := hp
      exact ((ends_evaluateAll_caughtUp (.refl σ.store) is).of_ok heval).1.result _ hp
    | none =>
      obtain ⟨qs, heval, rfl⟩ := Action.bind_pure_eq_ok.1 hperform
      obtain ⟨rfl, hp⟩ := hp
      exact ((ends_evaluateEvery_caughtUp (.refl σ.store)).of_ok heval).1.result _ hp
  | evaluateLearners i ls =>
    obtain ⟨qs, heval, rfl⟩ := Action.bind_pure_eq_ok.1 hperform
    obtain ⟨rfl, hp⟩ := hp
    -- Each learner gets what that learner alone would have got.
    have hall := Action.outcome_of_ok heval
    rw [outcome_evaluateLearners] at hall
    obtain ⟨l, -, hl⟩ := exists_of_mapM hall hp
    cases hone : (e.evaluate now l i).outcome σ with
    | error f =>
      rw [hone] at hl
      cases hl
    | ok q =>
      rw [hone] at hl
      cases hl
      exact Evaluator.Finds.reference (Action.outcome_eq_ok.1 hone)
  | _ => cases a <;> exact hp.elim

theorem mem_tree_iff {ns : List NavigationModule} {n : NavigationModule}
    (hr : r.call = .tree learner) (ha : σ.answer r = .ok (.navigation ns)) :
    n ∈ ns ↔ ∃ m p, σ.store.getModule m.id = .ok m ∧
      reference σ.store learner r.now r.evaluator.depthLimit m.id = some p ∧
      n = Evaluator.navigationModule m p := by
  rw [Session.answer_eq_ok, Session.perform, hr] at ha
  obtain ⟨ns', htree, hns⟩ := Action.bind_pure_eq_ok.1 ha
  obtain rfl : ns' = ns := Answer.navigation.inj hns
  exact ((ends_tree (.refl σ.store)).of_ok htree).2 n

theorem Evaluated.agree (h : σ.store.FactsApart touched τ.store)
    (hσ : Evaluated e now learner ids σ memo σ') (hτ : Evaluated e' now learner ids' τ memo' τ')
    (hlimit : e'.depthLimit = e.depthLimit) (hin : σ.store.InClosure ids id)
    (hin' : σ.store.InClosure ids' id) (hout : σ.store.OutOfReach touched learner id) :
    memo'[id]? = memo[id]? ∧
      τ'.store.loadProgression learner id = σ'.store.loadProgression learner id := by
  have href : reference τ.store learner now e.depthLimit id =
      reference σ.store learner now e.depthLimit id := h.reference_eq hout
  rw [← h.sameModules.inClosure] at hin'
  obtain ⟨p, hp, hmemo⟩ := hσ.exists_result hin
  obtain ⟨q, hq, hmemo'⟩ := hτ.exists_result hin'
  obtain rfl : q = p := by
    rw [hlimit, href, hp] at hq
    exact (Option.some.inj hq).symm
  refine ⟨hmemo'.trans hmemo.symm, ?_⟩
  rw [hσ.found.held id hin q hp, hτ.found.held id hin' q hq, Store.heldAfter, Store.heldAfter,
    h.loadProgression, Store.keepProgression_congr h.backing]

/-! ## Requests -/

/-- What the touched facts, in which the stores of the two sessions differ, leave as it is. -/
structure FactsStayLocal (touched : Set (LearnerId × ItemId)) (σ τ : Session) : Prop where
  /-- Answers, failures among them, to requests for modules that are all out of reach. The stores
  differ in the touched facts as before, and so in no progression. -/
  requested : ∀ (r : Request) ids, r.call.requested σ.store = some ids →
    (∀ l ∈ r.call.learners, ∀ id ∈ ids, σ.store.OutOfReach touched l id) →
    τ.answer r = σ.answer r ∧ (σ.next r).store.FactsApart touched (τ.next r).store
  /-- What two requests say of a module out of reach, whatever each of them asks for besides. -/
  given : ∀ (r r' : Request) a b learner id p q, r'.now = r.now →
    r'.evaluator.depthLimit = r.evaluator.depthLimit → σ.store.OutOfReach touched learner id →
    σ.answer r = .ok a → τ.answer r' = .ok b → r.call.Gives learner id a p →
    r'.call.Gives learner id b q → q = p
  /-- What two trees show of a module out of reach, with its items. -/
  shown : ∀ (r r' : Request) learner ns ns' n, r'.now = r.now →
    r'.evaluator.depthLimit = r.evaluator.depthLimit →
    σ.store.OutOfReach touched learner n.module.id → r.call = .tree learner →
    r'.call = .tree learner → σ.answer r = .ok (.navigation ns) →
    τ.answer r' = .ok (.navigation ns') → (n ∈ ns' ↔ n ∈ ns)
  /-- What two evaluations find and store of a module out of reach that both come to. -/
  found : ∀ (e e' : Evaluator) now learner ids ids' memo memo' σ' τ' id,
    e'.depthLimit = e.depthLimit → σ.store.OutOfReach touched learner id →
    e.evaluateClosure now learner ids σ = .ok memo σ' →
    e'.evaluateClosure now learner ids' τ = .ok memo' τ' →
    σ.store.InClosure ids id → σ.store.InClosure ids' id → memo'[id]? = memo[id]? ∧
      τ'.store.loadProgression learner id = σ'.store.loadProgression learner id
  /-- All answers of a run, if the touched facts are on items that are in no module any more. -/
  answers : ∀ rs : List Request,
    (∀ r ∈ rs, r.call.Evaluates ∧ ∀ l ∈ r.call.learners, σ.store.Unconcerned touched l) →
    τ.answers rs = σ.answers rs

/-- Facts on items that neither a module has nor any module that it requires make no difference to
what is evaluated of it. -/
theorem facts_act_locally (touched : Set (LearnerId × ItemId)) (σ τ : Session)
    (h : σ.store.FactsApart touched τ.store) : FactsStayLocal touched σ τ where
  requested r ids hr hout := by
    have htandem := tandem_of_outOfReach h hr hout
    rw [Session.answer_eq_outcome, Session.answer_eq_outcome, Session.next_eq_finish,
      Session.next_eq_finish]
    exact ⟨htandem.outcome_eq, htandem.finish.toFactsApart⟩
  given r r' a b learner id p q hnow hlimit hout ha hb hp hq := by
    have hfirst := reference_of_gives ha hp
    have hsecond := reference_of_gives hb hq
    rw [hnow, hlimit, h.reference_eq hout, hfirst] at hsecond
    exact (Option.some.inj hsecond).symm
  shown r r' learner ns ns' n hnow hlimit hout hr hr' ha hb := by
    rw [mem_tree_iff hr ha, mem_tree_iff hr' hb, hnow, hlimit]
    refine exists₂_congr fun m p => ?_
    rw [h.sameModules]
    refine and_congr_right fun _ => and_congr_left ?_
    rintro rfl
    have hout' : σ.store.OutOfReach touched learner m.id := hout
    rw [h.reference_eq hout']
  found e e' now learner ids ids' memo memo' σ' τ' id hlimit hout hσ hτ hin hin' :=
    Evaluated.agree h ((ends_evaluated e now learner ids σ).of_ok hσ)
      ((ends_evaluated e' now learner ids' τ).of_ok hτ) hlimit hin hin' hout
  answers rs hrs :=
    (answers_eq (fun _ _ _ hr h => tandem_of_unconcerned hr.1 hr.2 h) hrs h.abreast).1

/-! ## A fact of the second module, and one of no module -/

namespace Sample

def storeWithFacts : Store :=
  (store.putFact "ada" "cells-reading" .view none ⟨0, 0⟩).putFact "ada" "old-page" .view none ⟨0, 0⟩

def touchedFacts : Set (LearnerId × ItemId) := {("ada", "cells-reading"), ("ada", "old-page")}

theorem factsApart_store : store.FactsApart touchedFacts storeWithFacts where
  toSameButFacts := (Store.sameButFacts_putFact ..).trans (Store.sameButFacts_putFact ..)
  elsewhere l i hi := by
    simp only [touchedFacts, Set.mem_insert_iff, Set.mem_singleton_iff, Prod.mk.injEq,
      not_or] at hi
    rw [storeWithFacts, (Store.factsSet_putFact ..).itemFacts,
      if_neg fun h => hi.2 ⟨h.1.symm, h.2.symm⟩, (Store.factsSet_putFact ..).itemFacts,
      if_neg fun h => hi.1 ⟨h.1.symm, h.2.symm⟩]

theorem exists_module_storeWithFacts (h : storeWithFacts.hasModule id = true) :
    ∃ m, storeWithFacts.getModule id = .ok m := by
  rw [factsApart_store.sameModules.hasModule] at h
  rw [factsApart_store.getModule]
  exact exists_module_store h

theorem outOfReach_orientation : store.OutOfReach touchedFacts "ada" "orientation" := by
  intro m hm hreach
  rcases ReflTransGen.cases_head hreach with hid | ⟨b, hb, -⟩
  · rw [← hid, getModule_store] at hm
    cases hm
    intro i hi
    simp only [orientation, item, List.mem_cons, List.not_mem_nil, or_false] at hi
    rcases hi with rfl | rfl <;> simp [touchedFacts]
  · have hne := (requires_store hb).1
    simp at hne

def asksForFirst : Request := ⟨⟨1, none⟩, ⟨0, 0⟩, .evaluate "ada" "orientation"⟩

def asksForAll : Request := ⟨⟨4, none⟩, ⟨0, 0⟩, .evaluateAll "ada" none⟩

end Sample

theorem sample_facts_act_locally :
    Sample.store.FactsApart Sample.touchedFacts Sample.storeWithFacts ∧
    (Session.ofStore Sample.storeWithFacts).answer Sample.asksForFirst =
      (Session.ofStore Sample.store).answer Sample.asksForFirst ∧
    ∃ p qs, (Session.ofStore Sample.store).answer Sample.asksForFirst = .ok (.result p) ∧
      (Session.ofStore Sample.storeWithFacts).answer Sample.asksForAll = .ok (.results qs) ∧
      ("orientation", p) ∈ qs := by
  have hlocal := facts_act_locally Sample.touchedFacts (.ofStore Sample.store)
    (.ofStore Sample.storeWithFacts) Sample.factsApart_store
  refine ⟨Sample.factsApart_store, ?_, ?_⟩
  · refine (hlocal.requested Sample.asksForFirst ["orientation"] rfl fun l hl id hid => ?_).1
    obtain rfl := List.mem_singleton.1 hl
    obtain rfl := List.mem_singleton.1 hid
    exact Sample.outOfReach_orientation
  · have hone : (Evaluator.evaluate ⟨1, none⟩ ⟨0, 0⟩ "ada" "orientation").Ends
        (.ofStore Sample.store) _ (Refusal Sample.store "ada" ⟨0, 0⟩ none ["orientation"]) :=
      ends_evaluate_caughtUp (.refl Sample.store) "orientation"
    obtain ⟨p, σ', heval, -⟩ := hone.exists_ok fun f => Sample.not_refusal_store fun id hid => by
      obtain rfl := List.mem_singleton.1 hid
      rfl
    have hall : (Evaluator.evaluateEvery ⟨4, none⟩ ⟨0, 0⟩ "ada").Ends
        (.ofStore Sample.storeWithFacts) _ (Refusal Sample.storeWithFacts "ada" ⟨0, 0⟩ none
          (Sample.storeWithFacts.moduleIds none)) :=
      ends_evaluateEvery_caughtUp (.refl Sample.storeWithFacts)
    obtain ⟨qs, τ', hevery, hans, -⟩ := hall.exists_ok fun f =>
      not_refusal_of_memory rfl rfl fun id hid => Store.exists_module_of_inClosure
        (fun _ => Sample.exists_module_storeWithFacts) (fun _ => Store.mem_moduleIds.1) hid
    have hid : "orientation" ∈ qs.map Prod.fst := by
      rw [hans.asked_every]
      exact Store.mem_moduleIds.2 rfl
    obtain ⟨⟨_, q⟩, hmem, rfl⟩ := List.mem_map.1 hid
    have hp : (Session.ofStore Sample.store).answer Sample.asksForFirst = .ok (.result p) := by
      rw [Session.answer_eq_outcome]
      exact Action.outcome_of_ok (Action.bind_of_ok heval)
    have hqs : (Session.ofStore Sample.storeWithFacts).answer Sample.asksForAll =
        .ok (.results qs) := by
      rw [Session.answer_eq_outcome]
      exact Action.outcome_of_ok (Action.bind_of_ok hevery)
    obtain rfl : q = p := hlocal.given Sample.asksForFirst Sample.asksForAll _ _ "ada"
      "orientation" p q rfl rfl Sample.outOfReach_orientation hp hqs ⟨rfl, rfl, rfl⟩ ⟨rfl, hmem⟩
    exact ⟨q, qs, hp, hqs, hmem⟩

end Pathway
