import Pathway.Proofs.Calls.Boundary

/-!
# Learners by themselves

A request that evaluates for some learners writes nothing but progressions of theirs, and of other
learners it reads nothing. So an evaluation for several learners gives each of them what an
evaluation for that one alone gives.
-/

open Relation

namespace Pathway

open Evaluation

variable {s t u : Store} {Who : Set LearnerId} {l learner : LearnerId} {id : ModuleId}
  {ids : List ModuleId} {p : Progression} {f : Failure} {σ τ υ : Session} {e : Evaluator}
  {now : Instant} {r : Request} {rs : List Request}

/-! ## What is written -/

/-- What is saved for some learners leaves the rest as it was. -/
structure Store.KeepsBut (Who : Set LearnerId) (s t : Store) : Prop extends Store.SameBase s t where
  others : ∀ l ∉ Who, ∀ id, t.loadProgression l id = s.loadProgression l id

theorem keepsBut_next (hr : r.call.Evaluates) (σ : Session) :
    σ.store.KeepsBut {l | l ∈ r.call.learners} (σ.next r).store := by
  refine (kept_of_save_for (I := σ.store.KeepsBut {l | l ∈ r.call.learners})
    fun s t l id p hl h ht => ⟨h.save ht, fun l' hl' id' => ?_⟩).next_for hr (fun _ h => h)
    ⟨.refl σ.store, fun _ _ _ => rfl⟩
  obtain ⟨-, rfl⟩ := Store.saveProgression_eq_ok.1 ht
  rw [Store.loadProgression_putProgression, if_neg]
  · exact h.others l' hl' id'
  · rintro ⟨rfl, -⟩
    exact hl' hl

/-! ## What is read -/

/-- For some learners the two stores look the same. -/
structure Store.AgreesFor (Who : Set LearnerId) (s t : Store) : Prop where
  backing : t.backing = s.backing
  getModule : ∀ id, t.getModule id = s.getModule id
  moduleIds : t.moduleIds none = s.moduleIds none
  hasLearner : ∀ l ∈ Who, t.hasLearner l = s.hasLearner l
  itemFacts : ∀ l ∈ Who, t.itemFacts l = s.itemFacts l
  loadProgression : ∀ l ∈ Who, ∀ id, t.loadProgression l id = s.loadProgression l id

namespace Store.AgreesFor

theorem putProgression (h : s.AgreesFor Who t) :
    (s.putProgression learner id p).AgreesFor Who (t.putProgression learner id p) where
  backing := by rw [backing_putProgression, backing_putProgression, h.backing]
  getModule i := by rw [getModule_putProgression, getModule_putProgression, h.getModule]
  moduleIds := by rw [moduleIds_putProgression, moduleIds_putProgression, h.moduleIds]
  hasLearner l hl := by rw [hasLearner_putProgression, hasLearner_putProgression, h.hasLearner l hl]
  itemFacts l hl := by
    funext i
    rw [itemFacts_putProgression, itemFacts_putProgression, h.itemFacts l hl]
  loadProgression l hl i := by
    rw [loadProgression_putProgression, loadProgression_putProgression,
      keepProgression_congr h.backing, h.loadProgression l hl]

theorem accord (Who : Set LearnerId) :
    Accord Who (fun σ τ => σ.store.AgreesFor Who τ.store) Eq fun _ => True where
  note h _ := h
  report h i := by
    rw [Session.store_report, Session.store_report]
    exact h
  state h := by rw [h]
  assess {σ τ run m met memo memo'} hl h _ hmemo := by
    obtain rfl : _ = _ := hmemo.eq
    refine tandem_evaluateModule (h.loadProgression _ hl m.id) ?_ ?_ (fun h _ => h)
      fun h => tandem_saveProgression h h.backing h.putProgression
    · unfold progressionIn
      rw [h.itemFacts _ hl, h.loadProgression _ hl]
    · rw [store_looked, store_looked]
      exact h
  hasLearner hl h := h.hasLearner _ hl
  getModule h := h.getModule
  moduleIds h := h.moduleIds
  good _ _ := trivial
  met h := by rw [h]
  collapsed h := by rw [h]
  fold h := by rw [h]
  save _ h hpq _ := hpq ▸ tandem_saveProgression h h.backing h.putProgression

end Store.AgreesFor

theorem tandem_of_agreesFor (hr : r.call.Evaluates) (hls : ∀ l ∈ r.call.learners, l ∈ Who)
    (h : σ.store.AgreesFor Who τ.store) :
    (r.call.perform r.evaluator r.now).Tandem (r.call.perform r.evaluator r.now) σ τ Eq
      fun σ τ => σ.store.AgreesFor Who τ.store :=
  (Store.AgreesFor.accord Who).perform_eq hr hls h

theorem answers_of_agreesFor
    (hrs : ∀ r ∈ rs, r.call.Evaluates ∧ ∀ l ∈ r.call.learners, l ∈ Who)
    (h : σ.store.AgreesFor Who τ.store) :
    τ.answers rs = σ.answers rs ∧ (σ.after rs).store.AgreesFor Who (τ.after rs).store :=
  answers_eq (fun _ _ _ hr h => tandem_of_agreesFor hr.1 hr.2 h) hrs h

/-! ## Closures -/

/-- The modules that the call asks for, if it asks for the progressions of certain modules. -/
def Call.requested (s : Store) : Call → Option (List ModuleId)
  | evaluate _ id => some [id]
  | evaluateAll _ ids => some (ids.getD (s.moduleIds none))
  | evaluateLearners id _ => some [id]
  | _ => none

theorem InStep.perform {R : Session → Session → Prop} {Good : Module → Prop} {c : Call}
    (ha : InStep Who R Eq Good)
    (hlearner : ∀ {σ τ}, R σ τ → ∀ l ∈ Who, τ.store.hasLearner l = σ.store.hasLearner l)
    (hmodule : ∀ {σ τ}, R σ τ → ∀ id, τ.store.getModule id = σ.store.getModule id)
    (hids : ∀ {σ τ}, R σ τ → τ.store.moduleIds none = σ.store.moduleIds none)
    (hgood : ∀ {σ τ}, R σ τ → ∀ id m, σ.store.InClosure ids id →
      σ.store.getModule id = .ok m → Good m)
    (hls : ∀ l ∈ c.learners, l ∈ Who) (hc : c.requested σ.store = some ids) (hR : R σ τ) :
    (c.perform e now).Tandem (c.perform e now) σ τ Eq R := by
  have hrequired : ∀ {σ τ}, R σ τ → ∀ l ∈ Who,
      τ.store.required l ids = σ.store.required l ids := fun hR l hl =>
    Store.required_agree (hlearner hR l hl) (hmodule hR)
  cases c with
  | evaluate l i =>
    cases hc
    have hl := hls l (List.mem_singleton.2 rfl)
    exact (ha.evaluate hl hR (hrequired hR l hl) (hgood hR)).bind fun p q σ τ _ hpq hR =>
      Action.tandem_pure (by rw [hpq]) hR
  | evaluateAll l is =>
    have hl := hls l (List.mem_singleton.2 rfl)
    have hall : (e.evaluateAll now l ids).Tandem (e.evaluateAll now l ids) σ τ (SameResults Eq) R :=
      ha.evaluateAll hl hR (hrequired hR l hl) (hgood hR)
    cases is with
    | some is =>
      cases hc
      exact hall.bind fun ps qs σ τ _ hpq hR => Action.tandem_pure (by rw [hpq.eq]) hR
    | none =>
      cases hc
      refine Action.Tandem.bind (S := SameResults Eq) (R := R) ?_
        fun ps qs σ τ _ hpq hR => Action.tandem_pure (by rw [hpq.eq]) hR
      unfold Action.Tandem at hall ⊢
      cases hknown : σ.store.hasLearner l with
      | true =>
        rw [evaluateEvery_apply hknown, evaluateEvery_apply ((hlearner hR l hl).trans hknown),
          hids hR]
        exact hall
      | false =>
        rw [evaluateEvery_of_unknown hknown,
          evaluateEvery_of_unknown ((hlearner hR l hl).trans hknown)]
        exact ⟨rfl, hR⟩
  | evaluateLearners i ls =>
    cases hc
    refine (tandem_evaluateLearners (fun l hl σ τ hR => ?_) hR).bind
      fun ps qs σ τ _ hpq hR => Action.tandem_pure (by rw [hpq.eq]) hR
    exact ha.evaluate (hls l hl) hR (hrequired hR l (hls l hl)) (hgood hR)
  | _ => cases hc

/-- What is saved of some modules and all they require leaves the rest as it was. -/
structure Store.KeepsOutside (ids : List ModuleId) (s t : Store) : Prop
    extends Store.SameBase s t where
  outside : ∀ l id, ¬ (s.InClosure ids id ∧ s.hasModule id = true) →
    t.loadProgression l id = s.loadProgression l id

namespace Store.KeepsOutside

theorem save (h : s.KeepsOutside ids t) (hid : s.InClosure ids id ∧ s.hasModule id = true)
    (hu : t.saveProgression learner id p = .ok u) : s.KeepsOutside ids u := by
  refine ⟨h.toSameBase.save hu, fun l i hi => ?_⟩
  obtain ⟨-, rfl⟩ := saveProgression_eq_ok.1 hu
  rw [loadProgression_putProgression, if_neg]
  · exact h.outside l i hi
  · rintro ⟨-, rfl⟩
    exact hi hid

theorem inStep (s : Store) (ids : List ModuleId) :
    InStep Set.univ (fun σ τ => τ = σ ∧ s.KeepsOutside ids σ.store) Eq fun m =>
      s.InClosure ids m.id ∧ s.hasModule m.id = true := by
  refine inStep_self (fun h _ => h) (fun h i => ?_) fun {σ run m met memo} _ h hm => ?_
  · rw [Session.store_report]
    exact h
  · rcases store_finish_evaluateModule run m met memo σ with hs | hs
    · rw [hs]
      exact h
    · exact h.save hm hs

theorem good {m : Module} (h : s.KeepsOutside ids t) (hin : t.InClosure ids id)
    (hm : t.getModule id = .ok m) : s.InClosure ids m.id ∧ s.hasModule m.id = true := by
  obtain rfl := id_of_getModule hm
  exact ⟨h.sameModules.inClosure ▸ hin,
    hasModule_of_getModule ((h.getModule m.id).symm.trans hm)⟩

end Store.KeepsOutside

theorem keepsOutside_next (hr : r.call.requested σ.store = some ids) :
    σ.store.KeepsOutside ids (σ.next r).store := by
  have htandem : (r.call.perform r.evaluator r.now).Tandem (r.call.perform r.evaluator r.now) σ σ
      Eq fun τ υ => υ = τ ∧ σ.store.KeepsOutside ids τ.store := by
    refine (Store.KeepsOutside.inStep σ.store ids).perform (fun h _ _ => ?_) (fun h _ => ?_)
      (fun h => ?_) (fun h _ _ => h.2.good) (fun _ _ => trivial) hr
      ⟨rfl, .refl σ.store, fun _ _ _ => rfl⟩
    · rw [h.1]
    · rw [h.1]
    · rw [h.1]
  rw [Session.next_eq_finish]
  exact htandem.finish.2

/-! ## Several learners -/

theorem Store.KeepsBut.agreesFor (h : s.KeepsBut {l' | l' ∈ [l]} t) (hne : learner ≠ l) :
    s.AgreesFor {learner} t where
  backing := h.backing
  getModule := h.getModule
  moduleIds := h.moduleIds
  hasLearner i _ := h.hasLearner i
  itemFacts i _ := congrFun h.itemFacts i
  loadProgression i hi id := by
    obtain rfl := Set.mem_singleton_iff.1 hi
    exact h.others i (fun hmem => hne (List.mem_singleton.1 hmem)) id

theorem Store.AgreesFor.mono {Who' : Set LearnerId} (h : s.AgreesFor Who t) (hsub : Who' ⊆ Who) :
    s.AgreesFor Who' t where
  backing := h.backing
  getModule := h.getModule
  moduleIds := h.moduleIds
  hasLearner l hl := h.hasLearner l (hsub hl)
  itemFacts l hl := h.itemFacts l (hsub hl)
  loadProgression l hl := h.loadProgression l (hsub hl)

theorem Store.AgreesFor.refl (s : Store) : s.AgreesFor Who s where
  backing := rfl
  getModule _ := rfl
  moduleIds := rfl
  hasLearner _ _ := rfl
  itemFacts _ _ := rfl
  loadProgression _ _ _ := rfl

theorem Store.AgreesFor.trans (h : s.AgreesFor Who t) (g : t.AgreesFor Who u) :
    s.AgreesFor Who u where
  backing := g.backing.trans h.backing
  getModule id := (g.getModule id).trans (h.getModule id)
  moduleIds := g.moduleIds.trans h.moduleIds
  hasLearner l hl := (g.hasLearner l hl).trans (h.hasLearner l hl)
  itemFacts l hl := (g.itemFacts l hl).trans (h.itemFacts l hl)
  loadProgression l hl id := (g.loadProgression l hl id).trans (h.loadProgression l hl id)

/-- From the one session to the other, some learners have been evaluated on the module. For the
others nothing has changed. -/
structure Midway (e : Evaluator) (now : Instant) (id : ModuleId) (σ τ : Session) : Prop where
  base : σ.store.SameBase τ.store
  each : ∀ l, σ.store.AgreesFor {l} τ.store ∨
    (∃ p, e.Finds now l σ id p) ∧ σ.store.CaughtUp l now e.depthLimit τ.store

namespace Midway

theorem refl (σ : Session) : Midway e now id σ σ :=
  ⟨.refl σ.store, fun _ => Or.inl ⟨rfl, fun _ => rfl, rfl, fun _ _ => rfl, fun _ _ => rfl,
    fun _ _ _ => rfl⟩⟩

theorem caughtUp (h : Midway e now id σ τ) (l : LearnerId) :
    σ.store.CaughtUp l now e.depthLimit τ.store := by
  rcases h.each l with h' | ⟨-, h'⟩
  · exact ⟨h.base, fun i => Or.inl (h'.loadProgression l rfl i)⟩
  · exact h'

theorem outcome_evaluate (h : Midway e now id σ τ) (l : LearnerId) :
    (e.evaluate now l id).outcome τ = (e.evaluate now l id).outcome σ := by
  rcases h.each l with h' | ⟨⟨p, hp⟩, h'⟩
  · exact (((Store.AgreesFor.accord {l}).evaluate rfl h').outcome_eq)
  · -- What was found once is found again.
    obtain ⟨q, τ', hq, hans, -⟩ := (ends_evaluate_caughtUp h' id).exists_ok hp.not_refusal
    have href := hans.result (id, q) List.mem_cons_self
    obtain rfl := Option.some.inj (hp.reference.symm.trans href)
    obtain ⟨σ', hp⟩ := hp
    rw [Action.outcome_of_ok hq, Action.outcome_of_ok hp]

theorem evaluate (h : Midway e now id σ τ) {l : LearnerId}
    (hp : e.evaluate now l id τ = .ok p υ) : Midway e now id σ υ := by
  have hkeeps : τ.store.KeepsBut {l' | l' ∈ [l]} υ.store := by
    have hnext := keepsBut_next (r := ⟨e, now, .evaluate l id⟩) trivial τ
    rwa [Session.next_eq_finish, Call.perform, Action.finish_bind fun _ _ => rfl, Action.finish, hp]
      at hnext
  refine ⟨h.base.trans hkeeps.toSameBase, fun l' => ?_⟩
  by_cases hl : l' = l
  · subst hl
    have hfound := h.outcome_evaluate l'
    rw [Action.outcome_of_ok hp] at hfound
    exact Or.inr ⟨⟨p, Action.outcome_eq_ok.1 hfound.symm⟩,
      ((ends_evaluate_caughtUp (h.caughtUp l') id).of_ok hp).2⟩
  · rcases h.each l' with h' | ⟨hfound, h'⟩
    · exact Or.inl (h'.trans (hkeeps.agreesFor hl))
    · refine Or.inr ⟨hfound, h'.toSameBase.trans hkeeps.toSameBase, fun i => ?_⟩
      rw [(hkeeps.agreesFor hl).loadProgression l' rfl i]
      exact h'.held i

theorem outcome_mapM (h : Midway e now id σ τ) (ls : List LearnerId) :
    (ls.mapM fun l => do return (l, ← e.evaluate now l id)).outcome τ =
      ls.mapM fun l => ((e.evaluate now l id).outcome σ).map (l, ·) := by
  induction ls generalizing τ with
  | nil => rfl
  | cons l ls ih =>
    have hone : (do return (l, ← e.evaluate now l id) : Action _).outcome τ =
        ((e.evaluate now l id).outcome σ).map (l, ·) := by
      rw [Action.outcome_bind_pure, h.outcome_evaluate]
    rw [List.mapM_cons, List.mapM_cons, ← hone]
    cases hp : e.evaluate now l id τ with
    | error f υ =>
      have hbind := Action.bind_of_error (k := fun p => pure (l, p)) hp
      rw [Action.outcome_bind_of_error hbind, Action.outcome_of_error hbind]
      rfl
    | ok p υ =>
      have hbind := Action.bind_of_ok (k := fun p => pure (l, p)) hp
      rw [Action.outcome_bind_of_ok hbind, Action.outcome_of_ok hbind, Action.outcome_bind_pure,
        ih (h.evaluate hp)]
      cases ls.mapM fun l => ((e.evaluate now l id).outcome σ).map (l, ·) <;> rfl

end Midway

theorem find?_reverse_map {β : Type} (v : String → β) {ls : List String} {l : String}
    (hl : l ∈ ls) : (ls.map fun l => (l, v l)).reverse.find? (·.1 == l) = some (l, v l) := by
  cases hx : (ls.map fun l => (l, v l)).reverse.find? (·.1 == l) with
  | none =>
    have hmem : (l, v l) ∈ (ls.map fun l => (l, v l)).reverse :=
      List.mem_reverse.2 (List.mem_map_of_mem hl)
    exact absurd (beq_self_eq_true l) (List.find?_eq_none.1 hx _ hmem)
  | some x =>
    obtain ⟨l', -, rfl⟩ := List.mem_map.1 (List.mem_reverse.1 (List.mem_of_find?_eq_some hx))
    have hkey := List.find?_some hx
    obtain rfl : l' = l := beq_iff_eq.1 hkey
    rfl

/-- The results of all are shown once for each learner, at the learner's first place. -/
theorem mapM_eraseDups {g : LearnerId → Except Failure Progression} (ls : List LearnerId) :
    (ls.mapM fun l => (g l).map (l, ·)).map
        (fun results => ls.eraseDups.filterMap fun l => results.reverse.find? (·.1 == l)) =
      ls.eraseDups.mapM fun l => (g l).map (l, ·) := by
  have hgood : ∀ l, (!(g l).isOk) = false → ∃ p, g l = .ok p := by
    intro l hl
    cases hg : g l with
    | ok p => exact ⟨p, rfl⟩
    | error f =>
      rw [hg] at hl
      cases hl
  have hgood' : ∀ l, (!(g l).isOk) = false → ∃ r, (g l).map (l, ·) = .ok r := fun l hl =>
    (hgood l hl).elim fun p hp => ⟨(l, p), by rw [hp]; rfl⟩
  cases hbad : ls.find? fun l => !(g l).isOk with
  | some l =>
    -- The first failure is met in both lists.
    obtain ⟨f, hf⟩ : ∃ f, (g l).map (l, ·) = .error f := by
      have hl := List.find?_some hbad
      cases hg : g l with
      | ok p =>
        rw [hg] at hl
        cases hl
      | error f => exact ⟨f, rfl⟩
    rw [mapM_eq_error hbad hf hgood',
      mapM_eq_error ((find?_eraseDups _ ls).trans hbad) hf hgood']
    rfl
  | none =>
    have hall : ∀ l ∈ ls, ∃ p, g l = .ok p := fun l hl =>
      hgood l (by simpa using List.find?_eq_none.1 hbad l hl)
    choose! p hp using hall
    have hr : ∀ l ∈ ls, (g l).map (l, ·) = .ok (l, p l) := fun l hl => by rw [hp l hl]; rfl
    rw [mapM_eq_ok hr, mapM_eq_ok fun l hl => hr l (List.mem_eraseDups.1 hl)]
    refine congrArg Except.ok ?_
    dsimp only
    rw [List.filterMap_congr fun l hl => find?_reverse_map p (List.mem_eraseDups.1 hl)]
    exact congrFun List.filterMap_eq_map _

theorem outcome_evaluateLearners (σ : Session) (ls : List LearnerId) :
    (e.evaluateLearners now id ls).outcome σ =
      ls.eraseDups.mapM fun l => ((e.evaluate now l id).outcome σ).map (l, ·) := by
  unfold Evaluator.evaluateLearners
  rw [Action.outcome_bind_pure, (Midway.refl σ).outcome_mapM, mapM_eraseDups]

/-! ## Requests -/

/-- What a request writes, and what its answer rests on. -/
structure Isolated (r : Request) : Prop where
  /-- Modules, courses, learners and facts stay. -/
  base : ∀ σ : Session, σ.store.SameBase (σ.next r).store
  /-- Progressions of other learners stay. -/
  others : ∀ σ : Session, ∀ l ∉ r.call.learners, ∀ id,
    (σ.next r).store.loadProgression l id = σ.store.loadProgression l id
  /-- Where certain modules are asked for, those of modules that they do not lead to stay. -/
  outside : ∀ (σ : Session) ids, r.call.requested σ.store = some ids → ∀ l id,
    ¬ (σ.store.InClosure ids id ∧ σ.store.hasModule id = true) →
    (σ.next r).store.loadProgression l id = σ.store.loadProgression l id
  /-- Where the stores look the same for the learners, so do the answers. -/
  same : ∀ σ τ : Session, σ.store.AgreesFor {l | l ∈ r.call.learners} τ.store →
    τ.answer r = σ.answer r
  /-- Each of several learners gets what that learner alone would have got. -/
  each : ∀ (σ : Session) id ls, r.call = .evaluateLearners id ls → σ.answer r =
    (ls.eraseDups.mapM fun l =>
      ((r.evaluator.evaluate r.now l id).outcome σ).map (l, ·)).map Answer.results

/-- A request that evaluates for some learners does it apart from all others. The same goes for runs
of such requests. -/
theorem learners_isolated :
    (∀ r : Request, r.call.Evaluates → Isolated r) ∧
    ∀ (Who : Set LearnerId) (rs : List Request),
      (∀ r ∈ rs, r.call.Evaluates ∧ ∀ l ∈ r.call.learners, l ∈ Who) →
      ∀ σ τ : Session, σ.store.AgreesFor Who τ.store → τ.answers rs = σ.answers rs := by
  refine ⟨fun r hr => ⟨fun σ => (keepsBut_next hr σ).toSameBase,
    fun σ => (keepsBut_next hr σ).others, fun σ ids hids => (keepsOutside_next hids).outside,
    fun σ τ h => ?_, fun σ id ls hc => ?_⟩, fun Who rs hrs σ τ h => (answers_of_agreesFor hrs h).1⟩
  · rw [Session.answer_eq_outcome, Session.answer_eq_outcome]
    exact (tandem_of_agreesFor hr (fun _ hl => hl) h).outcome_eq
  · rw [Session.answer_eq_outcome, hc, Call.perform, Action.outcome_bind_pure,
      outcome_evaluateLearners]

namespace Sample

/-- A second learner, who has seen a module. -/
def storeOfTwo : Store :=
  (store.addLearner "eve" "Eve").putProgression "eve" "orientation"
    (Assessment.locked "eve" orientation none)

theorem agreesFor_ada : store.AgreesFor {"ada"} storeOfTwo where
  backing := rfl
  getModule _ := rfl
  moduleIds := rfl
  hasLearner l hl := by
    obtain rfl := Set.mem_singleton_iff.1 hl
    decide +kernel
  itemFacts _ _ := rfl
  loadProgression l hl id := by
    obtain rfl := Set.mem_singleton_iff.1 hl
    rw [storeOfTwo, Store.loadProgression_putProgression, if_neg (by simp)]
    rfl

end Sample

theorem sample_learners_isolated :
    (Session.ofStore Sample.storeOfTwo).answer ⟨⟨1, none⟩, ⟨0, 0⟩, .summary "ada"⟩ =
      (Session.ofStore Sample.store).answer ⟨⟨1, none⟩, ⟨0, 0⟩, .summary "ada"⟩ ∧
    (Session.ofStore Sample.storeOfTwo).answer
        ⟨⟨1, none⟩, ⟨0, 0⟩, .evaluateLearners "cells" ["eve", "ada", "eve"]⟩ =
      (["eve", "ada"].mapM fun l =>
        ((Evaluator.evaluate ⟨1, none⟩ ⟨0, 0⟩ l "cells").outcome
          (.ofStore Sample.storeOfTwo)).map (l, ·)).map Answer.results := by
  constructor
  · refine (learners_isolated.1 ⟨⟨1, none⟩, ⟨0, 0⟩, .summary "ada"⟩ trivial).same
      (.ofStore Sample.store) (.ofStore Sample.storeOfTwo) ?_
    exact Sample.agreesFor_ada.mono fun l hl => List.mem_singleton.1 hl
  · exact (learners_isolated.1
      ⟨⟨1, none⟩, ⟨0, 0⟩, .evaluateLearners "cells" ["eve", "ada", "eve"]⟩ trivial).each
      (.ofStore Sample.storeOfTwo) "cells" ["eve", "ada", "eve"] rfl

end Pathway
