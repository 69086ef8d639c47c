import Pathway.Proofs.Evaluation.Assessment
import Pathway.Proofs.Evaluation.Requests
import Pathway.Proofs.Evaluation.Steps

/-!
# Evaluating again

An evaluation that is repeated finds its own results stored. So it comes to them again, saves none
of them, and has no issue to report that was not reported before.
-/

namespace Pathway

open Evaluation

/-! ## What a first run leaves to a second -/

namespace Session

/-- At most the journal differs. -/
structure Undisturbed (σ τ : Session) : Prop where
  store : τ.store = σ.store
  issues : τ.issues = σ.issues
  saves : τ.saves = σ.saves

/-- From `σ` to `τ`, at most the learner's progressions on some modules were replaced, and no issue
was taken back. -/
structure Advanced (learner : LearnerId) (own : Set ModuleId) (σ τ : Session) : Prop where
  base : σ.store.SameBase τ.store
  untouched : ∀ id, id ∉ own →
    τ.store.loadProgression learner id = σ.store.loadProgression learner id
  reported : ∀ i : Issue, σ.issues.any i.same = true → τ.issues.any i.same = true

/-- What `σ` says of some modules still stands in `τ`. -/
structure Stands (learner : LearnerId) (own : Set ModuleId) (σ τ : Session) : Prop where
  facts : τ.store.itemFacts = σ.store.itemFacts
  held : ∀ id ∈ own, τ.store.loadProgression learner id = σ.store.loadProgression learner id
  reported : ∀ i : Issue, σ.issues.any i.same = true → τ.issues.any i.same = true

variable {learner : LearnerId} {own own' : Set ModuleId} {σ τ υ : Session}

theorem Undisturbed.refl (σ : Session) : σ.Undisturbed σ := ⟨rfl, rfl, rfl⟩

theorem Undisturbed.trans (h : σ.Undisturbed τ) (g : τ.Undisturbed υ) : σ.Undisturbed υ :=
  ⟨g.store.trans h.store, g.issues.trans h.issues, g.saves.trans h.saves⟩

theorem Advanced.refl (σ : Session) : σ.Advanced learner own σ :=
  ⟨.refl _, fun _ _ => rfl, fun _ h => h⟩

theorem Advanced.mono (h : σ.Advanced learner own τ) (ho : own ⊆ own') :
    σ.Advanced learner own' τ :=
  ⟨h.base, fun id hid => h.untouched id fun hm => hid (ho hm), h.reported⟩

theorem Advanced.trans (h : σ.Advanced learner own τ) (g : τ.Advanced learner own' υ) :
    σ.Advanced learner (own ∪ own') υ where
  base := h.base.trans g.base
  untouched id hid := by
    rw [Set.mem_union, not_or] at hid
    exact (g.untouched id hid.2).trans (h.untouched id hid.1)
  reported i hi := g.reported i (h.reported i hi)

theorem Stands.before (h : υ.Stands learner (own ∪ own') τ) (g : σ.Advanced learner own' υ)
    (hd : ∀ id ∈ own, id ∉ own') : σ.Stands learner own τ where
  facts := h.facts.trans g.base.itemFacts
  held id hid := (h.held id (Or.inl hid)).trans (g.untouched id (hd id hid))
  reported i hi := h.reported i (g.reported i hi)

theorem Stands.after (h : σ.Stands learner (own ∪ own') τ) (g : τ.Undisturbed υ) :
    σ.Stands learner own' υ where
  facts := (congrArg Store.itemFacts g.store).trans h.facts
  held id hid := by rw [g.store, h.held id (Or.inr hid)]
  reported i hi := by rw [g.issues, h.reported i hi]

theorem Stands.mono (h : σ.Stands learner own' τ) (ho : own ⊆ own') : σ.Stands learner own τ :=
  ⟨h.facts, fun id hid => h.held id (ho hid), h.reported⟩

theorem report_of_reported {i : Issue} (h : σ.issues.any i.same = true) : σ.report i = σ :=
  if_pos h

theorem reportAll_of_reported {is : List Issue} (h : ∀ i ∈ is, σ.issues.any i.same = true) :
    σ.reportAll is = σ := by
  induction is with
  | nil => rfl
  | cons i is ih =>
    have hrest := ih fun j hj => h j (List.mem_cons_of_mem _ hj)
    exact (congrArg (·.reportAll is) (report_of_reported (h i List.mem_cons_self))).trans hrest

theorem any_reportAll {is : List Issue} {i : Issue} :
    (σ.reportAll is).issues.any i.same = (σ.issues.any i.same || is.any i.same) := by
  induction is generalizing σ with
  | nil => rw [List.any_nil, Bool.or_false]; rfl
  | cons j is ih =>
    have h := ih (σ := σ.report j)
    rw [any_report, Bool.or_assoc] at h
    exact h

end Session

/-! ## Actions that can be repeated -/

namespace Action

variable {α β : Type} {learner : LearnerId} {own own' : Set ModuleId} {x y : Action α}
  {k : α → Action β}

/-- Where the action has ended and what it wrote still stands, it gives the same result again and
disturbs nothing. -/
def Repeats (x : Action α) (learner : LearnerId) (own : Set ModuleId) : Prop :=
  ∀ σ a σ', x σ = .ok a σ' → σ.Advanced learner own σ' ∧
    ∀ τ, σ'.Stands learner own τ → ∃ τ', x τ = .ok a τ' ∧ τ.Undisturbed τ'

theorem Repeats.mono (h : x.Repeats learner own) (ho : own ⊆ own') : x.Repeats learner own' := by
  intro σ a σ' hx
  obtain ⟨hadv, hagain⟩ := h σ a σ' hx
  exact ⟨hadv.mono ho, fun τ hτ => hagain τ (hτ.mono ho)⟩

theorem repeats_pure (a : α) : (pure a : Action α).Repeats learner own := by
  rintro σ _ _ ⟨⟩
  exact ⟨.refl σ, fun τ _ => ⟨τ, rfl, .refl τ⟩⟩

theorem Repeats.bind (hx : x.Repeats learner own) (hk : ∀ a, (k a).Repeats learner own')
    (hd : ∀ id ∈ own, id ∉ own') : (x >>= k).Repeats learner (own ∪ own') := by
  intro σ b υ h
  obtain ⟨a, τ, hxa, hkb⟩ := bind_eq_ok.1 h
  obtain ⟨hadv, hagain⟩ := hx σ a τ hxa
  obtain ⟨hadv', hagain'⟩ := hk a τ b υ hkb
  refine ⟨hadv.trans hadv', fun ρ hρ => ?_⟩
  obtain ⟨ρ', hxρ, hund⟩ := hagain ρ (hρ.before hadv' hd)
  obtain ⟨ρ'', hkρ, hund'⟩ := hagain' ρ' (hρ.after hund)
  exact ⟨ρ'', bind_eq_ok.2 ⟨a, ρ', hxρ, hkρ⟩, hund.trans hund'⟩

theorem repeats_note (n : Notice) : (note n).Repeats learner own := by
  rintro σ _ _ ⟨⟩
  exact ⟨⟨.refl _, fun _ _ => rfl, fun _ h => h⟩, fun τ _ => ⟨τ.note n, rfl, ⟨rfl, rfl, rfl⟩⟩⟩

theorem repeats_report (i : Issue) : (report i).Repeats learner own := by
  rintro σ _ _ ⟨⟩
  refine ⟨⟨?_, fun _ _ => ?_, fun j hj => ?_⟩, fun τ hτ => ⟨τ, ?_, .refl τ⟩⟩
  · rw [Session.store_report]
    exact .refl _
  · rw [Session.store_report]
  · rw [Session.any_report, hj, Bool.true_or]
  · have hi : (σ.report i).issues.any i.same = true := by
      rw [Session.any_report, Issue.same_refl, Bool.or_true]
    exact congrArg (EStateM.Result.ok ()) (Session.report_of_reported (hτ.reported i hi))

end Action

/-! ## One module -/

section Module

variable {run : Run} {m : Module} {met : Bool} {memo : Memo} {p : Progression} {σ τ : Session}

theorem Store.keepProgression_progressionIn (s t : Store) :
    s.keepProgression run.learner m.id (progressionIn run t m met) = progressionIn run t m met := by
  unfold Store.keepProgression
  split
  · rfl
  · have hl : (progressionIn run t m met).learner = run.learner := Assessment.learner_progression
    have hm : (progressionIn run t m met).module = m.id := Assessment.module_progression
    rw [← hl, ← hm]

theorem Store.loadProgression_saved {s t u : Store}
    (h : s.saveProgression run.learner m.id (progressionIn run u m met) = .ok t) :
    t.loadProgression run.learner m.id = some (progressionIn run u m met) := by
  obtain ⟨-, rfl⟩ := Store.saveProgression_eq_ok.1 h
  rw [Store.loadProgression_putProgression, if_pos ⟨rfl, rfl⟩, Store.keepProgression_progressionIn]

theorem progressionIn_again {s t : Store} (hf : t.itemFacts = s.itemFacts)
    (hl : t.loadProgression run.learner m.id = some (progressionIn run s m met)) :
    progressionIn run t m met = progressionIn run s m met := by
  unfold progressionIn at hl ⊢
  rw [hf, hl]
  exact Assessment.progression_again

theorem progressionIn_congr {s t : Store} (hf : t.itemFacts = s.itemFacts)
    (hl : t.loadProgression run.learner m.id = s.loadProgression run.learner m.id) :
    progressionIn run t m met = progressionIn run s m met := by
  unfold progressionIn
  rw [hf, hl]

theorem issuesIn_congr {s t : Store} (hf : t.itemFacts = s.itemFacts) :
    issuesIn run t m met = issuesIn run s m met := by
  unfold issuesIn
  rw [hf]

theorem evaluateModule_again {τ : Session} (hp : progressionIn run τ.store m met = p)
    (hsame : (τ.store.loadProgression run.learner m.id).any p.same = true)
    (hrep : ∀ i ∈ issuesIn run τ.store m met, τ.issues.any i.same = true) :
    ∃ τ', evaluateModule run m met memo τ = .ok (memo.insert m.id p) τ' ∧ τ.Undisturbed τ' := by
  refine ⟨_, (evaluateModule_apply hp).trans (if_pos hsame), ?_⟩
  rw [looked, Session.reportAll_of_reported hrep]
  exact ⟨rfl, rfl, rfl⟩

theorem repeats_evaluateModule :
    (evaluateModule run m met memo).Repeats run.learner {m.id} := by
  intro σ memo' σ' h
  obtain ⟨p, hp⟩ : ∃ p, progressionIn run σ.store m met = p := ⟨_, rfl⟩
  rw [evaluateModule_apply hp] at h
  have hlooked : ∀ i : Issue, (looked run m met σ).issues.any i.same =
      (σ.issues.any i.same || (issuesIn run σ.store m met).any i.same) :=
    fun i => Session.any_reportAll
  have hnoted : ∀ i ∈ issuesIn run σ.store m met,
      (looked run m met σ).issues.any i.same = true := by
    intro i hi
    rw [hlooked, List.any_eq_true.2 ⟨i, hi, i.same_refl⟩, Bool.or_true]
  split at h
  · next hsame =>
    -- Nothing was saved, and nothing will be.
    cases h
    refine ⟨⟨?_, fun id _ => ?_, fun i hi => ?_⟩, fun τ hτ => ?_⟩
    · rw [Session.store_note, store_looked]
      exact .refl _
    · rw [Session.store_note, store_looked]
    · exact (hlooked i).trans (by rw [hi, Bool.true_or])
    · have hf := hτ.facts
      have hl := hτ.held m.id rfl
      rw [Session.store_note, store_looked] at hf hl
      refine evaluateModule_again ((progressionIn_congr hf hl).trans hp) (hl ▸ hsame) fun i hi => ?_
      exact hτ.reported i (hnoted i (issuesIn_congr hf ▸ hi))
  · split at h
    · next s hs =>
      cases h
      obtain ⟨-, rfl⟩ := Store.saveProgression_eq_ok.1 hs
      refine ⟨⟨?_, fun id hid => ?_, fun i hi => ?_⟩, fun τ hτ => ?_⟩
      · exact Store.sameBase_putProgression _ _ _ _
      · refine Store.loadProgression_putProgression.trans (if_neg ?_)
        rintro ⟨-, rfl⟩
        exact hid rfl
      · exact (hlooked i).trans (by rw [hi, Bool.true_or])
      · -- What was saved is found, and leads to itself.
        have hf : τ.store.itemFacts = σ.store.itemFacts :=
          hτ.facts.trans (Store.sameBase_putProgression _ _ _ _).itemFacts
        have hl : τ.store.loadProgression run.learner m.id = some p :=
          (hτ.held m.id rfl).trans (hp ▸ Store.loadProgression_saved (hp ▸ hs))
        have hagain : progressionIn run τ.store m met = p :=
          (progressionIn_again hf (hp.symm ▸ hl)).trans hp
        refine evaluateModule_again hagain ?_ fun i hi => ?_
        · rw [hl]
          exact p.same_refl
        · exact hτ.reported i (hnoted i (issuesIn_congr hf ▸ hi))
    · cases h

end Module

/-! ## Components and generations -/

section Generations

variable {run : Run} {barred : Bool} {c : Graph.Component} {cs : List Graph.Component}
  {gens : List (List Graph.Component)} {d : Nat} {e : Evaluator} {memo : Memo}

/-- The modules of a run stand under their own ids. -/
def Evaluation.Run.Keyed (run : Run) : Prop :=
  ∀ (id : ModuleId) (m : Module), run.modules[id]? = some m → m.id = id

theorem repeats_evaluateMembers (hkey : run.Keyed)
    (hn : c.Nodup) : (evaluateMembers run barred c memo).Repeats run.learner {v | v ∈ c} := by
  induction c generalizing memo with
  | nil => exact Action.repeats_pure memo
  | cons v c ih =>
    obtain ⟨hv, hn'⟩ := List.nodup_cons.1 hn
    have hset : {u | u ∈ v :: c} = {v} ∪ {u | u ∈ c} := by
      ext u
      exact List.mem_cons
    rw [hset]
    unfold evaluateMembers
    split
    · exact (ih hn').mono Set.subset_union_right
    · next m hm =>
      obtain rfl := hkey v m hm
      exact repeats_evaluateModule.bind (fun memo => ih hn') fun _ h => h ▸ hv

theorem repeats_evaluateComponent (hkey : run.Keyed)
    (hn : c.Nodup) : (evaluateComponent run d c memo).Repeats run.learner {v | v ∈ c} := by
  have members : (evaluateMembers run (run.graph.isCyclic c || decide (run.limit ≤ d)) c
      memo).Repeats run.learner {v | v ∈ c} := repeats_evaluateMembers hkey hn
  have after : ∀ {x : Action Unit}, x.Repeats run.learner ∅ →
      (x >>= fun _ => evaluateMembers run (run.graph.isCyclic c || decide (run.limit ≤ d)) c
        memo).Repeats run.learner {v | v ∈ c} := by
    intro x hx
    rw [← Set.empty_union {v | v ∈ c}]
    exact hx.bind (fun _ => members) (fun _ h => h.elim)
  unfold evaluateComponent
  dsimp only
  split
  · exact after (Action.repeats_report _)
  · split
    · exact after (Action.repeats_note _)
    · exact members

theorem repeats_evaluateInTurn (hkey : run.Keyed)
    (hn : cs.flatten.Nodup) :
    (evaluateInTurn run d cs memo).Repeats run.learner {v | v ∈ cs.flatten} := by
  induction cs generalizing memo with
  | nil => exact Action.repeats_pure memo
  | cons c cs ih =>
    rw [List.flatten_cons, List.nodup_append'] at hn
    have hset : {v | v ∈ (c :: cs).flatten} = {v | v ∈ c} ∪ {v | v ∈ cs.flatten} := by
      ext v
      exact List.mem_append
    rw [hset]
    unfold evaluateInTurn
    exact (repeats_evaluateComponent hkey hn.1).bind (fun memo => ih hn.2.1)
      (fun v hv hv' => hn.2.2 hv hv')

theorem repeats_evaluateTogether (hkey : run.Keyed)
    (hn : cs.flatten.Nodup) :
    (evaluateTogether run d cs memo).Repeats run.learner {v | v ∈ cs.flatten} := by
  intro σ memo' σ' h
  obtain ⟨hadv, hagain⟩ := repeats_evaluateInTurn hkey hn σ memo' σ' (evaluateTogether_eq_ok.1 h)
  refine ⟨hadv, fun τ hτ => ?_⟩
  obtain ⟨τ', hτ', hund⟩ := hagain τ hτ
  exact ⟨τ', evaluateTogether_eq_ok.2 hτ', hund⟩

theorem repeats_evaluateGenerations (hkey : run.Keyed)
    (hn : gens.flatten.flatten.Nodup) :
    (evaluateGenerations e run d gens memo).Repeats run.learner {v | v ∈ gens.flatten.flatten} := by
  induction gens generalizing d memo with
  | nil => exact Action.repeats_pure memo
  | cons gen gens ih =>
    rw [List.flatten_cons, List.flatten_append, List.nodup_append'] at hn
    have hset : {v | v ∈ (gen :: gens).flatten.flatten} =
        {v | v ∈ gen.flatten} ∪ {v | v ∈ gens.flatten.flatten} := by
      ext v
      rw [List.flatten_cons, List.flatten_append]
      exact List.mem_append
    rw [hset]
    have hrest : ∀ memo', (evaluateGenerations e run (d + 1) gens memo').Repeats run.learner
        {v | v ∈ gens.flatten.flatten} := fun memo' => ih hn.2.1
    have hd : ∀ v ∈ gen.flatten, v ∉ gens.flatten.flatten := fun v hv hv' => hn.2.2 hv hv'
    unfold evaluateGenerations
    dsimp only
    split
    · exact (repeats_evaluateTogether hkey hn.1).bind hrest hd
    · exact (repeats_evaluateInTurn hkey hn.1).bind hrest hd

end Generations

/-! ## Requests -/

section Requests

variable {e : Evaluator} {now : Instant} {learner : LearnerId} {ids : List ModuleId}
  {σ σ' : Session} {memo : Memo}

theorem Store.required_congr {s t : Store} (h : s.SameBase t) :
    t.required learner ids = s.required learner ids := by
  have hget : t.getModule = s.getModule := funext h.getModule
  unfold Store.required closure
  rw [h.hasLearner, hget, h.modules]

/-- An evaluation that ended well can be repeated, and changes nothing when it is. -/
theorem evaluateClosure_again (h : e.evaluateClosure now learner ids σ = .ok memo σ') :
    σ.store.SameBase σ'.store ∧
      ∃ σ'', e.evaluateClosure now learner ids σ' = .ok memo σ'' ∧ σ'.Undisturbed σ'' := by
  obtain ⟨run, τ, hplan, hgens⟩ := Action.bind_eq_ok.1 h
  obtain ⟨-, ⟨all, hc, rfl⟩, hstore, -⟩ := (ends_plan e now learner ids σ).of_ok hplan
  have hn := (Graph.perm_nodes (Graph.wellFormed_ofModules all)).nodup_iff.2
    (Graph.wellFormed_ofModules all).nodup
  obtain ⟨hadv, hagain⟩ := repeats_evaluateGenerations
    (fun _ _ h => (hc.mem_of_tableOf h).2) hn τ memo σ' hgens
  have hbase := hadv.base
  rw [hstore] at hbase
  refine ⟨hbase, ?_⟩
  -- The plan depends on the learners and the modules, and these are as they were.
  rw [plan_apply, ← Store.required_congr hbase] at hplan
  split at hplan
  · next all' hall =>
    obtain ⟨hrun, -⟩ := EStateM.Result.ok.inj hplan
    have hplan' : e.plan now learner ids σ' =
        .ok (runOf e learner now all) (σ'.noteAll (unknownNotices all')) := by
      rw [plan_apply, hall, ← hrun]
    have hquiet : σ'.Undisturbed (σ'.noteAll (unknownNotices all')) :=
      ⟨Session.store_noteAll _, Session.issues_noteAll _, Session.saves_noteAll _⟩
    obtain ⟨σ'', hgens', hund⟩ := hagain (σ'.noteAll (unknownNotices all'))
      ⟨by rw [hquiet.store], fun id _ => by rw [hquiet.store],
        fun i hi => by rw [hquiet.issues, hi]⟩
    exact ⟨σ'', Action.bind_eq_ok.2 ⟨_, _, hplan', hgens'⟩, hquiet.trans hund⟩
  · cases hplan

theorem evaluateAll_again {results : List (ModuleId × Progression)}
    (h : e.evaluateAll now learner ids σ = .ok results σ') :
    σ.store.SameBase σ'.store ∧
      ∃ σ'', e.evaluateAll now learner ids σ' = .ok results σ'' ∧ σ'.Undisturbed σ'' := by
  obtain ⟨memo, hmemo, rfl⟩ := Action.bind_pure_eq_ok.1 h
  obtain ⟨hbase, σ'', hagain, hund⟩ := evaluateClosure_again hmemo
  exact ⟨hbase, σ'', Action.bind_pure_eq_ok.2 ⟨memo, hagain, rfl⟩, hund⟩

theorem evaluateEvery_apply (h : σ.store.hasLearner learner = true) :
    e.evaluateEvery now learner σ = e.evaluateAll now learner (σ.store.moduleIds none) σ :=
  Action.bind_of_ok (by rw [requireLearner_apply, if_pos h])

theorem evaluateEvery_of_unknown (h : σ.store.hasLearner learner = false) :
    e.evaluateEvery now learner σ = .error (.notFound .learner learner) σ :=
  Action.bind_of_error (by rw [requireLearner_apply, h, if_neg Bool.false_ne_true])

theorem ends_evaluateEvery (e : Evaluator) (now : Instant) (learner : LearnerId) (σ : Session) :
    (e.evaluateEvery now learner).Ends σ (fun _ _ => σ.store.hasLearner learner = true)
      (Refusal σ.store learner now e.depthLimit (σ.store.moduleIds none)) := by
  unfold Evaluator.evaluateEvery
  refine ends_requireLearner.bind ?_
  rintro _ _ ⟨rfl, hl⟩
  exact Action.ends_ask ((ends_evaluateAll e now learner _ _).imp (fun _ _ _ => hl) fun _ h => h)

/-- An evaluation at the same moment as the one before it gives the same results, saves nothing,
leaves the store as it is and reports no issue. -/
theorem evaluation_idempotent (e : Evaluator) (now : Instant) (learner : LearnerId)
    (σ : Session) :
    (∀ ids, (e.evaluateAll now learner ids).Ends σ
      (fun results σ' => ∃ σ'', e.evaluateAll now learner ids σ' = .ok results σ'' ∧
        σ'.Undisturbed σ'')
      (Refusal σ.store learner now e.depthLimit ids)) ∧
    (e.evaluateEvery now learner).Ends σ
      (fun results σ' => ∃ σ'', e.evaluateEvery now learner σ' = .ok results σ'' ∧
        σ'.Undisturbed σ'')
      (Refusal σ.store learner now e.depthLimit (σ.store.moduleIds none)) ∧
    ∀ id, (e.evaluate now learner id).Ends σ
      (fun p σ' => ∃ σ'', e.evaluate now learner id σ' = .ok p σ'' ∧ σ'.Undisturbed σ'')
      (Refusal σ.store learner now e.depthLimit [id]) := by
  refine ⟨fun ids => ?_, ?_, fun id => ?_⟩
  · exact (ends_evaluateAll e now learner ids σ).imp_ok fun results σ' h => (evaluateAll_again h).2
  · refine (ends_evaluateEvery e now learner σ).imp_ok fun results σ' h => ?_
    have hl := (ends_evaluateEvery e now learner σ).of_ok h
    rw [evaluateEvery_apply hl] at h
    obtain ⟨hbase, σ'', hagain, hund⟩ := evaluateAll_again h
    rw [← hbase.hasLearner] at hl
    rw [← hbase.moduleIds] at hagain
    exact ⟨σ'', (evaluateEvery_apply hl).trans hagain, hund⟩
  · refine (ends_evaluate e now learner id σ).imp_ok fun p σ' h => ?_
    obtain ⟨results, τ, hresults, hp⟩ := Action.bind_eq_ok.1 h
    obtain ⟨-, σ'', hagain, hund⟩ := evaluateAll_again hresults
    split at hp
    · next q rest =>
      cases hp
      exact ⟨σ'', Action.bind_eq_ok.2 ⟨_, _, hagain, rfl⟩, hund⟩
    · cases hp

end Requests

end Pathway
