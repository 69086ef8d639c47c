import Pathway.Proofs.Evaluation.Agreement
import Pathway.Proofs.Evaluation.Requests
import Pathway.Proofs.Tandem

/-!
# Evaluations side by side

Two evaluations from sessions that belong together go in tandem, from the members of a component up
to the requests of a learner, if the assessments of one module do.
-/

namespace Pathway

open Evaluation

/-! ## Memos and results -/

section Results

variable {S : Progression → Progression → Prop} {memo memo' : Memo} {id : ModuleId}
  {p q : Progression}

/-- Two memos have progressions of the same modules, and these belong together. -/
abbrev SameMemo (S : Progression → Progression → Prop) (memo memo' : Memo) : Prop :=
  SameTable S memo memo'

/-- Results for the same keys in the same order, and they belong together. -/
def SameResults (S : Progression → Progression → Prop) :
    List (String × Progression) → List (String × Progression) → Prop :=
  List.Forall₂ fun a b => b.1 = a.1 ∧ S a.2 b.2

theorem forall₂_filterMap {α β : Type} {T : β → β → Prop} {f g : α → Option β}
    (h : ∀ a, Option.Rel T (f a) (g a)) (l : List α) :
    List.Forall₂ T (l.filterMap f) (l.filterMap g) := by
  induction l with
  | nil => exact .nil
  | cons a l ih =>
    rw [List.filterMap_cons, List.filterMap_cons]
    rcases cases_of_optionRel (h a) with ⟨hf, hg⟩ | ⟨b, c, hf, hg, hbc⟩
    · rw [hf, hg]
      exact ih
    · rw [hf, hg]
      exact .cons hbc ih

theorem SameMemo.answers (h : SameMemo S memo memo') (ids : List ModuleId) :
    SameResults S (answers memo ids) (answers memo' ids) := by
  refine forall₂_filterMap (fun id => ?_) ids
  rcases cases_of_optionRel (h id) with ⟨ha, hb⟩ | ⟨p, q, ha, hb, hpq⟩
  · rw [ha, hb]
    exact .none
  · rw [ha, hb]
    exact .some ⟨rfl, hpq⟩

theorem SameResults.find? {as bs : List (String × Progression)} (h : SameResults S as bs)
    (key : String) :
    Option.Rel (fun a b => b.1 = a.1 ∧ S a.2 b.2) (as.find? (·.1 == key))
      (bs.find? (·.1 == key)) := by
  induction h with
  | nil => exact .none
  | @cons a b as bs hab _ ih =>
    rw [List.find?_cons, List.find?_cons, hab.1]
    split
    · exact .some hab
    · exact ih

end Results

/-! ## One module -/

theorem tandem_evaluateModule {R : Session → Session → Prop} {σ τ : Session} {run : Run}
    {m : Module} {met : Bool} {memo : Memo}
    (hload : τ.store.loadProgression run.learner m.id = σ.store.loadProgression run.learner m.id)
    (hp : progressionIn run τ.store m met = progressionIn run σ.store m met)
    (hlooked : R (looked run m met σ) (looked run m met τ))
    (hnote : ∀ {σ τ}, R σ τ → ∀ n, R (σ.note n) (τ.note n))
    (hsave : ∀ {σ τ p}, R σ τ → (Action.saveProgression run.learner m.id p).Tandem
      (Action.saveProgression run.learner m.id p) σ τ Eq R) :
    (evaluateModule run m met memo).Tandem (evaluateModule run m met memo) σ τ (SameMemo Eq) R := by
  have hrest : ∀ {σ τ : Session} {p : Progression}, R σ τ →
      (do Action.note (evaluatedNotice p); return memo.insert m.id p : Action Memo).Tandem
        (do Action.note (evaluatedNotice p); return memo.insert m.id p) σ τ (SameMemo Eq) R :=
    fun hR => ⟨.refl, hnote hR _⟩
  unfold evaluateModule
  refine Action.tandem_ask (Action.Tandem.bind (S := Eq) ⟨rfl, hlooked⟩ fun _ _ σ τ _ _ hR => ?_)
  simp only [id_eq, hload, hp]
  split
  · exact hrest hR
  · exact (hsave hR).bind fun _ _ _ _ _ _ hR => hrest hR

theorem tandem_saveProgression {R : Store → Store → Prop} {σ τ : Session} {learner : LearnerId}
    {id : ModuleId} {p : Progression} (hR : R σ.store τ.store)
    (hb : τ.store.backing = σ.store.backing)
    (hput : R (σ.store.putProgression learner id p) (τ.store.putProgression learner id p)) :
    (Action.saveProgression learner id p).Tandem (Action.saveProgression learner id p) σ τ Eq
      fun σ τ => R σ.store τ.store := by
  have hcheck : τ.store.checkProgression p = σ.store.checkProgression p :=
    Store.checkProgression_congr hb
  unfold Action.Tandem
  cases hs : σ.store.saveProgression learner id p with
  | ok s =>
    obtain ⟨hok, rfl⟩ := Store.saveProgression_eq_ok.1 hs
    rw [Action.saveProgression_of_ok hs,
      Action.saveProgression_of_ok (Store.saveProgression_eq_ok.2 ⟨hcheck.trans hok, rfl⟩)]
    exact ⟨rfl, hput⟩
  | error f =>
    rw [Action.saveProgression_of_error hs, Action.saveProgression_of_error
      (Store.saveProgression_eq_error.2 (hcheck.trans (Store.saveProgression_eq_error.1 hs)))]
    exact ⟨rfl, hR⟩

/-! ## Several learners -/

theorem tandem_evaluateLearners {R : Session → Session → Prop}
    {S : Progression → Progression → Prop} {σ τ : Session} {e : Evaluator} {now : Instant}
    {id : ModuleId} {learners : List LearnerId}
    (h : ∀ l ∈ learners, ∀ σ τ, R σ τ →
      (e.evaluate now l id).Tandem (e.evaluate now l id) σ τ S R) (hR : R σ τ) :
    (e.evaluateLearners now id learners).Tandem (e.evaluateLearners now id learners) σ τ
      (SameResults S) R := by
  unfold Evaluator.evaluateLearners
  have hself : List.Forall₂ (fun l l' => l' = l ∧ l ∈ learners) learners learners :=
    List.forall₂_same.2 fun _ hl => ⟨rfl, hl⟩
  refine (Action.tandem_mapM (S := fun a b => b.1 = a.1 ∧ S a.2 b.2) hself ?_ hR).bind
    fun results results' σ' τ' _ hresults hR' => ?_
  · rintro l _ σ τ ⟨rfl, hl⟩ hR
    exact (h _ hl σ τ hR).bind fun _ _ _ _ _ hpq hR' => Action.tandem_pure ⟨rfl, hpq⟩ hR'
  · -- Of the results for one learner, both runs show the last.
    have hrev : SameResults S results.reverse results'.reverse :=
      List.forall₂_reverse_iff.2 hresults
    exact Action.tandem_pure (forall₂_filterMap (fun l => hrev.find? l) _) hR'

/-! ## What it takes -/

/-- Whatever an evaluation for one of some learners does to both of two sessions that belong
together by `R` keeps them together, with progressions that belong together by `S`, as long as the
modules are `Good`. -/
structure InStep (Who : Set LearnerId) (R : Session → Session → Prop)
    (S : Progression → Progression → Prop) (Good : Module → Prop) : Prop where
  note : ∀ {σ τ}, R σ τ → ∀ n, R (σ.note n) (τ.note n)
  report : ∀ {σ τ}, R σ τ → ∀ i, R (σ.report i) (τ.report i)
  state : ∀ {p q}, S p q → q.state = p.state
  assess : ∀ {σ τ run m met memo memo'}, run.learner ∈ Who → R σ τ → Good m →
    SameMemo S memo memo' →
    (evaluateModule run m met memo).Tandem (evaluateModule run m met memo') σ τ (SameMemo S) R

/-- Sessions that belong together also give the same modules, all of them `Good`, and setting a
display flag keeps them together. -/
structure Accord (Who : Set LearnerId) (R : Session → Session → Prop)
    (S : Progression → Progression → Prop) (Good : Module → Prop) : Prop
    extends InStep Who R S Good where
  hasLearner : ∀ {σ τ l}, l ∈ Who → R σ τ → τ.store.hasLearner l = σ.store.hasLearner l
  getModule : ∀ {σ τ}, R σ τ → ∀ id, τ.store.getModule id = σ.store.getModule id
  moduleIds : ∀ {σ τ}, R σ τ → τ.store.moduleIds none = σ.store.moduleIds none
  good : ∀ {σ τ id m}, R σ τ → σ.store.getModule id = .ok m → Good m
  met : ∀ {p q}, S p q → q.met = p.met
  collapsed : ∀ {p q}, S p q → q.collapsed = p.collapsed
  fold : ∀ {p q b}, S p q → S { p with collapsed := b } { q with collapsed := b }
  save : ∀ {σ τ l id p q b}, l ∈ Who → R σ τ → S p q →
    (∃ (e : Evaluator) (now : Instant) (σ₀ : Session), e.evaluate now l id σ₀ = .ok p σ) →
    (Action.saveProgression l id { p with collapsed := b }).Tandem
      (Action.saveProgression l id { q with collapsed := b }) σ τ Eq R

/-- What a run reads of the store is good. -/
def Evaluation.Run.Reads (run : Run) (Good : Module → Prop) : Prop :=
  ∀ (id : ModuleId) (m : Module), run.modules[id]? = some m → Good m

variable {Who : Set LearnerId} {R : Session → Session → Prop}
  {S : Progression → Progression → Prop} {Good : Module → Prop} {σ τ : Session} {run : Run}
  {memo memo' : Memo} {p q : Progression} {e : Evaluator} {now : Instant} {learner : LearnerId}
  {ids : List ModuleId} {id : ModuleId}

namespace InStep

theorem noteAll (ha : InStep Who R S Good) (hR : R σ τ) (ns : List Notice) :
    R (σ.noteAll ns) (τ.noteAll ns) := by
  induction ns generalizing σ τ with
  | nil => exact hR
  | cons n ns ih => exact ih (ha.note hR n)

theorem isLocked (ha : InStep Who R S Good) (h : S p q) : q.isLocked = p.isLocked := by
  rw [Progression.isLocked, Progression.isLocked, ha.state h]

theorem isCompleted (ha : InStep Who R S Good) (h : S p q) : q.isCompleted = p.isCompleted := by
  rw [Progression.isCompleted, Progression.isCompleted, ha.state h]

theorem prerequisiteMet (ha : InStep Who R S Good) (h : SameMemo S memo memo') :
    prerequisiteMet memo' = prerequisiteMet memo := by
  funext id
  unfold Evaluation.prerequisiteMet
  rcases cases_of_optionRel (h id) with ⟨hp, hq⟩ | ⟨p, q, hp, hq, hpq⟩
  · rw [hp, hq]
  · rw [hp, hq]
    exact ha.isCompleted hpq

/-! ## Components and generations -/

section Generations

variable {c : Graph.Component} {cs : List Graph.Component} {gens : List (List Graph.Component)}
  {barred : Bool} {d : Nat}

theorem evaluateMembers (ha : InStep Who R S Good) (hl : run.learner ∈ Who)
    (hgood : run.Reads Good) (hm : SameMemo S memo memo') (hR : R σ τ) :
    (evaluateMembers run barred c memo).Tandem (evaluateMembers run barred c memo') σ τ
      (SameMemo S) R := by
  induction c generalizing memo memo' σ τ with
  | nil => exact Action.tandem_pure hm hR
  | cons id ids ih =>
    unfold Evaluation.evaluateMembers
    split
    · exact ih hm hR
    · next m hmod =>
      rw [ha.prerequisiteMet hm]
      refine (ha.assess hl hR (hgood id m hmod) hm).bind fun n n' σ' τ' _ hn hR' => ?_
      exact ih hn hR'

theorem evaluateComponent (ha : InStep Who R S Good) (hl : run.learner ∈ Who)
    (hgood : run.Reads Good) (hm : SameMemo S memo memo') (hR : R σ τ) :
    (evaluateComponent run d c memo).Tandem (evaluateComponent run d c memo') σ τ
      (SameMemo S) R := by
  unfold Evaluation.evaluateComponent
  dsimp only
  split
  · exact ha.evaluateMembers hl hgood hm (ha.report hR _)
  · split
    · exact ha.evaluateMembers hl hgood hm (ha.note hR _)
    · exact ha.evaluateMembers hl hgood hm hR

theorem evaluateInTurn (ha : InStep Who R S Good) (hl : run.learner ∈ Who)
    (hgood : run.Reads Good) (hm : SameMemo S memo memo') (hR : R σ τ) :
    (evaluateInTurn run d cs memo).Tandem (evaluateInTurn run d cs memo') σ τ (SameMemo S) R := by
  induction cs generalizing memo memo' σ τ with
  | nil => exact Action.tandem_pure hm hR
  | cons c cs ih =>
    unfold Evaluation.evaluateInTurn
    refine (ha.evaluateComponent hl hgood hm hR).bind fun n n' σ' τ' _ hn hR' => ?_
    exact ih hn hR'

theorem evaluateTogether (ha : InStep Who R S Good) (hl : run.learner ∈ Who)
    (hgood : run.Reads Good) (hm : SameMemo S memo memo') (hR : R σ τ) :
    (evaluateTogether run d cs memo).Tandem (evaluateTogether run d cs memo') σ τ
      (SameMemo S) R := by
  induction cs generalizing memo memo' σ τ with
  | nil => exact Action.tandem_pure hm hR
  | cons c cs ih =>
    unfold Evaluation.evaluateTogether
    refine (ha.evaluateComponent hl hgood hm hR).attempt.bind fun o o' σ' τ' _ ho hR' => ?_
    cases ho with
    | ok hn => exact ih hn hR'
    | error =>
      -- The other components are evaluated before the failure is passed on.
      exact (ih hm hR').attempt.bind fun _ _ _ _ _ _ hR'' => Action.tandem_throw hR''

theorem evaluateGenerations (ha : InStep Who R S Good) (hl : run.learner ∈ Who)
    (hgood : run.Reads Good) (hm : SameMemo S memo memo') (hR : R σ τ) :
    (evaluateGenerations e run d gens memo).Tandem (evaluateGenerations e run d gens memo') σ τ
      (SameMemo S) R := by
  induction gens generalizing d memo memo' σ τ with
  | nil => exact Action.tandem_pure hm hR
  | cons gen gens ih =>
    unfold Evaluation.evaluateGenerations
    dsimp only
    split
    · exact (ha.evaluateTogether hl hgood hm hR).bind fun _ _ _ _ _ hn hR' => ih hn hR'
    · exact (ha.evaluateInTurn hl hgood hm hR).bind fun _ _ _ _ _ hn hR' => ih hn hR'

end Generations

/-! ## Requests for progressions -/

section Planned

variable (hl : learner ∈ Who) (hR : R σ τ)
  (hrequired : τ.store.required learner ids = σ.store.required learner ids)
  (hgood : ∀ id m, σ.store.InClosure ids id → σ.store.getModule id = .ok m → Good m)
include hl hR hrequired hgood

theorem plan (ha : InStep Who R S Good) :
    (e.plan now learner ids).Tandem (e.plan now learner ids) σ τ
      (fun r r' => r' = r ∧ r.learner ∈ Who ∧ r.Reads Good) R := by
  -- Where the plan ends well, its modules were read from the store, and so are good.
  have hplan := ends_plan e now learner ids σ
  unfold Action.Ends at hplan
  unfold Action.Tandem
  rw [plan_apply] at hplan ⊢
  rw [plan_apply, hrequired]
  cases hreq : σ.store.required learner ids with
  | error f => exact ⟨rfl, hR⟩
  | ok all =>
    rw [hreq] at hplan
    obtain ⟨-, ⟨all', hc, hrun⟩, -⟩ := hplan
    refine ⟨⟨rfl, hl, fun id m hm => ?_⟩, ha.noteAll hR _⟩
    rw [hrun] at hm
    obtain ⟨hmem, rfl⟩ := hc.mem_of_tableOf hm
    exact hgood m.id m (hc.inClosure hmem) (hc.read m hmem)

theorem evaluateClosure (ha : InStep Who R S Good) :
    (e.evaluateClosure now learner ids).Tandem (e.evaluateClosure now learner ids) σ τ
      (SameMemo S) R := by
  unfold Evaluator.evaluateClosure
  refine (ha.plan hl hR hrequired hgood).bind ?_
  rintro run _ σ' τ' - ⟨rfl, hlearner, hreads⟩ hR'
  exact ha.evaluateGenerations hlearner hreads .empty hR'

theorem evaluateAll (ha : InStep Who R S Good) :
    (e.evaluateAll now learner ids).Tandem (e.evaluateAll now learner ids) σ τ
      (SameResults S) R := by
  unfold Evaluator.evaluateAll
  refine (ha.evaluateClosure hl hR hrequired hgood).bind fun memo memo' σ' τ' _ hm hR' => ?_
  exact Action.tandem_pure (hm.answers _) hR'

end Planned

theorem evaluate (ha : InStep Who R S Good) (hl : learner ∈ Who) (hR : R σ τ)
    (hrequired : τ.store.required learner [id] = σ.store.required learner [id])
    (hgood : ∀ i m, σ.store.InClosure [id] i → σ.store.getModule i = .ok m → Good m) :
    (e.evaluate now learner id).Tandem (e.evaluate now learner id) σ τ S R := by
  unfold Evaluator.evaluate
  refine (ha.evaluateAll hl hR hrequired hgood).bind fun results results' σ' τ' _ hresults hR' => ?_
  cases hresults with
  | nil => exact Action.tandem_throw hR'
  | cons h _ => exact Action.tandem_pure h.2 hR'

end InStep

namespace Accord

theorem required (ha : Accord Who R S Good) (hl : learner ∈ Who) (hR : R σ τ) :
    τ.store.required learner ids = σ.store.required learner ids :=
  Store.required_agree (ha.hasLearner hl hR) (ha.getModule hR)

theorem evaluateAll (ha : Accord Who R S Good) (hl : learner ∈ Who) (hR : R σ τ) :
    (e.evaluateAll now learner ids).Tandem (e.evaluateAll now learner ids) σ τ
      (SameResults S) R :=
  ha.toInStep.evaluateAll hl hR (ha.required hl hR) fun _ _ _ => ha.good hR

theorem evaluate (ha : Accord Who R S Good) (hl : learner ∈ Who) (hR : R σ τ) :
    (e.evaluate now learner id).Tandem (e.evaluate now learner id) σ τ S R :=
  ha.toInStep.evaluate hl hR (ha.required hl hR) fun _ _ _ => ha.good hR

theorem requireLearner (ha : Accord Who R S Good) (hl : learner ∈ Who) (hR : R σ τ) :
    (Evaluator.requireLearner learner).Tandem (Evaluator.requireLearner learner) σ τ Eq R := by
  unfold Evaluator.requireLearner
  refine Action.tandem_ask ?_
  rw [ha.hasLearner hl hR]
  split
  · exact Action.tandem_pure rfl hR
  · exact Action.tandem_throw hR

theorem evaluateEvery (ha : Accord Who R S Good) (hl : learner ∈ Who) (hR : R σ τ) :
    (e.evaluateEvery now learner).Tandem (e.evaluateEvery now learner) σ τ (SameResults S) R := by
  unfold Evaluator.evaluateEvery
  refine (ha.requireLearner hl hR).bind fun _ _ σ' τ' _ _ hR' => Action.tandem_ask ?_
  rw [ha.moduleIds hR']
  exact ha.evaluateAll hl hR'

theorem evaluateLearners (ha : Accord Who R S Good) {learners : List LearnerId}
    (hls : ∀ l ∈ learners, l ∈ Who) (hR : R σ τ) :
    (e.evaluateLearners now id learners).Tandem (e.evaluateLearners now id learners) σ τ
      (SameResults S) R :=
  tandem_evaluateLearners (fun l hl _ _ => ha.evaluate (hls l hl)) hR

end Accord

end Pathway
