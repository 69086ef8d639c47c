import Pathway.Proofs.Calls.Basic
import Pathway.Proofs.Navigation.Accord

/-!
# Runs side by side

Two runs of the same requests give the same answers if each request goes in tandem. For the requests
that evaluate, it is enough that the assessments of one module do.
-/

namespace Pathway

/-! ## Answers -/

/-- The same item, kind, moment and score, however the last two are written. -/
def Fact.same (f g : Fact) : Bool :=
  f.item == g.item && f.kind == g.kind && f.satisfiedAt.same g.satisfiedAt
    && sameOption Binary64.same f.score g.score

/-- Facts of the same items, and of the same kinds. -/
def SameFacts : List (ItemId × ItemFacts) → List (ItemId × ItemFacts) → Prop :=
  List.Forall₂ fun a b => b.1 = a.1 ∧ ∀ kind, sameOption Fact.same (a.2 kind) (b.2 kind) = true

/-- Answers that do not differ but in progressions that belong together and in the writing of
facts. -/
inductive Answer.Same (S : Progression → Progression → Prop) : Answer → Answer → Prop
  | equal {a : Answer} : Same S a a
  | facts {fs gs : List (ItemId × ItemFacts)} : SameFacts fs gs → Same S (.facts fs) (.facts gs)
  | stored {p q : Option Progression} : Option.Rel S p q → Same S (.stored p) (.stored q)
  | listed {ps qs : List Progression} : List.Forall₂ S ps qs → Same S (.listed ps) (.listed qs)
  | result {p q : Progression} : S p q → Same S (.result p) (.result q)
  | results {ps qs : List (String × Progression)} :
      SameResults S ps qs → Same S (.results ps) (.results qs)
  | opened {p q : Progression} {a : Availability} : S p q → Same S (.opened p a) (.opened q a)
  | navigation {xs ys : List NavigationModule} :
      List.Forall₂ (SameNavigation S) xs ys → Same S (.navigation xs) (.navigation ys)

theorem optionRel_imp {α β : Type} {T T' : α → β → Prop} (h : ∀ a b, T a b → T' a b) {a : Option α}
    {b : Option β} (hab : Option.Rel T a b) : Option.Rel T' a b := by
  cases hab with
  | none => exact .none
  | some hab => exact .some (h _ _ hab)

theorem Answer.Same.of_eq {S : Progression → Progression → Prop} {a b : Answer} (h : b = a) :
    Same S a b := h ▸ .equal

theorem Answer.Same.imp {S S' : Progression → Progression → Prop} {a b : Answer}
    (hab : Same S a b) (h : ∀ p q, S p q → S' p q) : Same S' a b := by
  cases hab with
  | equal => exact .equal
  | facts hfs => exact .facts hfs
  | stored hpq => exact .stored (optionRel_imp h hpq)
  | listed hps => exact .listed (hps.imp h)
  | result hpq => exact .result (h _ _ hpq)
  | results hps => exact .results (hps.imp fun _ _ hpq => ⟨hpq.1, h _ _ hpq.2⟩)
  | opened hpq => exact .opened (h _ _ hpq)
  | navigation hxs => exact .navigation (hxs.imp fun _ _ hxy => ⟨hxy.1, hxy.2.1, h _ _ hxy.2.2⟩)

theorem eq_of_forall₂ {α : Type} {T : α → α → Prop} {as bs : List α} (h : List.Forall₂ T as bs)
    (hT : ∀ a b, T a b → a = b) : as = bs := by
  have heq := h.imp hT
  rwa [List.forall₂_eq_eq_eq] at heq

theorem SameResults.eq {as bs : List (String × Progression)} (h : SameResults Eq as bs) :
    as = bs :=
  eq_of_forall₂ h fun _ _ h => Prod.ext h.1.symm h.2

theorem Answer.Same.eq {a b : Answer} (h : Same Eq a b) (ha : ∀ fs, a ≠ .facts fs) : a = b := by
  cases h with
  | equal => rfl
  | facts => exact absurd rfl (ha _)
  | stored hpq =>
    cases hpq with
    | none => rfl
    | some h => rw [h]
  | listed hps => rw [eq_of_forall₂ hps fun _ _ h => h]
  | result hpq => rw [hpq]
  | results hps => rw [hps.eq]
  | opened hpq => rw [hpq]
  | navigation hxs =>
    refine congrArg Answer.navigation (eq_of_forall₂ hxs fun x y h => ?_)
    obtain ⟨hm, hitems, hp⟩ := h
    cases x
    cases y
    simp only at hm hitems hp
    rw [hm, hitems, hp]

/-! ## Requests that evaluate -/

/-- The answer rests on progressions that are evaluated for it. -/
def Call.Evaluates : Call → Prop
  | evaluate .. | evaluateAll .. | evaluateLearners .. | gateReport .. | itemAvailability ..
  | openItem .. | setCollapsed .. | setAllCollapsed .. | tree .. | summary .. => True
  | _ => False

/-- The learners for whom the call evaluates. -/
def Call.learners : Call → List LearnerId
  | evaluate l _ | evaluateAll l _ | gateReport l .. | itemAvailability l .. | openItem l ..
  | setCollapsed l .. | setAllCollapsed l _ | tree l | summary l => [l]
  | evaluateLearners _ ls => ls
  | _ => []

variable {Who : Set LearnerId} {R : Session → Session → Prop}
  {S : Progression → Progression → Prop} {Good : Module → Prop} {σ τ : Session} {e : Evaluator}
  {now : Instant} {c : Call}

open Pathway.Action in
theorem Accord.perform (ha : Accord Who R S Good) (hc : c.Evaluates)
    (hls : ∀ l ∈ c.learners, l ∈ Who) (hR : R σ τ) :
    (c.perform e now).Tandem (c.perform e now) σ τ
      (fun a b => Answer.Same S a b ∧ ∀ fs, a ≠ .facts fs) R := by
  cases c with
  | evaluate learner id =>
    have hl := hls learner (List.mem_singleton.2 rfl)
    exact (ha.evaluate hl hR).bind fun _ _ _ _ _ h hR => tandem_pure ⟨.result h, nofun⟩ hR
  | evaluateAll learner ids =>
    have hl := hls learner (List.mem_singleton.2 rfl)
    cases ids with
    | none =>
      exact (ha.evaluateEvery hl hR).bind fun _ _ _ _ _ h hR => tandem_pure ⟨.results h, nofun⟩ hR
    | some ids =>
      exact (ha.evaluateAll hl hR).bind fun _ _ _ _ _ h hR => tandem_pure ⟨.results h, nofun⟩ hR
  | evaluateLearners id learners =>
    exact (ha.evaluateLearners hls hR).bind fun _ _ _ _ _ h hR =>
      tandem_pure ⟨.results h, nofun⟩ hR
  | gateReport learner id item =>
    have hl := hls learner (List.mem_singleton.2 rfl)
    refine (ha.gateReport hl hR item).bind fun report _ _ _ _ h hR => ?_
    subst h
    exact tandem_pure ⟨.equal, nofun⟩ hR
  | itemAvailability learner id item =>
    have hl := hls learner (List.mem_singleton.2 rfl)
    refine (ha.itemAvailability hl hR item).bind fun a _ _ _ _ h hR => ?_
    subst h
    exact tandem_pure ⟨.equal, nofun⟩ hR
  | openItem learner id item =>
    have hl := hls learner (List.mem_singleton.2 rfl)
    refine (ha.openItem hl hR item).bind fun x y _ _ _ h hR => ?_
    obtain ⟨p, a⟩ := x
    obtain ⟨q, b⟩ := y
    obtain ⟨hpq, rfl⟩ := h
    exact tandem_pure ⟨.opened hpq, nofun⟩ hR
  | setCollapsed learner id collapsed =>
    have hl := hls learner (List.mem_singleton.2 rfl)
    exact (ha.setCollapsed hl hR collapsed).bind fun _ _ _ _ _ h hR =>
      tandem_pure ⟨.result h, nofun⟩ hR
  | setAllCollapsed learner collapsed =>
    have hl := hls learner (List.mem_singleton.2 rfl)
    exact (ha.setAllCollapsed hl hR collapsed).bind fun _ _ _ _ _ h hR =>
      tandem_pure ⟨.listed h, nofun⟩ hR
  | tree learner =>
    have hl := hls learner (List.mem_singleton.2 rfl)
    exact (ha.tree hl hR).bind fun _ _ _ _ _ h hR => tandem_pure ⟨.navigation h, nofun⟩ hR
  | summary learner =>
    have hl := hls learner (List.mem_singleton.2 rfl)
    refine (ha.summary hl hR).bind fun s _ _ _ _ h hR => ?_
    subst h
    exact tandem_pure ⟨.equal, nofun⟩ hR
  | _ => exact hc.elim

theorem Accord.perform_eq (ha : Accord Who R Eq Good) (hc : c.Evaluates)
    (hls : ∀ l ∈ c.learners, l ∈ Who) (hR : R σ τ) :
    (c.perform e now).Tandem (c.perform e now) σ τ Eq R :=
  (ha.perform hc hls hR).imp fun _ _ hab => hab.1.eq hab.2

/-! ## Runs -/

namespace Session

variable {r : Request}

theorem next_eq_finish (σ : Session) (r : Request) :
    σ.next r = (r.call.perform r.evaluator r.now).finish σ := by
  unfold next perform Action.finish
  cases r.call.perform r.evaluator r.now σ <;> rfl

theorem answer_eq_outcome (σ : Session) (r : Request) :
    σ.answer r = (r.call.perform r.evaluator r.now).outcome σ := by
  unfold answer perform Action.outcome
  cases r.call.perform r.evaluator r.now σ <;> rfl

theorem sameOutcome_answer {T : Answer → Answer → Prop}
    (h : (r.call.perform r.evaluator r.now).Tandem (r.call.perform r.evaluator r.now) σ τ T R) :
    Action.SameOutcome T (σ.answer r) (τ.answer r) := by
  unfold Action.Tandem at h
  unfold answer perform
  split at h
  · next hx hy =>
    rw [hx, hy]
    exact .ok h.1
  · next hx hy =>
    rw [hx, hy]
    obtain ⟨rfl, -⟩ := h
    exact .error
  · exact h.elim

end Session

theorem answers_same {T : Answer → Answer → Prop} {Fit : Request → Prop}
    (hstep : ∀ r σ τ, Fit r → R σ τ →
      (r.call.perform r.evaluator r.now).Tandem (r.call.perform r.evaluator r.now) σ τ T R)
    {rs : List Request} (hrs : ∀ r ∈ rs, Fit r) (hR : R σ τ) :
    List.Forall₂ (Action.SameOutcome T) (σ.answers rs) (τ.answers rs) ∧
      R (σ.after rs) (τ.after rs) := by
  induction rs generalizing σ τ with
  | nil => exact ⟨.nil, hR⟩
  | cons r rs ih =>
    have hr := hstep r σ τ (hrs r List.mem_cons_self) hR
    have hnext : R (σ.next r) (τ.next r) := by
      rw [Session.next_eq_finish, Session.next_eq_finish]
      exact hr.finish
    obtain ⟨hanswers, hafter⟩ := ih (fun r' hr' => hrs r' (List.mem_cons_of_mem r hr')) hnext
    exact ⟨.cons (Session.sameOutcome_answer hr) hanswers, hafter⟩

theorem answers_eq {Fit : Request → Prop}
    (hstep : ∀ r σ τ, Fit r → R σ τ →
      (r.call.perform r.evaluator r.now).Tandem (r.call.perform r.evaluator r.now) σ τ Eq R)
    {rs : List Request} (hrs : ∀ r ∈ rs, Fit r) (hR : R σ τ) :
    τ.answers rs = σ.answers rs ∧ R (σ.after rs) (τ.after rs) := by
  obtain ⟨hanswers, hafter⟩ := answers_same hstep hrs hR
  exact ⟨(eq_of_forall₂ hanswers fun _ _ h => h.eq).symm, hafter⟩

end Pathway
