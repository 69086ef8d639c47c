import Pathway.Proofs.Evaluation.Accord

/-!
# Navigation side by side

What a navigator answers rests on the states of progressions and on the requirements they count as
met, and so is the same for progressions that belong together.
-/

namespace Pathway

open Evaluation

/-! ## Availability -/

namespace Module

variable {m : Module} {p q : Progression}

theorem isMet_congr (h : q.met = p.met) : isMet q = isMet p := by
  funext item
  unfold isMet Progression.hasMet
  rw [h]

theorem isReachable_congr (hs : q.state = p.state) (hm : q.met = p.met) (item : Item) :
    m.isReachable q item = m.isReachable p item := by
  unfold isReachable gate? Progression.isLocked
  rw [isMet_congr hm, hs]

theorem availability_congr (hs : q.state = p.state) (hm : q.met = p.met) (item : Item) :
    m.availability q item = m.availability p item := by
  unfold availability
  rw [isMet_congr hm, isReachable_congr hs hm]

theorem pendingUpTo_congr (hs : q.state = p.state) (hm : q.met = p.met) (limit : Option Place) :
    m.pendingUpTo q limit = m.pendingUpTo p limit := by
  have hof : ∀ item r, m.pendingOf q item r = m.pendingOf p item r := by
    intro item r
    unfold pendingOf
    rw [isReachable_congr hs hm]
  unfold pendingUpTo Progression.hasMet
  simp only [hm, hof]

theorem pendingBefore_congr (hs : q.state = p.state) (hm : q.met = p.met) (id : ItemId) :
    m.pendingBefore q id = m.pendingBefore p id := by
  unfold pendingBefore
  simp only [pendingUpTo_congr hs hm]

end Module

/-! ## Lists of results -/

/-- The same module with the same marks, and progressions that belong together. -/
def SameNavigation (S : Progression → Progression → Prop) (x y : NavigationModule) : Prop :=
  y.module = x.module ∧ y.items = x.items ∧ S x.progression y.progression

theorem SameResults.lookup {S : Progression → Progression → Prop}
    {ps qs : List (ModuleId × Progression)} (h : SameResults S ps qs) (key : ModuleId) :
    Option.Rel S (ps.lookup key) (qs.lookup key) := by
  induction h with
  | nil => exact .none
  | @cons a b ps qs hab _ ih =>
    obtain ⟨i, p⟩ := a
    obtain ⟨j, q⟩ := b
    obtain ⟨hji, hpq⟩ := hab
    obtain rfl : j = i := hji
    rw [List.lookup_cons, List.lookup_cons]
    cases key == j with
    | true => exact .some hpq
    | false => exact ih

theorem Summary.of_congr {ps qs : List (ModuleId × Progression)}
    (h : SameResults (fun p q => q.state = p.state) ps qs) : Summary.of qs = Summary.of ps := by
  -- A summary counts and finds by the states under the ids, and by nothing else.
  have hmap : qs.map (fun q => (q.1, q.2.state)) = ps.map fun p => (p.1, p.2.state) := by
    induction h with
    | nil => rfl
    | cons hab _ ih => rw [List.map_cons, List.map_cons, ih, hab.1, hab.2]
  have hcount : ∀ x : ModuleState, qs.countP (fun q => q.2.state == x) =
      ps.countP fun p => p.2.state == x := by
    intro x
    have hc := congrArg (List.countP fun r => r.2 == x) hmap
    rwa [List.countP_map, List.countP_map] at hc
  have hfind : (qs.find? fun q => q.2.state == .started || q.2.state == .unlocked).map (·.1) =
      (ps.find? fun p => p.2.state == .started || p.2.state == .unlocked).map (·.1) := by
    have hf := congrArg (fun l => (l.find? fun r => r.2 == .started || r.2 == .unlocked).map (·.1))
      hmap
    rwa [List.find?_map, List.find?_map, Option.map_map, Option.map_map] at hf
  unfold Summary.of
  simp only [hcount, hfind, h.length_eq]

namespace Accord

variable {Who : Set LearnerId} {R : Session → Session → Prop}
  {S : Progression → Progression → Prop} {Good : Module → Prop} {σ τ : Session} {e : Evaluator}
  {now : Instant} {learner : LearnerId} {id : ModuleId} {m : Module} {p q : Progression}
  {ps qs : List (ModuleId × Progression)}

theorem unfinished (ha : Accord Who R S Good) (chain : List Module) (h : SameResults S ps qs) :
    Evaluator.unfinished chain qs = Evaluator.unfinished chain ps := by
  unfold Evaluator.unfinished
  congr 1
  funext m
  rcases cases_of_optionRel (h.lookup m.id) with ⟨hp, hq⟩ | ⟨p, q, hp, hq, hpq⟩
  · rw [hp, hq]
  · rw [hp, hq]
    dsimp only
    rw [ha.isCompleted hpq, ha.isLocked hpq, Module.pending, Module.pending,
      Module.pendingUpTo_congr (ha.state hpq) (ha.met hpq)]

theorem gateReport (ha : Accord Who R S Good) (hl : learner ∈ Who) (hR : R σ τ)
    (item : Option ItemId) :
    (e.gateReport now learner id item).Tandem (e.gateReport now learner id item) σ τ Eq R := by
  unfold Evaluator.gateReport
  refine (Action.tandem_askOrFail (ha.getModule hR id) hR).bind fun m _ σ τ _ hm hR => ?_
  subst hm
  refine (ha.evaluate hl hR).bind fun p q σ τ _ hpq hR => ?_
  rw [ha.isLocked hpq]
  split
  · have hchain : prerequisiteChain τ.store m = prerequisiteChain σ.store m :=
      prerequisiteChain_agree (samePool_of_getModule (ha.getModule hR)) m
    refine (Action.tandem_askOrFail hchain hR).bind fun chain _ σ τ _ hc hR => ?_
    subst hc
    refine (ha.evaluateAll hl hR).bind fun ps qs σ τ _ hresults hR => ?_
    exact Action.tandem_pure (by rw [ha.unfinished chain hresults]) hR
  · split
    · exact Action.tandem_pure rfl hR
    split
    · exact Action.tandem_pure rfl hR
    refine (Action.tandem_ofExcept hR).bind fun i _ σ τ _ hi hR => ?_
    subst hi
    rw [Module.isReachable_congr (ha.state hpq) (ha.met hpq)]
    split
    · exact Action.tandem_pure rfl hR
    rw [Module.pendingBefore_congr (ha.state hpq) (ha.met hpq)]
    refine (Action.tandem_ofExcept hR).bind fun rs _ σ τ _ hrs hR => ?_
    subst hrs
    exact Action.tandem_pure rfl hR

theorem itemAvailability (ha : Accord Who R S Good) (hl : learner ∈ Who) (hR : R σ τ)
    (item : ItemId) :
    (e.itemAvailability now learner id item).Tandem (e.itemAvailability now learner id item) σ τ
      Eq R := by
  unfold Evaluator.itemAvailability
  refine (Action.tandem_askOrFail (ha.getModule hR id) hR).bind fun m _ σ τ _ hm hR => ?_
  subst hm
  refine (Action.tandem_ofExcept hR).bind fun i _ σ τ _ hi hR => ?_
  subst hi
  refine (ha.evaluate hl hR).bind fun p q σ τ _ hpq hR => ?_
  exact Action.tandem_pure (Module.availability_congr (ha.state hpq) (ha.met hpq) i).symm hR

/-! ## Display flags -/

theorem setCollapsed (ha : Accord Who R S Good) (hl : learner ∈ Who) (hR : R σ τ)
    (b : Bool) :
    (e.setCollapsed now learner id b).Tandem (e.setCollapsed now learner id b) σ τ S R := by
  unfold Evaluator.setCollapsed
  refine (ha.evaluate hl hR).bind fun p q σ' τ' heval hpq hR' => ?_
  rw [ha.collapsed hpq]
  split
  · exact Action.tandem_pure hpq hR'
  · refine (ha.save hl hR' hpq ⟨e, now, σ, heval⟩).bind fun _ _ σ'' τ'' _ _ hR'' => ?_
    exact Action.tandem_pure (ha.fold hpq) hR''

theorem setAllCollapsed (ha : Accord Who R S Good) (hl : learner ∈ Who) (hR : R σ τ)
    (b : Bool) :
    (e.setAllCollapsed now learner b).Tandem (e.setAllCollapsed now learner b) σ τ
      (List.Forall₂ S) R := by
  unfold Evaluator.setAllCollapsed
  refine Action.tandem_ask ?_
  rw [ha.moduleIds hR]
  have hself : List.Forall₂ Eq (σ.store.moduleIds none) (σ.store.moduleIds none) :=
    List.forall₂_same.2 fun _ _ => rfl
  refine Action.tandem_mapM hself ?_ hR
  rintro id _ σ τ rfl hR
  exact ha.setCollapsed hl hR b

theorem openItem (ha : Accord Who R S Good) (hl : learner ∈ Who) (hR : R σ τ)
    (item : ItemId) :
    (e.openItem now learner id item).Tandem (e.openItem now learner id item) σ τ
      (fun x y => S x.1 y.1 ∧ y.2 = x.2) R := by
  unfold Evaluator.openItem
  -- Whatever came before, at the end the module is evaluated and may be unfolded.
  have last : ∀ {σ τ : Session} (a : Availability), R σ τ →
      (do
        let p ← e.evaluate now learner id
        if p.collapsed then return (← e.setCollapsed now learner id false, a)
        return (p, a) : Action (Progression × Availability)).Tandem
      (do
        let p ← e.evaluate now learner id
        if p.collapsed then return (← e.setCollapsed now learner id false, a)
        return (p, a)) σ τ (fun x y => S x.1 y.1 ∧ y.2 = x.2) R := by
    intro σ τ a hR
    refine (ha.evaluate hl hR).bind fun p q σ τ _ hpq hR => ?_
    rw [ha.collapsed hpq]
    split
    · refine (ha.setCollapsed hl hR false).bind fun p q σ τ _ hpq hR => ?_
      exact Action.tandem_pure ⟨hpq, rfl⟩ hR
    · exact Action.tandem_pure ⟨hpq, rfl⟩ hR
  refine (ha.itemAvailability hl hR item).bind fun a _ σ τ _ hab hR => ?_
  subst hab
  dsimp only
  split
  · refine (ha.evaluateEvery hl hR).bind fun _ _ σ τ _ _ hR => ?_
    refine (ha.itemAvailability hl hR item).bind fun a _ σ τ _ hab hR => ?_
    subst hab
    exact last a hR
  · exact last a hR

/-! ## Overviews -/

theorem tree (ha : Accord Who R S Good) (hl : learner ∈ Who) (hR : R σ τ) :
    (e.tree now learner).Tandem (e.tree now learner) σ τ (List.Forall₂ (SameNavigation S)) R := by
  unfold Evaluator.tree
  refine (ha.evaluateEvery hl hR).bind fun ps qs σ τ _ hresults hR => ?_
  refine Action.tandem_mapM hresults ?_ hR
  rintro ⟨i, p⟩ ⟨j, q⟩ σ τ ⟨hji, hpq⟩ hR
  obtain rfl : j = i := hji
  refine (Action.tandem_askOrFail (ha.getModule hR j) hR).bind fun m _ σ τ _ hm hR => ?_
  subst hm
  refine Action.tandem_pure ⟨rfl, ?_, hpq⟩ hR
  unfold Evaluator.navigationModule
  simp only [Module.availability_congr (ha.state hpq) (ha.met hpq)]

theorem summary (ha : Accord Who R S Good) (hl : learner ∈ Who) (hR : R σ τ) :
    (e.summary now learner).Tandem (e.summary now learner) σ τ Eq R := by
  unfold Evaluator.summary
  refine (ha.evaluateEvery hl hR).bind fun ps qs σ τ _ hresults hR => ?_
  have hstates : SameResults (fun p q => q.state = p.state) ps qs :=
    hresults.imp fun _ _ h => ⟨h.1, ha.state h.2⟩
  exact Action.tandem_pure (Summary.of_congr hstates).symm hR

end Accord

end Pathway
