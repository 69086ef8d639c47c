import Pathway.Proofs.Evaluation.Accord
import Pathway.Proofs.Evaluation.Earned
import Pathway.Proofs.Sample

/-!
# What is read of the progressions before

Of the progressions stored for a learner an evaluation reads which are completed and since when, and
for each module its own display flag. So two stores that agree on the completions give the same
progressions but for the flags.
-/

namespace Pathway

open Evaluation

/-! ## Alike progressions -/

/-- The progressions differ in the flag at most, and in how the moment of completion is written as
far as `T` allows. -/
structure Progression.Alike (T : Instant → Instant → Prop) (p q : Progression) : Prop where
  rest : { q with completedAt := p.completedAt, collapsed := p.collapsed } = p
  completedAt : Option.Rel T p.completedAt q.completedAt

/-- The completions of two stores go together: there is one in both or in neither, and the moments
belong together by `T`. -/
abbrev SameCompletion (T : Instant → Instant → Prop) (a b : Option (Option Instant)) : Prop :=
  Option.Rel (Option.Rel T) a b

variable {T : Instant → Instant → Prop} {p q : Progression}

theorem optionRel_refl {α : Type} {R : α → α → Prop} (h : ∀ a, R a a) (o : Option α) :
    Option.Rel R o o := by
  cases o with
  | none => exact .none
  | some a => exact .some (h a)

theorem isSome_of_optionRel {α : Type} {R : α → α → Prop} {a b : Option α}
    (h : Option.Rel R a b) : b.isSome = a.isSome := by
  cases h <;> rfl

namespace Progression.Alike

theorem isCompleted (h : p.Alike T q) : q.isCompleted = p.isCompleted := by
  have hrest := congrArg Progression.isCompleted h.rest
  exact hrest

theorem currentPosition (h : p.Alike T q) : q.currentPosition = p.currentPosition := by
  have hrest := congrArg Progression.currentPosition h.rest
  exact hrest

theorem completion? (h : p.Alike T q) : SameCompletion T p.completion? q.completion? := by
  unfold Progression.completion?
  rw [h.isCompleted]
  split
  · exact .some h.completedAt
  · exact .none

theorem eq_of_eq (h : p.Alike Eq q) : { q with collapsed := p.collapsed } = p := by
  have hmoment : p.completedAt = q.completedAt := by
    rcases cases_of_optionRel h.completedAt with ⟨hp, hq⟩ | ⟨a, b, hp, hq, hab⟩
    · rw [hp, hq]
    · rw [hp, hq, hab]
  have hrest := h.rest
  rwa [hmoment] at hrest

end Progression.Alike

/-! ## Assessments -/

namespace Assessment

variable {facts : Facts} {learner : LearnerId} {now : Instant} {m : Module} {met : Bool}
  {previous previous' : Option Progression}

theorem wasCompleted_eq : wasCompleted previous = (previous.bind (·.completion?)).isSome := by
  cases previous with
  | none => rfl
  | some p => exact p.isSome_completion?.symm

theorem keptMoment_eq : keptMoment previous = (previous.bind (·.completion?)).join := by
  cases previous with
  | none => rfl
  | some p =>
    simp only [keptMoment, Progression.completion?, Option.bind_some]
    split <;> rfl

section Alike

variable (hT : ∀ i, T i i)
  (h : SameCompletion T (previous.bind (·.completion?)) (previous'.bind (·.completion?)))
include hT h

theorem optionRel_completedAt :
    Option.Rel T (completedAt facts m previous) (completedAt facts m previous') := by
  rw [completedAt_eq, completedAt_eq, keptMoment_eq, keptMoment_eq]
  rcases cases_of_optionRel h with ⟨hp, hq⟩ | ⟨a, b, hp, hq, hab⟩
  · rw [hp, hq]
    exact optionRel_refl hT _
  · rw [hp, hq]
    cases hab with
    | none => exact optionRel_refl hT _
    | some hab => exact .some hab

/-- An assessment reads the completion before it and the flag, and nothing else. -/
theorem alike_progression :
    (progression facts learner now m met previous).Alike T
      (progression facts learner now m met previous') := by
  have hstate : stateOf facts m previous' = stateOf facts m previous := by
    unfold stateOf
    rw [wasCompleted_eq, wasCompleted_eq, isSome_of_optionRel h]
  unfold progression
  split
  · refine ⟨?_, ?_⟩
    · rw [unlocked, unlocked, hstate]
    · rw [unlocked, unlocked, hstate]
      dsimp only
      split
      · exact optionRel_completedAt hT h
      · exact .none
  · exact ⟨rfl, .none⟩

end Alike

theorem collapsed_progression :
    (progression facts learner now m met previous).collapsed = isCollapsed previous := by
  unfold progression
  split <;> rfl

end Assessment

/-! ## Stores that agree on completions -/

/-- The stores have the same modules and the same facts of the learner. Of the progressions that
they hold of the learner the same are completed, at moments that belong together by `T`. -/
structure Store.SameCompletions (T : Instant → Instant → Prop) (learner : LearnerId)
    (s t : Store) : Prop where
  modules : s.SameModules t
  facts : t.itemFacts learner = s.itemFacts learner
  completions : ∀ id, SameCompletion T (s.completion? learner id) (t.completion? learner id)

/-- What two stores give rise to for a module is alike, and each of the progressions has the flag
that its own store holds of just this module. -/
structure AlikeFrom (T : Instant → Instant → Prop) (learner : LearnerId) (s t : Store)
    (id : ModuleId) (p q : Progression) : Prop where
  alike : p.Alike T q
  left : p.collapsed = Assessment.isCollapsed (s.loadProgression learner id)
  right : q.collapsed = Assessment.isCollapsed (t.loadProgression learner id)

/-- The store would take again whatever it holds of the learner. -/
def Store.Retakes (s : Store) (learner : LearnerId) : Prop :=
  ∀ id p, s.loadProgression learner id = some p → s.checkProgression p = .ok ()

variable {learner : LearnerId} {now : Instant} {limit : Option Nat} {s t : Store} {id : ModuleId}
  {ids : List ModuleId} {f : Failure}

theorem Store.SameModules.moduleIds (h : s.SameModules t)
    (hread : ∀ id, s.hasModule id = true → ∃ m, s.getModule id = .ok m) :
    t.moduleIds none = s.moduleIds none := by
  have hperm : (t.moduleIds none).Perm (s.moduleIds none) := by
    rw [List.perm_ext_iff_of_nodup Store.nodup_moduleIds Store.nodup_moduleIds]
    intro id
    rw [Store.mem_moduleIds, Store.mem_moduleIds, h.hasModule]
  have hwalk : s.InWalkingOrder (t.moduleIds none) := by
    refine t.inWalkingOrder_moduleIds.imp fun hab m n hm hn => ?_
    exact hab m n ((h _).trans hm) ((h _).trans hn)
  refine hperm.eq_of_pairwise (fun a b ha hb hab hba => ?_) hwalk s.inWalkingOrder_moduleIds
  obtain ⟨m, hm⟩ := hread a ((h.hasModule a).symm.trans (Store.mem_moduleIds.1 ha))
  obtain ⟨n, hn⟩ := hread b (Store.mem_moduleIds.1 hb)
  have hplace := Place.le_antisymm (hab m n hm hn) (hba n m hn hm)
  rw [← Store.id_of_getModule hm, ← Store.id_of_getModule hn]
  exact congrArg Prod.snd hplace

namespace Store.SameCompletions

theorem reference (h : s.SameCompletions T learner t) (hT : ∀ i, T i i) (id : ModuleId) :
    Option.Rel (AlikeFrom T learner s t id) (reference s learner now limit id)
      (reference t learner now limit id) := by
  induction id using s.prerequisite_induction limit with
  | step id ih =>
    cases hm : s.getModule id with
    | error f =>
      rw [reference_of_error hm, reference_of_error ((h.modules id).trans hm)]
      exact .none
    | ok m =>
      obtain rfl := Store.id_of_getModule hm
      have hreach : Reachable t learner now limit m ↔ Reachable s learner now limit m := by
        refine h.modules.reachable fun hb b hmem hk => ?_
        rcases cases_of_optionRel (ih hb b ⟨⟨m, hm, hmem⟩, hk⟩) with
          ⟨hp, hq⟩ | ⟨p, q, hp, hq, hpq⟩
        · rw [hp, hq]
        · rw [hp, hq]
          exact hpq.alike.isCompleted
      obtain ⟨met, hmet, hresult⟩ := exists_met learner now limit hm
      rw [hresult, reference_eq ((h.modules m.id).trans hm) (hmet.trans hreach.symm), h.facts]
      exact .some ⟨Assessment.alike_progression hT (h.completions m.id),
        Assessment.collapsed_progression, Assessment.collapsed_progression⟩

/-- What is refused from one of two stores that agree on completions is refused from the other, if
that one would take again what it holds. -/
theorem refusal (h : s.SameCompletions T learner t) (hT : ∀ i, T i i)
    (hl : t.hasLearner learner = s.hasLearner learner) (hb : t.backing = s.backing)
    (hretakes : s.Retakes learner)
    (hf : Refusal t learner now limit ids f) : Refusal s learner now limit ids f := by
  refine hf.of_sameModules h.modules hl fun id q hin hq _ hsave => ?_
  rcases cases_of_optionRel (h.reference hT id) with ⟨-, hnone⟩ | ⟨p, q', hp, hq', hpq⟩
  · cases hnone.symm.trans hq
  · cases hq'.symm.trans hq
    rw [Store.saveProgression_eq_error,
      Store.checkProgression_of_position hb hpq.alike.currentPosition] at hsave
    exact refusal_of_check (hretakes id) hin hp hsave

theorem symm (h : s.SameCompletions T learner t) :
    t.SameCompletions (fun i j => T j i) learner s where
  modules := h.modules.symm
  facts := h.facts.symm
  completions id := by
    rcases cases_of_optionRel (h.completions id) with ⟨hp, hq⟩ | ⟨a, b, hp, hq, hab⟩
    · rw [hp, hq]
      exact .none
    · rw [hp, hq]
      cases hab with
      | none => exact .some .none
      | some hab => exact .some (.some hab)

end Store.SameCompletions

/-! ## Evaluations -/

variable {e e' : Evaluator} {σ σ' τ τ' : Session} {memo memo' : Memo}

theorem ends_evaluateEvery_evaluated (e : Evaluator) (now : Instant) (learner : LearnerId)
    (σ : Session) :
    (e.evaluateEvery now learner).Ends σ
      (fun results σ' => ∃ memo, Evaluated e now learner (σ.store.moduleIds none) σ memo σ' ∧
        results = answers memo (σ.store.moduleIds none).eraseDups)
      (Refusal σ.store learner now e.depthLimit (σ.store.moduleIds none)) := by
  unfold Evaluator.evaluateEvery
  refine ends_requireLearner.bind ?_
  rintro _ _ ⟨rfl, -⟩
  exact Action.ends_ask (ends_evaluateAll e now learner _ _)

/-- Evaluations from stores that agree on the completions of a learner find alike progressions of
the same modules, and leave stores that agree again. -/
structure AlikeEnds (T : Instant → Instant → Prop) (learner : LearnerId) (σ τ : Session)
    (memo memo' : Memo) (σ' τ' : Session) : Prop where
  found : ∀ id, Option.Rel (AlikeFrom T learner σ.store τ.store id) memo[id]? memo'[id]?
  agree : σ'.store.SameCompletions T learner τ'.store

theorem Store.SameCompletions.evaluated (h : σ.store.SameCompletions T learner τ.store)
    (hT : ∀ i, T i i) (hlimit : e'.depthLimit = e.depthLimit)
    (hs : Evaluated e now learner ids σ memo σ') (ht : Evaluated e' now learner ids τ memo' τ') :
    AlikeEnds T learner σ τ memo memo' σ' τ' := by
  have hin : τ.store.InClosure ids = σ.store.InClosure ids := h.modules.inClosure
  have hfound : ∀ id, Option.Rel (AlikeFrom T learner σ.store τ.store id) memo[id]? memo'[id]? := by
    intro id
    by_cases hid : σ.store.InClosure ids id
    · rw [hs.found.result id hid, ht.found.result id (hin ▸ hid), hlimit]
      exact h.reference hT id
    · rw [hs.found.nothing id hid, ht.found.nothing id (hin ▸ hid)]
      exact .none
  refine ⟨hfound, fun id => ?_, ?_, fun id => ?_⟩
  · rw [ht.caughtUp.getModule, hs.caughtUp.getModule, h.modules]
  · rw [ht.caughtUp.itemFacts, hs.caughtUp.itemFacts, h.facts]
  · by_cases hid : σ.store.InClosure ids id
    · obtain ⟨p, -, hp⟩ := hs.exists_result hid
      rcases cases_of_optionRel (hfound id) with ⟨hnone, -⟩ | ⟨p, q, hp, hq, hpq⟩
      · cases hnone.symm.trans hp
      · rw [hs.completion? hp, ht.completion? hq]
        exact hpq.alike.completion?
    · unfold Store.completion?
      rw [hs.found.untouched learner id (Or.inr hid),
        ht.found.untouched learner id (Or.inr (hin ▸ hid))]
      exact h.completions id

/-- Results of the same modules in the same order, and alike. -/
def AlikeResults (T : Instant → Instant → Prop) (learner : LearnerId) (s t : Store) :
    List (ModuleId × Progression) → List (ModuleId × Progression) → Prop :=
  List.Forall₂ fun r r' => r'.1 = r.1 ∧ AlikeFrom T learner s t r.1 r.2 r'.2

theorem AlikeEnds.answers (h : AlikeEnds T learner σ τ memo memo' σ' τ') (ids : List ModuleId) :
    AlikeResults T learner σ.store τ.store (answers memo ids) (answers memo' ids) := by
  refine forall₂_filterMap (fun id => ?_) ids
  rcases cases_of_optionRel (h.found id) with ⟨hp, hq⟩ | ⟨p, q, hp, hq, hpq⟩
  · rw [hp, hq]
    exact .none
  · rw [hp, hq]
    exact .some ⟨rfl, hpq⟩

/-- If both actions end well, then with results that belong together by `S`, and in stores that
agree on the completions of the learner. -/
def EndAlike {α : Type} (T : Instant → Instant → Prop) (learner : LearnerId) (S : α → α → Prop)
    (x y : Action α) (σ τ : Session) (E E' : Failure → Prop) : Prop :=
  x.Ends σ (fun a σ' => y.Ends τ
    (fun b τ' => S a b ∧ σ'.store.SameCompletions T learner τ'.store) E') E

/-- From two stores that agree on the completions of a learner every evaluation finds the same for
that learner but for the display flags, and these are the ones that were stored of each module. What
else is in the stored progressions, their states short of completed, requirements and positions,
makes no difference. Moments are compared by any reflexive relation, so by equality or by the moment
that they name. -/
theorem evaluation_reads_completions (T : Instant → Instant → Prop) (hT : ∀ i, T i i)
    (e e' : Evaluator) (now : Instant) (learner : LearnerId) (σ τ : Session)
    (h : σ.store.SameCompletions T learner τ.store) (hlimit : e'.depthLimit = e.depthLimit) :
    (∀ ids, EndAlike T learner
      (fun memo memo' => ∀ id,
        Option.Rel (AlikeFrom T learner σ.store τ.store id) memo[id]? memo'[id]?)
      (e.evaluateClosure now learner ids) (e'.evaluateClosure now learner ids) σ τ
      (Refusal σ.store learner now e.depthLimit ids)
      (Refusal τ.store learner now e.depthLimit ids)) ∧
    (∀ ids, EndAlike T learner (AlikeResults T learner σ.store τ.store)
      (e.evaluateAll now learner ids) (e'.evaluateAll now learner ids) σ τ
      (Refusal σ.store learner now e.depthLimit ids)
      (Refusal τ.store learner now e.depthLimit ids)) ∧
    EndAlike T learner (AlikeResults T learner σ.store τ.store)
      (e.evaluateEvery now learner) (e'.evaluateEvery now learner) σ τ
      (Refusal σ.store learner now e.depthLimit (σ.store.moduleIds none))
      (Refusal τ.store learner now e.depthLimit (τ.store.moduleIds none)) ∧
    (∀ id, EndAlike T learner (AlikeFrom T learner σ.store τ.store id)
      (e.evaluate now learner id) (e'.evaluate now learner id) σ τ
      (Refusal σ.store learner now e.depthLimit [id])
      (Refusal τ.store learner now e.depthLimit [id])) ∧
    (τ.store.hasLearner learner = σ.store.hasLearner learner →
      τ.store.backing = σ.store.backing → σ.store.Retakes learner → τ.store.Retakes learner →
      ∀ ids f, Refusal τ.store learner now e.depthLimit ids f ↔
        Refusal σ.store learner now e.depthLimit ids f) := by
  refine ⟨fun ids => ?_, fun ids => ?_, ?_, fun id => ?_, fun hl hb hs ht ids f => ⟨?_, ?_⟩⟩
  · refine (ends_evaluated e now learner ids σ).imp (fun memo σ' hs => ?_) fun _ hf => hf
    refine (ends_evaluated e' now learner ids τ).imp (fun memo' τ' ht => ?_) fun _ hf => hlimit ▸ hf
    have hends := h.evaluated hT hlimit hs ht
    exact ⟨hends.found, hends.agree⟩
  · refine (ends_evaluateAll e now learner ids σ).imp ?_ fun _ hf => hf
    rintro results σ' ⟨memo, hs, rfl⟩
    refine (ends_evaluateAll e' now learner ids τ).imp ?_ fun _ hf => hlimit ▸ hf
    rintro results' τ' ⟨memo', ht, rfl⟩
    have hends := h.evaluated hT hlimit hs ht
    exact ⟨hends.answers _, hends.agree⟩
  · refine (ends_evaluateEvery_evaluated e now learner σ).imp ?_ fun _ hf => hf
    rintro results σ' ⟨memo, hs, rfl⟩
    -- All modules could be read, so they are listed in the same order.
    have hids : τ.store.moduleIds none = σ.store.moduleIds none :=
      h.modules.moduleIds fun id hid => hs.found.read id ⟨id, Store.mem_moduleIds.2 hid, .refl⟩
    refine (ends_evaluateEvery_evaluated e' now learner τ).imp ?_ fun _ hf => hlimit ▸ hf
    rintro results' τ' ⟨memo', ht, rfl⟩
    rw [hids] at ht ⊢
    have hends := h.evaluated hT hlimit hs ht
    exact ⟨hends.answers _, hends.agree⟩
  · refine (ends_evaluate e now learner id σ).imp ?_ fun _ hf => hf
    rintro p σ' ⟨memo, hs, hp⟩
    refine (ends_evaluate e' now learner id τ).imp ?_ fun _ hf => hlimit ▸ hf
    rintro q τ' ⟨memo', ht, hq⟩
    have hends := h.evaluated hT hlimit hs ht
    have hpq := hends.found id
    rw [hp, hq] at hpq
    cases hpq with
    | some hpq => exact ⟨hpq, hends.agree⟩
  · exact h.refusal hT hl hb hs
  · exact h.symm.refusal hT hl.symm hb.symm ht

namespace Sample

/-- What is stored here says that the module was begun, which was never so, and is folded. -/
def staleStore : Store :=
  store.putProgression "ada" "orientation"
    ⟨"ada", "orientation", .started, [⟨"welcome-page", .view⟩], [], some 7, none, true⟩

theorem sameCompletions_staleStore : store.SameCompletions Eq "ada" staleStore where
  modules _ := rfl
  facts := rfl
  completions id := by
    rw [staleStore, Store.completion?_putProgression]
    split
    · next hid =>
      obtain ⟨-, rfl⟩ := hid
      exact .none
    · exact optionRel_refl (optionRel_refl fun _ => rfl) _

end Sample

theorem sample_evaluation_reads_completions :
    Sample.store.SameCompletions Eq "ada" Sample.staleStore ∧
      ∃ p q σ' τ',
        Evaluator.evaluate ⟨1, none⟩ ⟨0, 0⟩ "ada" "orientation" (.ofStore Sample.store) =
          .ok p σ' ∧
        Evaluator.evaluate ⟨4, none⟩ ⟨0, 0⟩ "ada" "orientation" (.ofStore Sample.staleStore) =
          .ok q τ' ∧
        { q with collapsed := false } = p ∧ q.collapsed = true := by
  refine ⟨Sample.sameCompletions_staleStore, ?_⟩
  have hids : ∀ id ∈ ["orientation"], Sample.store.hasModule id = true := by
    intro id hid
    rw [List.mem_singleton.1 hid]
    rfl
  have halike := (evaluation_reads_completions Eq (fun _ => rfl) ⟨1, none⟩ ⟨4, none⟩ ⟨0, 0⟩ "ada"
    (.ofStore Sample.store) (.ofStore Sample.staleStore) Sample.sameCompletions_staleStore
    rfl).2.2.2.1 "orientation"
  obtain ⟨p, σ', hp, hends⟩ := halike.exists_ok fun f => Sample.not_refusal_store hids
  obtain ⟨q, τ', hq, hpq, -⟩ := hends.exists_ok fun f => not_refusal_of_memory rfl rfl
    fun _ hin => Store.exists_module_of_inClosure (fun _ => Sample.exists_module_store) hids hin
  have hflag : p.collapsed = false := hpq.left
  exact ⟨p, q, σ', τ', hp, hq, hflag ▸ hpq.alike.eq_of_eq, hpq.right⟩

end Pathway
