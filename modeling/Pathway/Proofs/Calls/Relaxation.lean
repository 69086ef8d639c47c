import Pathway.Proofs.Calls.Boundary
import Pathway.Proofs.Evaluation.Gating
import Pathway.Proofs.Evaluation.Improvement
import Pathway.Proofs.Evaluation.Previous

/-!
# Modules and prerequisites taken away

With fewer modules and fewer prerequisites no module is worse off. Where a circle is broken the
chains around it may become longer, but behind a module that was open there was no circle to break.
-/

open Relation

namespace Pathway

open Evaluation

/-! ## Relaxed modules and stores -/

/-- The second module is the first with some of its prerequisites, and no others. -/
def Module.Relaxes (m n : Module) : Prop :=
  ∃ ids, ids ⊆ m.prerequisites ∧ n = { m with prerequisites := ids }

/-- The second store has some of the modules of the first, with some of their prerequisites. Of the
learner it has all the facts, and the progressions on the modules that are left. -/
structure Store.Relaxes (learner : LearnerId) (s t : Store) : Prop where
  modules : ∀ id, t.hasModule id = true →
    Action.SameOutcome Module.Relaxes (s.getModule id) (t.getModule id)
  known : t.hasLearner learner = s.hasLearner learner
  facts : t.itemFacts learner = s.itemFacts learner
  progressions : ∀ id, t.hasModule id = true →
    t.loadProgression learner id = s.loadProgression learner id

variable {s t u : Store} {learner : LearnerId} {now : Instant} {limit : Option Nat}
  {id a b : ModuleId} {ids ids' : List ModuleId} {m n : Module} {p : Progression}

theorem Module.Relaxes.refl (m : Module) : m.Relaxes m := ⟨_, List.Subset.refl _, rfl⟩

theorem Module.Relaxes.trans {x : Module} (h : m.Relaxes n) (g : n.Relaxes x) : m.Relaxes x := by
  obtain ⟨ids, hids, rfl⟩ := h
  obtain ⟨ids', hids', rfl⟩ := g
  exact ⟨ids', List.Subset.trans hids' hids, rfl⟩

theorem Module.Relaxes.prerequisites (h : m.Relaxes n) : n.prerequisites ⊆ m.prerequisites := by
  obtain ⟨ids, hids, rfl⟩ := h
  exact hids

theorem Module.Relaxes.progression {facts : Assessment.Facts} {met : Bool}
    {previous : Option Progression} (h : m.Relaxes n) :
    Assessment.progression facts learner now n met previous =
      Assessment.progression facts learner now m met previous := by
  obtain ⟨ids, -, rfl⟩ := h
  rfl

namespace Store.Relaxes

theorem sameOutcome_refl (x : Except Failure Module) :
    Action.SameOutcome Module.Relaxes x x := by
  cases x with
  | ok m => exact .ok (.refl m)
  | error f => exact .error

theorem refl (learner : LearnerId) (s : Store) : s.Relaxes learner s where
  modules _ _ := sameOutcome_refl _
  known := rfl
  facts := rfl
  progressions _ _ := rfl

theorem getModule (h : s.Relaxes learner t) (hm : s.getModule id = .ok m)
    (hid : t.hasModule id = true) : ∃ n, t.getModule id = .ok n ∧ m.Relaxes n := by
  have hout := h.modules id hid
  rw [hm] at hout
  cases ht : t.getModule id with
  | ok n =>
    rw [ht] at hout
    cases hout with
    | ok hmn => exact ⟨n, rfl, hmn⟩
  | error f =>
    rw [ht] at hout
    cases hout

theorem exists_getModule (h : s.Relaxes learner t) (hn : t.getModule id = .ok n) :
    ∃ m, s.getModule id = .ok m ∧ m.Relaxes n := by
  have hout := h.modules id (Store.hasModule_of_getModule hn)
  rw [hn] at hout
  cases hm : s.getModule id with
  | ok m =>
    rw [hm] at hout
    cases hout with
    | ok hmn => exact ⟨m, rfl, hmn⟩
  | error f =>
    rw [hm] at hout
    cases hout

theorem hasModule (h : s.Relaxes learner t) (hid : t.hasModule id = true) :
    s.hasModule id = true := by
  have hout := h.modules id hid
  rw [Store.hasModule_iff] at hid ⊢
  intro hnone
  rw [hnone] at hout
  cases ht : t.getModule id with
  | ok n =>
    rw [ht] at hout
    cases hout
  | error f =>
    rw [ht] at hout
    cases hout
    exact hid ht

theorem requires (h : s.Relaxes learner t) (a b : ModuleId) (hab : t.Requires a b) :
    s.Requires a b := by
  obtain ⟨⟨n, hn, hb⟩, hk⟩ := hab
  obtain ⟨m, hm, hmn⟩ := h.exists_getModule hn
  exact ⟨⟨m, hm, hmn.prerequisites hb⟩, h.hasModule hk⟩

theorem inClosure (h : s.Relaxes learner t) (hids : ids' ⊆ ids) (hin : t.InClosure ids' id) :
    s.InClosure ids id := by
  obtain ⟨a, ha, hreach⟩ := hin
  exact ⟨a, hids ha, ReflTransGen.mono h.requires _ _ hreach⟩

theorem trans (h : s.Relaxes learner t) (g : t.Relaxes learner u) : s.Relaxes learner u where
  modules id hid := by
    have hst := h.modules id (g.hasModule hid)
    have htu := g.modules id hid
    generalize s.getModule id = x, t.getModule id = y, u.getModule id = z at hst htu
    cases hst with
    | ok hmn =>
      cases htu with
      | ok hnx => exact .ok (hmn.trans hnx)
    | error => exact htu
  known := g.known.trans h.known
  facts := g.facts.trans h.facts
  progressions id hid := (g.progressions id hid).trans (h.progressions id (g.hasModule hid))

end Store.Relaxes

/-! ## Ways to relax

Any number of these make a relaxation. -/

theorem Store.relaxes_removeModule (s : Store) (learner : LearnerId) (i : ModuleId) :
    s.Relaxes learner (s.removeModule i) := by
  have hne : ∀ id, (s.removeModule i).hasModule id = true → i ≠ id := by
    rintro id hid rfl
    rw [Store.hasModule_iff, Store.getModule_removeModule, if_pos rfl] at hid
    exact hid rfl
  refine ⟨fun id hid => ?_, s.hasLearner_removeModule learner i,
    funext (s.itemFacts_removeModule learner i), fun id hid => ?_⟩
  · rw [Store.getModule_removeModule, if_neg (hne id hid)]
    exact Relaxes.sameOutcome_refl _
  · exact Store.loadProgression_removeModule.trans (if_neg fun h => hne id hid h.symm)

theorem Store.relaxes_putModule {course : Option CourseId} (hm : s.getModule m.id = .ok m)
    (hmn : m.Relaxes n) (hread : (Definition.of s.backing n).read = .ok n)
    (hput : s.putModule n course = .ok t) : s.Relaxes learner t := by
  have hid : n.id = m.id := by
    obtain ⟨ids, -, rfl⟩ := hmn
    rfl
  obtain ⟨-, rfl⟩ := Store.putModule_eq_ok.1 hput
  refine ⟨fun id hk => ?_, s.hasLearner_placeModule learner n course,
    funext fun i => s.itemFacts_placeModule learner i n course,
    fun id _ => s.loadProgression_placeModule learner id n course⟩
  rw [Store.getModule_putModule hput, hid]
  split
  · next heq =>
    subst heq
    rw [hm, hread]
    exact .ok hmn
  · exact Relaxes.sameOutcome_refl _

/-! ## Reference results -/

/-- Nothing that leads to a module within reach stands on a circle. -/
theorem not_onCircle_of_reachable (hm : s.getModule m.id = .ok m)
    (hr : Reachable s learner now limit m) (hb : ReflTransGen s.Requires m.id b) :
    ¬ OnCircle s.Requires b := by
  rcases ReflTransGen.cases_head hb with rfl | ⟨a, hma, hab⟩
  · exact fun hc => hr.1 (Or.inl hc)
  · -- The prerequisite on the way is completed, and so is all that leads to it.
    obtain ⟨⟨x, hx, ha⟩, hk⟩ := hma
    cases hm.symm.trans hx
    obtain ⟨p, hp, hc⟩ := (Option.any_eq_true _ _).1 (hr.2 a ha hk)
    have hl := not_isLocked_of_isCompleted hc
    rcases reflTransGen_iff_eq_or_transGen.1 hab with rfl | hab
    · exact (accessible_of_not_isLocked hp hl).1
    · obtain ⟨q, hq, hcompl⟩ := completed_of_transGen hp hl hab
      exact (accessible_of_not_isLocked hq (not_isLocked_of_isCompleted hcompl)).1

namespace Store.Relaxes

theorem not_barred (h : s.Relaxes learner t) (hm : s.getModule m.id = .ok m)
    (hr : Reachable s learner now limit m) : ¬ t.Barred limit m.id := by
  rintro (hcircle | ⟨n, hn, hchain⟩)
  · exact hr.1 (Or.inl (hcircle.mono h.requires))
  · exact hr.1 (Or.inr ⟨n, hn, hchain.mono h.requires fun _ => not_onCircle_of_reachable hm hr⟩)

theorem reference_eq {met : Bool} (h : s.Relaxes learner t) (hm : s.getModule m.id = .ok m)
    (hn : t.getModule m.id = .ok n) (hs : met = true ↔ Reachable s learner now limit m)
    (ht : met = true ↔ Reachable t learner now limit n) :
    reference t learner now limit m.id = reference s learner now limit m.id := by
  have hid : n.id = m.id := Store.id_of_getModule hn
  obtain ⟨m', hm', hmn⟩ := h.exists_getModule hn
  cases hm.symm.trans hm'
  rw [Pathway.reference_eq hm hs, ← hid, Pathway.reference_eq (hid.symm ▸ hn) ht,
    hmn.progression, h.facts, h.progressions n.id (hid ▸ Store.hasModule_of_getModule hn), hid]

/-- A module within reach stays so: what was completed for it still is. -/
theorem reachable (h : s.Relaxes learner t) (hm : s.getModule id = .ok m)
    (hn : t.getModule id = .ok n) (hr : Reachable s learner now limit m) :
    Reachable t learner now limit n := by
  induction id using s.prerequisite_induction limit generalizing m n with
  | step id ih =>
    obtain rfl := Store.id_of_getModule hm
    have hid : n.id = m.id := Store.id_of_getModule hn
    obtain ⟨m', hm', hmn⟩ := h.exists_getModule hn
    cases hm.symm.trans hm'
    refine ⟨hid ▸ h.not_barred hm hr, fun b hb hk => ?_⟩
    have hb' := hmn.prerequisites hb
    have hk' := h.hasModule hk
    have hcompleted := hr.2 b hb' hk'
    obtain ⟨p, hp, hc⟩ := (Option.any_eq_true _ _).1 hcompleted
    obtain ⟨x, -, hx, rfl, -⟩ := exists_assessment hp
    obtain ⟨y, hy, -⟩ := h.getModule hx hk
    have hreach := (reachable_of_not_isLocked hx hp (not_isLocked_of_isCompleted hc)).1
    have hreach' := ih hr.1 x.id ⟨⟨m, hm, hb'⟩, hk'⟩ hx hy hreach
    rw [h.reference_eq hx hy (iff_of_true rfl hreach) (iff_of_true rfl hreach')]
    exact hcompleted

end Store.Relaxes

/-- The second result is no worse than the first, and the very same if the first is open. -/
structure NoWorse (m : Module) (p q : Progression) : Prop where
  atMost : p.AtMost m q
  same : p.isLocked = false → q = p

theorem Store.Relaxes.noWorse {q : Progression} (h : s.Relaxes learner t)
    (hm : s.getModule m.id = .ok m) (hp : reference s learner now limit m.id = some p)
    (hq : reference t learner now limit m.id = some q) : NoWorse m p q := by
  obtain ⟨n, -, hn, hid, -⟩ := exists_assessment hq
  constructor
  · obtain ⟨m', hm', hmn⟩ := h.exists_getModule hn
    cases hm.symm.trans hm'
    obtain ⟨met, hmet, hresult⟩ := exists_met learner now limit hm
    obtain ⟨met', hmet', hresult'⟩ := exists_met (m := n) learner now limit (hid.symm ▸ hn)
    cases hresult.symm.trans hp
    rw [hid, hq, hmn.progression, h.facts,
      h.progressions m.id (Store.hasModule_of_getModule hn)] at hresult'
    cases hresult'
    refine Assessment.atMost_progression (fun _ _ f hf => ⟨f, hf, .refl f.score⟩) ?_
      (fun hr => hmet'.2 (h.reachable hm hn (hmet.1 hr))) id
    exact decide_eq_false (Int.lt_irrefl _)
  · intro hl
    have hr := (reachable_of_not_isLocked hm hp hl).1
    have heq := h.reference_eq hm hn (iff_of_true rfl hr) (iff_of_true rfl (h.reachable hm hn hr))
    exact Option.some.inj (hq.symm.trans (heq.trans hp))

/-! ## Evaluations -/

variable {e e' : Evaluator} {σ σ' τ τ' : Session} {memo memo' : Memo}

theorem Store.Relaxes.overflows {f : Failure} (h : σ.store.Relaxes learner τ.store)
    (hs : Evaluated e now learner ids σ memo σ') (hids : ids' ⊆ ids)
    (hknown : ∀ id ∈ ids', τ.store.hasModule id = true)
    (hf : Refusal τ.store learner now limit ids' f) :
    f = .oversizedInteger ∧ τ.store.Overflows ids' := by
  refine hf.overflows (h.known.trans hs.known) fun id hin => ?_
  obtain ⟨m, hm⟩ := hs.found.read id (h.inClosure hids hin)
  have hk : τ.store.hasModule id = true := by
    obtain ⟨a, ha, hreach⟩ := hin
    rcases ReflTransGen.cases_tail hreach with rfl | ⟨b, -, hb⟩
    · exact hknown _ ha
    · exact hb.2
  obtain ⟨n, hn, -⟩ := h.getModule hm hk
  exact ⟨n, hn⟩

theorem Store.Relaxes.evaluated (h : σ.store.Relaxes learner τ.store)
    (hlimit : e'.depthLimit = e.depthLimit) (hs : Evaluated e now learner ids σ memo σ')
    (ht : Evaluated e' now learner ids' τ memo' τ') :
    ∀ m p q, σ.store.getModule m.id = .ok m → memo[m.id]? = some p → memo'[m.id]? = some q →
      NoWorse m p q := by
  intro m p q hm hp hq
  refine h.noWorse hm (hs.reference_of_memo hp).2 ?_
  exact hlimit ▸ (ht.reference_of_memo hq).2

/-- Whatever modules are taken away, and whatever prerequisites of modules, each module that is left
is no worse off than before, for any limit on chains. An evaluation that ended well before does so
again, unless a module that was locked is now open and a position in it does not fit into its
column. -/
theorem relaxation_never_hurts (e e' : Evaluator) (now : Instant) (learner : LearnerId)
    (σ τ : Session) (h : σ.store.Relaxes learner τ.store) (hlimit : e'.depthLimit = e.depthLimit) :
    (∀ ids ids', ids' ⊆ ids → (∀ id ∈ ids', τ.store.hasModule id = true) →
      (e.evaluateClosure now learner ids).Ends σ
        (fun memo _ => (e'.evaluateClosure now learner ids').Ends τ
          (fun memo' _ => ∀ m p q, σ.store.getModule m.id = .ok m → memo[m.id]? = some p →
            memo'[m.id]? = some q → NoWorse m p q)
          fun f => f = .oversizedInteger ∧ τ.store.Overflows ids')
        (Refusal σ.store learner now e.depthLimit ids)) ∧
    (∀ ids ids', ids' ⊆ ids → (∀ id ∈ ids', τ.store.hasModule id = true) →
      (e.evaluateAll now learner ids).Ends σ
        (fun results _ => (e'.evaluateAll now learner ids').Ends τ
          (fun results' _ => ∀ m p q, σ.store.getModule m.id = .ok m → (m.id, p) ∈ results →
            (m.id, q) ∈ results' → NoWorse m p q)
          fun f => f = .oversizedInteger ∧ τ.store.Overflows ids')
        (Refusal σ.store learner now e.depthLimit ids)) ∧
    (e.evaluateEvery now learner).Ends σ
      (fun results _ => (e'.evaluateEvery now learner).Ends τ
        (fun results' _ => ∀ m p q, σ.store.getModule m.id = .ok m → (m.id, p) ∈ results →
          (m.id, q) ∈ results' → NoWorse m p q)
        fun f => f = .oversizedInteger ∧ τ.store.Overflows (τ.store.moduleIds none))
      (Refusal σ.store learner now e.depthLimit (σ.store.moduleIds none)) ∧
    ∀ m, σ.store.getModule m.id = .ok m → τ.store.hasModule m.id = true →
      (e.evaluate now learner m.id).Ends σ
        (fun p _ => (e'.evaluate now learner m.id).Ends τ (fun q _ => NoWorse m p q)
          fun f => f = .oversizedInteger ∧ τ.store.Overflows [m.id])
        (Refusal σ.store learner now e.depthLimit [m.id]) := by
  refine ⟨fun ids ids' hids hknown => ?_, fun ids ids' hids hknown => ?_, ?_, fun m hm hk => ?_⟩
  · refine (ends_evaluated e now learner ids σ).imp (fun memo σ' hs => ?_) fun _ hf => hf
    exact (ends_evaluated e' now learner ids' τ).imp (fun memo' τ' ht => h.evaluated hlimit hs ht)
      fun _ => h.overflows hs hids hknown
  · refine (ends_evaluateAll e now learner ids σ).imp ?_ fun _ hf => hf
    rintro results σ' ⟨memo, hs, rfl⟩
    refine (ends_evaluateAll e' now learner ids' τ).imp ?_ fun _ => h.overflows hs hids hknown
    rintro results' τ' ⟨memo', ht, rfl⟩ m p q hm hp hq
    exact h.evaluated hlimit hs ht m p q hm (mem_answers.1 hp).2 (mem_answers.1 hq).2
  · have hids : τ.store.moduleIds none ⊆ σ.store.moduleIds none := fun id hid =>
      Store.mem_moduleIds.2 (h.hasModule (Store.mem_moduleIds.1 hid))
    refine (ends_evaluateEvery_evaluated e now learner σ).imp ?_ fun _ hf => hf
    rintro results σ' ⟨memo, hs, rfl⟩
    refine (ends_evaluateEvery_evaluated e' now learner τ).imp ?_ fun _ =>
      h.overflows hs hids fun _ => Store.mem_moduleIds.1
    rintro results' τ' ⟨memo', ht, rfl⟩ m p q hm hp hq
    exact h.evaluated hlimit hs ht m p q hm (mem_answers.1 hp).2 (mem_answers.1 hq).2
  · refine (ends_evaluate e now learner m.id σ).imp ?_ fun _ hf => hf
    rintro p σ' ⟨memo, hs, hp⟩
    have hknown : ∀ id ∈ [m.id], τ.store.hasModule id = true := by
      intro id hid
      rw [List.mem_singleton.1 hid]
      exact hk
    refine (ends_evaluate e' now learner m.id τ).imp ?_ fun _ =>
      h.overflows hs (List.Subset.refl _) hknown
    rintro q τ' ⟨memo', ht, hq⟩
    exact h.evaluated hlimit hs ht m p q hm hp hq

namespace Sample

/-- The first module asks for the second, which asks for the first. -/
def ringed : Module := { orientation with prerequisites := ["cells"] }

def ring : Store :=
  store.placeModule ringed none

theorem getModule_ring :
    ring.getModule id = if "orientation" = id then .ok ringed else store.getModule id :=
  store.getModule_placeModule id ringed none

theorem exists_module_ring (h : ring.hasModule id = true) : ∃ m, ring.getModule id = .ok m := by
  rw [Store.hasModule_iff, getModule_ring] at h
  rw [getModule_ring]
  split_ifs at h ⊢
  · exact ⟨_, rfl⟩
  · exact exists_module_store (Store.hasModule_iff.2 h)

theorem onCircle_ring : OnCircle ring.Requires "orientation" := by
  have hthere : ring.Requires "orientation" "cells" :=
    ⟨⟨ringed, getModule_ring, List.mem_singleton.2 rfl⟩, rfl⟩
  have hback : ring.Requires "cells" "orientation" :=
    ⟨⟨cells, getModule_ring, List.mem_singleton.2 rfl⟩, rfl⟩
  exact .head hthere (.single hback)

end Sample

theorem sample_relaxation_never_hurts :
    ∃ t p q σ' τ', Sample.ring.putModule Sample.orientation none = .ok t ∧
      Evaluator.evaluate ⟨1, none⟩ ⟨0, 0⟩ "ada" "orientation" (.ofStore Sample.ring) = .ok p σ' ∧
      Evaluator.evaluate ⟨1, none⟩ ⟨0, 0⟩ "ada" "orientation" (.ofStore t) = .ok q τ' ∧
      NoWorse Sample.ringed p q ∧ p.isLocked = true ∧ q.isLocked = false := by
  obtain ⟨t, ht⟩ : ∃ t, Sample.ring.putModule Sample.orientation none = .ok t := ⟨_, rfl⟩
  have hring : Sample.ring.getModule Sample.ringed.id = .ok Sample.ringed := Sample.getModule_ring
  have hcut : t.getModule Sample.orientation.id = .ok Sample.orientation := by
    rw [Store.getModule_putModule ht, if_pos rfl]
    rfl
  have hrelaxes : Sample.ring.Relaxes "ada" t :=
    Store.relaxes_putModule hring ⟨[], List.nil_subset _, rfl⟩ rfl ht
  have hnever := (relaxation_never_hurts ⟨1, none⟩ ⟨1, none⟩ ⟨0, 0⟩ "ada" (.ofStore Sample.ring)
    (.ofStore t) hrelaxes rfl).2.2.2 Sample.ringed hring (Store.hasModule_of_getModule hcut)
  have hids : ∀ id ∈ ["orientation"], Sample.ring.hasModule id = true := by
    intro id hid
    rw [List.mem_singleton.1 hid]
    exact Store.hasModule_of_getModule hring
  obtain ⟨p, σ', hp, hends⟩ := hnever.exists_ok fun f => not_refusal_of_memory rfl rfl
    fun _ hin => Store.exists_module_of_inClosure (fun _ => Sample.exists_module_ring) hids hin
  obtain ⟨q, τ', hq, hworse⟩ := hends.exists_ok fun f hf => by
    have hdb : t.backing = .database := hf.2.1
    rw [Store.backing_putModule ht] at hdb
    cases hdb
  refine ⟨t, p, q, σ', τ', ht, hp, hq, hworse, ?_, ?_⟩
  · have hreference : reference Sample.ring "ada" ⟨0, 0⟩ none "orientation" = some p :=
      Evaluator.Finds.reference ⟨σ', hp⟩
    rw [← Bool.not_eq_false]
    exact fun hl => (accessible_of_not_isLocked hreference hl).1 Sample.onCircle_ring
  · have hreference : reference t "ada" ⟨0, 0⟩ none "orientation" = some q :=
      Evaluator.Finds.reference ⟨τ', hq⟩
    cases hreference.symm.trans (reference_of_no_prerequisites hcut rfl rfl)
    exact Assessment.isLocked_unlocked

end Pathway
