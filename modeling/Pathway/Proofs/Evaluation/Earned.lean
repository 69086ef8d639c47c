import Pathway.Proofs.Evaluation.CatchUp
import Pathway.Proofs.Evaluation.Completion
import Pathway.Proofs.Evaluation.Improvement

/-!
# Earned completions

A stored completion counts even where the facts for it are gone. Where the facts earn every
completion that is stored, what is stored makes no difference: a store with the same facts, and no
progressions of the learner at all, gives the learner the same standing on every module.
-/

namespace Pathway

open Evaluation

variable {s s' t : Store} {e : Evaluator} {learner l : LearnerId} {now : Instant}
  {limit : Option Nat} {ids : List ModuleId} {id : ModuleId} {p : Progression} {f : Failure}
  {σ τ : Session}

/-- What a progression says of the learner now. The moment of a completion and the display flag are
kept from before, and do not belong to it. -/
def Progression.standing (p : Progression) : Progression :=
  { p with completedAt := none, collapsed := false }

theorem any_isCompleted_standing (p : Option Progression) :
    (p.map Progression.standing).any (·.isCompleted) = p.any (·.isCompleted) := by
  cases p <;> rfl

/-! ## Assessments -/

namespace Assessment

variable {facts facts' : Facts} {m : Module} {met : Bool} {previous : Option Progression}

/-- If the module was completed before, the facts complete it. -/
def Earned (facts : Facts) (m : Module) (previous : Option Progression) : Prop :=
  wasCompleted previous = true → needed m ≤ (metItems facts m).length

theorem earned_none : Earned facts m none := by
  intro h
  cases h

theorem Earned.improved (h : Earned facts m previous) (himp : Improved facts facts') :
    Earned facts' m previous :=
  fun hwas => (h hwas).trans (metItems_sublist himp).length_le

theorem stateOf_of_earned (h : Earned facts m previous) :
    stateOf facts m previous = stateOf facts m none := by
  have hcompletes : (decide (needed m ≤ (metItems facts m).length) || wasCompleted previous) =
      (decide (needed m ≤ (metItems facts m).length) || wasCompleted none) := by
    by_cases hn : needed m ≤ (metItems facts m).length
    · rw [decide_eq_true hn, Bool.true_or, Bool.true_or]
    · have hwas : wasCompleted previous = false := Bool.eq_false_iff.2 fun hc => hn (h hc)
      rw [hwas]
      rfl
  rw [stateOf, hcompletes, stateOf]

theorem standing_progression (h : Earned facts m previous) :
    (progression facts learner now m met previous).standing =
      (progression facts learner now m met none).standing := by
  unfold progression
  split
  · unfold unlocked
    rw [stateOf_of_earned h]
    rfl
  · rfl

/-- A completion that is new is earned by the facts, and one that is not was earned before. -/
theorem earned_progression (h : Earned facts m previous) :
    Earned facts m (some (progression facts learner now m met previous)) := by
  intro hwas
  rw [wasCompleted, Option.any_some] at hwas
  unfold progression at hwas
  split at hwas
  · rw [Progression.isCompleted, beq_iff_eq, unlocked, stateOf_of_earned h] at hwas
    unfold stateOf at hwas
    split at hwas
    · next hc => simpa [wasCompleted] using hc
    · split at hwas <;> cases hwas
  · cases hwas

end Assessment

/-! ## Stores -/

/-- The facts earn each completion that the first store holds of the learner, and the first store
would take again what it holds. The second is the same but for progressions, and holds none of the
learner. -/
structure Store.Earned (learner : LearnerId) (s t : Store) : Prop extends Store.SameBase s t where
  blank : ∀ id, t.loadProgression learner id = none
  earned : ∀ m, s.getModule m.id = .ok m →
    Assessment.Earned (s.itemFacts learner) m (s.loadProgression learner m.id)
  accepted : ∀ id p, s.loadProgression learner id = some p → s.checkProgression p = .ok ()

theorem Store.checkProgression_of_position {q : Progression} (hb : s.backing = t.backing)
    (h : p.currentPosition = q.currentPosition) : s.checkProgression p = t.checkProgression q := by
  cases s with
  | memory d =>
    cases t with
    | memory d' => rfl
    | database r' => cases hb
  | database r =>
    cases t with
    | memory d' => cases hb
    | database r' => rw [Store.checkProgression, h, Store.checkProgression]

theorem currentPosition_keepProgression :
    (s.keepProgression l id p).currentPosition = p.currentPosition := by
  unfold Store.keepProgression
  split <;> rfl

theorem isCompleted_keepProgression :
    (s.keepProgression l id p).isCompleted = p.isCompleted := by
  unfold Store.keepProgression
  split <;> rfl

theorem Store.checkProgression_of_standing {q : Progression} (hb : s.backing = t.backing)
    (h : p.standing = q.standing) : s.checkProgression p = t.checkProgression q := by
  have hposition : p.standing.currentPosition = q.standing.currentPosition := by rw [h]
  exact checkProgression_of_position hb hposition

theorem Progression.currentPosition_of_same {q : Progression} (h : p.same q = true) :
    p.currentPosition = q.currentPosition := by
  simp only [Progression.same, Bool.and_eq_true, beq_iff_eq] at h
  exact h.1.1.2

/-- What a store does not take it does not hold either, if it would take again what it holds. So
such a result is refused. -/
theorem refusal_of_check
    (haccepted : ∀ q, s.loadProgression learner id = some q → s.checkProgression q = .ok ())
    (hin : s.InClosure ids id) (hp : reference s learner now limit id = some p)
    (hcheck : s.checkProgression p = .error f) : Refusal s learner now limit ids f := by
  refine .progression hin hp ?_ (Store.saveProgression_eq_error.2 hcheck)
  rw [← Bool.not_eq_true, Option.any_eq_true]
  rintro ⟨q, hq, hsame⟩
  have htaken := haccepted q hq
  rw [← Store.checkProgression_of_position (s := s) rfl (Progression.currentPosition_of_same hsame),
    hcheck] at htaken
  cases htaken

namespace Store.Earned

theorem start (h : ∀ id, s.loadProgression learner id = none) : s.Earned learner s where
  toSameBase := .refl s
  blank := h
  earned m _ := h m.id ▸ Assessment.earned_none
  accepted id p hp := by cases (h id).symm.trans hp

theorem save (h : s.Earned learner t) (hs : s.saveProgression l id p = .ok s')
    (hp : l = learner → ∀ m, s.getModule m.id = .ok m → m.id = id →
      Assessment.Earned (s.itemFacts learner) m (some p)) : s'.Earned learner t := by
  obtain ⟨hcheck, rfl⟩ := Store.saveProgression_eq_ok.1 hs
  have hbase := s.sameBase_putProgression l id p
  refine ⟨h.putProgression l id p, h.blank, fun m hm => ?_, fun i q hq => ?_⟩
  · rw [hbase.getModule] at hm
    rw [Store.loadProgression_putProgression, hbase.itemFacts]
    split
    · next heq =>
      intro hwas
      rw [Assessment.wasCompleted, Option.any_some, isCompleted_keepProgression] at hwas
      exact hp heq.1 m hm heq.2.symm hwas
    · exact h.earned m hm
  · rw [Store.loadProgression_putProgression] at hq
    split at hq
    · cases hq
      rw [← hcheck]
      exact Store.checkProgression_of_position hbase.backing currentPosition_keepProgression
    · exact (Store.checkProgression_congr hbase.backing).trans (h.accepted i q hq)

theorem improved (h : s.Earned learner t) {t' : Store} (hs : s.SameButFacts s')
    (ht : t.SameButFacts t') (hbase : s'.SameBase t')
    (himp : Assessment.Improved (s.itemFacts learner) (s'.itemFacts learner)) :
    s'.Earned learner t' where
  toSameBase := hbase
  blank id := (ht.loadProgression learner id).trans (h.blank id)
  earned m hm := by
    rw [hs.loadProgression]
    exact (h.earned m ((hs.getModule m.id).symm.trans hm)).improved himp
  accepted id p hp := by
    rw [hs.loadProgression] at hp
    exact (Store.checkProgression_congr hs.backing).trans (h.accepted id p hp)

/-! ## The same standing -/

theorem standing_reference (h : s.Earned learner t) (id : ModuleId) :
    (reference t learner now limit id).map Progression.standing =
      (reference s learner now limit id).map Progression.standing := by
  induction id using s.prerequisite_induction limit with
  | step id ih =>
    cases hm : s.getModule id with
    | error f => rw [reference_of_error hm, reference_of_error ((h.getModule id).trans hm)]
    | ok m =>
      obtain rfl := Store.id_of_getModule hm
      have hreach : Reachable t learner now limit m ↔ Reachable s learner now limit m := by
        refine h.sameModules.reachable fun hb b hmem hk => ?_
        rw [← any_isCompleted_standing, ih hb b ⟨⟨m, hm, hmem⟩, hk⟩, any_isCompleted_standing]
      obtain ⟨met, hmet, hresult⟩ := exists_met learner now limit hm
      rw [hresult, reference_eq ((h.getModule m.id).trans hm) (hmet.trans hreach.symm),
        h.itemFacts, h.blank, Option.map_some, Option.map_some,
        Assessment.standing_progression (h.earned m hm)]

theorem refusal_iff (h : s.Earned learner t) :
    Refusal t learner now limit ids f ↔ Refusal s learner now limit ids f := by
  constructor
  · refine .of_sameModules h.sameModules (h.hasLearner learner) fun id q hin hq _ hsave => ?_
    obtain ⟨p, hp, hstanding⟩ := Option.map_eq_some_iff.1
      ((h.standing_reference id).symm.trans (congrArg (Option.map Progression.standing) hq))
    rw [Store.saveProgression_eq_error,
      Store.checkProgression_of_standing h.backing hstanding.symm] at hsave
    exact refusal_of_check (h.accepted id) hin hp hsave
  · refine .of_sameModules h.sameModules.symm (h.hasLearner learner).symm
      fun id p hin hp _ hsave => ?_
    obtain ⟨q, hq, hstanding⟩ := Option.map_eq_some_iff.1
      ((h.standing_reference id).trans (congrArg (Option.map Progression.standing) hp))
    rw [Store.saveProgression_eq_error,
      Store.checkProgression_of_standing h.backing.symm hstanding.symm] at hsave
    refine .progression hin hq ?_ (Store.saveProgression_eq_error.2 hsave)
    rw [h.blank, Option.any_none]

end Store.Earned

/-! ## Answers -/

def standings (results : List (ModuleId × Progression)) : List (ModuleId × Progression) :=
  results.map fun r => (r.1, r.2.standing)

theorem standings_eq {results results' : List (ModuleId × Progression)}
    (h : s.Earned learner t) (hs : Answered s learner now limit ids results)
    (ht : Answered t learner now limit ids results') : standings results' = standings results := by
  have hfound : ∀ {s results}, Answered s learner now limit ids results →
      (standings results).map (fun r => (r.1, some r.2)) = ids.eraseDups.map fun id =>
        (id, (reference s learner now limit id).map Progression.standing) := by
    intro s results hans
    rw [← hans.asked, standings, List.map_map, List.map_map]
    refine List.map_congr_left fun r hr => ?_
    simp [hans.result r hr]
  have hinj : Function.Injective fun r : ModuleId × Progression => (r.1, some r.2) := by
    rintro ⟨a, p⟩ ⟨b, q⟩ h
    cases h
    rfl
  apply List.map_injective_iff.2 hinj
  rw [hfound hs, hfound ht]
  exact List.map_congr_left fun id _ => by rw [h.standing_reference]

/-- In both sessions the action gives the same modules the same standings, or in both it fails. -/
def SameStandings (x : Action (List (ModuleId × Progression))) (σ τ : Session) : Prop :=
  x.Ends σ (fun results _ => ∃ results' τ', x τ = .ok results' τ' ∧
    standings results' = standings results) (fun _ => ∃ f τ', x τ = .error f τ')

theorem sameStandings_evaluateAll (h : σ.store.Earned learner τ.store) (ids : List ModuleId) :
    SameStandings (e.evaluateAll now learner ids) σ τ := by
  refine (ends_evaluateAll_caughtUp (.refl _) ids).and_ok.imp ?_ fun f hf =>
    exists_error_of_refusal (h.refusal_iff.2 hf)
  rintro results σ' ⟨hx, hans, -⟩
  obtain ⟨memo, hev, -⟩ := (ends_evaluateAll e now learner ids σ).of_ok hx
  obtain ⟨results', τ', hx', hans', -⟩ := (ends_evaluateAll_caughtUp (.refl _) ids).exists_ok
    fun f hf => hev.found.not_refusal hev.known (h.refusal_iff.1 hf)
  exact ⟨results', τ', hx', standings_eq h hans hans'⟩

theorem sameStandings_evaluateEvery (h : σ.store.Earned learner τ.store) :
    SameStandings (e.evaluateEvery now learner) σ τ := by
  have hids : τ.store.moduleIds none = σ.store.moduleIds none := h.moduleIds
  cases hl : σ.store.hasLearner learner with
  | true =>
    unfold SameStandings Action.Ends
    rw [evaluateEvery_apply hl, evaluateEvery_apply ((h.hasLearner learner).trans hl), hids]
    exact sameStandings_evaluateAll h _
  | false =>
    have hl' : τ.store.hasLearner learner = false := (h.hasLearner learner).trans hl
    unfold SameStandings Action.Ends
    rw [evaluateEvery_of_unknown hl, evaluateEvery_of_unknown hl']
    exact ⟨_, _, rfl⟩

end Pathway
