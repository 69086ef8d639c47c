import Pathway.Proofs.Evaluation.Earned
import Pathway.Proofs.Evaluation.Shape

/-!
# What an assessment looks at

An assessment of a module looks at the facts of its items, and counts those within reach. So facts
of one item make no difference to a module that has no such item and requires none that has, and
facts behind the first open requirement of a sequential module change no more than what is shown of
it as open.
-/

open Relation

namespace Pathway

/-- The second progression differs from the first in what is shown as open, in its key and in its
display flag at most. -/
structure Progression.Unmoved (p q : Progression) : Prop where
  state : q.state = p.state
  met : q.met = p.met
  currentPosition : q.currentPosition = p.currentPosition
  completedAt : q.completedAt = p.completedAt

theorem Progression.Unmoved.refl (p : Progression) : p.Unmoved p := ⟨rfl, rfl, rfl, rfl⟩

namespace Assessment

variable {facts facts' : Facts} {learner : LearnerId} {now : Instant} {m : Module} {met : Bool}
  {previous : Option Progression} {i : Item}

/-! ## The same way -/

theorem takeWhile_congr {α : Type} {p q : α → Bool} {l : List α} (h : ∀ a ∈ l, p a = q a) :
    l.takeWhile p = l.takeWhile q := by
  induction l with
  | nil => rfl
  | cons a l ih =>
    obtain ⟨ha, hl⟩ := List.forall_mem_cons.1 h
    rw [List.takeWhile_cons, List.takeWhile_cons, ha, ih hl]

theorem passes_congr (h : facts' i.id = facts i.id) : passes facts' i = passes facts i := by
  unfold passes
  rw [h]

/-- With both the walk gets equally far, and they are the same on what is within reach. -/
structure SameWay (facts facts' : Facts) (m : Module) : Prop where
  walk : walk facts' m = walk facts m
  reached : ∀ i ∈ (Assessment.walk facts m).1, facts' i.id = facts i.id

theorem walk_eq_of_fst (h : (walk facts' m).1 = (walk facts m).1) :
    walk facts' m = walk facts m := by
  have hparts := (walk_append facts' m).trans (walk_append facts m).symm
  rw [h] at hparts
  exact Prod.ext h (List.append_cancel_left hparts)

theorem sameWay_of_agree (h : ∀ i ∈ m.items, facts' i.id = facts i.id) :
    SameWay facts facts' m where
  walk := by
    refine walk_eq_of_fst ?_
    unfold walk
    split
    · exact takeWhile_congr fun i hi => passes_congr (h i hi)
    · rfl
  reached i hi := h i (walk_append facts m ▸ List.mem_append_left _ hi)

/-- Facts of items behind an open requirement do not lead further. -/
theorem sameWay_of_stops {before after : List Item} (hs : m.sequential = true)
    (hitems : m.items = before ++ after) (hstop : ∃ i ∈ before, passes facts i = false)
    (h : ∀ i ∈ before, facts' i.id = facts i.id) : SameWay facts facts' m := by
  have hpasses : ∀ i ∈ before, passes facts' i = passes facts i := fun i hi => passes_congr (h i hi)
  have hstop' : ∃ i ∈ before, passes facts' i = false := by
    obtain ⟨i, hi, hopen⟩ := hstop
    exact ⟨i, hi, (hpasses i hi).trans hopen⟩
  have hfirst : (walk facts m).1 = before.takeWhile (passes facts) := by
    rw [walk, if_pos hs, hitems, takeWhile_append_of_stops hstop]
  refine ⟨walk_eq_of_fst ?_, fun i hi => ?_⟩
  · rw [hfirst, walk, if_pos hs, hitems, takeWhile_append_of_stops hstop', takeWhile_congr hpasses]
  · rw [hfirst] at hi
    exact h i ((List.takeWhile_sublist _).subset hi)

/-! ## The same progression -/

namespace SameWay

variable (h : SameWay facts facts' m)
include h

theorem metItems : metItems facts' m = metItems facts m := by
  rw [Assessment.metItems, Assessment.metItems, h.walk]
  exact List.filter_congr fun i hi => by rw [passes_congr (h.reached i hi)]

theorem metMoments : metMoments facts' m = metMoments facts m := by
  rw [Assessment.metMoments, Assessment.metMoments, h.metItems]
  exact List.filterMap_congr fun i hi => by rw [h.reached i (List.mem_filter.1 hi).1]

theorem position? : position? facts' m = position? facts m := by
  rw [Assessment.position?, Assessment.position?, h.walk]

theorem stateOf : stateOf facts' m previous = stateOf facts m previous := by
  rw [Assessment.stateOf, Assessment.stateOf, h.metItems]

theorem completedAt : completedAt facts' m previous = completedAt facts m previous := by
  unfold Assessment.completedAt
  rw [h.metMoments]

theorem unmoved : (progression facts learner now m met previous).Unmoved
    (progression facts' learner now m met previous) := by
  unfold progression
  split
  · unfold unlocked
    dsimp only
    rw [h.stateOf, h.metItems, h.position?, h.completedAt]
    exact ⟨rfl, rfl, rfl, rfl⟩
  · exact .refl _

end SameWay

theorem progression_congr (h : ∀ i ∈ m.items, facts' i.id = facts i.id) :
    progression facts' learner now m met previous =
      progression facts learner now m met previous := by
  have hway := sameWay_of_agree h
  have hitems : unmetItems facts' m = unmetItems facts m := by
    rw [unmetItems, unmetItems, hway.walk]
    congr 1
    exact List.filter_congr fun i hi => by rw [passes_congr (hway.reached i hi)]
  have hunmet : (unmetItems facts' m).filterMap (unmetOf facts') =
      (unmetItems facts m).filterMap (unmetOf facts) := by
    rw [hitems]
    refine List.filterMap_congr fun i hi => ?_
    have hi' := (metItems_append_unmetItems_perm facts m).subset (List.mem_append_right _ hi)
    rw [unmetOf, unmetOf, h i (List.mem_filter.1 hi').1]
  unfold progression unlocked
  rw [hway.stateOf, hway.metItems, hunmet, hway.position?, hway.completedAt]

end Assessment

/-! ## Stores that differ in facts -/

variable {s t u : Store} {learner : LearnerId} {now : Instant} {limit : Option Nat}
  {ids : List ModuleId} {id : ModuleId} {item : ItemId} {m : Module} {p q : Progression}
  {f : Failure} {touched : Set (LearnerId × ItemId)}

/-- Nothing but facts tells the two stores apart, and these only for a learner and an item that are
touched. -/
structure Store.FactsApart (touched : Set (LearnerId × ItemId)) (s t : Store) : Prop
    extends Store.SameButFacts s t where
  elsewhere : ∀ l i, (l, i) ∉ touched → t.itemFacts l i = s.itemFacts l i

/-- The learner's facts on the items of the module are not touched. -/
def Module.Untouched (touched : Set (LearnerId × ItemId)) (learner : LearnerId) (m : Module) :
    Prop :=
  ∀ i ∈ m.items, (learner, i.id) ∉ touched

/-- Neither are those on the items of any module that it requires, directly or through others. -/
def Store.OutOfReach (s : Store) (touched : Set (LearnerId × ItemId)) (learner : LearnerId)
    (id : ModuleId) : Prop :=
  ∀ m, s.getModule m.id = .ok m → ReflTransGen s.Requires id m.id → m.Untouched touched learner

theorem Store.FactsApart.reference_eq (h : s.FactsApart touched t)
    (hout : s.OutOfReach touched learner id) :
    reference t learner now limit id = reference s learner now limit id := by
  induction id using s.prerequisite_induction limit with
  | step id ih =>
    cases hm : s.getModule id with
    | error f => rw [reference_of_error hm, reference_of_error ((h.sameModules id).trans hm)]
    | ok m =>
      obtain rfl := Store.id_of_getModule hm
      have hreach : Reachable t learner now limit m ↔ Reachable s learner now limit m := by
        refine h.sameModules.reachable fun hb b hmem hk => ?_
        have hreq : s.Requires m.id b := ⟨⟨m, hm, hmem⟩, hk⟩
        rw [ih hb b hreq fun n hn hbn => hout n hn (.head hreq hbn)]
      obtain ⟨met, hmet, hresult⟩ := exists_met learner now limit hm
      rw [Pathway.reference_eq ((h.sameModules m.id).trans hm) (hmet.trans hreach.symm), hresult,
        h.loadProgression]
      exact congrArg some (Assessment.progression_congr fun i hi =>
        h.elsewhere learner i.id (hout m hm .refl i hi))

/-! ## Stores that differ in the facts of an item -/

/-- From the first store to the second only facts have changed, and only facts of the item. -/
structure Store.ActedOn (item : ItemId) (s t : Store) : Prop
    extends Store.SameButFacts s t where
  elsewhere : ∀ l i, i ≠ item → t.itemFacts l i = s.itemFacts l i

/-- No module that is required, directly or through others, has the item. -/
def Store.NotBehind (s : Store) (id : ModuleId) (item : ItemId) : Prop :=
  ∀ m, s.getModule m.id = .ok m → TransGen s.Requires id m.id → ∀ i ∈ m.items, i.id ≠ item

namespace Store.ActedOn

theorem refl (item : ItemId) (s : Store) : s.ActedOn item s := ⟨.refl s, fun _ _ _ => rfl⟩

theorem trans (h : s.ActedOn item t) (g : t.ActedOn item u) : s.ActedOn item u :=
  ⟨h.toSameButFacts.trans g.toSameButFacts, fun l i hi =>
    (g.elsewhere l i hi).trans (h.elsewhere l i hi)⟩

theorem factsApart (h : s.ActedOn item t) : s.FactsApart {x | x.2 = item} t :=
  ⟨h.toSameButFacts, fun l i hi => h.elsewhere l i hi⟩

theorem reference_eq (h : s.ActedOn item t)
    (hno : ∀ n, s.getModule n.id = .ok n → ReflTransGen s.Requires id n.id →
      ∀ i ∈ n.items, i.id ≠ item) :
    reference t learner now limit id = reference s learner now limit id :=
  h.factsApart.reference_eq hno

/-- A module is found where it was if nothing that it requires has the item, and the item leads no
further in it. -/
theorem unmoved_reference (h : s.ActedOn item t) (hm : s.getModule m.id = .ok m)
    (hno : s.NotBehind m.id item)
    (hway : Assessment.SameWay (s.itemFacts learner) (t.itemFacts learner) m)
    (hp : reference s learner now limit m.id = some p)
    (hq : reference t learner now limit m.id = some q) : p.Unmoved q := by
  have hreach : Reachable t learner now limit m ↔ Reachable s learner now limit m := by
    refine h.sameModules.reachable fun _ b hmem hk => ?_
    have hreq : s.Requires m.id b := ⟨⟨m, hm, hmem⟩, hk⟩
    rw [h.reference_eq fun n hn hbn => hno n hn (.head' hreq hbn)]
  obtain ⟨met, hmet, hresult⟩ := exists_met learner now limit hm
  cases hresult.symm.trans hp
  rw [Pathway.reference_eq ((h.sameModules m.id).trans hm) (hmet.trans hreach.symm),
    h.loadProgression] at hq
  cases hq
  exact hway.unmoved

theorem refusal (h : s.ActedOn item t)
    (haccepted : ∀ id q, s.loadProgression learner id = some q → s.checkProgression q = .ok ())
    (hsame : ∀ id q, s.InClosure ids id → reference t learner now limit id = some q →
      ∃ p, reference s learner now limit id = some p ∧ q.currentPosition = p.currentPosition)
    (hf : Refusal t learner now limit ids f) : Refusal s learner now limit ids f := by
  refine hf.of_sameModules h.sameModules (h.hasLearner learner) fun id q hin hq _ hsave => ?_
  obtain ⟨p, hp, hposition⟩ := hsame id q hin hq
  rw [Store.saveProgression_eq_error,
    Store.checkProgression_of_position h.backing hposition] at hsave
  exact refusal_of_check (haccepted id) hin hp hsave

end Store.ActedOn

end Pathway
