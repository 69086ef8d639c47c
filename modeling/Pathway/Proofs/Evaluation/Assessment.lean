import Pathway.Evaluation.Assessment

/-!
# What an assessment makes of the one before

A progression that is assessed again with the same facts does not change.
-/

namespace Pathway.Assessment

variable {facts : Facts} {learner : LearnerId} {now : Instant} {m : Module} {met : Bool}
  {previous : Option Progression}

/-! ## Keys and positions -/

theorem learner_progression : (progression facts learner now m met previous).learner = learner := by
  unfold progression
  split <;> rfl

theorem module_progression : (progression facts learner now m met previous).module = m.id := by
  unfold progression
  split <;> rfl

theorem exists_item_of_currentPosition {i : Int}
    (h : (progression facts learner now m met previous).currentPosition = some i) :
    ∃ item ∈ m.items, item.position = i := by
  have hlast : m.lastPosition? = some i → ∃ item ∈ m.items, item.position = i := by
    intro h
    obtain ⟨item, hitem, hi⟩ := Option.map_eq_some_iff.1 h
    exact ⟨item, List.mem_of_getLast? hitem, hi⟩
  unfold progression at h
  split at h
  · simp only [unlocked, position?] at h
    split at h
    · next hseq =>
      split at h
      · next item rest hwalk =>
        rw [walk, if_pos hseq] at hwalk
        have hdrop : item ∈ m.items.dropWhile (passes facts) := by
          rw [show m.items.dropWhile (passes facts) = item :: rest from hwalk]
          exact List.mem_cons_self
        exact ⟨item, (List.dropWhile_sublist _).subset hdrop, Option.some.inj h⟩
      · exact hlast h
    · cases h
  · obtain ⟨item, hitem, hi⟩ := Option.map_eq_some_iff.1 h
    exact ⟨item, List.mem_of_head? hitem, hi⟩

/-! ## The state -/

theorem isLocked_unlocked : (unlocked facts learner m previous).isLocked = false := by
  unfold unlocked stateOf Progression.isLocked
  dsimp only
  split
  · rfl
  · split <;> rfl

theorem progression_of_isOpen (h : isOpen now m met = true) :
    progression facts learner now m met previous = unlocked facts learner m previous := if_pos h

theorem eq_unlocked (h : (progression facts learner now m met previous).isLocked = false) :
    progression facts learner now m met previous = unlocked facts learner m previous := by
  unfold progression at h ⊢
  split at h
  · next ho => exact if_pos ho
  · cases h

/-! ## The moment of completion -/

/-- The moment that a completion before left. -/
def keptMoment (previous : Option Progression) : Option Instant :=
  previous.bind fun p => if p.isCompleted then p.completedAt else none

def newMoment (facts : Facts) (m : Module) : Option Instant :=
  (latest? (metMoments facts m)).or m.unlockAt

theorem completedAt_eq :
    completedAt facts m previous = (keptMoment previous).or (newMoment facts m) := by
  unfold completedAt keptMoment newMoment
  cases previous with
  | none => rfl
  | some p => cases hc : p.isCompleted <;> cases ht : p.completedAt <;> simp [hc, ht]

/-! ## The same facts again -/

theorem stateOf_again :
    stateOf facts m (some (unlocked facts learner m previous)) = stateOf facts m previous := by
  have hwas : wasCompleted (some (unlocked facts learner m previous)) =
      (stateOf facts m previous == .completed) := rfl
  rw [stateOf, hwas]
  unfold stateOf
  split
  · simp
  · next h =>
    rw [Bool.or_eq_true, not_or] at h
    split <;> simp [h.1]

theorem keptMoment_again (h : stateOf facts m previous = .completed) :
    keptMoment (some (unlocked facts learner m previous)) = completedAt facts m previous := by
  have hstate : (unlocked facts learner m previous).isCompleted = true := by
    rw [Progression.isCompleted, unlocked, h]
    rfl
  rw [keptMoment, Option.bind_some, if_pos hstate, unlocked, if_pos h]

theorem completedAt_again (h : stateOf facts m previous = .completed) :
    completedAt facts m (some (unlocked facts learner m previous)) =
      completedAt facts m previous := by
  rw [completedAt_eq, keptMoment_again h, completedAt_eq, Option.or_assoc, Option.or_self]

theorem unlocked_again :
    unlocked facts learner m (some (unlocked facts learner m previous)) =
      unlocked facts learner m previous := by
  have hcollapsed : isCollapsed (some (unlocked facts learner m previous)) =
      isCollapsed previous := rfl
  rw [unlocked, stateOf_again, hcollapsed]
  by_cases h : stateOf facts m previous = .completed
  · rw [completedAt_again h]
    rfl
  · rw [if_neg h, unlocked, if_neg h]

theorem progression_again :
    progression facts learner now m met (some (progression facts learner now m met previous)) =
      progression facts learner now m met previous := by
  unfold progression
  split
  · exact unlocked_again
  · rfl

end Pathway.Assessment
