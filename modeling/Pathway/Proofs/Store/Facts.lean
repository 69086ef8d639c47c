import Pathway.Proofs.Store.Lookup

/-!
# Facts in stores

What is recorded or cleared changes the facts of one learner on one item, and nothing else.
-/

namespace Pathway.Store

variable {s t u : Store} {learner l : LearnerId} {id i : ModuleId} {item j : ItemId}
  {kind : RequirementKind} {score : Option Score} {satisfiedAt : Instant} {facts : ItemFacts}
  {m : Module} {course : Option CourseId} {p : Progression}

/-- From the first store to the second only the facts of the learner on the item have changed, and
they have become these. -/
structure FactsSet (s : Store) (learner : LearnerId) (item : ItemId) (facts : ItemFacts)
    (t : Store) : Prop where
  rest : s.SameButFacts t
  itemFacts : ∀ l i, t.itemFacts l i =
    if learner = l ∧ item = i then facts else s.itemFacts l i

/-- What is kept of a number. -/
def keepScore (s : Store) (score : Option Binary64) : Option Binary64 :=
  match s with
  | memory _ => score
  | database _ => score.bind Column.ofReal

/-- The number that is kept of a score, if there is one. -/
def keptScore (s : Store) (score : Option Score) : Except Failure (Option Binary64) :=
  (score.mapM Score.read).map s.keepScore

/-- The store with a fact on an item recorded, whose score is kept as it is. -/
def putFact (s : Store) (learner : LearnerId) (item : ItemId) (kind : RequirementKind)
    (score : Option Binary64) (satisfiedAt : Instant) : Store :=
  match s with
  | memory d => memory (d.record learner item kind score satisfiedAt)
  | database r => database (r.record learner item kind score satisfiedAt)

section Facts

variable (s) (learner) (item) (kind) (score : Option Binary64) (satisfiedAt)

theorem sameButFacts_putFact : s.SameButFacts (s.putFact learner item kind score satisfiedAt) := by
  cases s <;> exact ⟨rfl⟩

theorem withoutProgressions_putFact :
    (s.putFact learner item kind score satisfiedAt).withoutProgressions =
      s.withoutProgressions.putFact learner item kind score satisfiedAt := by
  cases s <;> rfl

end Facts

theorem SameBase.putFact (h : s.SameBase t) (learner : LearnerId) (item : ItemId)
    (kind : RequirementKind) (score : Option Binary64) (satisfiedAt : Instant) :
    (s.putFact learner item kind score satisfiedAt).SameBase
      (t.putFact learner item kind score satisfiedAt) := by
  constructor
  rw [withoutProgressions_putFact, withoutProgressions_putFact, h.frame]

theorem record_eq (s : Store) (learner : LearnerId) (item : ItemId) (kind : RequirementKind)
    (score : Option Score) (satisfiedAt : Instant) :
    s.record learner item kind score satisfiedAt =
      (score.mapM Score.read).map fun x => s.putFact learner item kind x satisfiedAt := by
  unfold record
  cases score.mapM Score.read with
  | ok x => cases s <;> rfl
  | error f => rfl

theorem factsSet_putFact (s : Store) (learner : LearnerId) (item : ItemId) (kind : RequirementKind)
    (score : Option Binary64) (satisfiedAt : Instant) :
    s.FactsSet learner item
      ((s.itemFacts learner item).set ⟨item, kind, satisfiedAt, s.keepScore score⟩)
      (s.putFact learner item kind score satisfiedAt) where
  rest := s.sameButFacts_putFact ..
  itemFacts l i := by
    cases s with
    | memory d =>
      simp only [putFact, itemFacts, Dictionaries.record, Dictionaries.putFact,
        Dictionaries.itemFacts, Std.ExtTreeMap.getD_insert, Std.LawfulEqCmp.compare_eq_iff_eq,
        Prod.mk.injEq]
      rfl
    | database r => exact Rows.itemFacts_record

theorem factsSet_of_record (h : s.record learner item kind score satisfiedAt = .ok t) :
    ∃ kept, s.keptScore score = .ok kept ∧ s.FactsSet learner item
      ((s.itemFacts learner item).set ⟨item, kind, satisfiedAt, kept⟩) t := by
  rw [record_eq] at h
  unfold keptScore
  cases hx : score.mapM Score.read with
  | error f =>
    rw [hx] at h
    cases h
  | ok x =>
    rw [hx] at h
    cases h
    exact ⟨s.keepScore x, rfl, s.factsSet_putFact ..⟩

theorem factsSet_insert {d : Dictionaries} (facts : ItemFacts) :
    (memory d).FactsSet learner item facts
      (memory { d with facts := d.facts.insert (learner, item) facts }) where
  rest := ⟨rfl⟩
  itemFacts l i := by
    simp only [itemFacts, Dictionaries.itemFacts, Std.ExtTreeMap.getD_insert,
      Std.LawfulEqCmp.compare_eq_iff_eq, Prod.mk.injEq]

theorem factsSet_erase {d : Dictionaries} :
    (memory d).FactsSet learner item ItemFacts.none
      (memory { d with facts := d.facts.erase (learner, item) }) where
  rest := ⟨rfl⟩
  itemFacts l i := by
    simp only [itemFacts, Dictionaries.itemFacts, Std.ExtTreeMap.getD_erase,
      Std.LawfulEqCmp.compare_eq_iff_eq, Prod.mk.injEq]

theorem factsSet_deleteFacts {r : Rows} (kind : Option RequirementKind) :
    (database r).FactsSet learner item
      ((r.itemFacts learner item).without (kind.map (·.name)))
      (database (r.deleteFacts fun key =>
        key.1 == learner && key.2.1 == item && kind.all (·.name == key.2.2)).1) where
  rest := ⟨rfl⟩
  itemFacts l i := by
    refine Rows.itemFacts_deleteFacts.trans ?_
    simp only [Bool.and_eq_true, beq_iff_eq]
    by_cases h : learner = l ∧ item = i
    · obtain ⟨rfl, rfl⟩ := h
      simp only [and_self, true_and, if_true]
      funext k
      rw [ItemFacts.without, Option.all_map]
    · have hne : ¬ (l = learner ∧ i = item) := fun hl => h ⟨hl.1.symm, hl.2.symm⟩
      simp only [hne, false_and, if_false, if_neg h]
      rfl

theorem factsSet_of_clear {d d' : Dictionaries} {name : Option String} {n : Nat}
    (h : d.clear learner item name = .ok (d', n)) :
    (memory d).FactsSet learner item ((d.itemFacts learner item).without name) (memory d') ∧
      n = (d.itemFacts learner item).countOf name := by
  unfold Dictionaries.clear at h
  dsimp only at h
  split at h
  · next hempty =>
    -- An item without facts is left alone, whatever kind is named.
    cases h
    have hnone : (memory d).itemFacts learner item = ItemFacts.none :=
      ItemFacts.eq_none_of_isEmpty hempty
    rw [ItemFacts.eq_none_of_isEmpty hempty, ItemFacts.none_without, ItemFacts.countOf_none]
    refine ⟨⟨.refl _, fun l i => ?_⟩, rfl⟩
    split
    · next heq => rw [← heq.1, ← heq.2, hnone]
    · rfl
  · split at h
    · cases h
      exact ⟨factsSet_erase, ItemFacts.length_toList _⟩
    · next name =>
      cases hk : kindNamed name with
      | error f =>
        rw [hk] at h
        cases h
      | ok kind =>
        rw [hk] at h
        cases h
        obtain rfl := name_of_kindNamed hk
        rw [ItemFacts.countOf_some, ← ItemFacts.remove_eq]
        exact ⟨factsSet_insert _, rfl⟩

theorem factsSet_of_rows_clear {r r' : Rows} {name : Option String} {n : Nat}
    (h : r.clear learner item name = .ok (r', n)) :
    (database r).FactsSet learner item ((r.itemFacts learner item).without name) (database r') ∧
      n = (r.itemFacts learner item).countOf name := by
  unfold Rows.clear at h
  cases hk : name.mapM kindNamed with
  | error f =>
    rw [hk] at h
    cases h
  | ok kind =>
    rw [hk] at h
    cases h
    rw [name_of_mapM_kindNamed hk]
    refine ⟨factsSet_deleteFacts kind, ?_⟩
    simp only [ItemFacts.countOf, Option.all_map]
    exact Rows.size_facts fun name => kind.all fun k : RequirementKind => k.name == name

section Clear

variable {name : Option String}

theorem exists_of_mapM_kindNamed (h : ∀ n ∈ name, ∃ k : RequirementKind, k.name = n) :
    ∃ kind, name.mapM kindNamed = .ok kind := by
  cases name with
  | none => exact ⟨none, rfl⟩
  | some n =>
    obtain ⟨k, rfl⟩ := h n rfl
    refine ⟨some k, ?_⟩
    rw [Option.mapM_some, kindNamed_name]
    rfl

theorem exists_clear (h : ∀ n ∈ name, ∃ k : RequirementKind, k.name = n) (d : Dictionaries) :
    ∃ d' n, d.clear learner item name = .ok (d', n) := by
  unfold Dictionaries.clear
  dsimp only
  split
  · exact ⟨_, _, rfl⟩
  · cases name with
    | none => exact ⟨_, _, rfl⟩
    | some n =>
      obtain ⟨k, rfl⟩ := h n rfl
      simp only [kindNamed_name]
      exact ⟨_, _, rfl⟩

theorem exists_rows_clear (h : ∀ n ∈ name, ∃ k : RequirementKind, k.name = n) (r : Rows) :
    ∃ r' n, r.clear learner item name = .ok (r', n) := by
  obtain ⟨kind, hkind⟩ := exists_of_mapM_kindNamed h
  unfold Rows.clear
  rw [hkind]
  exact ⟨_, _, rfl⟩

end Clear

theorem factsSet_of_clearNamed {name : Option String} {n : Nat}
    (h : s.clearNamed learner item name = .ok (t, n)) :
    s.FactsSet learner item ((s.itemFacts learner item).without name) t ∧
      n = (s.itemFacts learner item).countOf name := by
  cases s with
  | memory d =>
    obtain ⟨x, hx, hxt⟩ := map_eq_ok.1 h
    cases hxt
    exact factsSet_of_clear hx
  | database r =>
    obtain ⟨x, hx, hxt⟩ := map_eq_ok.1 h
    cases hxt
    exact factsSet_of_rows_clear hx

end Pathway.Store
