/-!
# Places

Items stand in a module, and modules in a course, by position and then by id. `sortByPlace` is the
walking order.
-/

namespace Pathway

/-- A position, with an id to tell equal positions apart. -/
abbrev Place := Int × String

namespace Place

/-- Positions first, then ids by code point. -/
def le (a b : Place) : Bool :=
  decide (a.1 < b.1) || (decide (a.1 = b.1) && decide (a.2 ≤ b.2))

theorem le_total (a b : Place) : le a b || le b a := by
  simp only [le, Bool.or_eq_true, Bool.and_eq_true, decide_eq_true_eq]
  rcases Int.lt_trichotomy a.1 b.1 with h | h | h
  · exact Or.inl (Or.inl h)
  · rcases String.le_total a.2 b.2 with g | g
    · exact Or.inl (Or.inr ⟨h, g⟩)
    · exact Or.inr (Or.inr ⟨h.symm, g⟩)
  · exact Or.inr (Or.inl h)

theorem le_trans (a b c : Place) (hab : le a b) (hbc : le b c) : le a c := by
  simp only [le, Bool.or_eq_true, Bool.and_eq_true, decide_eq_true_eq] at *
  rcases hab with h | ⟨h, g⟩ <;> rcases hbc with h' | ⟨h', g'⟩
  · exact Or.inl (Int.lt_trans h h')
  · exact Or.inl (h' ▸ h)
  · exact Or.inl (h ▸ h')
  · exact Or.inr ⟨h.trans h', String.le_trans g g'⟩

theorem le_refl (a : Place) : le a a := by
  simp only [le, Bool.or_eq_true, Bool.and_eq_true, decide_eq_true_eq]
  exact Or.inr ⟨trivial, String.le_refl a.2⟩

theorem le_antisymm {a b : Place} (hab : le a b) (hba : le b a) : a = b := by
  simp only [le, Bool.or_eq_true, Bool.and_eq_true, decide_eq_true_eq] at hab hba
  rcases hab with h | ⟨h, g⟩ <;> rcases hba with h' | ⟨h', g'⟩
  · exact absurd h (Int.lt_asymm h')
  · exact absurd h (Int.not_lt.2 (Int.le_of_eq h'))
  · exact absurd h' (Int.not_lt.2 (Int.le_of_eq h))
  · exact Prod.ext h (String.le_antisymm g g')

end Place

def sortByPlace {α : Type} (place : α → Place) (xs : List α) : List α :=
  xs.mergeSort fun a b => (place a).le (place b)

/-- Ids in the order of their code points. -/
def sortIds (ids : List String) : List String :=
  ids.mergeSort fun a b => decide (a ≤ b)

/-- The ids that stand more than once in a list, each once and in order. -/
def repeatedIds (ids : List String) : List String :=
  sortIds (ids.filter fun i => 1 < ids.count i).eraseDups

section Lemmas

variable {α : Type} (place : α → Place) (xs : List α)

theorem sortByPlace_perm : (sortByPlace place xs).Perm xs := List.mergeSort_perm _ _

theorem sortByPlace_pairwise :
    (sortByPlace place xs).Pairwise fun a b => (place a).le (place b) :=
  List.pairwise_mergeSort (fun a b c => Place.le_trans (place a) (place b) (place c))
    (fun a b => Place.le_total (place a) (place b)) xs

theorem mem_sortByPlace {a : α} : a ∈ sortByPlace place xs ↔ a ∈ xs :=
  (sortByPlace_perm place xs).mem_iff

/-- Things with different places are put into the same order however they stood. -/
theorem sortByPlace_of_perm {ys : List α} (h : xs.Perm ys)
    (hplace : ∀ a ∈ xs, ∀ b ∈ xs, place a = place b → a = b) :
    sortByPlace place xs = sortByPlace place ys := by
  have hsorted := ((sortByPlace_perm place xs).trans h).trans (sortByPlace_perm place ys).symm
  refine hsorted.eq_of_pairwise (fun a b ha hb hab hba => ?_) (sortByPlace_pairwise place xs)
    (sortByPlace_pairwise place ys)
  have hbxs := h.mem_iff.2 ((mem_sortByPlace place ys).1 hb)
  exact hplace a ((mem_sortByPlace place xs).1 ha) b hbxs (Place.le_antisymm hab hba)

end Lemmas

end Pathway
