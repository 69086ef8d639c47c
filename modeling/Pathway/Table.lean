import Std.Data.ExtTreeMap
import Std.Data.ExtTreeSet

/-!
# Tables

Finite tables and sets, keyed by ids. Two tables with the same entries are equal, however they
came about, and they list their keys in order.
-/

namespace Pathway

/-- A finite table from ids. -/
abbrev Table (α : Type) := Std.ExtTreeMap String α

/-- A finite set of ids. -/
abbrev IdSet := Std.ExtTreeSet String

/-- Pairs, ordered by the first and then by the second. -/
def comparePair {α β : Type} (c : α → α → Ordering) (d : β → β → Ordering) (a b : α × β) :
    Ordering :=
  (c a.1 b.1).then (d a.2 b.2)

section Pairs

variable {α β : Type} {c : α → α → Ordering} {d : β → β → Ordering}

instance [Std.TransCmp c] [Std.TransCmp d] : Std.TransCmp (comparePair c d) where
  eq_swap {a b} := by
    have h : c a.1 b.1 = (c b.1 a.1).swap := Std.OrientedCmp.eq_swap
    have g : d a.2 b.2 = (d b.2 a.2).swap := Std.OrientedCmp.eq_swap
    rw [comparePair, h, g, ← Ordering.swap_then, comparePair]
  isLE_trans {a b e} hab hbe := by
    simp only [comparePair, Ordering.isLE_then_iff_or] at *
    rcases hab with h | ⟨h, g⟩ <;> rcases hbe with h' | ⟨h', g'⟩
    · exact Or.inl (Std.TransCmp.lt_trans h h')
    · exact Or.inl (Std.TransCmp.lt_of_lt_of_eq h h')
    · exact Or.inl (Std.TransCmp.lt_of_eq_of_lt h h')
    · exact Or.inr ⟨Std.TransCmp.eq_trans h h', Std.TransCmp.isLE_trans g g'⟩

instance [Std.LawfulEqCmp c] [Std.LawfulEqCmp d] : Std.LawfulEqCmp (comparePair c d) where
  compare_self := by
    intro a
    rw [comparePair, Ordering.then_eq_eq]
    exact ⟨Std.ReflCmp.compare_self, Std.ReflCmp.compare_self⟩
  eq_of_compare {a b} h := by
    simp only [comparePair, Ordering.then_eq_eq] at h
    exact Prod.ext (Std.LawfulEqCmp.eq_of_compare h.1) (Std.LawfulEqCmp.eq_of_compare h.2)

end Pairs

def compareTwo : String × String → String × String → Ordering := comparePair compare compare

instance : Std.TransCmp compareTwo := inferInstanceAs (Std.TransCmp (comparePair _ _))

instance : Std.LawfulEqCmp compareTwo := inferInstanceAs (Std.LawfulEqCmp (comparePair _ _))

def compareThree : String × String × String → String × String × String → Ordering :=
  comparePair compare compareTwo

instance : Std.TransCmp compareThree := inferInstanceAs (Std.TransCmp (comparePair _ _))

instance : Std.LawfulEqCmp compareThree := inferInstanceAs (Std.LawfulEqCmp (comparePair _ _))

/-- A finite table from pairs of ids. -/
abbrev PairTable (α : Type) := Std.ExtTreeMap (String × String) α compareTwo

/-- A finite table from ids by three. -/
abbrev TripleTable (α : Type) := Std.ExtTreeMap (String × String × String) α compareThree

end Pathway
