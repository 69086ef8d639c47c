import Pathway.Table

/-!
# Reach

`gather` walks along a step function and collects what it comes upon, as long as that lies in a
given pool.
-/

namespace Pathway

theorem IdSet.size_erase_lt {pool : IdSet} {id : String} (h : pool.contains id = true) :
    (pool.erase id).size < pool.size := by
  have hm : id ∈ pool := Std.ExtTreeSet.mem_iff_contains.2 h
  have hpos : pool.size ≠ 0 := fun h0 => by
    have := Std.ExtTreeSet.eq_empty_iff_size_eq_zero.2 h0
    rw [this] at hm
    exact Std.ExtTreeSet.not_mem_empty hm
  rw [Std.ExtTreeSet.size_erase, if_pos h]
  omega

/-- Everything in the pool that the walk comes upon, the starting points included. -/
def gather (next : String → List String) (pool : IdSet) : List String → List String
  | [] => []
  | id :: rest =>
    if pool.contains id then
      id :: gather next (pool.erase id) (next id ++ rest)
    else gather next pool rest
termination_by stack => (pool.size, stack.length)
decreasing_by
  · rename_i h
    exact Prod.Lex.left _ _ (IdSet.size_erase_lt h)
  · exact Prod.Lex.right _ (by simp)

/-- The set of what can be reached from a starting point inside the pool. -/
def reach (next : String → List String) (pool : IdSet) (start : String) : IdSet :=
  Std.ExtTreeSet.ofList (gather next pool [start])

end Pathway
