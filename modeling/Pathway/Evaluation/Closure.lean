import Pathway.Prerequisites.Graph
import Pathway.Store.Basic

/-!
# Prerequisite closure

The modules asked for and all they require, directly or through others, in the order in which they
are come upon. Ids that the store does not know are passed over.
-/

namespace Pathway

/-- The modules of the given ids that are still in the pool, read in order, and the pool without
them. -/
def draw (pool : Table StoredModule) :
    List ModuleId → Except Failure (List Module × Table StoredModule)
  | [] => .ok ([], pool)
  | id :: ids =>
    match pool[id]? with
    | none => draw pool ids
    | some stored =>
      match stored.definition.read with
      | .error e => .error e
      | .ok m =>
        match draw (pool.erase id) ids with
        | .error e => .error e
        | .ok (ms, rest) => .ok (m :: ms, rest)

/-- What is drawn leaves the pool. -/
theorem draw_size {pool rest : Table StoredModule} {ids : List ModuleId} {ms : List Module}
    (h : draw pool ids = .ok (ms, rest)) : rest.size + ms.length = pool.size := by
  fun_induction draw pool ids generalizing ms rest with
  | case1 pool => cases h; rfl
  | case2 pool id ids hn ih => exact ih h
  | case3 => cases h
  | case4 => cases h
  | case5 pool id ids stored hs m hm ms' rest' hd ih =>
    cases h
    have := ih hd
    have hmem : id ∈ pool := Std.ExtTreeMap.mem_iff_isSome_getElem?.2 (by rw [hs]; rfl)
    have hpos : pool.size ≠ 0 := fun h0 => by
      rw [Std.ExtTreeMap.eq_empty_iff_size_eq_zero.2 h0] at hmem
      exact Std.ExtTreeMap.not_mem_empty hmem
    rw [Std.ExtTreeMap.size_erase, if_pos (Std.ExtTreeMap.mem_iff_contains.1 hmem)] at this
    simp only [List.length_cons]
    omega

/-- What the modules on the stack require, and what that requires in turn. -/
def requiredBy (pool : Table StoredModule) : List Module → Except Failure (List Module)
  | [] => .ok []
  | m :: stack =>
    match _h : draw pool m.prerequisites with
    | .error e => .error e
    | .ok (found, rest) =>
      match requiredBy rest (found.reverse ++ stack) with
      | .error e => .error e
      | .ok later => .ok (found ++ later)
termination_by stack => pool.size + stack.length
decreasing_by
  have := draw_size _h
  simp only [List.length_append, List.length_reverse, List.length_cons]
  omega

/-- The given modules, and all they require. -/
def closure (s : Store) (ms : List Module) : Except Failure (List Module) :=
  let pool := ms.foldl (fun t m => t.erase m.id) s.modules
  (requiredBy pool ms.reverse).map (ms ++ ·)

end Pathway
