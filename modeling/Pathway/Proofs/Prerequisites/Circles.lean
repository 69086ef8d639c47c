import Pathway.Prerequisites.Cycles
import Pathway.Proofs.Prerequisites.Generations

/-!
# Circles are found

A depth first search that ends without a circle has explored nodes that are on none. So in a cyclic
component it does not end that way.
-/

open Relation

namespace Pathway.Graph

variable {g : Graph} {c : Component} {next : ModuleId → List ModuleId} {all pool : IdSet}
  {path : List Frame} {done done' : Set ModuleId} {child : Option ModuleId} {v w x y : ModuleId}
  {ws : List ModuleId}

/-! ## The steps of a search -/

theorem search_of_mem (h : w ∈ v :: path.map Prod.fst) :
    search next pool ((v, w :: ws) :: path) =
      some (((v :: path.map Prod.fst).takeWhile (· != w)) ++ [w]).reverse := by
  rw [search]
  exact if_pos (List.contains_iff_mem.2 h)

theorem search_of_mem_pool (h : w ∉ v :: path.map Prod.fst) (hpool : w ∈ pool) :
    search next pool ((v, w :: ws) :: path) =
      search next (pool.erase w) ((w, next w) :: (v, ws) :: path) := by
  rw [search, if_neg (mt List.contains_iff_mem.1 h),
    if_pos (Std.ExtTreeSet.mem_iff_contains.1 hpool)]

theorem search_of_not_mem_pool (h : w ∉ v :: path.map Prod.fst) (hpool : w ∉ pool) :
    search next pool ((v, w :: ws) :: path) = search next pool ((v, ws) :: path) := by
  rw [search, if_neg (mt List.contains_iff_mem.1 h),
    if_neg (mt Std.ExtTreeSet.mem_iff_contains.2 hpool)]

/-- A search leaves the last node of its path, is back on the path, enters a new node, or skips a
node that it has met. -/
@[elab_as_elim]
theorem search_induction (next : ModuleId → List ModuleId) {P : IdSet → List Frame → Prop}
    (nil : ∀ pool, P pool [])
    (leave : ∀ pool v path, P pool path → P pool ((v, []) :: path))
    (back : ∀ pool v w ws path, w ∈ v :: path.map Prod.fst → P pool ((v, w :: ws) :: path))
    (enter : ∀ pool v w ws path, w ∉ v :: path.map Prod.fst → w ∈ pool →
      P (pool.erase w) ((w, next w) :: (v, ws) :: path) → P pool ((v, w :: ws) :: path))
    (skip : ∀ pool v w ws path, w ∉ v :: path.map Prod.fst → w ∉ pool →
      P pool ((v, ws) :: path) → P pool ((v, w :: ws) :: path))
    (pool : IdSet) (path : List Frame) : P pool path := by
  induction pool, path using search.induct next with
  | case1 pool => exact nil pool
  | case2 pool v path ih => exact leave pool v path ih
  | case3 pool v w ws path onPath hpath =>
    exact back pool v w ws path (by simpa [onPath] using hpath)
  | case4 pool v w ws path onPath hpath hpool ih =>
    exact enter pool v w ws path (by simpa [onPath] using hpath)
      (Std.ExtTreeSet.mem_iff_contains.2 hpool) ih
  | case5 pool v w ws path onPath hpath hpool ih =>
    exact skip pool v w ws path (by simpa [onPath] using hpath)
      (mt Std.ExtTreeSet.mem_iff_contains.1 hpool) ih

/-! ## Explored nodes -/

/-- The nodes are done with: their successors are among them, and they are on no circle. -/
structure Explored (next : ModuleId → List ModuleId) (all : IdSet) (done : Set ModuleId) :
    Prop where
  closed : ∀ x ∈ done, ∀ y, StepIn next all x y → y ∈ done
  free : ∀ x ∈ done, ¬ OnCircle (StepIn next all) x

theorem Explored.empty : Explored next all ∅ where
  closed _ h := h.elim
  free _ h := h.elim

theorem Explored.mem_of_reach (h : Explored next all done) (hx : x ∈ done)
    (hr : ReflTransGen (StepIn next all) x y) : y ∈ done := by
  induction hr with
  | refl => exact hx
  | tail _ hstep ih => exact h.closed _ ih _ hstep

/-- A node whose successors are done with is on no circle, for that would lead back to it. -/
theorem Explored.insert (h : Explored next all done) (hv : v ∉ done)
    (hsucc : ∀ y, StepIn next all v y → y ∈ done) :
    Explored next all (insert v done) where
  closed x hx y hxy := by
    rcases hx with rfl | hx
    · exact Or.inr (hsucc y hxy)
    · exact Or.inr (h.closed x hx y hxy)
  free x hx := by
    rcases hx with rfl | hx
    · intro hcircle
      obtain ⟨y, hxy, hyx⟩ := TransGen.head'_iff.1 hcircle
      exact hv (h.mem_of_reach (hsucc y hxy) hyx)
    · exact h.free x hx

/-! ## The path -/

/-- What each node of the path leads to is still to be tried, done with, or its child on the
path. -/
def Pending (next : ModuleId → List ModuleId) (all : IdSet) (done : Set ModuleId) :
    Option ModuleId → List Frame → Prop
  | _, [] => True
  | child, (v, ws) :: path =>
    (∀ y, StepIn next all v y → y ∈ ws ∨ y ∈ done ∨ some y = child) ∧
      Pending next all done (some v) path

theorem Pending.mono (h : Pending next all done child path) (hsub : done ⊆ done') :
    Pending next all done' child path := by
  induction path generalizing child with
  | nil => trivial
  | cons frame path ih =>
    obtain ⟨hsucc, hrest⟩ := h
    exact ⟨fun y hy => (hsucc y hy).imp_right (Or.imp_left (@hsub y)), ih hrest⟩

theorem Pending.leave (h : Pending next all done (some w) path) (hw : w ∈ done) :
    Pending next all done none path := by
  cases path with
  | nil => trivial
  | cons frame path =>
    obtain ⟨hsucc, hrest⟩ := h
    refine ⟨fun y hy => ?_, hrest⟩
    rcases hsucc y hy with hws | hdone | hchild
    · exact Or.inl hws
    · exact Or.inr (Or.inl hdone)
    · cases hchild
      exact Or.inr (Or.inl hw)

/-- How far a search has come: every node is in the pool, on the path, or done with. -/
structure Searching (next : ModuleId → List ModuleId) (all pool : IdSet) (path : List Frame)
    (done : Set ModuleId) : Prop where
  explored : Explored next all done
  pending : Pending next all done none path
  cover : ∀ x ∈ all, x ∈ pool ∨ x ∈ path.map Prod.fst ∨ x ∈ done
  ahead : ∀ x ∈ pool, x ∉ done
  away : ∀ x ∈ path.map Prod.fst, x ∉ pool ∧ x ∉ done
  nodup : (path.map Prod.fst).Nodup

namespace Searching

theorem start (next : ModuleId → List ModuleId) (all : IdSet) (v : ModuleId) :
    Searching next all (all.erase v) [(v, next v)] ∅ where
  explored := .empty
  pending := ⟨fun y hy => Or.inl hy.1, trivial⟩
  cover x hx := by
    by_cases hxv : x = v
    · exact Or.inr (Or.inl (List.mem_singleton.2 hxv))
    · exact Or.inl (IdSet.mem_erase_iff.2 ⟨hxv, hx⟩)
  ahead _ _ := id
  away x hx := by
    obtain rfl := List.mem_singleton.1 hx
    exact ⟨fun hx => (IdSet.mem_erase_iff.1 hx).1 rfl, id⟩
  nodup := List.nodup_singleton v

theorem leave (h : Searching next all pool ((v, []) :: path) done) :
    Searching next all pool path (insert v done) := by
  obtain ⟨hvpool, hvdone⟩ := h.away v List.mem_cons_self
  obtain ⟨hvpath, hnodup⟩ := List.nodup_cons.1 h.nodup
  obtain ⟨hsucc, hrest⟩ := h.pending
  refine ⟨h.explored.insert hvdone fun y hy => ?_,
    (hrest.mono (Set.subset_insert v done)).leave (Set.mem_insert v done), fun x hx => ?_,
    fun x hx => ?_, fun x hx => ?_, hnodup⟩
  · rcases hsucc y hy with h | h | h
    · cases h
    · exact h
    · cases h
  · rcases h.cover x hx with h | h | h
    · exact Or.inl h
    · exact (List.mem_cons.1 h).elim (fun hxv => Or.inr (Or.inr (Or.inl hxv)))
        fun h => Or.inr (Or.inl h)
    · exact Or.inr (Or.inr (Or.inr h))
  · rintro (rfl | hdone)
    · exact hvpool hx
    · exact h.ahead x hx hdone
  · obtain ⟨hpool, hdone⟩ := h.away x (List.mem_cons_of_mem v hx)
    refine ⟨hpool, ?_⟩
    rintro (rfl | hdone')
    · exact hvpath hx
    · exact hdone hdone'

theorem skip (h : Searching next all pool ((v, w :: ws) :: path) done)
    (hpath : w ∉ v :: path.map Prod.fst) (hpool : w ∉ pool) :
    Searching next all pool ((v, ws) :: path) done where
  explored := h.explored
  pending := by
    obtain ⟨hsucc, hrest⟩ := h.pending
    refine ⟨fun y hy => ?_, hrest⟩
    rcases hsucc y hy with h' | h' | h'
    · rcases List.mem_cons.1 h' with rfl | h'
      · exact Or.inr (Or.inl (((h.cover y hy.2).resolve_left hpool).resolve_left hpath))
      · exact Or.inl h'
    · exact Or.inr (Or.inl h')
    · cases h'
  cover := h.cover
  ahead := h.ahead
  away := h.away
  nodup := h.nodup

theorem enter (h : Searching next all pool ((v, w :: ws) :: path) done)
    (hpath : w ∉ v :: path.map Prod.fst) (hpool : w ∈ pool) :
    Searching next all (pool.erase w) ((w, next w) :: (v, ws) :: path) done where
  explored := h.explored
  pending := by
    obtain ⟨hsucc, hrest⟩ := h.pending
    refine ⟨fun y hy => Or.inl hy.1, fun y hy => ?_, hrest⟩
    rcases hsucc y hy with h' | h' | h'
    · rcases List.mem_cons.1 h' with rfl | h'
      · exact Or.inr (Or.inr rfl)
      · exact Or.inl h'
    · exact Or.inr (Or.inl h')
    · cases h'
  cover x hx := by
    by_cases hxw : x = w
    · exact Or.inr (Or.inl (hxw ▸ List.mem_cons_self))
    · rcases h.cover x hx with h' | h' | h'
      · exact Or.inl (IdSet.mem_erase_iff.2 ⟨hxw, h'⟩)
      · exact Or.inr (Or.inl (List.mem_cons_of_mem w h'))
      · exact Or.inr (Or.inr h')
  ahead x hx := h.ahead x (IdSet.mem_erase_iff.1 hx).2
  away x hx := by
    rcases List.mem_cons.1 hx with rfl | hx
    · exact ⟨fun hx => (IdSet.mem_erase_iff.1 hx).1 rfl, h.ahead x hpool⟩
    · obtain ⟨hxpool, hdone⟩ := h.away x hx
      exact ⟨fun hx => hxpool (IdSet.mem_erase_iff.1 hx).2, hdone⟩
  nodup := List.nodup_cons.2 ⟨hpath, h.nodup⟩

end Searching

/-- A search that finds no circle has met no node that is on one. -/
theorem not_onCircle_of_search (h : Searching next all pool path done)
    (hnone : search next pool path = none) :
    ∀ x ∈ path.map Prod.fst, ¬ OnCircle (StepIn next all) x := by
  induction pool, path using search_induction next generalizing done with
  | nil pool => nofun
  | leave pool v path ih =>
    rw [search] at hnone
    intro x hx
    rcases List.mem_cons.1 hx with rfl | hx
    · exact h.leave.explored.free x (Set.mem_insert x done)
    · exact ih h.leave hnone x hx
  | back pool v w ws path hpath =>
    rw [search_of_mem hpath] at hnone
    cases hnone
  | enter pool v w ws path hpath hpool ih =>
    rw [search_of_mem_pool hpath hpool] at hnone
    intro x hx
    exact ih (h.enter hpath hpool) hnone x (List.mem_cons_of_mem w hx)
  | skip pool v w ws path hpath hpool ih =>
    rw [search_of_not_mem_pool hpath hpool] at hnone
    exact ih (h.skip hpath hpool) hnone

/-! ## Components -/

theorem onCircle_stepIn (hg : g.WellFormed) (hpool : ∀ u, Mutual g.Requires v u → u ∈ pool)
    (h : OnCircle g.Requires v) : OnCircle (StepIn g.dependents pool) v := by
  obtain ⟨u, hvu, hm⟩ := h.exists_mutual
  exact .tail' (stepIn_dependents_of_mutual hg hpool hm) ⟨(hg.both _ _).2 hvu, hpool v (.refl v)⟩

/-- In a cyclic component a circle is found. -/
theorem exists_search_of_isCyclic (hg : g.WellFormed) (hc : c ∈ g.components)
    (h : g.isCyclic c = true) :
    ∃ circle, search g.dependents ((Std.ExtTreeSet.ofList c).erase (leader c))
        [(leader c, g.dependents (leader c))] = some circle ∧
      g.circleIn c = close (rotate circle) := by
  have hleader := leader_mem hg hc
  have hpool : ∀ u, Mutual g.Requires (leader c) u → u ∈ (Std.ExtTreeSet.ofList c : IdSet) := by
    intro u hm
    exact IdSet.mem_ofList.2 ((mem_component_iff hg hc hleader).2 hm)
  have hcircle := onCircle_stepIn hg hpool ((isCyclic_iff hg hc hleader).1 h)
  cases hs : search g.dependents ((Std.ExtTreeSet.ofList c).erase (leader c))
      [(leader c, g.dependents (leader c))] with
  | none =>
    exact absurd hcircle (not_onCircle_of_search (.start _ _ _) hs _ List.mem_cons_self)
  | some circle =>
    refine ⟨circle, rfl, ?_⟩
    unfold circleIn
    dsimp only
    rw [hs]

end Pathway.Graph
