import Pathway.Proofs.Prerequisites.Circles
import Pathway.Proofs.Prerequisites.Enumeration

/-!
# The circle that is reported

The path of a depth first search goes along edges and passes no node twice. An edge back to the path
therefore closes an elementary circle: the part of the path from there on.
-/

namespace Pathway

namespace Graph

variable {next : ModuleId → List ModuleId} {all pool : IdSet} {path : List Frame}
  {done : Set ModuleId} {v w : ModuleId} {onPath nodes ws : List ModuleId} {ms : List Module}
  {c : Component}

/-! ## Closing a path -/

theorem elementary_of_back (hchain : onPath.IsChain fun w v => w ∈ next v) (hnodup : onPath.Nodup)
    (hw : w ∈ onPath) (hback : ∀ v ∈ onPath.head?, w ∈ next v) :
    Elementary (fun v w => w ∈ next v)
      ↑((onPath.takeWhile (· != w)) ++ [w]).reverse := by
  obtain ⟨after, before, rfl, hafter⟩ := List.eq_append_cons_of_mem hw
  have hstop : ∀ v ∈ after, (v != w) = true :=
    fun v hv => bne_iff_ne.2 (ne_of_mem_of_not_mem hv hafter)
  rw [List.takeWhile_append_of_pos hstop, List.takeWhile_cons_of_neg (by simp), List.append_nil]
  rw [List.append_cons] at hchain hnodup
  refine ⟨by simp, Cycle.nodup_coe_iff.2 (List.nodup_reverse.2 hnodup.of_append_left), ?_⟩
  have hclosed : (w :: (after ++ [w])).IsChain fun w v => w ∈ next v := by
    refine List.isChain_cons.2 ⟨?_, hchain.left_of_append⟩
    intro v hv
    apply hback
    rw [List.append_cons, List.head?_append, hv]
    rfl
  rw [List.reverse_append, List.reverse_singleton, List.singleton_append, Cycle.chain_coe_cons]
  simpa using List.isChain_reverse.2 hclosed

/-! ## The path of a search -/

/-- The path goes along edges, and what is still to be tried of a node are edges from it. -/
structure Trail (next : ModuleId → List ModuleId) (all pool : IdSet) (path : List Frame) :
    Prop where
  chain : (path.map Prod.fst).IsChain fun w v => w ∈ next v
  untried : ∀ frame ∈ path, ∀ w ∈ frame.2, w ∈ next frame.1
  inside : ∀ x ∈ path.map Prod.fst, x ∈ all
  ahead : ∀ x ∈ pool, x ∈ all

namespace Trail

theorem start (hv : v ∈ all) : Trail next all (all.erase v) [(v, next v)] where
  chain := List.isChain_singleton v
  untried frame h := by
    obtain rfl := List.mem_singleton.1 h
    exact fun w => id
  inside x hx := List.mem_singleton.1 hx ▸ hv
  ahead x hx := (IdSet.mem_erase_iff.1 hx).2

theorem leave (h : Trail next all pool ((v, ws) :: path)) : Trail next all pool path where
  chain := h.chain.tail
  untried frame hf := h.untried frame (List.mem_cons_of_mem _ hf)
  inside x hx := h.inside x (List.mem_cons_of_mem v hx)
  ahead := h.ahead

theorem skip (h : Trail next all pool ((v, w :: ws) :: path)) :
    Trail next all pool ((v, ws) :: path) where
  chain := h.chain
  untried := by
    obtain ⟨hfirst, hrest⟩ := List.forall_mem_cons.1 h.untried
    exact List.forall_mem_cons.2 ⟨fun x hx => hfirst x (List.mem_cons_of_mem w hx), hrest⟩
  inside := h.inside
  ahead := h.ahead

theorem enter (h : Trail next all pool ((v, w :: ws) :: path)) (hpool : w ∈ pool) :
    Trail next all (pool.erase w) ((w, next w) :: (v, ws) :: path) where
  chain := List.isChain_cons_cons.2 ⟨h.untried _ List.mem_cons_self w List.mem_cons_self, h.chain⟩
  untried := List.forall_mem_cons.2 ⟨fun _ => id, h.skip.untried⟩
  inside := List.forall_mem_cons.2 ⟨h.ahead w hpool, h.inside⟩
  ahead x hx := h.ahead x (IdSet.mem_erase_iff.1 hx).2

end Trail

theorem elementary_of_search (h : Searching next all pool path done)
    (htrail : Trail next all pool path) (hsome : search next pool path = some nodes) :
    Elementary (fun v w => w ∈ next v) nodes ∧ ∀ v ∈ nodes, v ∈ all := by
  induction pool, path using search_induction next generalizing done with
  | nil pool =>
    rw [search] at hsome
    cases hsome
  | leave pool v path ih =>
    rw [search] at hsome
    exact ih h.leave htrail.leave hsome
  | back pool v w ws path hpath =>
    rw [search_of_mem hpath] at hsome
    cases hsome
    constructor
    · apply elementary_of_back htrail.chain h.nodup hpath
      intro u hu
      cases hu
      exact htrail.untried _ List.mem_cons_self w List.mem_cons_self
    · intro x hx
      apply htrail.inside
      rcases List.mem_append.1 (List.mem_reverse.1 hx) with hx | hx
      · exact (List.takeWhile_sublist _).subset hx
      · rw [List.mem_singleton.1 hx]
        exact hpath
  | enter pool v w ws path hpath hpool ih =>
    rw [search_of_mem_pool hpath hpool] at hsome
    exact ih (h.enter hpath hpool) (htrail.enter hpool) hsome
  | skip pool v w ws path hpath hpool ih =>
    rw [search_of_not_mem_pool hpath hpool] at hsome
    exact ih (h.skip hpath hpool) htrail.skip hsome

/-! ## The circle of a component -/

/-- The search in a component comes to a circle, and that circle is written. -/
structure FindsCircle (g : Graph) (c : Component) : Prop where
  found : (search g.dependents ((Std.ExtTreeSet.ofList c).erase (leader c))
    [(leader c, g.dependents (leader c))]).isSome = true
  genuine : ∃ circle, Elementary g.Leads circle ∧ (∀ v ∈ circle, v ∈ c) ∧
    Writes (g.circleIn c) circle

variable {g : Graph}

theorem findsCircle (hg : g.WellFormed) (hc : c ∈ g.components) (h : g.isCyclic c = true) :
    g.FindsCircle c := by
  obtain ⟨nodes, hsearch, hcircle⟩ := exists_search_of_isCyclic hg hc h
  have hleader : leader c ∈ (Std.ExtTreeSet.ofList c : IdSet) :=
    IdSet.mem_ofList.2 (leader_mem hg hc)
  obtain ⟨helem, hin⟩ := elementary_of_search (.start _ _ _) (.start hleader) hsearch
  refine ⟨Option.isSome_iff_exists.2 ⟨nodes, hsearch⟩, nodes, ?_, fun v hv => ?_, ?_⟩
  · exact helem.imp_of_mem fun u v _ _ huv => leads_iff_mem.2 huv
  · simpa using hin v hv
  · rw [hcircle]
    exact writes_close_rotate helem

theorem FindsCircle.mem_elementaryCycles (hg : g.WellFormed) (h : g.FindsCircle c) :
    g.circleIn c ∈ g.elementaryCycles := by
  obtain ⟨circle, hcircle, -, hw⟩ := h.genuine
  exact (Graph.mem_elementaryCycles hg).2 ⟨circle, hcircle, hw⟩

theorem circleIn_genuine (hc : c ∈ (ofModules ms).generations.flatten)
    (h : (ofModules ms).isCyclic c = true) :
    (ofModules ms).FindsCircle c ∧ (ofModules ms).circleIn c ∈ (ofModules ms).elementaryCycles := by
  have hg := wellFormed_ofModules ms
  have hfinds := findsCircle hg ((mem_flatten_generations hg).1 hc) h
  exact ⟨hfinds, hfinds.mem_elementaryCycles hg⟩

end Graph

namespace Sample

theorem circleIn_genuine_crossing :
    ["a", "b", "c"] ∈ (Graph.ofModules crossing).generations.flatten ∧
      (Graph.ofModules crossing).isCyclic ["a", "b", "c"] = true ∧
      (Graph.ofModules crossing).FindsCircle ["a", "b", "c"] ∧
      (Graph.ofModules crossing).circleIn ["a", "b", "c"] ∈
        (Graph.ofModules crossing).elementaryCycles := by
  have hgenerations : (Graph.ofModules crossing).generations = [[["a", "b", "c"]]] := by cbv
  have hc : ["a", "b", "c"] ∈ (Graph.ofModules crossing).generations.flatten := by
    rw [hgenerations]
    exact List.mem_singleton.2 rfl
  have hcyclic : (Graph.ofModules crossing).isCyclic ["a", "b", "c"] = true := rfl
  exact ⟨hc, hcyclic, Graph.circleIn_genuine hc hcyclic⟩

end Sample

end Pathway
