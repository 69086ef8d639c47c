import Mathlib.Data.List.Nodup
import Mathlib.Logic.Relation
import Pathway.Prerequisites.Graph

/-!
# The graph of some modules

Its nodes are the ids of the modules, each once, and its edges lead from each prerequisite that is
a node to the module that lists it.
-/

open Relation

namespace Pathway.Graph

variable {g : Graph} {ms : List Module} {u v a b : ModuleId}

/-- The module `v` lists `u` as a prerequisite. -/
def Requires (g : Graph) (v u : ModuleId) : Prop := u ∈ g.requirementsOf v

/-- Each node stands once, each edge is seen from both its ends, and these are nodes. -/
structure WellFormed (g : Graph) : Prop where
  nodup : g.nodes.Nodup
  both : ∀ u v, v ∈ g.dependents u ↔ g.Requires v u
  mem : ∀ u v, g.Requires v u → v ∈ g.nodes ∧ u ∈ g.nodes

/-! ## Nodes -/

theorem mem_nodes_addNode (h : ∀ id, g.positions.contains id = true ↔ id ∈ g.nodes) (m : Module) :
    (∀ id, (g.addNode m).positions.contains id = true ↔ id ∈ (g.addNode m).nodes) ∧
      ∀ id, id ∈ (g.addNode m).nodes ↔ id ∈ g.nodes ∨ id = m.id := by
  have hm : ∀ id, id ∈ (g.addNode m).nodes ↔ id ∈ g.nodes ∨ id = m.id := by
    intro id
    unfold addNode
    by_cases hc : g.positions.contains m.id = true
    · have := (h m.id).1 hc
      simp only [hc, if_true]
      grind
    · simp [hc]
  refine ⟨fun id => ?_, hm⟩
  rw [hm, ← h]
  simp only [addNode, Std.ExtTreeMap.contains_insert, Bool.or_eq_true, beq_iff_eq,
    Std.LawfulEqCmp.compare_eq_iff_eq]
  grind

theorem nodup_addNode (h : ∀ id, g.positions.contains id = true ↔ id ∈ g.nodes)
    (hn : g.nodes.Nodup) (m : Module) : (g.addNode m).nodes.Nodup := by
  unfold addNode
  split
  · exact hn
  · next hc =>
    rw [h] at hc
    exact List.nodup_append.2 ⟨hn, List.nodup_singleton _, by grind⟩

theorem foldl_addNode (ms : List Module)
    (h : ∀ id, g.positions.contains id = true ↔ id ∈ g.nodes) (hn : g.nodes.Nodup) :
    (ms.foldl addNode g).nodes.Nodup ∧
      ∀ id, id ∈ (ms.foldl addNode g).nodes ↔ id ∈ g.nodes ∨ id ∈ ms.map (·.id) := by
  induction ms generalizing g with
  | nil => simp [hn]
  | cons m ms ih =>
    obtain ⟨hc, hm⟩ := mem_nodes_addNode h m
    obtain ⟨hnodup, hmem⟩ := ih hc (nodup_addNode h hn m)
    refine ⟨hnodup, fun id => ?_⟩
    rw [List.foldl_cons, hmem, hm, List.map_cons, List.mem_cons, or_assoc]

theorem dependents_addNode (m : Module) : (g.addNode m).dependents = g.dependents := rfl

theorem requirementsOf_addNode (m : Module) :
    (g.addNode m).requirementsOf = g.requirementsOf := rfl

theorem place_addNode_self (m : Module) : (g.addNode m).place m.id = m.place := by
  simp [place, addNode, Module.place]

theorem place_addNode_of_ne {m : Module} (h : m.id ≠ v) : (g.addNode m).place v = g.place v := by
  simp [place, addNode, Std.ExtTreeMap.getD_insert, h]

theorem place_foldl_addNode (ms : List Module) (h : ∀ m ∈ ms, m.id ≠ v) :
    (ms.foldl addNode g).place v = g.place v := by
  induction ms generalizing g with
  | nil => rfl
  | cons m ms ih =>
    obtain ⟨hm, hms⟩ := List.forall_mem_cons.1 h
    rw [List.foldl_cons, ih hms, place_addNode_of_ne hm]

theorem foldl_addNode_edges (ms : List Module) :
    (ms.foldl addNode g).dependents = g.dependents ∧
      (ms.foldl addNode g).requirementsOf = g.requirementsOf := by
  induction ms generalizing g with
  | nil => exact ⟨rfl, rfl⟩
  | cons m ms ih =>
    rw [List.foldl_cons, ih.1, ih.2, dependents_addNode, requirementsOf_addNode]
    exact ⟨rfl, rfl⟩

/-! ## Edges -/

theorem mem_dependents_addEdge :
    b ∈ (g.addEdge u v).dependents a ↔ b ∈ g.dependents a ∨ (a = u ∧ b = v) := by
  unfold addEdge
  split
  · next h =>
    rw [hasEdge, List.contains_iff_mem] at h
    grind
  · simp only [dependents, Std.ExtTreeMap.getD_insert, Std.LawfulEqCmp.compare_eq_iff_eq]
    grind

theorem requires_addEdge (hb : ∀ u v, v ∈ g.dependents u ↔ g.Requires v u) :
    (g.addEdge u v).Requires b a ↔ g.Requires b a ∨ (a = u ∧ b = v) := by
  unfold addEdge
  split
  · next h =>
    rw [hasEdge, List.contains_iff_mem, hb] at h
    grind
  · simp only [Requires, requirementsOf, Std.ExtTreeMap.getD_insert,
      Std.LawfulEqCmp.compare_eq_iff_eq]
    grind

theorem nodes_addEdge : (g.addEdge u v).nodes = g.nodes := by
  unfold addEdge
  split <;> rfl

theorem place_addEdge : (g.addEdge u v).place = g.place := by
  unfold addEdge
  split <;> rfl

theorem nodup_dependents_addEdge (h : ∀ a, (g.dependents a).Nodup) (a : ModuleId) :
    ((g.addEdge u v).dependents a).Nodup := by
  unfold addEdge
  split
  · exact h a
  · next hnew =>
    rw [hasEdge, List.contains_iff_mem] at hnew
    simp only [dependents, Std.ExtTreeMap.getD_insert, Std.LawfulEqCmp.compare_eq_iff_eq]
    split
    · apply List.nodup_append.2
      refine ⟨h u, List.nodup_singleton v, ?_⟩
      rintro x hx y hy rfl
      exact hnew (List.mem_singleton.1 hy ▸ hx)
    · exact h a

def addEdges (g : Graph) (es : List (ModuleId × ModuleId)) : Graph :=
  es.foldl (fun g e => g.addEdge e.1 e.2) g

theorem nodes_addEdges (es : List (ModuleId × ModuleId)) : (g.addEdges es).nodes = g.nodes := by
  unfold addEdges
  induction es generalizing g with
  | nil => rfl
  | cons e es ih => rw [List.foldl_cons, ih, nodes_addEdge]

theorem place_addEdges (es : List (ModuleId × ModuleId)) : (g.addEdges es).place = g.place := by
  unfold addEdges
  induction es generalizing g with
  | nil => rfl
  | cons e es ih => rw [List.foldl_cons, ih, place_addEdge]

theorem nodup_dependents_addEdges (es : List (ModuleId × ModuleId))
    (h : ∀ a, (g.dependents a).Nodup) (a : ModuleId) : ((g.addEdges es).dependents a).Nodup := by
  unfold addEdges
  induction es generalizing g with
  | nil => exact h a
  | cons e es ih => exact ih (nodup_dependents_addEdge h)

theorem requires_addEdges (es : List (ModuleId × ModuleId))
    (hb : ∀ u v, v ∈ g.dependents u ↔ g.Requires v u) :
    (∀ u v, v ∈ (g.addEdges es).dependents u ↔ (g.addEdges es).Requires v u) ∧
      ∀ u v, (g.addEdges es).Requires v u ↔ g.Requires v u ∨ (u, v) ∈ es := by
  unfold addEdges
  induction es generalizing g with
  | nil => simp [hb]
  | cons e es ih =>
    have hb' : ∀ u v, v ∈ (g.addEdge e.1 e.2).dependents u ↔ (g.addEdge e.1 e.2).Requires v u := by
      intro u v
      rw [mem_dependents_addEdge, requires_addEdge hb, hb]
    obtain ⟨h₁, h₂⟩ := ih hb'
    refine ⟨h₁, fun u v => ?_⟩
    rw [List.foldl_cons, h₂, requires_addEdge hb, List.mem_cons, or_assoc, Prod.ext_iff]

/-! ## The whole graph -/

/-- The edges that some modules give, in the order in which they are listed. -/
def listedEdges (ms : List Module) : List (ModuleId × ModuleId) :=
  ms.flatMap fun m => (m.prerequisites.filter (knownIds ms).contains).map (·, m.id)

theorem ofModules_eq : ofModules ms = (ms.foldl addNode empty).addEdges (listedEdges ms) := by
  simp only [ofModules, addEdges, listedEdges, List.foldl_flatMap, List.foldl_map]

theorem mem_listedEdges :
    (u, v) ∈ listedEdges ms ↔
      ∃ m ∈ ms, m.id = v ∧ u ∈ m.prerequisites ∧ u ∈ ms.map (·.id) := by
  simp only [listedEdges, knownIds, List.mem_flatMap, List.mem_map, List.mem_filter,
    Std.ExtTreeSet.contains_ofList, List.contains_iff_mem, Prod.mk.injEq]
  grind

theorem foldl_addNode_both (u v : ModuleId) :
    v ∈ (ms.foldl addNode empty).dependents u ↔ (ms.foldl addNode empty).Requires v u := by
  rw [Requires, (foldl_addNode_edges ms).1, (foldl_addNode_edges ms).2]
  simp [dependents, requirementsOf, empty]

theorem not_requires_foldl_addNode : ¬ (ms.foldl addNode empty).Requires v u := by
  rw [Requires, (foldl_addNode_edges ms).2]
  simp [requirementsOf, empty]

theorem nodes_ofModules :
    (ofModules ms).nodes.Nodup ∧ ∀ id, id ∈ (ofModules ms).nodes ↔ id ∈ ms.map (·.id) := by
  obtain ⟨hn, hm⟩ := foldl_addNode ms (g := empty) (by simp [empty]) (by simp [empty])
  rw [ofModules_eq, nodes_addEdges]
  refine ⟨hn, fun id => ?_⟩
  rw [hm]
  simp [empty]

theorem mem_nodes_ofModules : v ∈ (ofModules ms).nodes ↔ v ∈ ms.map (·.id) := nodes_ofModules.2 v

theorem requires_ofModules :
    (ofModules ms).Requires v u ↔
      ∃ m ∈ ms, m.id = v ∧ u ∈ m.prerequisites ∧ u ∈ ms.map (·.id) := by
  rw [ofModules_eq, (requires_addEdges _ foldl_addNode_both).2, mem_listedEdges,
    or_iff_right not_requires_foldl_addNode]

theorem nodup_dependents_ofModules (ms : List Module) (u : ModuleId) :
    ((ofModules ms).dependents u).Nodup := by
  rw [ofModules_eq]
  apply nodup_dependents_addEdges
  intro a
  rw [(foldl_addNode_edges ms).1]
  simp [dependents, empty]

theorem place_ofModules {before after : List Module} {m : Module}
    (h : ∀ n ∈ after, n.id ≠ m.id) :
    (ofModules (before ++ m :: after)).place m.id = m.place := by
  rw [ofModules_eq, place_addEdges, List.foldl_append, List.foldl_cons, place_foldl_addNode _ h,
    place_addNode_self]

theorem wellFormed_ofModules (ms : List Module) : (ofModules ms).WellFormed where
  nodup := nodes_ofModules.1
  both := by
    rw [ofModules_eq]
    exact (requires_addEdges _ foldl_addNode_both).1
  mem := by
    intro u v h
    obtain ⟨m, hm, rfl, -, hu⟩ := requires_ofModules.1 h
    exact ⟨mem_nodes_ofModules.2 (List.mem_map_of_mem hm), mem_nodes_ofModules.2 hu⟩

/-! ## Edges from prerequisites -/

/-- An edge leads from the prerequisite `u` to `v`. -/
def Leads (g : Graph) (u v : ModuleId) : Prop := g.hasEdge u v = true

theorem leads_iff_mem : g.Leads u v ↔ v ∈ g.dependents u := by
  rw [Leads, hasEdge, List.contains_iff_mem]

namespace WellFormed

variable (hg : g.WellFormed)
include hg

theorem leads_iff : g.Leads u v ↔ g.Requires v u := leads_iff_mem.trans (hg.both u v)

theorem leads_eq : g.Leads = Function.swap g.Requires := by
  funext u v
  exact propext hg.leads_iff

theorem reflTransGen_leads : ReflTransGen g.Leads u v ↔ ReflTransGen g.Requires v u := by
  rw [hg.leads_eq, reflTransGen_swap]

theorem transGen_leads : TransGen g.Leads u v ↔ TransGen g.Requires v u := by
  rw [hg.leads_eq, transGen_swap]

end WellFormed

theorem leads_ofModules :
    (ofModules ms).Leads u v ↔ ∃ m ∈ ms, m.id = v ∧ u ∈ m.prerequisites ∧ u ∈ ms.map (·.id) :=
  (wellFormed_ofModules ms).leads_iff.trans requires_ofModules

end Pathway.Graph
