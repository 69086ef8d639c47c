import Mathlib.Order.Bounds.Defs
import Pathway.Proofs.Prerequisites.Generations

/-!
# The schedule

The generations of the graph of some modules are a schedule for them: every module stands in it
once, together with those it shares a circle with, and as early as what leads to it allows.
-/

open Relation

namespace Pathway.Graph

variable {g : Graph} {c c' : Component} {cs : List Component} {d d' : Nat} {u v : ModuleId}

/-! ## Components that lead to each other -/

/-- An edge leads from a module of the one component to a module of the other. -/
def LeadsTo (g : Graph) (c c' : Component) : Prop := ∃ u ∈ c, ∃ v ∈ c', g.Leads u v

/-- The components lead one to the next and the last of them to `c`, and all are distinct. -/
structure Approach (g : Graph) (c : Component) (cs : List Component) : Prop where
  mem : ∀ c' ∈ cs, c' ∈ g.generations.flatten
  nodup : (cs ++ [c]).Nodup
  linked : (cs ++ [c]).IsChain g.LeadsTo

theorem mem_flatten_generations (hg : g.WellFormed) :
    c ∈ g.generations.flatten ↔ c ∈ g.components := (perm_generations hg).mem_iff

theorem requiresComponent_iff (hg : g.WellFormed) :
    g.RequiresComponent c' c ↔ c ≠ c' ∧ g.LeadsTo c c' := by
  simp only [RequiresComponent, LeadsTo, hg.leads_iff]
  constructor
  · rintro ⟨hne, v, hv, u, hu, h⟩
    exact ⟨hne.symm, u, hu, v, hv, h⟩
  · rintro ⟨hne, u, hu, v, hv, h⟩
    exact ⟨hne.symm, v, hv, u, hu, h⟩

theorem lt_of_leadsTo (hg : g.WellFormed) (h : g.InGeneration d c) (h' : g.InGeneration d' c')
    (hne : c ≠ c') (hl : g.LeadsTo c c') : d < d' := by
  have hc := mem_components_of_inGeneration hg h
  obtain ⟨e, hlt, he⟩ := inGeneration_lt hg h' hc ((requiresComponent_iff hg).2 ⟨hne, hl⟩)
  rwa [inGeneration_unique hg h he]

/-! ## The longest approach -/

theorem length_le_of_approach (hg : g.WellFormed) (h : g.InGeneration d c)
    (hcs : g.Approach c cs) : cs.length ≤ d := by
  induction cs using List.reverseRecOn generalizing c d with
  | nil => exact Nat.zero_le d
  | append_singleton cs c' ih =>
    obtain ⟨hmem, hnodup, hlinked⟩ := hcs
    rw [List.append_assoc] at hlinked
    obtain ⟨hbefore, hl, -⟩ := List.isChain_append_cons_cons.1 hlinked
    obtain ⟨d', hd'⟩ := exists_generation hg ((mem_flatten_generations hg).1 (hmem c' (by simp)))
    have hne : c' ≠ c := fun he => by simp [he, List.nodup_append] at hnodup
    have hle := ih hd' ⟨fun a ha => hmem a (List.mem_append_left _ ha), hnodup.of_append_left,
      hbefore⟩
    have hlt := lt_of_leadsTo hg hd' h hne hl
    rw [List.length_append, List.length_singleton]
    omega

/-- One component from each of the generations before leads to a component. -/
theorem exists_approach (hg : g.WellFormed) (h : g.InGeneration d c) :
    ∃ cs, g.Approach c cs ∧ cs.length = d ∧ ∀ c' ∈ cs, ∃ d' < d, g.InGeneration d' c' := by
  induction d generalizing c with
  | zero => exact ⟨[], ⟨nofun, List.nodup_singleton c, List.isChain_singleton c⟩, rfl, nofun⟩
  | succ d ih =>
    obtain ⟨c', hc', hr⟩ := exists_inGeneration hg h
    obtain ⟨hne, hl⟩ := (requiresComponent_iff hg).1 hr
    obtain ⟨cs, hcs, hlen, hbelow⟩ := ih hc'
    have hbelow' : ∀ a ∈ cs ++ [c'], ∃ e < d + 1, g.InGeneration e a := by
      intro a ha
      rcases List.mem_append.1 ha with ha | ha
      · obtain ⟨e, he, hea⟩ := hbelow a ha
        exact ⟨e, by omega, hea⟩
      · obtain rfl := List.mem_singleton.1 ha
        exact ⟨d, by omega, hc'⟩
    refine ⟨cs ++ [c'], ⟨fun a ha => ?_, ?_, ?_⟩, by simp [hlen], hbelow'⟩
    · obtain ⟨e, -, he⟩ := hbelow' a ha
      exact (mem_flatten_generations hg).2 (mem_components_of_inGeneration hg he)
    · apply List.nodup_append.2
      refine ⟨hcs.nodup, List.nodup_singleton c, ?_⟩
      -- The component itself stands in a later generation than all of these.
      rintro a ha b hb rfl
      obtain rfl := List.mem_singleton.1 hb
      obtain ⟨e, he, hea⟩ := hbelow' a ha
      exact he.ne (inGeneration_unique hg hea h)
    · rw [List.append_assoc]
      exact List.isChain_append_cons_cons.2 ⟨hcs.linked, hl, List.isChain_singleton c⟩

theorem isGreatest_approach (hg : g.WellFormed) (h : g.InGeneration d c) :
    IsGreatest {n | ∃ cs, g.Approach c cs ∧ cs.length = n} d := by
  constructor
  · obtain ⟨cs, hcs, hlen, -⟩ := exists_approach hg h
    exact ⟨cs, hcs, hlen⟩
  · rintro n ⟨cs, hcs, rfl⟩
    exact length_le_of_approach hg h hcs

/-! ## Walking order -/

theorem component_inOrder (hc : c ∈ g.components) :
    c.Pairwise fun u v => (g.place u).le (g.place v) = true := by
  rw [components_eq, List.mem_map] at hc
  obtain ⟨c', -, rfl⟩ := hc
  exact sortByPlace_pairwise g.place c'

theorem generation_inOrder (hg : g.WellFormed) {gen : List Component}
    (h : gen ∈ g.generations) :
    gen.Pairwise fun c c' => (g.place (leader c)).le (g.place (leader c')) = true := by
  obtain ⟨round, hround, rfl⟩ := List.mem_map.1 h
  rw [List.pairwise_map]
  obtain ⟨d, hd⟩ := List.mem_iff_getElem?.1 hround
  have leader_of : ∀ l ∈ sortByPlace g.place round,
      leader ((Std.ExtTreeMap.ofList (g.components.map fun c => (leader c, c)) :
        Table Component).getD l [l]) = l := by
    intro l hl
    obtain ⟨c, hc, rfl⟩ := exists_of_doneIn ⟨round, hd, (mem_sortByPlace _ _).1 hl⟩
    rw [getD_byLeader hg hc]
  refine (sortByPlace_pairwise g.place round).imp_of_mem fun {l l'} hl hl' hle => ?_
  rwa [leader_of l hl, leader_of l' hl']

/-! ## The whole schedule -/

/-- What the generations of a graph owe to the modules that it is made of. -/
structure Schedules (g : Graph) (ms : List Module) : Prop where
  edges : ∀ u v, g.Leads u v ↔
    ∃ m ∈ ms, m.id = v ∧ u ∈ m.prerequisites ∧ u ∈ ms.map (·.id)
  /-- The last module with an id tells its position. -/
  places : ∀ before m after, ms = before ++ m :: after → (∀ n ∈ after, n.id ≠ m.id) →
    g.place m.id = m.place
  nodup : g.generations.flatten.flatten.Nodup
  mem : ∀ id, id ∈ g.generations.flatten.flatten ↔ id ∈ ms.map (·.id)
  ne_nil : ∀ c ∈ g.generations.flatten, c ≠ []
  mates : ∀ c ∈ g.generations.flatten, ∀ u ∈ c, ∀ v,
    v ∈ c ↔ ReflTransGen g.Leads u v ∧ ReflTransGen g.Leads v u
  cyclic : ∀ c ∈ g.generations.flatten, ∀ v ∈ c,
    g.isCyclic c = true ↔ TransGen g.Leads v v
  earlier : ∀ d c d' c', g.InGeneration d c → g.InGeneration d' c' → c ≠ c' → g.LeadsTo c c' →
    d < d'
  longest : ∀ d c, g.InGeneration d c →
    IsGreatest {n | ∃ cs, g.Approach c cs ∧ cs.length = n} d
  membersInOrder : ∀ c ∈ g.generations.flatten,
    c.Pairwise fun u v => (g.place u).le (g.place v) = true
  componentsInOrder : ∀ gen ∈ g.generations,
    gen.Pairwise fun c c' => (g.place (leader c)).le (g.place (leader c')) = true

theorem generations_schedule (ms : List Module) : (ofModules ms).Schedules ms := by
  have hg := wellFormed_ofModules ms
  have hin : ∀ {c}, c ∈ (ofModules ms).generations.flatten ↔ c ∈ (ofModules ms).components :=
    mem_flatten_generations hg
  refine ⟨fun u v => leads_ofModules, ?_, ?_, ?_, ?_, ?_, ?_, ?_, ?_, ?_, ?_⟩
  · rintro before m after rfl hlast
    exact place_ofModules hlast
  · exact (perm_nodes hg).nodup_iff.2 hg.nodup
  · exact fun id => (perm_nodes hg).mem_iff.trans mem_nodes_ofModules
  · exact fun c hc => component_ne_nil hg (hin.1 hc)
  · intro c hc u hu v
    rw [hg.reflTransGen_leads, hg.reflTransGen_leads, mem_component_iff hg (hin.1 hc) hu, Mutual,
      and_comm]
  · intro c hc v hv
    rw [hg.transGen_leads, isCyclic_iff hg (hin.1 hc) hv, OnCircle]
  · exact fun d c d' c' => lt_of_leadsTo hg
  · exact fun d c => isGreatest_approach hg
  · exact fun c hc => component_inOrder (hin.1 hc)
  · exact fun gen => generation_inOrder hg

end Pathway.Graph
