import Pathway.Proofs.Prerequisites.Components
import Pathway.Proofs.Table

/-!
# Generations

The generations hold every component once. What a component requires stands in an earlier
generation, and the number of the generation is the length of the longest chain that leads to it.
-/

open Relation

namespace Pathway.Graph

variable {g : Graph} {c c' : Component} {u v l : ModuleId} {d d' n : Nat}

/-! ## Leaders -/

theorem leader_mem (hg : g.WellFormed) (hc : c ∈ g.components) : leader c ∈ c := by
  obtain ⟨v, vs, rfl⟩ := List.exists_cons_of_ne_nil (component_ne_nil hg hc)
  exact List.mem_cons_self

theorem component_unique (hg : g.WellFormed) (hc : c ∈ g.components) (hc' : c' ∈ g.components)
    (hv : v ∈ c) (hv' : v ∈ c') : c = c' := by
  by_contra hne
  have : Std.Symm (List.Disjoint (α := ModuleId)) := ⟨fun _ _ h => h.symm⟩
  have hdisj := (List.nodup_flatten.1 (nodup_components hg)).2
  exact hdisj.forall hc hc' hne hv hv'

theorem leader_inj (hg : g.WellFormed) (hc : c ∈ g.components) (hc' : c' ∈ g.components)
    (h : leader c = leader c') : c = c' :=
  component_unique hg hc hc' (leader_mem hg hc) (h ▸ leader_mem hg hc')

theorem nodup_leaders (hg : g.WellFormed) : (g.components.map leader).Nodup := by
  refine List.pairwise_map.2 ((List.nodup_flatten.1 (nodup_components hg)).2.imp_of_mem ?_)
  intro c c' hc hc' hdisj he
  exact hdisj (leader_mem hg hc) (he ▸ leader_mem hg hc')

theorem getD_leaders (hg : g.WellFormed) (hc : c ∈ g.components) (hv : v ∈ c) :
    (leaders g.components).getD v v = leader c := by
  have hkeys : ((g.components.flatMap fun c => c.map (·, leader c)).map Prod.fst).Nodup := by
    have h : (g.components.flatMap fun c => c.map (·, leader c)).map Prod.fst =
        g.components.flatten := by
      simp [List.flatMap_def, List.map_flatten, Function.comp_def]
    exact h ▸ nodup_components hg
  exact Table.getD_ofList_of_mem hkeys
    (List.mem_flatMap.2 ⟨c, hc, List.mem_map_of_mem hv⟩)

/-! ## Tasks of components -/

def taskOf (g : Graph) (c : Component) : Task :=
  ⟨leader c, (((c.flatMap g.requirementsOf).map fun u => (leaders g.components).getD u u).filter
    (· != leader c)).eraseDups⟩

theorem componentTasks_eq : g.componentTasks g.components = g.components.map g.taskOf := rfl

theorem nodup_componentTasks (hg : g.WellFormed) :
    ((g.componentTasks g.components).map (·.id)).Nodup := by
  rw [componentTasks_eq, List.map_map]
  exact nodup_leaders hg

/-- One component requires another. -/
def RequiresComponent (g : Graph) (c c' : Component) : Prop :=
  c ≠ c' ∧ ∃ v ∈ c, ∃ u ∈ c', g.Requires v u

theorem mem_awaits_iff (hg : g.WellFormed) (hc : c ∈ g.components) :
    l ∈ (g.taskOf c).awaits ↔ ∃ c' ∈ g.components, leader c' = l ∧ g.RequiresComponent c c' := by
  simp only [taskOf, List.mem_eraseDups, List.mem_filter, List.mem_map, List.mem_flatMap,
    bne_iff_ne]
  constructor
  · rintro ⟨⟨u, ⟨v, hv, hu⟩, rfl⟩, hne⟩
    obtain ⟨c', hc', hu'⟩ := exists_component (hg.mem u v hu).2
    rw [getD_leaders hg hc' hu'] at hne ⊢
    exact ⟨c', hc', rfl, fun he => hne (he ▸ rfl), v, hv, u, hu', hu⟩
  · rintro ⟨c', hc', rfl, hne, v, hv, u, hu, h⟩
    refine ⟨⟨u, ⟨v, hv, h⟩, getD_leaders hg hc' hu⟩, fun he => hne ?_⟩
    exact (leader_inj hg hc' hc he).symm

/-! ## Components by generation -/

def InGeneration (g : Graph) (d : Nat) (c : Component) : Prop :=
  ∃ gen, g.generations[d]? = some gen ∧ c ∈ gen

theorem getD_byLeader (hg : g.WellFormed) (hc : c ∈ g.components) (w : Component) :
    (Std.ExtTreeMap.ofList (g.components.map fun c => (leader c, c)) : Table Component).getD
      (leader c) w = c := by
  refine Table.getD_ofList_of_mem ?_ (List.mem_map_of_mem hc)
  rw [List.map_map]
  exact nodup_leaders hg

theorem exists_of_doneIn (h : Task.DoneIn (g.componentTasks g.components) d l) :
    ∃ c ∈ g.components, leader c = l := by
  have := Task.mem_ids_of_doneIn h
  rw [componentTasks_eq, List.map_map] at this
  exact List.mem_map.1 this

theorem inGeneration_iff (hg : g.WellFormed) :
    g.InGeneration d c ↔
      c ∈ g.components ∧ Task.DoneIn (g.componentTasks g.components) d (leader c) := by
  simp only [InGeneration, generations, List.getElem?_map, Option.map_eq_some_iff]
  constructor
  · rintro ⟨gen, ⟨round, hr, rfl⟩, hc⟩
    obtain ⟨l, hl, rfl⟩ := List.mem_map.1 hc
    have hd : Task.DoneIn (g.componentTasks g.components) d l :=
      ⟨round, hr, (mem_sortByPlace _ _).1 hl⟩
    obtain ⟨c', hc', rfl⟩ := exists_of_doneIn hd
    rw [getD_byLeader hg hc']
    exact ⟨hc', hd⟩
  · rintro ⟨hc, round, hr, hl⟩
    refine ⟨_, ⟨round, hr, rfl⟩, List.mem_map.2 ⟨leader c, (mem_sortByPlace _ _).2 hl, ?_⟩⟩
    exact getD_byLeader hg hc _

theorem mem_components_of_inGeneration (hg : g.WellFormed) (h : g.InGeneration d c) :
    c ∈ g.components := ((inGeneration_iff hg).1 h).1

theorem inGeneration_unique (hg : g.WellFormed) (h : g.InGeneration d c)
    (h' : g.InGeneration d' c) : d = d' :=
  Task.doneIn_unique (nodup_componentTasks hg) ((inGeneration_iff hg).1 h).2
    ((inGeneration_iff hg).1 h').2

theorem inGeneration_lt (hg : g.WellFormed) (h : g.InGeneration d c) (hc' : c' ∈ g.components)
    (hr : g.RequiresComponent c c') : ∃ d' < d, g.InGeneration d' c' := by
  obtain ⟨hc, hd⟩ := (inGeneration_iff hg).1 h
  have ha : leader c' ∈ (g.taskOf c).awaits := (mem_awaits_iff hg hc).2 ⟨c', hc', rfl, hr⟩
  obtain ⟨d', hlt, hd'⟩ := Task.doneIn_lt_of_awaits (nodup_componentTasks hg)
    (componentTasks_eq ▸ List.mem_map_of_mem hc) hd ha
  exact ⟨d', hlt, (inGeneration_iff hg).2 ⟨hc', hd'⟩⟩

/-- A component that is not in the first generation requires one of the generation before. -/
theorem exists_inGeneration (hg : g.WellFormed) (h : g.InGeneration (d + 1) c) :
    ∃ c', g.InGeneration d c' ∧ g.RequiresComponent c c' := by
  obtain ⟨hc, hd⟩ := (inGeneration_iff hg).1 h
  obtain ⟨l, hl, hd'⟩ := Task.exists_awaits_doneIn (nodup_componentTasks hg)
    (componentTasks_eq ▸ List.mem_map_of_mem hc) hd
  obtain ⟨c', hc', rfl, hr⟩ := (mem_awaits_iff hg hc).1 hl
  exact ⟨c', (inGeneration_iff hg).2 ⟨hc', hd'⟩, hr⟩

/-! ## Every component has its generation -/

theorem behind_of_requiresComponent (hg : g.WellFormed) (hc : c ∈ g.components)
    (hc' : c' ∈ g.components) (h : g.RequiresComponent c c') (hv : v ∈ c) (hu : u ∈ c') :
    Behind g.Requires v u := by
  obtain ⟨hne, w, hw, w', hw', hr⟩ := h
  have hvw := (mem_component_iff hg hc hv).1 hw
  have hwu := (mem_component_iff hg hc' hw').1 hu
  have hvu : TransGen g.Requires v u := .trans_right hvw.1 (.head' hr hwu.1)
  refine ⟨hvu, fun huv => hne ?_⟩
  have hm : Mutual g.Requires v u := ⟨hvu.to_reflTransGen, huv.to_reflTransGen⟩
  exact component_unique hg hc hc' ((mem_component_iff hg hc hv).2 hm) hu

theorem finite_reach (hg : g.WellFormed) (v : ModuleId) :
    {u | ReflTransGen g.Requires v u}.Finite := by
  refine (Set.Finite.insert v g.nodes.finite_toSet).subset fun u hu => ?_
  rcases ReflTransGen.cases_tail hu with rfl | ⟨w, -, hw⟩
  · exact Set.mem_insert _ _
  · exact Set.mem_insert_of_mem _ (hg.mem _ _ hw).2

/-- No component is stuck: it would wait on a stuck one strictly behind it, and so on for ever. -/
theorem exists_generation (hg : g.WellFormed) (hc : c ∈ g.components) :
    ∃ d, g.InGeneration d c := by
  induction hn : {u | ReflTransGen g.Requires (leader c) u}.ncard using Nat.strong_induction_on
    generalizing c with
  | _ n ih =>
    by_contra hnone
    have hnever : ∀ d, ¬ Task.DoneIn (g.componentTasks g.components) d (g.taskOf c).id :=
      fun d hd => hnone ⟨d, (inGeneration_iff hg).2 ⟨hc, hd⟩⟩
    obtain ⟨l, hl, hnever'⟩ := Task.exists_awaits_never_done (nodup_componentTasks hg)
      (componentTasks_eq ▸ List.mem_map_of_mem hc) hnever
    obtain ⟨c', hc', rfl, hr⟩ := (mem_awaits_iff hg hc).1 hl
    have hb := behind_of_requiresComponent hg hc hc' hr (leader_mem hg hc) (leader_mem hg hc')
    obtain ⟨d, hd⟩ := ih _ (hn ▸ ncard_reach_lt hb (finite_reach hg _)) hc' rfl
    exact hnever' d ((inGeneration_iff hg).1 hd).2

/-! ## Levels -/

/-- The number of the generation in which a node stands. -/
def level (g : Graph) (v : ModuleId) : Nat :=
  g.generations.findIdx fun gen => gen.any (·.contains v)

theorem level_eq (hg : g.WellFormed) (h : g.InGeneration d c) (hv : v ∈ c) : g.level v = d := by
  obtain ⟨gen, hgen, hc⟩ := id h
  obtain ⟨hlt, rfl⟩ := List.getElem?_eq_some_iff.1 hgen
  refine (List.findIdx_eq hlt).2 ⟨List.any_eq_true.2 ⟨c, hc, by simpa using hv⟩, fun j hj => ?_⟩
  rw [Bool.eq_false_iff]
  intro hany
  obtain ⟨c', hc', hv'⟩ := List.any_eq_true.1 hany
  have hj' : g.InGeneration j c' := ⟨_, List.getElem?_eq_getElem (hj.trans hlt), hc'⟩
  have he := component_unique hg (mem_components_of_inGeneration hg h)
    (mem_components_of_inGeneration hg hj') hv (by simpa using hv')
  exact hj.ne (inGeneration_unique hg hj' (he ▸ h))

theorem exists_inGeneration_level (hg : g.WellFormed) (hv : v ∈ g.nodes) :
    ∃ c, v ∈ c ∧ g.InGeneration (g.level v) c := by
  obtain ⟨c, hc, hvc⟩ := exists_component hv
  obtain ⟨d, hd⟩ := exists_generation hg hc
  exact ⟨c, hvc, level_eq hg hd hvc ▸ hd⟩

theorem level_eq_of_mutual (hg : g.WellFormed) (hv : v ∈ g.nodes) (h : Mutual g.Requires v u) :
    g.level u = g.level v := by
  obtain ⟨c, hvc, hc⟩ := exists_inGeneration_level hg hv
  exact level_eq hg hc ((mem_component_iff hg (mem_components_of_inGeneration hg hc) hvc).2 h)

theorem level_lt_of_requires (hg : g.WellFormed) (h : g.Requires v u)
    (hm : ¬ Mutual g.Requires v u) : g.level u < g.level v := by
  obtain ⟨c, hvc, hc⟩ := exists_inGeneration_level hg (hg.mem u v h).1
  obtain ⟨c', huc', hc'⟩ := exists_inGeneration_level hg (hg.mem u v h).2
  have hmc := mem_components_of_inGeneration hg hc
  have hne : c ≠ c' := fun he => hm ((mem_component_iff hg hmc hvc).1 (he ▸ huc'))
  obtain ⟨d, hlt, hd⟩ := inGeneration_lt hg hc (mem_components_of_inGeneration hg hc')
    ⟨hne, v, hvc, u, huc', h⟩
  rwa [level_eq hg hd huc']

theorem level_lt_of_behind (hg : g.WellFormed) (h : Behind g.Requires v u) :
    g.level u < g.level v := by
  have key : ∀ {u}, TransGen g.Requires v u → Mutual g.Requires v u ∨ g.level u < g.level v := by
    intro u hu
    induction hu with
    | @single x hu =>
      by_cases hm : Mutual g.Requires v x
      · exact .inl hm
      · exact .inr (level_lt_of_requires hg hu hm)
    | @tail x y hx hxy ih =>
      by_cases hm : Mutual g.Requires x y
      · rcases ih with hvx | hlt
        · exact .inl (hvx.trans hm)
        · exact .inr (level_eq_of_mutual hg (hg.mem _ _ hxy).1 hm ▸ hlt)
      · have hlt := level_lt_of_requires hg hxy hm
        rcases ih with hvx | hlt'
        · have hv : v ∈ g.nodes := by
            obtain ⟨w, hw, -⟩ := TransGen.head'_iff.1 hx
            exact (hg.mem _ _ hw).1
          exact .inr (level_eq_of_mutual hg hv hvx ▸ hlt)
        · exact .inr (hlt.trans hlt')
  rcases key h.1 with hm | hlt
  · rcases reflTransGen_iff_eq_or_transGen.1 hm.2 with rfl | huv
    · exact absurd h.1 h.2
    · exact absurd huv h.2
  · exact hlt

theorem exists_behind_of_level_pos (hg : g.WellFormed) (hv : v ∈ g.nodes) (h : 0 < g.level v) :
    ∃ u, Behind g.Requires v u ∧ g.level v ≤ g.level u + 1 := by
  obtain ⟨c, hvc, hc⟩ := exists_inGeneration_level hg hv
  obtain ⟨d, hd⟩ : ∃ d, g.level v = d + 1 := ⟨g.level v - 1, by omega⟩
  rw [hd] at hc ⊢
  obtain ⟨c', hc', hr⟩ := exists_inGeneration hg hc
  have hmc := mem_components_of_inGeneration hg hc
  have hmc' := mem_components_of_inGeneration hg hc'
  have hl := leader_mem hg hmc'
  refine ⟨leader c', behind_of_requiresComponent hg hmc hmc' hr hvc hl, ?_⟩
  rw [level_eq hg hc' hl]

/-- The level of a node is the length of the longest chain that leads to it. -/
theorem chain_iff_le_level (hg : g.WellFormed) (hv : v ∈ g.nodes) :
    Chain g.Requires n v ↔ n ≤ g.level v :=
  chain_iff_le (P := (· ∈ g.nodes)) (fun _ _ _ h => (hg.mem _ _ h).2)
    (fun _ _ _ => level_lt_of_behind hg) (fun _ => exists_behind_of_level_pos hg) hv

theorem level_lt_length (hg : g.WellFormed) (hv : v ∈ g.nodes) : g.level v < g.nodes.length := by
  have hsub : {u | ReflTransGen g.Requires v u} ⊆ g.nodes.toFinset := by
    intro u hu
    rcases ReflTransGen.cases_tail hu with rfl | ⟨w, -, hw⟩
    · simpa using hv
    · simpa using (hg.mem _ _ hw).2
  have hlt := ((chain_iff_le_level hg hv).2 le_rfl).lt_ncard (finite_reach hg)
  have hle := Set.ncard_le_ncard hsub
  rw [Set.ncard_coe_finset] at hle
  exact hlt.trans_le (hle.trans g.nodes.toFinset_card_le)

/-! ## Every component once -/

theorem perm_rounds_leaders (hg : g.WellFormed) :
    (Task.rounds (g.componentTasks g.components)).1.flatten.Perm (g.components.map leader) := by
  have hperm := Task.perm_rounds (g.componentTasks g.components)
  have hn := hperm.nodup_iff.2 (nodup_componentTasks hg)
  rw [componentTasks_eq, List.map_map] at hperm
  have hstuck : (Task.rounds (g.componentTasks g.components)).2.map (·.id) = [] := by
    rw [List.eq_nil_iff_forall_not_mem]
    intro l hl
    obtain ⟨c, hc, rfl⟩ := List.mem_map.1 (hperm.subset (List.mem_append_right _ hl))
    obtain ⟨d, hd⟩ := exists_generation hg hc
    have hdone := Task.mem_flatten_rounds.2 ⟨d, ((inGeneration_iff hg).1 hd).2⟩
    exact absurd rfl ((List.nodup_append.1 hn).2.2 _ hdone _ hl)
  rw [← componentTasks_eq, hstuck, List.append_nil] at hperm
  exact hperm

theorem perm_flatten_map_sort {α : Type} (place : ModuleId → Place) (f : ModuleId → α)
    (rounds : List (List ModuleId)) :
    (rounds.map fun round => (sortByPlace place round).map f).flatten.Perm
      (rounds.flatten.map f) := by
  induction rounds with
  | nil => rfl
  | cons round rounds ih =>
    rw [List.map_cons, List.flatten_cons, List.flatten_cons, List.map_append]
    exact ((sortByPlace_perm place round).map f).append ih

theorem perm_generations (hg : g.WellFormed) : g.generations.flatten.Perm g.components := by
  refine (perm_flatten_map_sort g.place _ _).trans (((perm_rounds_leaders hg).map _).trans ?_)
  rw [List.map_map]
  exact .of_eq ((List.map_congr_left fun c hc => getD_byLeader hg hc _).trans (List.map_id _))

theorem perm_nodes (hg : g.WellFormed) : g.generations.flatten.flatten.Perm g.nodes :=
  (perm_generations hg).flatten.trans (perm_components g)

theorem nodup_generation (hg : g.WellFormed) {gen : List Component}
    (h : g.generations[d]? = some gen) : gen.flatten.Nodup :=
  ((perm_nodes hg).nodup_iff.2 hg.nodup).sublist
    (List.sublist_flatten_of_mem (List.mem_of_getElem? h)).flatten

theorem generation_of_drop {gen : List Component} {gens : List (List Component)}
    (h : g.generations.drop d = gen :: gens) :
    g.generations[d]? = some gen ∧ g.generations.drop (d + 1) = gens := by
  constructor
  · rw [← List.head?_drop, h, List.head?_cons]
  · rw [← List.tail_drop, h, List.tail_cons]

end Pathway.Graph
