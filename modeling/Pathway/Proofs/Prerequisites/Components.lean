import Pathway.Prerequisites.Generations
import Pathway.Proofs.Prerequisites.Chain
import Pathway.Proofs.Prerequisites.Graph
import Pathway.Proofs.Prerequisites.Reach
import Pathway.Proofs.Prerequisites.Rounds

/-!
# Components

The components part the nodes of a graph into classes of modules that require each other, and a
component is cyclic if its modules require themselves.
-/

open Relation

namespace Pathway.Graph

variable {g : Graph} {c : Component} {pool : IdSet} {vs : List ModuleId} {u v : ModuleId} {d : Nat}

/-! ## Settled nodes -/

theorem ids_nodeTasks : g.nodeTasks.map (·.id) = g.nodes := by
  simp [nodeTasks, Function.comp_def]

theorem nodup_nodeTasks (hg : g.WellFormed) : (g.nodeTasks.map (·.id)).Nodup := by
  rw [ids_nodeTasks]
  exact hg.nodup

theorem mem_nodeTasks (hv : v ∈ g.nodes) : (⟨v, g.requirementsOf v⟩ : Task) ∈ g.nodeTasks :=
  List.mem_map_of_mem hv

/-- Whatever a settled node requires is settled before it. -/
theorem settled_lt_of_transGen (hg : g.WellFormed) (h : TransGen g.Requires v u)
    (hv : Task.DoneIn g.nodeTasks d v) : ∃ d' < d, Task.DoneIn g.nodeTasks d' u := by
  induction h with
  | single h =>
    exact Task.doneIn_lt_of_awaits (nodup_nodeTasks hg) (mem_nodeTasks (hg.mem _ _ h).1) hv h
  | tail _ h ih =>
    obtain ⟨d', hlt, hd'⟩ := ih
    obtain ⟨d'', hlt', hd''⟩ :=
      Task.doneIn_lt_of_awaits (nodup_nodeTasks hg) (mem_nodeTasks (hg.mem _ _ h).1) hd' h
    exact ⟨d'', hlt'.trans hlt, hd''⟩

theorem not_onCircle_of_settled (hg : g.WellFormed) (hv : Task.DoneIn g.nodeTasks d v) :
    ¬ OnCircle g.Requires v := by
  intro h
  obtain ⟨d', hlt, hd'⟩ := settled_lt_of_transGen hg h hv
  exact absurd (Task.doneIn_unique (nodup_nodeTasks hg) hv hd') hlt.ne'

def settled (g : Graph) : List ModuleId := (Task.rounds g.nodeTasks).1.flatten

/-- The nodes on circles, and those behind which there is one. -/
def unsettled (g : Graph) : List ModuleId := (Task.rounds g.nodeTasks).2.map (·.id)

theorem components_eq (g : Graph) :
    g.components = (g.settled.map ([·]) ++
      g.classes (Std.ExtTreeSet.ofList g.unsettled) g.unsettled).map (sortByPlace g.place) := rfl

theorem perm_settled_unsettled (g : Graph) : (g.settled ++ g.unsettled).Perm g.nodes :=
  ids_nodeTasks (g := g) ▸ Task.perm_rounds g.nodeTasks

theorem mem_settled : v ∈ g.settled ↔ ∃ d, Task.DoneIn g.nodeTasks d v := Task.mem_flatten_rounds

theorem nodup_settled_unsettled (hg : g.WellFormed) : (g.settled ++ g.unsettled).Nodup :=
  (perm_settled_unsettled g).nodup_iff.2 hg.nodup

theorem mem_unsettled (hg : g.WellFormed) : v ∈ g.unsettled ↔ v ∈ g.nodes ∧ v ∉ g.settled := by
  have hn := (List.nodup_append.1 (nodup_settled_unsettled hg)).2.2
  rw [← (perm_settled_unsettled g).mem_iff, List.mem_append]
  grind

theorem mem_unsettled_of_reach (hg : g.WellFormed) (hv : v ∈ g.unsettled)
    (h : ReflTransGen g.Requires u v) : u ∈ g.unsettled := by
  rcases reflTransGen_iff_eq_or_transGen.1 h with rfl | h
  · exact hv
  · obtain ⟨w, hw, -⟩ := TransGen.head'_iff.1 h
    refine (mem_unsettled hg).2 ⟨(hg.mem _ _ hw).1, fun hu => ?_⟩
    obtain ⟨d, hd⟩ := mem_settled.1 hu
    obtain ⟨d', -, hd'⟩ := settled_lt_of_transGen hg h hd
    exact ((mem_unsettled hg).1 hv).2 (mem_settled.2 ⟨d', hd'⟩)

theorem eq_of_mutual_settled (hg : g.WellFormed) (hv : v ∈ g.settled) (h : Mutual g.Requires v u) :
    u = v := by
  obtain ⟨d, hd⟩ := mem_settled.1 hv
  by_contra hne
  exact not_onCircle_of_settled hg hd (h.onCircle (Ne.symm hne))

/-! ## Classes of mutual reach -/

theorem stepIn_requirementsOf_of_mutual (hpool : ∀ u, Mutual g.Requires v u → u ∈ pool)
    (h : Mutual g.Requires v u) : ReflTransGen (StepIn g.requirementsOf pool) v u := by
  obtain ⟨hvu, huv⟩ := h
  induction hvu with
  | refl => exact .refl
  | @tail x y hvx hxy ih => exact (ih (.head hxy huv)).tail ⟨hxy, hpool y ⟨hvx.tail hxy, huv⟩⟩

theorem stepIn_dependents_of_mutual (hg : g.WellFormed)
    (hpool : ∀ u, Mutual g.Requires v u → u ∈ pool) (h : Mutual g.Requires v u) :
    ReflTransGen (StepIn g.dependents pool) v u := by
  obtain ⟨hvu, huv⟩ := h
  induction huv using ReflTransGen.head_induction_on with
  | refl => exact .refl
  | @head x y hxy hyv ih =>
    exact (ih (hvu.tail hxy)).tail ⟨(hg.both _ _).2 hxy, hpool x ⟨hvu, .head hxy hyv⟩⟩

theorem reach_of_stepIn_requirementsOf (h : ReflTransGen (StepIn g.requirementsOf pool) v u) :
    ReflTransGen g.Requires v u :=
  ReflTransGen.mono (fun _ _ h => h.1) _ _ h

theorem reach_of_stepIn_dependents (hg : g.WellFormed)
    (h : ReflTransGen (StepIn g.dependents pool) v u) : ReflTransGen g.Requires u v := by
  induction h with
  | refl => exact .refl
  | tail _ h ih => exact .head ((hg.both _ _).1 h.1) ih

theorem mem_classOf (hg : g.WellFormed) (hpool : ∀ u, Mutual g.Requires v u → u ∈ pool) :
    u ∈ g.classOf pool v ↔ Mutual g.Requires v u := by
  have hv : v ∈ pool := hpool v (.refl v)
  simp only [classOf, Std.ExtTreeSet.mem_filter, Std.ExtTreeSet.get_eq, mem_reach_iff,
    ← Std.ExtTreeSet.mem_iff_contains, exists_prop]
  constructor
  · rintro ⟨⟨-, hd⟩, -, hr⟩
    exact ⟨reach_of_stepIn_requirementsOf hr, reach_of_stepIn_dependents hg hd⟩
  · intro h
    exact ⟨⟨hv, stepIn_dependents_of_mutual hg hpool h⟩, hv,
      stepIn_requirementsOf_of_mutual hpool h⟩

theorem perm_classes (vs : List ModuleId) : (g.classes pool vs).flatten.Perm vs := by
  fun_induction classes g pool vs with
  | case1 => rfl
  | case2 v rest mates ih =>
    simp only [List.unattach_filter, List.unattach_attach] at ih
    rw [List.flatten_cons]
    refine List.Perm.cons v ((ih.append_left _).trans ?_)
    exact List.filter_append_perm mates.contains rest

theorem mem_of_mem_classes (hg : g.WellFormed)
    (hpool : ∀ v ∈ vs, ∀ u, Mutual g.Requires v u → u ∈ pool) (hc : c ∈ g.classes pool vs) :
    ∃ v ∈ vs, ∀ u, u ∈ c ↔ u ∈ vs ∧ Mutual g.Requires v u := by
  fun_induction classes g pool vs with
  | case1 => cases hc
  | case2 v rest mates ih =>
    simp only [List.unattach_filter, List.unattach_attach] at ih
    have hmates : ∀ u, mates.contains u = true ↔ Mutual g.Requires v u := fun u => by
      rw [← Std.ExtTreeSet.mem_iff_contains]
      exact mem_classOf hg (hpool v List.mem_cons_self)
    rcases List.mem_cons.1 hc with rfl | hc
    · refine ⟨v, List.mem_cons_self, fun u => ?_⟩
      rw [List.mem_cons, List.mem_filter, hmates, List.mem_cons]
      constructor
      · rintro (rfl | ⟨hu, hm⟩)
        · exact ⟨.inl rfl, .refl u⟩
        · exact ⟨.inr hu, hm⟩
      · rintro ⟨rfl | hu, hm⟩
        · exact .inl rfl
        · exact .inr ⟨hu, hm⟩
    · have hsub : ∀ u ∈ rest.filter (fun u => !mates.contains u), u ∈ rest := fun u hu =>
        (List.mem_filter.1 hu).1
      obtain ⟨w, hw, hiff⟩ := ih (fun w hw => hpool w (List.mem_cons_of_mem _ (hsub w hw))) hc
      refine ⟨w, List.mem_cons_of_mem _ (hsub w hw), fun u => ?_⟩
      rw [hiff]
      have hnot : ¬ Mutual g.Requires v w := by
        rw [← hmates, Bool.not_eq_true]
        exact (Bool.not_eq_true' _).mp (List.mem_filter.1 hw).2
      -- what is mutual with `w` is not mutual with `v`, so it was not taken out
      constructor
      · rintro ⟨hu, hm⟩
        exact ⟨List.mem_cons_of_mem _ (hsub u hu), hm⟩
      · rintro ⟨hu, hm⟩
        have hv : ¬ Mutual g.Requires v u := fun h => hnot (h.trans hm.symm)
        rcases List.mem_cons.1 hu with rfl | hu
        · exact absurd (.refl u) hv
        · rw [← hmates, Bool.not_eq_true] at hv
          exact ⟨List.mem_filter.2 ⟨hu, by rw [hv]; rfl⟩, hm⟩

/-! ## Components -/

theorem perm_components (g : Graph) : g.components.flatten.Perm g.nodes := by
  have hsort : ∀ cs : List Component, (cs.map (sortByPlace g.place)).flatten.Perm cs.flatten := by
    intro cs
    induction cs with
    | nil => rfl
    | cons c cs ih => exact (sortByPlace_perm g.place c).append ih
  rw [components_eq]
  refine (hsort _).trans (List.Perm.trans ?_ (perm_settled_unsettled g))
  have hsingle : (g.settled.map ([·])).flatten = g.settled := by
    rw [← List.flatMap_def, List.flatMap_singleton']
  rw [List.flatten_append, hsingle]
  exact (perm_classes g.unsettled).append_left _

theorem exists_mem_component (hg : g.WellFormed) (hc : c ∈ g.components) :
    ∃ v ∈ g.nodes, ∀ u, u ∈ c ↔ Mutual g.Requires v u := by
  rw [components_eq, List.mem_map] at hc
  obtain ⟨c', hc', rfl⟩ := hc
  rcases List.mem_append.1 hc' with hc' | hc'
  · obtain ⟨v, hv, rfl⟩ := List.mem_map.1 hc'
    refine ⟨v, (perm_settled_unsettled g).subset (List.mem_append_left _ hv), fun u => ?_⟩
    rw [mem_sortByPlace, List.mem_singleton]
    exact ⟨fun h => h ▸ .refl u, eq_of_mutual_settled hg hv⟩
  · have hpool : ∀ v ∈ g.unsettled, ∀ u, Mutual g.Requires v u →
        u ∈ (Std.ExtTreeSet.ofList g.unsettled : IdSet) := by
      intro v hv u hm
      rw [IdSet.mem_ofList]
      exact mem_unsettled_of_reach hg hv hm.2
    obtain ⟨v, hv, hiff⟩ := mem_of_mem_classes hg hpool hc'
    refine ⟨v, ((mem_unsettled hg).1 hv).1, fun u => ?_⟩
    rw [mem_sortByPlace, hiff]
    exact and_iff_right_of_imp fun hm => mem_unsettled_of_reach hg hv hm.2

/-- Two nodes share a component if and only if they are mutual. -/
theorem mem_component_iff (hg : g.WellFormed) (hc : c ∈ g.components) (hu : u ∈ c) :
    v ∈ c ↔ Mutual g.Requires u v := by
  obtain ⟨w, -, hiff⟩ := exists_mem_component hg hc
  have hw := (hiff u).1 hu
  rw [hiff]
  exact ⟨hw.symm.trans, hw.trans⟩

theorem component_ne_nil (hg : g.WellFormed) (hc : c ∈ g.components) : c ≠ [] := by
  obtain ⟨v, -, hiff⟩ := exists_mem_component hg hc
  exact List.ne_nil_of_mem ((hiff v).2 (.refl v))

theorem nodup_components (hg : g.WellFormed) : g.components.flatten.Nodup :=
  (perm_components g).nodup_iff.2 hg.nodup

theorem nodup_component (hg : g.WellFormed) (hc : c ∈ g.components) : c.Nodup :=
  (List.nodup_flatten.1 (nodup_components hg)).1 c hc

theorem exists_component (hv : v ∈ g.nodes) : ∃ c ∈ g.components, v ∈ c :=
  List.mem_flatten.1 ((perm_components g).mem_iff.2 hv)

theorem one_lt_length_iff (hn : c.Nodup) (hu : u ∈ c) : 1 < c.length ↔ ∃ v ∈ c, u ≠ v := by
  match c, hn, hu with
  | [w], _, hu =>
    cases List.mem_singleton.1 hu
    simp
  | w :: w' :: c, hn, _ =>
    have hne : w ≠ w' := fun he => (List.nodup_cons.1 hn).1 (he ▸ List.mem_cons_self)
    refine iff_of_true (by simp) ?_
    by_cases he : u = w
    · exact ⟨w', by simp, he ▸ hne⟩
    · exact ⟨w, List.mem_cons_self, he⟩

/-- A component is cyclic if and only if its members require themselves. -/
theorem isCyclic_iff (hg : g.WellFormed) (hc : c ∈ g.components) (hu : u ∈ c) :
    g.isCyclic c = true ↔ OnCircle g.Requires u := by
  have loop : ∀ v, g.hasEdge v v = true ↔ g.Requires v v := fun v => by
    rw [hasEdge, List.contains_iff_mem, hg.both]
  simp only [isCyclic, Bool.or_eq_true, decide_eq_true_eq, List.any_eq_true, loop,
    one_lt_length_iff (nodup_component hg hc) hu]
  constructor
  · rintro (⟨v, hv, hne⟩ | ⟨v, hv, hvv⟩)
    · exact ((mem_component_iff hg hc hu).1 hv).onCircle hne
    · exact ((mem_component_iff hg hc hu).1 hv).onCircle_of_onCircle (.single hvv)
  · intro h
    obtain ⟨v, huv, hm⟩ := h.exists_mutual
    by_cases he : u = v
    · exact .inr ⟨u, hu, he ▸ huv⟩
    · exact .inl ⟨v, (mem_component_iff hg hc hu).2 hm, he⟩

end Pathway.Graph
