import Pathway.Proofs.Prerequisites.Elementary
import Pathway.Proofs.Prerequisites.Schedule

/-!
# All circles

From each node the walk goes on through later nodes until it is back. So it meets each circle once,
from the first of its nodes on, and turning it to its smallest id writes it.
-/

open Relation

namespace Pathway

namespace Graph

variable {g : Graph} {next : ModuleId → List ModuleId} {pool : IdSet} {fuel : Nat}
  {start u v w : ModuleId} {path nodes rest ids : List ModuleId} {circle : Cycle ModuleId}
  {c : Component}

/-! ## Walks back to the start -/

/-- A walk goes on from `v` through new nodes of the pool, and from the last of them to the
start. -/
structure GoesOn (next : ModuleId → List ModuleId) (start : ModuleId) (pool : IdSet)
    (v : ModuleId) (path rest : List ModuleId) : Prop where
  chain : (v :: (rest ++ [start])).IsChain fun u w => w ∈ next u
  nodup : rest.Nodup
  fresh : ∀ w ∈ rest, w ≠ start ∧ w ∈ pool ∧ w ∉ v :: path

namespace GoesOn

theorem nil_iff : GoesOn next start pool v path [] ↔ start ∈ next v := by
  constructor
  · intro h
    exact List.isChain_pair.1 h.chain
  · intro h
    exact ⟨List.isChain_pair.2 h, List.nodup_nil, nofun⟩

theorem cons_iff :
    GoesOn next start pool v path (w :: rest) ↔
      w ∈ next v ∧ w ≠ start ∧ w ∈ pool ∧ w ∉ v :: path ∧
        GoesOn next start pool w (v :: path) rest := by
  constructor
  · rintro ⟨hchain, hnodup, hfresh⟩
    obtain ⟨hvw, hchain⟩ := List.isChain_cons_cons.1 hchain
    obtain ⟨hw, hnodup⟩ := List.nodup_cons.1 hnodup
    obtain ⟨⟨hne, hpool, hnew⟩, hfresh⟩ := List.forall_mem_cons.1 hfresh
    refine ⟨hvw, hne, hpool, hnew, hchain, hnodup, fun x hx => ?_⟩
    obtain ⟨hxne, hxpool, hxnew⟩ := hfresh x hx
    refine ⟨hxne, hxpool, fun hmem => ?_⟩
    rcases List.mem_cons.1 hmem with rfl | hmem
    · exact hw hx
    · exact hxnew hmem
  · rintro ⟨hvw, hne, hpool, hnew, hchain, hnodup, hfresh⟩
    refine ⟨List.isChain_cons_cons.2 ⟨hvw, hchain⟩, List.nodup_cons.2 ⟨fun hw => ?_, hnodup⟩, ?_⟩
    · exact (hfresh w hw).2.2 List.mem_cons_self
    · refine List.forall_mem_cons.2 ⟨⟨hne, hpool, hnew⟩, fun x hx => ?_⟩
      obtain ⟨hxne, hxpool, hxnew⟩ := hfresh x hx
      exact ⟨hxne, hxpool, fun hmem => hxnew (List.mem_cons_of_mem w hmem)⟩

end GoesOn

theorem mem_circlesOn_succ :
    nodes ∈ circlesOn next start pool (fuel + 1) (v :: path) ↔
      ∃ w ∈ next v, (w = start ∧ nodes = (v :: path).reverse) ∨
        (w ≠ start ∧ w ∈ pool ∧ w ∉ v :: path ∧
          nodes ∈ circlesOn next start pool fuel (w :: v :: path)) := by
  rw [circlesOn, List.head?_cons, Option.elim_some, List.mem_flatMap]
  refine exists_congr fun w => and_congr_right fun _ => ?_
  by_cases hstart : w = start
  · simp [hstart]
  · have hne : (w == start) = false := beq_eq_false_iff_ne.2 hstart
    have hgo : (pool.contains w && !(v :: path).contains w) = true ↔
        w ∈ pool ∧ w ∉ v :: path := by
      rw [Bool.and_eq_true, Bool.not_eq_true', ← Bool.not_eq_true, List.contains_iff_mem,
        Std.ExtTreeSet.mem_iff_contains]
    rw [hne, if_neg Bool.false_ne_true]
    split
    · next h =>
      obtain ⟨hpool, hnew⟩ := hgo.1 h
      tauto
    · next h =>
      rw [hgo] at h
      simp only [List.not_mem_nil, false_iff]
      tauto

/-- Those walks are found that are not longer than the fuel. -/
theorem mem_circlesOn :
    nodes ∈ circlesOn next start pool fuel (v :: path) ↔
      ∃ rest, GoesOn next start pool v path rest ∧ rest.length < fuel ∧
        nodes = (v :: path).reverse ++ rest := by
  induction fuel generalizing v path with
  | zero =>
    rw [circlesOn]
    simp
  | succ fuel ih =>
    rw [mem_circlesOn_succ]
    constructor
    · rintro ⟨w, hvw, ⟨rfl, rfl⟩ | ⟨hne, hpool, hnew, hnodes⟩⟩
      · exact ⟨[], GoesOn.nil_iff.2 hvw, Nat.zero_lt_succ fuel, (List.append_nil _).symm⟩
      · obtain ⟨rest, hrest, hlt, rfl⟩ := ih.1 hnodes
        refine ⟨w :: rest, GoesOn.cons_iff.2 ⟨hvw, hne, hpool, hnew, hrest⟩, ?_, by simp⟩
        rw [List.length_cons]
        omega
    · rintro ⟨rest, hrest, hlt, rfl⟩
      cases rest with
      | nil => exact ⟨start, GoesOn.nil_iff.1 hrest, Or.inl ⟨rfl, List.append_nil _⟩⟩
      | cons w rest =>
        obtain ⟨hvw, hne, hpool, hnew, hrest⟩ := GoesOn.cons_iff.1 hrest
        rw [List.length_cons] at hlt
        exact ⟨w, hvw, Or.inr ⟨hne, hpool, hnew,
          ih.2 ⟨rest, hrest, by omega, by simp⟩⟩⟩

theorem nodup_circlesOn (hnext : ∀ u, (next u).Nodup) :
    (circlesOn next start pool fuel (v :: path)).Nodup := by
  induction fuel generalizing v path with
  | zero => exact List.nodup_nil
  | succ fuel ih =>
    rw [circlesOn, List.head?_cons, Option.elim_some, List.nodup_flatMap]
    constructor
    · intro w _
      split
      · exact List.nodup_singleton _
      · split
        · exact ih
        · exact List.nodup_nil
    · -- What is found through a successor has that successor after the path, unless it is closed.
      have next_eq : ∀ w nodes, (nodes ∈ if w == start then [(v :: path).reverse]
          else if pool.contains w && !(v :: path).contains w then
            circlesOn next start pool fuel (w :: v :: path) else []) →
          nodes[(v :: path).length]? = if w = start then none else some w := by
        intro w nodes hnodes
        split at hnodes
        · next h =>
          rw [if_pos (beq_iff_eq.1 h), List.mem_singleton.1 hnodes]
          simp
        · next h =>
          split at hnodes
          · obtain ⟨rest, -, -, rfl⟩ := mem_circlesOn.1 hnodes
            rw [if_neg (by simpa using h)]
            simp
          · cases hnodes
      refine (hnext v).imp fun {w w'} hne nodes hw hw' => hne ?_
      have heq := (next_eq w nodes hw).symm.trans (next_eq w' nodes hw')
      split_ifs at heq with h h'
      · exact h.trans h'.symm
      · exact Option.some.inj heq

/-! ## The circles from a node -/

theorem mem_pool_of_mem_reach (h : u ∈ reach next pool v) : u ∈ pool := by
  obtain ⟨hv, hr⟩ := mem_reach_iff.1 h
  rcases ReflTransGen.cases_tail hr with rfl | ⟨w, -, hw⟩
  · exact hv
  · exact hw.2

theorem mem_classOf_of_elementary (hg : g.WellFormed) (hc : Elementary g.Leads circle)
    (hpool : ∀ w ∈ circle, w ∈ pool) (hu : u ∈ circle) (hv : v ∈ circle) :
    v ∈ g.classOf pool u := by
  have hin : Elementary (fun x y => g.Leads x y ∧ x ∈ pool ∧ y ∈ pool) circle :=
    hc.imp_of_mem fun x y hx hy hxy => ⟨hxy, hpool x hx, hpool y hy⟩
  have hforth : ReflTransGen (StepIn g.dependents pool) u v :=
    (TransGen.mono (fun x y h => ⟨leads_iff_mem.1 h.1, h.2.2⟩) _ _
      (hin.transGen hu hv)).to_reflTransGen
  have hback : ReflTransGen (StepIn g.requirementsOf pool) u v := by
    apply reflTransGen_swap.1
    exact (TransGen.mono (fun x y h => ⟨hg.leads_iff.1 h.1, h.2.1⟩) _ _
      (hin.transGen hv hu)).to_reflTransGen
  simp only [classOf, Std.ExtTreeSet.mem_filter, Std.ExtTreeSet.get_eq, mem_reach_iff,
    ← Std.ExtTreeSet.mem_iff_contains, exists_prop]
  exact ⟨⟨hpool u hu, hforth⟩, hpool u hu, hback⟩

theorem mem_of_mem_classOf (h : v ∈ g.classOf pool u) : v ∈ pool := by
  simp only [classOf, Std.ExtTreeSet.mem_filter, Std.ExtTreeSet.get_eq] at h
  exact mem_pool_of_mem_reach h.1

theorem mem_nodes_of_elementary (hg : g.WellFormed) (hc : Elementary g.Leads circle)
    (hv : v ∈ circle) : v ∈ g.nodes := by
  obtain ⟨w, hw, -⟩ := TransGen.head'_iff.1 (hc.transGen hv hv)
  exact (hg.mem _ _ (hg.leads_iff.1 hw)).2

/-- A circle on a node and some others is found from that node on. -/
theorem mem_circlesOn_classOf (hg : g.WellFormed) :
    nodes ∈ circlesOn g.dependents u (g.classOf (Std.ExtTreeSet.ofList (u :: ids)) u)
        g.nodes.length [u] ↔
      ∃ rest, nodes = u :: rest ∧ Elementary g.Leads (u :: rest : List ModuleId) ∧
        ∀ v ∈ rest, v ∈ ids := by
  rw [mem_circlesOn]
  refine exists_congr fun rest => ?_
  constructor
  · rintro ⟨⟨hchain, hnodup, hfresh⟩, -, rfl⟩
    have hrest : ∀ v ∈ rest, v ∈ ids := by
      intro v hv
      obtain ⟨hne, hpool, -⟩ := hfresh v hv
      exact List.mem_of_ne_of_mem hne (IdSet.mem_ofList.1 (mem_of_mem_classOf hpool))
    refine ⟨rfl, ⟨by simp, ?_, ?_⟩, hrest⟩
    · exact List.nodup_cons.2 ⟨fun hu => (hfresh u hu).1 rfl, hnodup⟩
    · exact hchain.imp fun x y h => leads_iff_mem.2 h
  · rintro ⟨rfl, hc, hrest⟩
    have hnodup : (u :: rest).Nodup := hc.nodup
    have hmem : ∀ v ∈ u :: rest, v ∈ g.nodes := fun v hv => mem_nodes_of_elementary hg hc hv
    have hids : ∀ v ∈ u :: rest, v ∈ u :: ids :=
      List.forall_mem_cons.2 ⟨List.mem_cons_self, fun v hv => List.mem_cons_of_mem u (hrest v hv)⟩
    refine ⟨⟨?_, (List.nodup_cons.1 hnodup).2, fun v hv => ?_⟩, ?_, rfl⟩
    · exact hc.chain.imp fun x y h => leads_iff_mem.1 h
    · have hne : v ≠ u := fun he => (List.nodup_cons.1 hnodup).1 (he ▸ hv)
      refine ⟨hne, ?_, by simpa using hne⟩
      exact mem_classOf_of_elementary hg hc (fun w hw => IdSet.mem_ofList.2 (hids w hw))
        List.mem_cons_self (List.mem_cons_of_mem u hv)
    · exact (List.subperm_of_subset hnodup hmem).length_le

theorem elementary_of_mem_circlesAmong (hg : g.WellFormed) (h : nodes ∈ g.circlesAmong ids) :
    Elementary g.Leads nodes ∧ ∀ v ∈ nodes, v ∈ ids := by
  induction ids with
  | nil => cases h
  | cons u ids ih =>
    rcases List.mem_append.1 h with h | h
    · obtain ⟨rest, rfl, hc, hrest⟩ := (mem_circlesOn_classOf hg).1 h
      exact ⟨hc, List.forall_mem_cons.2
        ⟨List.mem_cons_self, fun v hv => List.mem_cons_of_mem u (hrest v hv)⟩⟩
    · obtain ⟨hc, hids⟩ := ih h
      exact ⟨hc, fun v hv => List.mem_cons_of_mem u (hids v hv)⟩

/-- A circle that has the first of the nodes is found there, another one among the later nodes. -/
theorem exists_mem_circlesAmong (hg : g.WellFormed) (hc : Elementary g.Leads circle)
    (hids : ∀ v ∈ circle, v ∈ ids) : ∃ nodes ∈ g.circlesAmong ids, circle = nodes := by
  induction ids with
  | nil =>
    obtain ⟨v, hv⟩ := hc.exists_mem
    cases hids v hv
  | cons u ids ih =>
    by_cases hu : u ∈ circle
    · obtain ⟨rest, rfl⟩ := exists_eq_coe_cons hu
      have hnew : u ∉ rest := (List.nodup_cons.1 (Cycle.nodup_coe_iff.1 hc.nodup)).1
      have hrest : ∀ v ∈ rest, v ∈ ids := fun v hv =>
        List.mem_of_ne_of_mem (ne_of_mem_of_not_mem hv hnew) (hids v (List.mem_cons_of_mem u hv))
      exact ⟨u :: rest, List.mem_append_left _
        ((mem_circlesOn_classOf hg).2 ⟨rest, rfl, hc, hrest⟩), rfl⟩
    · have hlater : ∀ v ∈ circle, v ∈ ids := fun v hv =>
        List.mem_of_ne_of_mem (ne_of_mem_of_not_mem hv hu) (hids v hv)
      obtain ⟨nodes, hnodes, rfl⟩ := ih hlater
      exact ⟨nodes, List.mem_append_right _ hnodes, rfl⟩

theorem circlesAmong_distinct (hg : g.WellFormed) (hnext : ∀ u, (g.dependents u).Nodup)
    (hn : ids.Nodup) :
    (g.circlesAmong ids).Pairwise fun a b : List ModuleId => (a : Cycle ModuleId) ≠ b := by
  induction ids with
  | nil => exact .nil
  | cons u ids ih =>
    obtain ⟨hu, hn⟩ := List.nodup_cons.1 hn
    rw [circlesAmong, List.pairwise_append]
    refine ⟨?_, ih hn, fun a ha b hb he => ?_⟩
    · refine List.Pairwise.imp_of_mem (fun {a b} ha hb hne he => hne ?_)
        (nodup_circlesOn hnext)
      obtain ⟨rest, rfl, hc, -⟩ := (mem_circlesOn_classOf hg).1 ha
      obtain ⟨rest', rfl, -⟩ := (mem_circlesOn_classOf hg).1 hb
      rw [eq_of_isRotated_cons (Cycle.coe_eq_coe.1 he)
        (List.nodup_cons.1 (Cycle.nodup_coe_iff.1 hc.nodup)).1]
    · obtain ⟨rest, rfl, -⟩ := (mem_circlesOn_classOf hg).1 ha
      have hub : u ∈ b := (Cycle.coe_eq_coe.1 he).mem_iff.1 List.mem_cons_self
      exact hu ((elementary_of_mem_circlesAmong hg hb).2 u hub)

theorem mem_elementaryCycles (hg : g.WellFormed) {written : List ModuleId} :
    written ∈ g.elementaryCycles ↔
      ∃ circle, Elementary g.Leads circle ∧ Writes written circle := by
  rw [elementaryCycles, List.mem_map]
  simp only [List.mem_mergeSort, List.mem_map]
  constructor
  · rintro ⟨_, ⟨nodes, hnodes, rfl⟩, rfl⟩
    obtain ⟨hc, -⟩ := elementary_of_mem_circlesAmong hg hnodes
    exact ⟨nodes, hc, writes_close_rotate hc⟩
  · rintro ⟨circle, hc, hw⟩
    obtain ⟨nodes, hnodes, rfl⟩ := exists_mem_circlesAmong hg hc fun v hv =>
      mem_nodes_of_elementary hg hc hv
    exact ⟨rotate nodes, ⟨nodes, hnodes, rfl⟩, (writes_close_rotate hc).written_eq hw⟩

/-! ## The order of the circles -/

theorem idsLe_iff {a b : List ModuleId} : idsLe a b = true ↔ a < b ∨ a = b := by
  induction a generalizing b with
  | nil => cases b <;> simp [idsLe]
  | cons i a ih =>
    cases b with
    | nil => simp [idsLe]
    | cons j b =>
      rw [idsLe, Bool.or_eq_true, Bool.and_eq_true, decide_eq_true_iff, beq_iff_eq, ih,
        List.cons_lt_cons_iff, List.cons.injEq]
      tauto

/-- A shorter circle comes first, and of two that are as long the one with smaller ids. -/
def Precedes (a b : List ModuleId) : Prop := a.length < b.length ∨ (a.length = b.length ∧ a < b)

theorem circleLe_iff {a b : List ModuleId} :
    circleLe a b = true ↔ Precedes a b ∨ a = b := by
  rw [circleLe, Bool.or_eq_true, Bool.and_eq_true, decide_eq_true_iff, beq_iff_eq, idsLe_iff,
    Precedes]
  constructor
  · rintro (h | ⟨hlen, h | rfl⟩)
    · exact Or.inl (Or.inl h)
    · exact Or.inl (Or.inr ⟨hlen, h⟩)
    · exact Or.inr rfl
  · rintro ((h | ⟨hlen, h⟩) | rfl)
    · exact Or.inl h
    · exact Or.inr ⟨hlen, Or.inl h⟩
    · exact Or.inr ⟨rfl, Or.inr rfl⟩

theorem Precedes.trans {a b c : List ModuleId} (h : Precedes a b) (h' : Precedes b c) :
    Precedes a c := by
  rcases h with h | ⟨hlen, h⟩ <;> rcases h' with h' | ⟨hlen', h'⟩
  · exact Or.inl (h.trans h')
  · exact Or.inl (hlen' ▸ h)
  · exact Or.inl (hlen ▸ h')
  · exact Or.inr ⟨hlen.trans hlen', h.trans h'⟩

theorem precedes_or (a b : List ModuleId) : Precedes a b ∨ a = b ∨ Precedes b a := by
  rcases Nat.lt_trichotomy a.length b.length with h | h | h
  · exact Or.inl (Or.inl h)
  · rcases lt_trichotomy a b with g | g | g
    · exact Or.inl (Or.inr ⟨h, g⟩)
    · exact Or.inr (Or.inl g)
    · exact Or.inr (Or.inr (Or.inr ⟨h.symm, g⟩))
  · exact Or.inr (Or.inr (Or.inl h))

theorem sorted_circles (l : List (List ModuleId)) :
    (l.mergeSort circleLe).Pairwise fun a b => Precedes a b ∨ a = b := by
  refine (@List.pairwise_mergeSort _ circleLe ?_ ?_ l).imp circleLe_iff.1
  · intro a b c hab hbc
    rw [circleLe_iff] at *
    rcases hab with h | rfl
    · rcases hbc with h' | rfl
      · exact Or.inl (h.trans h')
      · exact Or.inl h
    · exact hbc
  · intro a b
    rw [Bool.or_eq_true, circleLe_iff, circleLe_iff]
    have := precedes_or a b
    tauto

theorem append_lt_append {a b : List ModuleId} (hlen : a.length = b.length) (h : a < b)
    (c d : List ModuleId) : a ++ c < b ++ d := by
  induction a generalizing b with
  | nil => cases List.eq_nil_of_length_eq_zero hlen.symm ▸ h
  | cons i a ih =>
    cases b with
    | nil => cases hlen
    | cons j b =>
      rw [List.cons_append, List.cons_append]
      rw [List.cons_lt_cons_iff] at h ⊢
      exact h.imp_right fun ⟨hij, hlt⟩ => ⟨hij, ih (Nat.succ.inj hlen) hlt⟩

theorem Precedes.close {a b : List ModuleId} (ha : a ≠ []) (hb : b ≠ []) (h : Precedes a b) :
    Precedes (close a) (close b) := by
  obtain ⟨i, a, rfl⟩ := List.exists_cons_of_ne_nil ha
  obtain ⟨j, b, rfl⟩ := List.exists_cons_of_ne_nil hb
  rcases h with h | ⟨hlen, h⟩
  · exact Or.inl (by simpa [Graph.close] using h)
  · exact Or.inr ⟨by simpa [Graph.close] using hlen, append_lt_append hlen h _ _⟩

theorem nodup_map_rotate (hg : g.WellFormed) (hnext : ∀ u, (g.dependents u).Nodup) :
    ((g.circlesAmong g.nodes).map rotate).Nodup := by
  refine List.pairwise_map.2 ((circlesAmong_distinct hg hnext hg.nodup).imp_of_mem
    fun {a b} ha hb hne he => hne ?_)
  have hwritten := writes_close_rotate (elementary_of_mem_circlesAmong hg ha).1
  rw [he] at hwritten
  exact hwritten.circle_eq (writes_close_rotate (elementary_of_mem_circlesAmong hg hb).1)

theorem elementaryCycles_inOrder (hg : g.WellFormed) (hnext : ∀ u, (g.dependents u).Nodup) :
    g.elementaryCycles.Pairwise Precedes := by
  rw [elementaryCycles, List.pairwise_map]
  have hne : ∀ nodes ∈ ((g.circlesAmong g.nodes).map rotate).mergeSort circleLe, nodes ≠ [] := by
    intro nodes h
    obtain ⟨found, hfound, rfl⟩ := List.mem_map.1 (List.mem_mergeSort.1 h)
    obtain ⟨hc, -⟩ := elementary_of_mem_circlesAmong hg hfound
    obtain ⟨i, rest, he, -⟩ := exists_rotate_eq hc
    rw [he]
    exact List.cons_ne_nil i rest
  have hnodup : (((g.circlesAmong g.nodes).map rotate).mergeSort circleLe).Nodup :=
    (List.mergeSort_perm _ _).nodup_iff.2 (nodup_map_rotate hg hnext)
  refine ((sorted_circles _).and hnodup).imp_of_mem fun {a b} ha hb h => ?_
  exact (h.1.resolve_right h.2).close (hne a ha) (hne b hb)

/-! ## The report -/

theorem exists_circle_iff (hg : g.WellFormed) (hc : c ∈ g.components) (hv : v ∈ c) :
    (∃ written ∈ g.elementaryCycles, v ∈ written) ↔ g.isCyclic c = true := by
  rw [isCyclic_iff hg hc hv, OnCircle, ← hg.transGen_leads]
  constructor
  · rintro ⟨written, hmem, hin⟩
    obtain ⟨circle, hcircle, hw⟩ := (mem_elementaryCycles hg).1 hmem
    exact hcircle.transGen (hw.mem_iff.1 hin) (hw.mem_iff.1 hin)
  · intro h
    obtain ⟨circle, hcircle, hin⟩ := exists_elementary h
    obtain ⟨written, hw⟩ := exists_writes hcircle
    exact ⟨written, (mem_elementaryCycles hg).2 ⟨circle, hcircle, hw⟩, hw.mem_iff.2 hin⟩

theorem elementaryCycles_eq_nil_iff (hg : g.WellFormed) :
    g.elementaryCycles = [] ↔ ∀ c ∈ g.components, g.isCyclic c = false := by
  constructor
  · intro h c hc
    rw [← Bool.not_eq_true, ← exists_circle_iff hg hc (leader_mem hg hc), h]
    simp
  · intro h
    rw [List.eq_nil_iff_forall_not_mem]
    intro written hmem
    obtain ⟨circle, hcircle, hw⟩ := (mem_elementaryCycles hg).1 hmem
    obtain ⟨v, hv⟩ := List.exists_mem_of_ne_nil written hw.ne_nil
    obtain ⟨c, hc, hvc⟩ :=
      exists_component (mem_nodes_of_elementary hg hcircle (hw.mem_iff.1 hv))
    have hcyclic := (exists_circle_iff hg hc hvc).1 ⟨written, hmem, hv⟩
    rw [h c hc] at hcyclic
    cases hcyclic

/-- What a list of written circles owes to a graph. -/
structure ListsCircles (g : Graph) (reports : List (List ModuleId)) : Prop where
  sound : ∀ written ∈ reports, ∃! circle, Elementary g.Leads circle ∧ Writes written circle
  complete : ∀ circle, Elementary g.Leads circle →
    ∃! written, written ∈ reports ∧ Writes written circle
  nodup : reports.Nodup
  inOrder : reports.Pairwise Precedes
  passes_iff : ∀ c ∈ g.generations.flatten, ∀ v ∈ c,
    (∃ written ∈ reports, v ∈ written) ↔ g.isCyclic c = true
  eq_nil_iff : reports = [] ↔ ∀ c ∈ g.generations.flatten, g.isCyclic c = false

theorem elementaryCycles_listed (ms : List Module) :
    (ofModules ms).ListsCircles (ofModules ms).elementaryCycles := by
  have hg := wellFormed_ofModules ms
  have horder := elementaryCycles_inOrder hg (nodup_dependents_ofModules ms)
  refine ⟨fun written hmem => ?_, fun circle hc => ?_, ?_, horder, ?_, ?_⟩
  · obtain ⟨circle, hc, hw⟩ := (mem_elementaryCycles hg).1 hmem
    exact ⟨circle, ⟨hc, hw⟩, fun circle' h => h.2.circle_eq hw⟩
  · obtain ⟨written, hw⟩ := exists_writes hc
    exact ⟨written, ⟨(mem_elementaryCycles hg).2 ⟨circle, hc, hw⟩, hw⟩,
      fun written' h => h.2.written_eq hw⟩
  · refine horder.imp fun {a b} h he => ?_
    rcases he ▸ h with h | ⟨-, h⟩
    · exact lt_irrefl _ h
    · exact lt_irrefl _ h
  · exact fun c hc v hv => exists_circle_iff hg ((mem_flatten_generations hg).1 hc) hv
  · simp only [mem_flatten_generations hg]
    exact elementaryCycles_eq_nil_iff hg

end Graph

namespace Sample

def bare (id : ModuleId) (position : Int) (prerequisites : List ModuleId) : Module :=
  ⟨id, "", position, [], prerequisites, false, 0, none⟩

/-- Two circles meet in the module `a`. -/
def crossing : List Module := [bare "a" 0 ["b", "c"], bare "b" 1 ["a"], bare "c" 2 ["a"]]

example : (Graph.ofModules crossing).elementaryCycles = [["a", "b", "a"], ["a", "c", "a"]] := by cbv

end Sample

end Pathway
