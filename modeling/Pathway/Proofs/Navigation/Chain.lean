import Pathway.Navigation.Navigator
import Pathway.Proofs.Evaluation.Closure

/-!
# The prerequisite chain

The walk along prerequisites comes upon each module of the pool at most once, and on just those that
can be reached from the stack without leaving the pool. So the chain of a module holds all it
requires, directly or through others, but not the module itself.
-/

open Relation

namespace Pathway

variable {s : Store} {pool : Table StoredModule} {stack : List ModuleId} {a b id : ModuleId}
  {found chain : List Module} {m : Module} {f : Failure}

/-! ## The walk -/

/-- What is found on the walk leaves out nothing of the pool that is on the stack or that is
required, and holds nothing else. -/
structure Walked (s : Store) (pool : Table StoredModule) (stack : List ModuleId)
    (found : List Module) : Prop where
  nodup : (found.map (·.id)).Nodup
  read : ∀ x ∈ found, x.id ∈ pool ∧ s.getModule x.id = .ok x
  reached : ∀ x ∈ found, ∃ a ∈ stack, ReflTransGen s.Requires a x.id
  started : ∀ a ∈ stack, a ∈ pool → a ∈ found.map (·.id)
  closed : ∀ x ∈ found, ∀ b ∈ x.prerequisites, b ∈ pool → b ∈ found.map (·.id)

theorem Store.hasModule_of_reaches (h : ReflTransGen s.Requires a b)
    (hb : s.hasModule b = true) : s.hasModule a = true := by
  rcases ReflTransGen.cases_head h with rfl | ⟨c, ⟨⟨m, hm, -⟩, -⟩, -⟩
  · exact hb
  · exact Store.hasModule_of_getModule hm

theorem reaches_of_prerequisites (hm : s.getModule m.id = .ok m) (hb : s.hasModule b = true)
    (h : ∃ a ∈ m.prerequisites.reverse ++ stack, ReflTransGen s.Requires a b) :
    ∃ a ∈ m.id :: stack, ReflTransGen s.Requires a b := by
  obtain ⟨a, ha, hab⟩ := h
  rcases List.mem_append.1 ha with ha | ha
  · have hreq : s.Requires m.id a :=
      ⟨⟨m, hm, List.mem_reverse.1 ha⟩, Store.hasModule_of_reaches hab hb⟩
    exact ⟨m.id, List.mem_cons_self, .head hreq hab⟩
  · exact ⟨a, List.mem_cons_of_mem _ ha, hab⟩

namespace Walked

theorem skip (h : Walked s pool stack found) (hid : id ∉ pool) :
    Walked s pool (id :: stack) found where
  nodup := h.nodup
  read := h.read
  reached x hx := by
    obtain ⟨a, ha, hax⟩ := h.reached x hx
    exact ⟨a, List.mem_cons_of_mem _ ha, hax⟩
  started a ha hap := by
    rcases List.mem_cons.1 ha with rfl | ha
    · exact absurd hap hid
    · exact h.started a ha hap
  closed := h.closed

theorem take (h : Walked s (pool.erase m.id) (m.prerequisites.reverse ++ stack) found)
    (hp : m.id ∈ pool) (hm : s.getModule m.id = .ok m) :
    Walked s pool (m.id :: stack) (m :: found) where
  nodup := by
    rw [List.map_cons, List.nodup_cons]
    refine ⟨fun hmem => ?_, h.nodup⟩
    obtain ⟨x, hx, he⟩ := List.mem_map.1 hmem
    exact (mem_erase_pool.1 (h.read x hx).1).1 he
  read x hx := by
    rcases List.mem_cons.1 hx with rfl | hx
    · exact ⟨hp, hm⟩
    · exact ⟨(mem_erase_pool.1 (h.read x hx).1).2, (h.read x hx).2⟩
  reached x hx := by
    rcases List.mem_cons.1 hx with rfl | hx
    · exact ⟨x.id, List.mem_cons_self, .refl⟩
    · exact reaches_of_prerequisites hm (Store.hasModule_of_getModule (h.read x hx).2)
        (h.reached x hx)
  started a ha hap := by
    rw [List.map_cons, List.mem_cons]
    by_cases he : a = m.id
    · exact Or.inl he
    · have hin := (List.mem_cons.1 ha).resolve_left he
      exact Or.inr (h.started a (List.mem_append_right _ hin) (mem_erase_pool.2 ⟨he, hap⟩))
  closed x hx b hb hbp := by
    rw [List.map_cons, List.mem_cons]
    by_cases he : b = m.id
    · exact Or.inl he
    have hin := mem_erase_pool.2 ⟨he, hbp⟩
    rcases List.mem_cons.1 hx with rfl | hx
    · exact Or.inr (h.started b (List.mem_append_left _ (List.mem_reverse.2 hb)) hin)
    · exact Or.inr (h.closed x hx b hb hin)

end Walked

theorem walked_of_chainFrom (hp : PartOf pool s) (h : chainFrom pool stack = .ok found) :
    Walked s pool stack found := by
  fun_induction chainFrom pool stack generalizing found with
  | case1 =>
    cases h
    exact ⟨List.nodup_nil, by simp, by simp, by simp, by simp⟩
  | case2 pool id stack hn ih =>
    refine (ih hp h).skip fun hmem => ?_
    obtain ⟨stored, hs⟩ := mem_pool_iff.1 hmem
    cases hn.symm.trans hs
  | case3 => cases h
  | case4 pool id stack stored hs m hm ih =>
    have hread : s.getModule id = .ok m := (Store.getModule_of_stored (hp id stored hs)).trans hm
    obtain rfl := Store.id_of_getModule hread
    cases hrest : chainFrom (pool.erase m.id) (m.prerequisites.reverse ++ stack) with
    | error f =>
      rw [hrest] at h
      cases h
    | ok rest =>
      rw [hrest] at h
      cases h
      exact (ih (hp.erase m.id) hrest).take (mem_pool_iff.2 ⟨stored, hs⟩) hread

theorem exists_of_chainFrom_error (hp : PartOf pool s) (h : chainFrom pool stack = .error f) :
    ∃ id, (∃ a ∈ stack, ReflTransGen s.Requires a id) ∧ s.hasModule id = true ∧
      s.getModule id = .error f := by
  fun_induction chainFrom pool stack with
  | case1 => cases h
  | case2 pool id stack hn ih =>
    obtain ⟨i, ⟨a, ha, hai⟩, hrest⟩ := ih hp h
    exact ⟨i, ⟨a, List.mem_cons_of_mem _ ha, hai⟩, hrest⟩
  | case3 pool id stack stored hs e he =>
    cases h
    have hstored := hp id stored hs
    exact ⟨id, ⟨id, List.mem_cons_self, .refl⟩, Store.hasModule_iff_stored.2 ⟨stored, hstored⟩,
      (Store.getModule_of_stored hstored).trans he⟩
  | case4 pool id stack stored hs m hm ih =>
    have hread : s.getModule id = .ok m := (Store.getModule_of_stored (hp id stored hs)).trans hm
    obtain rfl := Store.id_of_getModule hread
    cases hrest : chainFrom (pool.erase m.id) (m.prerequisites.reverse ++ stack) with
    | error e =>
      rw [hrest] at h
      cases h
      obtain ⟨i, hi, hk, hread'⟩ := ih (hp.erase m.id) hrest
      exact ⟨i, reaches_of_prerequisites hread hk hi, hk, hread'⟩
    | ok rest =>
      rw [hrest] at h
      cases h

/-! ## The chain of a module -/

/-- The chain as it is used: what the module requires besides itself, each once, in walking
order. -/
structure ChainOf (s : Store) (m : Module) (chain : List Module) : Prop where
  nodup : (chain.map (·.id)).Nodup
  read : ∀ x ∈ chain, s.getModule x.id = .ok x
  mem : ∀ id, id ∈ chain.map (·.id) ↔ TransGen s.Requires m.id id ∧ id ≠ m.id
  inOrder : chain.Pairwise fun x y => x.place.le y.place = true

theorem chainOf_of_walked (hm : s.getModule m.id = .ok m)
    (h : Walked s (s.modules.erase m.id) m.prerequisites.reverse found) :
    ChainOf s m (sortByPlace Module.place found) where
  nodup := ((sortByPlace_perm _ found).map (·.id)).nodup_iff.2 h.nodup
  read x hx := (h.read x ((mem_sortByPlace _ found).1 hx)).2
  inOrder := sortByPlace_pairwise _ found
  mem id := by
    rw [((sortByPlace_perm Module.place found).map (·.id)).mem_iff]
    constructor
    · intro hid
      obtain ⟨x, hx, rfl⟩ := List.mem_map.1 hid
      obtain ⟨hpool, hread⟩ := h.read x hx
      obtain ⟨a, ha, hax⟩ := h.reached x hx
      have hreq : s.Requires m.id a := ⟨⟨m, hm, List.mem_reverse.1 ha⟩,
        Store.hasModule_of_reaches hax (Store.hasModule_of_getModule hread)⟩
      exact ⟨.head' hreq hax, (mem_erase_pool.1 hpool).1⟩
    · rintro ⟨hreach, hne⟩
      -- Every step leads to the module itself or to what is found.
      have first : ∀ b, s.Requires m.id b → b ≠ m.id → b ∈ found.map (·.id) := by
        rintro b ⟨⟨n, hn, hb⟩, hk⟩ hbm
        cases hm.symm.trans hn
        have hpool := mem_erase_pool.2 ⟨hbm, Store.mem_modules.2 hk⟩
        exact h.started b (List.mem_reverse.2 hb) hpool
      induction hreach with
      | single hb => exact first _ hb hne
      | @tail b c _ hbc ih =>
        by_cases hbm : b = m.id
        · exact first c (hbm ▸ hbc) hne
        obtain ⟨x, hx, rfl⟩ := List.mem_map.1 (ih hbm)
        obtain ⟨⟨n, hn, hc⟩, hk⟩ := hbc
        cases (h.read x hx).2.symm.trans hn
        exact h.closed x hx c hc (mem_erase_pool.2 ⟨hne, Store.mem_modules.2 hk⟩)

theorem partOf_erase (s : Store) (id : ModuleId) : PartOf (s.modules.erase id) s :=
  PartOf.erase (fun _ _ h => h) id

theorem chainOf_of_prerequisiteChain (hm : s.getModule m.id = .ok m)
    (h : prerequisiteChain s m = .ok chain) : ChainOf s m chain := by
  unfold prerequisiteChain at h
  cases hc : chainFrom (s.modules.erase m.id) m.prerequisites.reverse with
  | error f =>
    rw [hc] at h
    cases h
  | ok found =>
    rw [hc] at h
    cases h
    exact chainOf_of_walked hm (walked_of_chainFrom (partOf_erase s m.id) hc)

theorem exists_chain (hm : s.getModule m.id = .ok m)
    (hread : ∀ id, TransGen s.Requires m.id id → ∃ x, s.getModule id = .ok x) :
    ∃ chain, prerequisiteChain s m = .ok chain ∧ ChainOf s m chain := by
  cases h : prerequisiteChain s m with
  | ok chain => exact ⟨chain, rfl, chainOf_of_prerequisiteChain hm h⟩
  | error f =>
    unfold prerequisiteChain at h
    cases hc : chainFrom (s.modules.erase m.id) m.prerequisites.reverse with
    | ok found =>
      rw [hc] at h
      cases h
    | error e =>
      obtain ⟨id, ⟨a, ha, hreach⟩, hk, herr⟩ := exists_of_chainFrom_error (partOf_erase s m.id) hc
      have hreq : s.Requires m.id a :=
        ⟨⟨m, hm, List.mem_reverse.1 ha⟩, Store.hasModule_of_reaches hreach hk⟩
      obtain ⟨x, hx⟩ := hread id (.head' hreq hreach)
      cases herr.symm.trans hx

end Pathway
