import Mathlib.Data.List.Nodup
import Mathlib.Logic.Relation
import Pathway.Evaluation.Closure
import Pathway.Proofs.Store

/-!
# The closure of some modules

The closure holds each module once, and just the modules asked for with all that can be reached from
them along prerequisites that the store knows. It fails only on a module that cannot be read.
-/

open Relation

namespace Pathway

variable {s t : Store} {pool rest : Table StoredModule} {ids : List ModuleId} {id a b : ModuleId}
  {ms stack later all : List Module} {m x : Module} {f : Failure}

/-! ## Prerequisites that are known -/

/-- The module `a` lists `b`, and the store knows `b`. -/
def Store.Requires (s : Store) (a b : ModuleId) : Prop :=
  (∃ m, s.getModule a = .ok m ∧ b ∈ m.prerequisites) ∧ s.hasModule b = true

/-- One of the given modules, or something that one of them requires. -/
def Store.InClosure (s : Store) (ids : List ModuleId) (id : ModuleId) : Prop :=
  ∃ a ∈ ids, ReflTransGen s.Requires a id

theorem Store.id_of_getModule (h : s.getModule id = .ok m) : m.id = id := by
  rw [Store.getModule_eq] at h
  split at h
  · next stored hs => exact congrArg Prod.snd (s.fits id stored hs m h)
  · cases h

theorem Store.hasModule_of_getModule (h : s.getModule id = .ok m) : s.hasModule id = true := by
  rw [Store.getModule_eq] at h
  split at h
  · next stored hs => exact Store.hasModule_iff_stored.2 ⟨stored, hs⟩
  · cases h

/-! ## Stores with the same modules -/

/-- The stores read the same under each id. -/
def Store.SameModules (s t : Store) : Prop := ∀ id, t.getModule id = s.getModule id

namespace Store.SameModules

theorem symm (h : s.SameModules t) : t.SameModules s := fun id => (h id).symm

theorem hasModule (h : s.SameModules t) (id : ModuleId) : t.hasModule id = s.hasModule id := by
  rw [Bool.eq_iff_iff, Store.hasModule_iff, Store.hasModule_iff, h]

theorem requires (h : s.SameModules t) : t.Requires = s.Requires := by
  funext a b
  rw [Store.Requires, Store.Requires, h, h.hasModule]

theorem inClosure (h : s.SameModules t) : t.InClosure ids = s.InClosure ids := by
  funext id
  rw [Store.InClosure, Store.InClosure, h.requires]

end Store.SameModules

theorem Store.SameButFacts.sameModules (h : s.SameButFacts t) : s.SameModules t := h.getModule

theorem Store.SameBase.sameModules (h : s.SameBase t) : s.SameModules t := h.getModule

/-! ## Pools -/

/-- The pool holds some of the modules of the store. -/
def PartOf (pool : Table StoredModule) (s : Store) : Prop :=
  ∀ (id : ModuleId) (stored : StoredModule),
    pool[id]? = some stored → s.modules[id]? = some stored

theorem PartOf.erase (h : PartOf pool s) (id : ModuleId) : PartOf (pool.erase id) s := by
  intro i stored hi
  rw [Table.getElem?_erase] at hi
  split at hi
  · cases hi
  · exact h i stored hi

/-! ## Drawing from the pool -/

/-- What is drawn are the modules of the given ids that the pool holds, and they leave it. -/
structure Drawn (s : Store) (pool : Table StoredModule) (ids : List ModuleId) (ms : List Module)
    (rest : Table StoredModule) : Prop where
  nodup : (ms.map (·.id)).Nodup
  read : ∀ m ∈ ms, m.id ∈ ids ∧ m.id ∈ pool ∧ s.getModule m.id = .ok m
  complete : ∀ id ∈ ids, id ∈ pool → id ∈ ms.map (·.id)
  left : ∀ id, id ∈ rest ↔ id ∈ pool ∧ id ∉ ms.map (·.id)
  part : PartOf rest s

theorem mem_pool_iff : id ∈ pool ↔ ∃ stored, pool[id]? = some stored := by
  rw [Std.ExtTreeMap.mem_iff_isSome_getElem?, Option.isSome_iff_exists]

theorem mem_erase_pool : a ∈ pool.erase id ↔ a ≠ id ∧ a ∈ pool := by
  rw [Std.ExtTreeMap.mem_erase, ne_eq, Std.LawfulEqCmp.compare_eq_iff_eq, eq_comm]

namespace Drawn

theorem skip (h : Drawn s pool ids ms rest) (hid : id ∉ pool) :
    Drawn s pool (id :: ids) ms rest where
  nodup := h.nodup
  read m hm := ⟨List.mem_cons_of_mem _ (h.read m hm).1, (h.read m hm).2⟩
  complete i hi hip := by
    rcases List.mem_cons.1 hi with rfl | hi
    · exact absurd hip hid
    · exact h.complete i hi hip
  left := h.left
  part := h.part

theorem take (h : Drawn s (pool.erase m.id) ids ms rest) (hp : m.id ∈ pool)
    (hm : s.getModule m.id = .ok m) : Drawn s pool (m.id :: ids) (m :: ms) rest where
  nodup := by
    rw [List.map_cons, List.nodup_cons]
    refine ⟨fun hmem => ?_, h.nodup⟩
    obtain ⟨x, hx, he⟩ := List.mem_map.1 hmem
    exact (mem_erase_pool.1 (h.read x hx).2.1).1 he
  read x hx := by
    rcases List.mem_cons.1 hx with rfl | hx
    · exact ⟨List.mem_cons_self, hp, hm⟩
    · obtain ⟨hin, hpool, hread⟩ := h.read x hx
      exact ⟨List.mem_cons_of_mem _ hin, (mem_erase_pool.1 hpool).2, hread⟩
  complete i hi hip := by
    rw [List.map_cons]
    by_cases he : i = m.id
    · exact he ▸ List.mem_cons_self
    · have hin := (List.mem_cons.1 hi).resolve_left he
      exact List.mem_cons_of_mem _ (h.complete i hin (mem_erase_pool.2 ⟨he, hip⟩))
  left i := by
    rw [h.left, mem_erase_pool, List.map_cons, List.mem_cons]
    tauto
  part := h.part

end Drawn

theorem drawn_of_draw (hp : PartOf pool s) (h : draw pool ids = .ok (ms, rest)) :
    Drawn s pool ids ms rest := by
  fun_induction draw pool ids generalizing ms rest with
  | case1 pool =>
    cases h
    exact ⟨List.nodup_nil, by simp, by simp, by simp, hp⟩
  | case2 pool id ids hn ih =>
    refine (ih hp h).skip fun hm => ?_
    obtain ⟨stored, hs⟩ := mem_pool_iff.1 hm
    cases hn.symm.trans hs
  | case3 => cases h
  | case4 => cases h
  | case5 pool id ids stored hs m hm ms' rest' hd ih =>
    cases h
    have hread : s.getModule id = .ok m := (Store.getModule_of_stored (hp id stored hs)).trans hm
    obtain rfl := Store.id_of_getModule hread
    exact (ih (hp.erase m.id) hd).take (mem_pool_iff.2 ⟨stored, hs⟩) hread

theorem exists_of_draw_error (hp : PartOf pool s) (h : draw pool ids = .error f) :
    ∃ id ∈ ids, id ∈ pool ∧ s.getModule id = .error f := by
  fun_induction draw pool ids with
  | case1 => cases h
  | case2 pool id ids hn ih =>
    obtain ⟨i, hi, hrest⟩ := ih hp h
    exact ⟨i, List.mem_cons_of_mem _ hi, hrest⟩
  | case3 pool id ids stored hs e he =>
    cases h
    exact ⟨id, List.mem_cons_self, mem_pool_iff.2 ⟨stored, hs⟩,
      (Store.getModule_of_stored (hp id stored hs)).trans he⟩
  | case4 pool id ids stored hs m hm e he ih =>
    cases h
    obtain ⟨i, hi, hip, hread⟩ := ih (hp.erase id) he
    exact ⟨i, List.mem_cons_of_mem _ hi, (mem_erase_pool.1 hip).2, hread⟩
  | case5 => cases h

/-! ## What a stack of modules requires -/

/-- What is gathered leaves out nothing of the pool that is required, and holds nothing else. -/
structure Gathered (s : Store) (pool : Table StoredModule) (stack later : List Module) : Prop where
  nodup : (later.map (·.id)).Nodup
  read : ∀ m ∈ later, m.id ∈ pool ∧ s.getModule m.id = .ok m
  reached : ∀ m ∈ later, ∃ x ∈ stack, TransGen s.Requires x.id m.id
  closed : ∀ x ∈ stack ++ later, ∀ id ∈ x.prerequisites, id ∈ pool → id ∈ later.map (·.id)

theorem Drawn.requires (h : Drawn s pool m.prerequisites ms rest) (hm : s.getModule m.id = .ok m)
    (hx : x ∈ ms) : s.Requires m.id x.id :=
  ⟨⟨m, hm, (h.read x hx).1⟩, Store.hasModule_of_getModule (h.read x hx).2.2⟩

theorem Drawn.read_stack (h : Drawn s pool ids ms rest)
    (hs : ∀ x ∈ m :: stack, s.getModule x.id = .ok x) :
    ∀ x ∈ ms.reverse ++ stack, s.getModule x.id = .ok x := by
  intro x hx
  rcases List.mem_append.1 hx with hx | hx
  · exact (h.read x (List.mem_reverse.1 hx)).2.2
  · exact hs x (List.mem_cons_of_mem _ hx)

theorem Drawn.reached (h : Drawn s pool m.prerequisites ms rest) (hm : s.getModule m.id = .ok m)
    (hr : ∃ x ∈ ms.reverse ++ stack, TransGen s.Requires x.id id) :
    ∃ x ∈ m :: stack, TransGen s.Requires x.id id := by
  obtain ⟨x, hx, hxid⟩ := hr
  rcases List.mem_append.1 hx with hx | hx
  · exact ⟨m, List.mem_cons_self, .head (h.requires hm (List.mem_reverse.1 hx)) hxid⟩
  · exact ⟨x, List.mem_cons_of_mem _ hx, hxid⟩

theorem gathered_of_requiredBy (hp : PartOf pool s) (hs : ∀ x ∈ stack, s.getModule x.id = .ok x)
    (h : requiredBy pool stack = .ok later) : Gathered s pool stack later := by
  fun_induction requiredBy pool stack generalizing later with
  | case1 =>
    cases h
    exact ⟨List.nodup_nil, by simp, by simp, by simp⟩
  | case2 => cases h
  | case3 => cases h
  | case4 pool m stack found rest hd later' hr ih =>
    cases h
    have hm := hs m List.mem_cons_self
    have hdrawn := drawn_of_draw hp hd
    obtain ⟨h₁, h₂, h₃, h₄⟩ := ih hdrawn.part (hdrawn.read_stack hs) hr
    refine ⟨?_, ?_, ?_, ?_⟩
    · rw [List.map_append, List.nodup_append']
      refine ⟨hdrawn.nodup, h₁, fun i hi hi' => ?_⟩
      obtain ⟨x, hx, rfl⟩ := List.mem_map.1 hi'
      exact ((hdrawn.left _).1 (h₂ x hx).1).2 hi
    · intro x hx
      rcases List.mem_append.1 hx with hx | hx
      · exact (hdrawn.read x hx).2
      · exact ⟨((hdrawn.left _).1 (h₂ x hx).1).1, (h₂ x hx).2⟩
    · intro x hx
      rcases List.mem_append.1 hx with hx | hx
      · exact ⟨m, List.mem_cons_self, .single (hdrawn.requires hm hx)⟩
      · exact hdrawn.reached hm (h₃ x hx)
    · intro x hx i hi hip
      rw [List.map_append, List.mem_append]
      by_cases hif : i ∈ found.map (·.id)
      · exact Or.inl hif
      right
      have hx' : x ∈ m :: (found.reverse ++ stack ++ later') := by
        simp only [List.mem_append, List.mem_cons, List.mem_reverse] at hx ⊢
        tauto
      rcases List.mem_cons.1 hx' with rfl | hx'
      · exact absurd (hdrawn.complete i hi hip) hif
      · exact h₄ x hx' i hi ((hdrawn.left i).2 ⟨hip, hif⟩)

theorem exists_of_requiredBy_error (hp : PartOf pool s)
    (hs : ∀ x ∈ stack, s.getModule x.id = .ok x) (h : requiredBy pool stack = .error f) :
    ∃ id, (∃ x ∈ stack, TransGen s.Requires x.id id) ∧ s.getModule id = .error f := by
  fun_induction requiredBy pool stack with
  | case1 => cases h
  | case2 pool m stack e he =>
    cases h
    obtain ⟨i, hi, hip, hread⟩ := exists_of_draw_error hp he
    obtain ⟨stored, hstored⟩ := mem_pool_iff.1 hip
    have hreq : s.Requires m.id i :=
      ⟨⟨m, hs m List.mem_cons_self, hi⟩, Store.hasModule_iff_stored.2 ⟨stored, hp i stored hstored⟩⟩
    exact ⟨i, ⟨m, List.mem_cons_self, .single hreq⟩, hread⟩
  | case3 pool m stack found rest hd e he ih =>
    cases h
    have hdrawn := drawn_of_draw hp hd
    obtain ⟨i, hi, hread⟩ := ih hdrawn.part (hdrawn.read_stack hs) he
    exact ⟨i, hdrawn.reached (hs m List.mem_cons_self) hi, hread⟩
  | case4 => cases h

/-! ## The closure -/

theorem closure_eq_ok :
    closure s ms = .ok all ↔
      ∃ later, requiredBy (ms.foldl (fun t m => t.erase m.id) s.modules) ms.reverse = .ok later ∧
        ms ++ later = all := by
  rw [closure]
  cases requiredBy (ms.foldl (fun t m => t.erase m.id) s.modules) ms.reverse <;> simp [Except.map]

theorem closure_eq_error :
    closure s ms = .error f ↔
      requiredBy (ms.foldl (fun t m => t.erase m.id) s.modules) ms.reverse = .error f := by
  rw [closure]
  cases requiredBy (ms.foldl (fun t m => t.erase m.id) s.modules) ms.reverse <;> simp [Except.map]

theorem mem_foldl_erase :
    id ∈ ms.foldl (fun t m => t.erase m.id) pool ↔ id ∈ pool ∧ id ∉ ms.map (·.id) := by
  induction ms generalizing pool with
  | nil => simp
  | cons m ms ih =>
    rw [List.foldl_cons, ih, mem_erase_pool, List.map_cons, List.mem_cons]
    tauto

theorem PartOf.foldl_erase (h : PartOf pool s) :
    PartOf (ms.foldl (fun t m => t.erase m.id) pool) s := by
  induction ms generalizing pool with
  | nil => exact h
  | cons m ms ih => exact ih (h.erase m.id)

/-- The closure as it is used: each module under its own id, and none left out. -/
structure Closed (s : Store) (ids : List ModuleId) (all : List Module) : Prop where
  nodup : (all.map (·.id)).Nodup
  read : ∀ m ∈ all, s.getModule m.id = .ok m
  mem : ∀ id, id ∈ all.map (·.id) ↔ s.InClosure ids id

theorem Store.mem_of_requires (h : s.Requires a b) : b ∈ s.modules :=
  Store.mem_modules.2 h.2

theorem closed_of_closure (hs : ∀ m ∈ ms, s.getModule m.id = .ok m) (hn : (ms.map (·.id)).Nodup)
    (h : closure s ms = .ok all) : Closed s (ms.map (·.id)) all := by
  obtain ⟨later, hl, rfl⟩ := closure_eq_ok.1 h
  have hp : PartOf s.modules s := fun _ _ h => h
  obtain ⟨h₁, h₂, h₃, h₄⟩ := gathered_of_requiredBy hp.foldl_erase
    (fun x hx => hs x (List.mem_reverse.1 hx)) hl
  have hread : ∀ m ∈ ms ++ later, s.getModule m.id = .ok m := by
    intro m hm
    rcases List.mem_append.1 hm with hm | hm
    · exact hs m hm
    · exact (h₂ m hm).2
  refine ⟨?_, hread, fun i => ⟨fun hi => ?_, ?_⟩⟩
  · rw [List.map_append, List.nodup_append']
    refine ⟨hn, h₁, fun i hi hi' => ?_⟩
    obtain ⟨x, hx, rfl⟩ := List.mem_map.1 hi'
    exact (mem_foldl_erase.1 (h₂ x hx).1).2 hi
  · rw [List.map_append, List.mem_append] at hi
    rcases hi with hi | hi
    · exact ⟨i, hi, .refl⟩
    · obtain ⟨x, hx, rfl⟩ := List.mem_map.1 hi
      obtain ⟨y, hy, hyx⟩ := h₃ x hx
      exact ⟨y.id, List.mem_map_of_mem (List.mem_reverse.1 hy), hyx.to_reflTransGen⟩
  · rintro ⟨a, ha, hai⟩
    induction hai with
    | refl => exact List.map_append ▸ List.mem_append_left _ ha
    | @tail b c _ hbc ih =>
      obtain ⟨x, hx, rfl⟩ := List.mem_map.1 ih
      obtain ⟨⟨m, hm, hpre⟩, -⟩ := id hbc
      cases (hread x hx).symm.trans hm
      rw [List.map_append, List.mem_append]
      by_cases hms : c ∈ ms.map (·.id)
      · exact Or.inl hms
      · refine Or.inr (h₄ x ?_ _ hpre (mem_foldl_erase.2 ⟨Store.mem_of_requires hbc, hms⟩))
        simpa only [List.mem_append, List.mem_reverse] using hx

theorem exists_of_closure_error (hs : ∀ m ∈ ms, s.getModule m.id = .ok m)
    (h : closure s ms = .error f) :
    ∃ id, s.InClosure (ms.map (·.id)) id ∧ s.getModule id = .error f := by
  have hp : PartOf s.modules s := fun _ _ h => h
  obtain ⟨i, ⟨x, hx, hxi⟩, hread⟩ := exists_of_requiredBy_error hp.foldl_erase
    (fun x hx => hs x (List.mem_reverse.1 hx)) (closure_eq_error.1 h)
  exact ⟨i, ⟨x.id, List.mem_map_of_mem (List.mem_reverse.1 hx), hxi.to_reflTransGen⟩, hread⟩

end Pathway
