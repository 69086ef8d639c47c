import Pathway.Navigation.Navigator
import Pathway.Proofs.Evaluation.Steps
import Pathway.Proofs.Store

/-!
# Stores with the same modules

Two stores that give the same modules may keep them in different forms. What an evaluation plans
and what chain of prerequisites a module has are the same for both.
-/

namespace Pathway

variable {pool pool' : Table StoredModule} {id : ModuleId} {s t : Store} {m : Module}

/-- The same ids are in both pools, and the same is read under them. -/
abbrev SamePool (pool pool' : Table StoredModule) : Prop :=
  SameTable (fun a b : StoredModule => b.definition.read = a.definition.read) pool pool'

theorem SamePool.foldl_erase (h : SamePool pool pool') (ms : List Module) :
    SamePool (ms.foldl (fun t m => t.erase m.id) pool)
      (ms.foldl (fun t m => t.erase m.id) pool') := by
  induction ms generalizing pool pool' with
  | nil => exact h
  | cons m ms ih => exact ih h.erase

/-! ## Closures -/

theorem draw_agree (h : SamePool pool pool') (ids : List ModuleId) :
    (∃ f, draw pool ids = .error f ∧ draw pool' ids = .error f) ∨
      ∃ ms rest rest', draw pool ids = .ok (ms, rest) ∧ draw pool' ids = .ok (ms, rest') ∧
        SamePool rest rest' := by
  induction ids generalizing pool pool' with
  | nil => exact Or.inr ⟨[], pool, pool', rfl, rfl, h⟩
  | cons id ids ih =>
    unfold draw
    rcases cases_of_optionRel (h id) with ⟨hp, hp'⟩ | ⟨a, b, hp, hp', hread⟩
    · rw [hp, hp']
      exact ih h
    · rw [hp, hp']
      dsimp only
      rw [hread]
      cases ha : a.definition.read with
      | error f => exact Or.inl ⟨f, rfl, rfl⟩
      | ok m =>
        rcases ih h.erase with ⟨f, hd, hd'⟩ | ⟨ms, rest, rest', hd, hd', hsame⟩
        · exact Or.inl ⟨f, by rw [hd], by rw [hd']⟩
        · exact Or.inr ⟨m :: ms, rest, rest', by rw [hd], by rw [hd'], hsame⟩

theorem requiredBy_of_error {f : Failure} {stack : List Module}
    (h : draw pool m.prerequisites = .error f) : requiredBy pool (m :: stack) = .error f := by
  rw [requiredBy]
  split
  · next hd =>
    cases hd.symm.trans h
    rfl
  · next hd => cases hd.symm.trans h

theorem requiredBy_of_ok {found stack : List Module} {rest : Table StoredModule}
    (h : draw pool m.prerequisites = .ok (found, rest)) :
    requiredBy pool (m :: stack) =
      (requiredBy rest (found.reverse ++ stack)).map (found ++ ·) := by
  rw [requiredBy]
  split
  · next hd => cases hd.symm.trans h
  · next hd =>
    cases hd.symm.trans h
    cases requiredBy rest (found.reverse ++ stack) <;> rfl

theorem requiredBy_agree (h : SamePool pool pool') (stack : List Module) :
    requiredBy pool' stack = requiredBy pool stack := by
  induction hn : pool.size + stack.length using Nat.strongRecOn
    generalizing pool pool' stack with
  | ind n ih =>
    cases stack with
    | nil => rw [requiredBy, requiredBy]
    | cons m stack =>
      rcases draw_agree h m.prerequisites with ⟨f, hd, hd'⟩ | ⟨found, rest, rest', hd, hd', hsame⟩
      · rw [requiredBy_of_error hd, requiredBy_of_error hd']
      · -- What is drawn leaves the pool, so the stack and the pool together are smaller.
        have hsize := draw_size hd
        have hlt : rest.size + (found.reverse ++ stack).length < n := by
          rw [← hn, List.length_append, List.length_reverse, List.length_cons]
          omega
        rw [requiredBy_of_ok hd, requiredBy_of_ok hd', ih _ hlt hsame _ rfl]

theorem closure_of_no_prerequisites (h : m.prerequisites = []) :
    closure s [m] = .ok [m] := by
  have hdraw : ∀ pool : Table StoredModule, draw pool m.prerequisites = .ok ([], pool) := by
    intro pool
    rw [h]
    rfl
  unfold closure
  dsimp only
  rw [List.reverse_singleton, requiredBy_of_ok (hdraw _), List.reverse_nil, List.nil_append,
    requiredBy]
  rfl

theorem closure_agree (h : SamePool s.modules t.modules) (ms : List Module) :
    closure t ms = closure s ms := by
  unfold closure
  dsimp only
  rw [requiredBy_agree (h.foldl_erase ms)]

/-! ## Chains -/

section Chains

variable {stack : List ModuleId} {stored : StoredModule} {f : Failure}

theorem chainFrom_of_none (h : pool[id]? = none) :
    chainFrom pool (id :: stack) = chainFrom pool stack := by
  rw [chainFrom]
  split
  · rfl
  · next hs => cases h.symm.trans hs

theorem chainFrom_of_error (h : pool[id]? = some stored)
    (hread : stored.definition.read = .error f) : chainFrom pool (id :: stack) = .error f := by
  rw [chainFrom]
  split
  · next hn => cases h.symm.trans hn
  · next hs =>
    cases h.symm.trans hs
    rw [hread]

theorem chainFrom_of_ok (h : pool[id]? = some stored) (hread : stored.definition.read = .ok m) :
    chainFrom pool (id :: stack) =
      (chainFrom (pool.erase id) (m.prerequisites.reverse ++ stack)).map (m :: ·) := by
  rw [chainFrom]
  split
  · next hn => cases h.symm.trans hn
  · next hs =>
    cases h.symm.trans hs
    rw [hread]

end Chains

theorem chainFrom_agree (h : SamePool pool pool') (stack : List ModuleId) :
    chainFrom pool' stack = chainFrom pool stack := by
  fun_induction chainFrom pool stack generalizing pool' with
  | case1 => rw [chainFrom]
  | case2 pool id stack hp ih =>
    rcases cases_of_optionRel (h id) with ⟨-, hp'⟩ | ⟨a, b, ha, -⟩
    · rw [chainFrom_of_none hp']
      exact ih h
    · cases hp.symm.trans ha
  | case3 pool id stack stored hp f hread =>
    rcases cases_of_optionRel (h id) with ⟨hnone, -⟩ | ⟨a, b, ha, hb, hsame⟩
    · cases hp.symm.trans hnone
    · cases hp.symm.trans ha
      exact chainFrom_of_error hb (hsame.trans hread)
  | case4 pool id stack stored hp m hread ih =>
    rcases cases_of_optionRel (h id) with ⟨hnone, -⟩ | ⟨a, b, ha, hb, hsame⟩
    · cases hp.symm.trans hnone
    · cases hp.symm.trans ha
      rw [chainFrom_of_ok hb (hsame.trans hread), ih h.erase]

theorem prerequisiteChain_agree (h : SamePool s.modules t.modules) (m : Module) :
    prerequisiteChain t m = prerequisiteChain s m := by
  unfold prerequisiteChain
  rw [chainFrom_agree h.erase]

/-! ## Stores -/

theorem samePool_of_getModule (h : ∀ id, t.getModule id = s.getModule id) :
    SamePool s.modules t.modules := by
  intro id
  have hget := h id
  have hhas : t.hasModule id = s.hasModule id := by
    rw [Bool.eq_iff_iff, Store.hasModule_iff, Store.hasModule_iff, hget]
  rw [Store.hasModule_eq, Store.hasModule_eq, ← Std.ExtTreeMap.isSome_getElem?_eq_contains,
    ← Std.ExtTreeMap.isSome_getElem?_eq_contains] at hhas
  rw [Store.getModule_eq, Store.getModule_eq] at hget
  cases hs : s.modules[id]? with
  | none =>
    rw [hs, Option.isSome_none, Option.isSome_eq_false_iff, Option.isNone_iff_eq_none] at hhas
    rw [hhas]
    exact .none
  | some a =>
    rw [hs, Option.isSome_some, Option.isSome_iff_exists] at hhas
    obtain ⟨b, hb⟩ := hhas
    rw [hs, hb] at hget
    rw [hb]
    exact .some hget

theorem Store.required_agree {learner : LearnerId} {ids : List ModuleId}
    (hl : t.hasLearner learner = s.hasLearner learner) (h : ∀ id, t.getModule id = s.getModule id) :
    t.required learner ids = s.required learner ids := by
  have hget : t.getModule = s.getModule := funext h
  have hclosure : closure t = closure s := funext (closure_agree (samePool_of_getModule h))
  unfold Store.required
  rw [hl, hget, hclosure]

end Pathway
