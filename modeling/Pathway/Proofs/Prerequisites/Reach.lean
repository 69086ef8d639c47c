import Mathlib.Logic.Relation
import Pathway.Prerequisites.Reach

/-!
# What reach finds

`reach` finds exactly what a walk along the step function meets as long as it stays in the pool.
-/

open Relation

namespace Pathway

variable {next : String → List String} {pool : IdSet} {stack : List String} {x y start : String}

/-- One step of the walk, inside the pool. -/
def StepIn (next : String → List String) (pool : IdSet) (x y : String) : Prop :=
  y ∈ next x ∧ y ∈ pool

theorem IdSet.mem_ofList {ids : List String} :
    x ∈ (Std.ExtTreeSet.ofList ids : IdSet) ↔ x ∈ ids := by
  rw [Std.ExtTreeSet.mem_ofList, List.contains_iff_mem]

theorem IdSet.mem_erase_iff : y ∈ pool.erase x ↔ y ≠ x ∧ y ∈ pool := by
  rw [Std.ExtTreeSet.mem_erase, ne_eq, Std.LawfulEqCmp.compare_eq_iff_eq, eq_comm]

theorem mem_gather_of_mem_stack (hx : x ∈ stack) (hp : x ∈ pool) : x ∈ gather next pool stack := by
  fun_induction gather next pool stack with
  | case1 pool => cases hx
  | case2 pool id rest _ ih =>
    by_cases he : x = id
    · exact he ▸ List.mem_cons_self
    · have hr : x ∈ rest := (List.mem_cons.1 hx).resolve_left he
      exact List.mem_cons_of_mem _
        (ih (List.mem_append_right _ hr) (IdSet.mem_erase_iff.2 ⟨he, hp⟩))
  | case3 pool id rest hn ih =>
    have he : x ≠ id := fun he => hn (he ▸ Std.ExtTreeSet.mem_iff_contains.1 hp)
    exact ih ((List.mem_cons.1 hx).resolve_left he) hp

/-- What is gathered is closed under steps inside the pool. -/
theorem mem_gather_of_stepIn (hx : x ∈ gather next pool stack) (h : StepIn next pool x y) :
    y ∈ gather next pool stack := by
  obtain ⟨hy, hp⟩ := h
  fun_induction gather next pool stack with
  | case1 pool => cases hx
  | case2 pool id rest _ ih =>
    by_cases he : y = id
    · exact he ▸ List.mem_cons_self
    · have hp' : y ∈ pool.erase id := IdSet.mem_erase_iff.2 ⟨he, hp⟩
      apply List.mem_cons_of_mem
      rcases List.mem_cons.1 hx with rfl | hx
      · exact mem_gather_of_mem_stack (List.mem_append_left _ hy) hp'
      · exact ih hx hp'
  | case3 pool id rest _ ih => exact ih hx hp

theorem exists_walk_of_mem_gather (hx : x ∈ gather next pool stack) :
    ∃ s ∈ stack, s ∈ pool ∧ ReflTransGen (StepIn next pool) s x := by
  fun_induction gather next pool stack with
  | case1 pool => cases hx
  | case2 pool id rest hid ih =>
    have hid' : id ∈ pool := Std.ExtTreeSet.mem_iff_contains.2 hid
    rcases List.mem_cons.1 hx with rfl | hx
    · exact ⟨x, List.mem_cons_self, hid', .refl⟩
    · obtain ⟨s, hs, hp, hr⟩ := ih hx
      have hp' : s ∈ pool := (IdSet.mem_erase_iff.1 hp).2
      have hr' : ReflTransGen (StepIn next pool) s x :=
        ReflTransGen.mono (fun _ _ h => ⟨h.1, (IdSet.mem_erase_iff.1 h.2).2⟩) _ _ hr
      rcases List.mem_append.1 hs with hs | hs
      · exact ⟨id, List.mem_cons_self, hid', .head ⟨hs, hp'⟩ hr'⟩
      · exact ⟨s, List.mem_cons_of_mem _ hs, hp', hr'⟩
  | case3 pool id rest _ ih =>
    obtain ⟨s, hs, hr⟩ := ih hx
    exact ⟨s, List.mem_cons_of_mem _ hs, hr⟩

theorem mem_reach_iff :
    x ∈ reach next pool start ↔ start ∈ pool ∧ ReflTransGen (StepIn next pool) start x := by
  rw [reach, IdSet.mem_ofList]
  constructor
  · intro h
    obtain ⟨s, hs, hp, hr⟩ := exists_walk_of_mem_gather h
    cases List.mem_singleton.1 hs
    exact ⟨hp, hr⟩
  · rintro ⟨hp, hr⟩
    induction hr with
    | refl => exact mem_gather_of_mem_stack (List.mem_singleton_self _) hp
    | tail _ h ih => exact mem_gather_of_stepIn ih h

end Pathway
