import Mathlib.Data.List.Nodup
import Pathway.Table

/-!
# Looking up in tables

What the library says of tables by comparison, said by equality of keys. Two tables with the same
keys are compared entry by entry.
-/

namespace Pathway

namespace Table

variable {α : Type} {l : List (String × α)} {t : Table α} {k k' : String} {v w : α}

theorem getElem?_insert : (t.insert k v)[k']? = if k = k' then some v else t[k']? := by
  simp only [Std.ExtTreeMap.getElem?_insert, Std.LawfulEqCmp.compare_eq_iff_eq]

theorem getElem?_erase : (t.erase k)[k']? = if k = k' then none else t[k']? := by
  simp only [Std.ExtTreeMap.getElem?_erase, Std.LawfulEqCmp.compare_eq_iff_eq]

theorem getD_insert : (t.insert k v).getD k' w = if k = k' then v else t.getD k' w := by
  simp only [Std.ExtTreeMap.getD_insert, Std.LawfulEqCmp.compare_eq_iff_eq]

theorem contains_iff : t.contains k = true ↔ ∃ v, t[k]? = some v := by
  rw [← Std.ExtTreeMap.isSome_getElem?_eq_contains, Option.isSome_iff_exists]

theorem getElem?_ofList_of_mem (hn : (l.map Prod.fst).Nodup) (h : (k, v) ∈ l) :
    (Std.ExtTreeMap.ofList l : Table α)[k]? = some v := by
  apply Std.ExtTreeMap.getElem?_ofList_of_mem Std.ReflCmp.compare_self _ h
  simp only [Std.LawfulEqCmp.compare_eq_iff_eq]
  exact List.pairwise_map.1 hn

theorem getD_ofList_of_mem (hn : (l.map Prod.fst).Nodup) (h : (k, v) ∈ l) :
    (Std.ExtTreeMap.ofList l : Table α).getD k w = v := by
  rw [Std.ExtTreeMap.getD_eq_getD_getElem?, getElem?_ofList_of_mem hn h, Option.getD_some]

end Table

/-! ## Tables side by side -/

section SameTable

variable {κ α β γ : Type} {cmp : κ → κ → Ordering} [Std.TransCmp cmp] {t : Std.ExtTreeMap κ α cmp}
  {u : Std.ExtTreeMap κ β cmp} {T : α → β → Prop} {k : κ}

theorem cases_of_optionRel {a : Option α} {b : Option β} (h : Option.Rel T a b) :
    (a = none ∧ b = none) ∨ ∃ x y, a = some x ∧ b = some y ∧ T x y := by
  cases h with
  | none => exact Or.inl ⟨rfl, rfl⟩
  | some hxy => exact Or.inr ⟨_, _, rfl, rfl, hxy⟩

/-- Two tables have the same keys, and what is under a key in both belongs together. -/
def SameTable (T : α → β → Prop) (t : Std.ExtTreeMap κ α cmp) (u : Std.ExtTreeMap κ β cmp) :
    Prop :=
  ∀ k : κ, Option.Rel T t[k]? u[k]?

theorem SameTable.empty :
    SameTable T (∅ : Std.ExtTreeMap κ α cmp) (∅ : Std.ExtTreeMap κ β cmp) := by
  intro k
  simp

theorem SameTable.refl {t : Std.ExtTreeMap κ α cmp} : SameTable Eq t t := by
  intro k
  cases t[k]? <;> constructor
  rfl

theorem SameTable.insert {a : α} {b : β} (h : SameTable T t u) (hab : T a b) :
    SameTable T (t.insert k a) (u.insert k b) := by
  intro i
  rw [Std.ExtTreeMap.getElem?_insert, Std.ExtTreeMap.getElem?_insert]
  split
  · exact .some hab
  · exact h i

theorem SameTable.erase (h : SameTable T t u) : SameTable T (t.erase k) (u.erase k) := by
  intro i
  rw [Std.ExtTreeMap.getElem?_erase, Std.ExtTreeMap.getElem?_erase]
  split
  · exact .none
  · exact h i

theorem SameTable.contains (h : SameTable T t u) : u.contains k = t.contains k := by
  rw [← Std.ExtTreeMap.isSome_getElem?_eq_contains, ← Std.ExtTreeMap.isSome_getElem?_eq_contains]
  rcases cases_of_optionRel (h k) with ⟨ht, hu⟩ | ⟨a, b, ht, hu, -⟩
  · rw [ht, hu]
    rfl
  · rw [ht, hu]
    rfl

variable [Std.LawfulEqCmp cmp]

theorem keys_eq_of_contains (h : ∀ k, u.contains k = t.contains k) : u.keys = t.keys := by
  have hmap : u.map (fun _ _ => ()) = t.map fun _ _ => () := by
    refine Std.ExtTreeMap.ext_getElem? fun k => ?_
    have hk := h k
    rw [← Std.ExtTreeMap.isSome_getElem?_eq_contains,
      ← Std.ExtTreeMap.isSome_getElem?_eq_contains] at hk
    rw [Std.ExtTreeMap.getElem?_map, Std.ExtTreeMap.getElem?_map]
    cases hu : u[k]? <;> cases ht : t[k]? <;> rw [hu, ht] at hk <;> first | rfl | cases hk
  have hkeys := congrArg (·.keys) hmap
  simpa only [Std.ExtTreeMap.keys_map] using hkeys

theorem getElem?_filter_key (t : Std.ExtTreeMap κ α cmp) (p : κ → Bool) (k : κ) :
    (t.filter fun i _ => p i)[k]? = if p k = true then t[k]? else none := by
  simp only [Std.ExtTreeMap.getElem?_filter, Std.ExtTreeMap.getKey_eq, Option.pfilter_eq_filter]
  cases t[k]? with
  | none => simp
  | some a => exact Option.filter_some

theorem SameTable.eq {t u : Std.ExtTreeMap κ α cmp} (h : SameTable Eq t u) : t = u := by
  refine Std.ExtTreeMap.ext_getElem? fun k => ?_
  rcases cases_of_optionRel (h k) with ⟨ht, hu⟩ | ⟨a, b, ht, hu, rfl⟩ <;> rw [ht, hu]

theorem SameTable.map_toList {f : α → γ} {g : β → γ} (h : SameTable T t u)
    (hT : ∀ a b, T a b → g b = f a) :
    u.toList.map (fun p => (p.1, g p.2)) = t.toList.map fun p => (p.1, f p.2) := by
  have hmap : u.map (fun _ => g) = t.map fun _ => f := by
    refine Std.ExtTreeMap.ext_getElem? fun k => ?_
    rw [Std.ExtTreeMap.getElem?_map, Std.ExtTreeMap.getElem?_map]
    rcases cases_of_optionRel (h k) with ⟨ht, hu⟩ | ⟨a, b, ht, hu, hab⟩
    · rw [ht, hu]
      rfl
    · rw [ht, hu]
      exact congrArg some (hT a b hab)
  rw [← Std.ExtTreeMap.toList_map (f := fun _ => g), ← Std.ExtTreeMap.toList_map (f := fun _ => f),
    hmap]

end SameTable

end Pathway
