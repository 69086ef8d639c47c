import Mathlib.Data.List.Nodup
import Mathlib.Data.List.TakeWhile
import Pathway.Proofs.Course.Modules
import Pathway.Proofs.Evaluation.Assessment

/-!
# The shape of a progression

An assessment parts the requirements of a module into those that are met and those that are not.
Which of the two parts are empty, and whether there is a moment, goes with the state.
-/

namespace Pathway

/-- What the state of a progression says of the rest of it. No item is counted twice. -/
structure Progression.WellFormed (p : Progression) : Prop where
  locked : p.state = .locked → p.met = [] ∧ p.unmet = [] ∧ p.completedAt = none
  unlocked : p.state = .unlocked → p.met = [] ∧ p.unmet ≠ []
  started : p.state = .started → p.met ≠ [] ∧ p.unmet ≠ []
  completed : p.completedAt ≠ none → p.state = .completed
  distinct : (p.met.map (·.item) ++ p.unmet.map (·.item)).Nodup

theorem Progression.WellFormed.fold {p : Progression} (h : p.WellFormed) (b : Bool) :
    { p with collapsed := b }.WellFormed :=
  ⟨h.locked, h.unlocked, h.started, h.completed, h.distinct⟩

namespace Assessment

variable {facts : Facts} {learner : LearnerId} {now : Instant} {m : Module} {met : Bool}
  {previous : Option Progression} {i : Item} {l before after : List Item}

/-! ## Two parts -/

theorem passes_of_isNone (h : i.requirement = none) : passes facts i = true := by
  rw [passes, h]

theorem walk_append (facts : Facts) (m : Module) :
    (walk facts m).1 ++ (walk facts m).2 = m.items := by
  unfold walk
  split
  · exact List.takeWhile_append_dropWhile
  · exact List.append_nil _

theorem metItems_append_unmetItems_perm (facts : Facts) (m : Module) :
    (metItems facts m ++ unmetItems facts m).Perm m.requirementItems := by
  have hfirst : (metItems facts m ++ (walk facts m).1.filter (!passes facts ·)).Perm
      ((walk facts m).1.filter (·.requirement.isSome)) := by
    have hmet : metItems facts m =
        ((walk facts m).1.filter (·.requirement.isSome)).filter (passes facts) := by
      rw [List.filter_filter, metItems]
      simp only [Bool.and_comm]
    have hopen : (walk facts m).1.filter (!passes facts ·) =
        ((walk facts m).1.filter (·.requirement.isSome)).filter (!passes facts ·) := by
      rw [List.filter_filter]
      refine List.filter_congr fun i _ => ?_
      -- An item without a requirement passes.
      cases hr : i.requirement with
      | none => simp [passes_of_isNone hr]
      | some r => simp
    rw [hmet, hopen]
    exact List.filter_append_perm _ _
  rw [unmetItems, ← List.append_assoc, Module.requirementItems, ← walk_append facts m,
    List.filter_append]
  exact hfirst.append_right _

theorem length_metItems_add_length_unmetItems (facts : Facts) (m : Module) :
    (metItems facts m).length + (unmetItems facts m).length = m.requirementItems.length := by
  rw [← List.length_append]
  exact (metItems_append_unmetItems_perm facts m).length_eq

theorem isSome_of_mem_parts (h : i ∈ metItems facts m ++ unmetItems facts m) :
    i.requirement.isSome = true :=
  (List.mem_filter.1 ((metItems_append_unmetItems_perm facts m).subset h)).2

theorem map_filterMap_id {α : Type} {f : Item → Option α} {key : α → ItemId}
    (hf : ∀ i r, i.requirement = some r → ∃ a, f i = some a ∧ key a = i.id)
    (hl : ∀ i ∈ l, i.requirement.isSome = true) :
    (l.filterMap f).map key = l.map (·.id) := by
  induction l with
  | nil => rfl
  | cons i l ih =>
    obtain ⟨hi, hl⟩ := List.forall_mem_cons.1 hl
    obtain ⟨r, hr⟩ := Option.isSome_iff_exists.1 hi
    obtain ⟨a, ha, hkey⟩ := hf i r hr
    rw [List.filterMap_cons, ha, List.map_cons, List.map_cons, hkey, ih hl]

theorem map_item_met :
    ((metItems facts m).filterMap metOf).map (·.item) = (metItems facts m).map (·.id) :=
  map_filterMap_id (fun i r hr => ⟨⟨i.id, r.kind⟩, by rw [metOf, hr]; rfl, rfl⟩)
    fun i hi => isSome_of_mem_parts (List.mem_append_left _ hi)

theorem map_item_unmet :
    ((unmetItems facts m).filterMap (unmetOf facts)).map (·.item) =
      (unmetItems facts m).map (·.id) :=
  map_filterMap_id (fun i r hr => ⟨_, by rw [unmetOf, hr]; rfl, rfl⟩)
    fun i hi => isSome_of_mem_parts (List.mem_append_right _ hi)

/-! ## Within reach -/

theorem takeWhile_append_of_stops {α : Type} {p : α → Bool} {l₁ l₂ : List α}
    (h : ∃ a ∈ l₁, p a = false) : (l₁ ++ l₂).takeWhile p = l₁.takeWhile p := by
  have hshort : (l₁.takeWhile p).length ≠ l₁.length := by
    intro hlength
    have hall := List.takeWhile_eq_self_iff.1 ((List.takeWhile_prefix p).eq_of_length hlength)
    obtain ⟨a, ha, hpa⟩ := h
    cases hpa.symm.trans (hall a ha)
  rw [List.takeWhile_append, if_neg hshort]

theorem mem_walk_fst_iff (hm : m.WellFormed) (hitems : m.items = before ++ i :: after) :
    i ∈ (walk facts m).1 ↔ (m.sequential = true →
      (∀ j ∈ before, passes facts j = true) ∧ passes facts i = true) := by
  by_cases hs : m.sequential = true
  · rw [walk, if_pos hs, hitems]
    refine ⟨fun hi _ => ⟨?_, List.mem_takeWhile_imp hi⟩, fun h => ?_⟩
    · by_contra hno
      simp only [not_forall, Bool.not_eq_true, exists_prop] at hno
      rw [takeWhile_append_of_stops hno] at hi
      have hnodup : (before ++ i :: after).Nodup := hitems ▸ List.Nodup.of_map _ hm.distinct
      exact List.disjoint_of_nodup_append hnodup ((List.takeWhile_sublist _).subset hi)
        List.mem_cons_self
    · obtain ⟨hbefore, hi⟩ := h hs
      rw [List.takeWhile_append_of_pos hbefore, List.takeWhile_cons_of_pos hi]
      simp
  · simp [walk, hs, hitems]

theorem mem_metItems_iff (hm : m.WellFormed) (hitems : m.items = before ++ i :: after) :
    i ∈ metItems facts m ↔ i.requirement.isSome = true ∧ passes facts i = true ∧
      (m.sequential = true → ∀ j ∈ before, passes facts j = true) := by
  rw [metItems, List.mem_filter, mem_walk_fst_iff hm hitems, Bool.and_eq_true]
  constructor
  · rintro ⟨hway, hr, hi⟩
    exact ⟨hr, hi, fun hs => (hway hs).1⟩
  · rintro ⟨hr, hi, hway⟩
    exact ⟨fun hs => ⟨hway hs, hi⟩, hr, hi⟩

/-! ## The state -/

theorem needed_le (m : Module) : needed m ≤ m.requirementItems.length := by
  have hlength : m.requirements.length = m.requirementItems.length := by
    rw [Module.requirements, Module.requirementItems, List.length_filterMap_eq_countP,
      List.countP_eq_length_filter]
    simp
  rw [← hlength]
  unfold needed
  dsimp only
  split <;> omega

theorem unmetItems_ne_nil (h : stateOf facts m previous ≠ .completed) :
    unmetItems facts m ≠ [] := by
  intro hnil
  refine h ?_
  have hlength := length_metItems_add_length_unmetItems facts m
  rw [hnil, List.length_nil, Nat.add_zero] at hlength
  have hneeded : needed m ≤ (metItems facts m).length := hlength ▸ needed_le m
  simp [stateOf, hneeded]

/-- Whether anything is met tells a module that is started from one that is only unlocked. -/
theorem isEmpty_metItems (h : stateOf facts m previous ≠ .completed) :
    (metItems facts m).isEmpty = true ↔ stateOf facts m previous = .unlocked := by
  unfold stateOf at h ⊢
  split at h
  · exact absurd rfl h
  · next hc =>
    rw [if_neg hc]
    split <;> simp_all

theorem filterMap_eq_nil_iff_of_map {α : Type} {f : Item → Option α} {key : α → ItemId}
    (h : (l.filterMap f).map key = l.map (·.id)) : l.filterMap f = [] ↔ l = [] := by
  rw [← List.map_eq_nil_iff (f := key), h, List.map_eq_nil_iff]

theorem stateOf_ne_locked : stateOf facts m previous ≠ .locked := by
  unfold stateOf
  split
  · simp
  · split <;> simp

theorem wellFormed_locked : (locked learner m previous).WellFormed :=
  ⟨fun _ => ⟨rfl, rfl, rfl⟩, nofun, nofun, fun h => absurd rfl h, List.nodup_nil⟩

theorem wellFormed_unlocked (hm : m.WellFormed) :
    (unlocked facts learner m previous).WellFormed := by
  have hmet : (unlocked facts learner m previous).met = [] ↔ metItems facts m = [] :=
    filterMap_eq_nil_iff_of_map map_item_met
  have hunmet : (unlocked facts learner m previous).unmet = [] ↔ unmetItems facts m = [] :=
    filterMap_eq_nil_iff_of_map map_item_unmet
  refine ⟨fun h => absurd h stateOf_ne_locked, fun h => ?_, fun h => ?_, fun h => ?_, ?_⟩
  · have hne : stateOf facts m previous ≠ .completed := by
      rw [show stateOf facts m previous = .unlocked from h]
      simp
    rw [hmet, ne_eq, hunmet]
    exact ⟨List.isEmpty_iff.1 ((isEmpty_metItems hne).2 h), unmetItems_ne_nil hne⟩
  · have hne : stateOf facts m previous ≠ .completed := by
      rw [show stateOf facts m previous = .started from h]
      simp
    rw [ne_eq, hmet, ne_eq, hunmet]
    refine ⟨fun hnil => ?_, unmetItems_ne_nil hne⟩
    cases h.symm.trans ((isEmpty_metItems hne).1 (List.isEmpty_iff.2 hnil))
  · by_contra hne
    exact h (if_neg hne)
  · show (((metItems facts m).filterMap metOf).map (·.item) ++
      ((unmetItems facts m).filterMap (unmetOf facts)).map (·.item)).Nodup
    rw [map_item_met, map_item_unmet, ← List.map_append]
    refine ((metItems_append_unmetItems_perm facts m).map _).nodup_iff.2 ?_
    exact hm.distinct.sublist (List.filter_sublist.map _)

theorem wellFormed_progression (hm : m.WellFormed) :
    (progression facts learner now m met previous).WellFormed := by
  unfold progression
  split
  · exact wellFormed_unlocked hm
  · exact wellFormed_locked

end Assessment

end Pathway
