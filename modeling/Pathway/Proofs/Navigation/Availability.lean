import Mathlib.Data.List.Perm.Subperm
import Pathway.Evaluation.Assessment
import Pathway.Navigation.Availability
import Pathway.Proofs.Evaluation.Shape

/-!
# Availability of items

How far a learner gets in a module. In an open module what is met is within reach, and so is the
first requirement that is not met. Behind that one, in a sequential module, nothing is.
-/

namespace Pathway

open Assessment

variable {facts : Facts} {learner : LearnerId} {now : Instant} {met : Bool}
  {previous : Option Progression} {m : Module} {p : Progression} {i j : Item} {r : Requirement}
  {before after : List Item}

namespace Module

/-! ## Items by their ids -/

theorem WellFormed.eq_of_id (hm : m.WellFormed) (hi : i ∈ m.items) (hj : j ∈ m.items)
    (h : i.id = j.id) : i = j := List.inj_on_of_nodup_map hm.distinct hi hj h

theorem WellFormed.itemOrFail (hm : m.WellFormed) (hi : i ∈ m.items) :
    m.itemOrFail i.id = .ok i := by
  have hfind : m.item? i.id = some i := by
    cases h : m.item? i.id with
    | none => exact absurd (beq_self_eq_true i.id) (List.find?_eq_none.1 h i hi)
    | some j =>
      have hid : j.id = i.id := by simpa using List.find?_some h
      rw [hm.eq_of_id (List.mem_of_find?_eq_some h) hi hid]
  rw [Module.itemOrFail, hfind]

theorem WellFormed.place_le_eq_false_iff (hm : m.WellFormed)
    (hitems : m.items = before ++ i :: after) (hj : j ∈ m.items) :
    i.place.le j.place = false ↔ j ∈ before := by
  have hordered := hm.inOrder
  have hdistinct := List.pairwise_map.1 hm.distinct
  rw [Module.InOrder, hitems, List.pairwise_append] at hordered
  rw [hitems, List.pairwise_append] at hdistinct
  rw [hitems] at hj
  constructor
  · intro hbehind
    refine (List.mem_append.1 hj).resolve_right fun hafter => ?_
    rcases List.mem_cons.1 hafter with rfl | hafter
    · cases hbehind.symm.trans (Place.le_refl _)
    · cases hbehind.symm.trans ((List.pairwise_cons.1 hordered.2.1).1 j hafter)
  · intro hbefore
    refine Bool.eq_false_iff.2 fun hle => ?_
    have hplace := Place.le_antisymm (hordered.2.2 j hbefore i List.mem_cons_self) hle
    exact hdistinct.2.2 j hbefore i List.mem_cons_self (congrArg Prod.snd hplace)

/-! ## The gate -/

theorem mem_requirementItems : i ∈ m.requirementItems ↔ i ∈ m.items ∧ i.requirement.isSome := by
  rw [requirementItems, List.mem_filter]

/-- The first requirement that is not met, with those before and after it. -/
structure GateAt (m : Module) (p : Progression) (before : List Item) (g : Item)
    (after : List Item) : Prop where
  split : m.requirementItems = before ++ g :: after
  place : m.gate? p = some g.place
  unmet : isMet p g = false
  met : ∀ i ∈ before, isMet p i = true

theorem gate?_cases (m : Module) (p : Progression) :
    (m.gate? p = none ∧ ∀ i ∈ m.requirementItems, isMet p i = true) ∨
      ∃ before g after, GateAt m p before g after := by
  unfold gate?
  cases h : m.requirementItems.find? fun i => !isMet p i with
  | none => exact Or.inl ⟨rfl, by simpa using h⟩
  | some g =>
    obtain ⟨hg, before, after, hsplit, hbefore⟩ := List.find?_eq_some_iff_append.1 h
    exact Or.inr ⟨before, g, after, hsplit, by rw [gate?, h]; rfl, by simpa using hg,
      by simpa using hbefore⟩

theorem isReachable_of_isLocked (h : p.isLocked = true) (i : Item) : m.isReachable p i = false := by
  rw [isReachable, h]
  rfl

theorem isReachable_of_not_sequential (h : p.isLocked = false) (hs : m.sequential = false)
    (i : Item) : m.isReachable p i = true := by
  simp [isReachable, h, hs]

theorem isReachable_eq_false_iff (h : p.isLocked = false) :
    m.isReachable p i = false ↔
      m.sequential = true ∧ ∃ gate, m.gate? p = some gate ∧ i.place.le gate = false := by
  unfold isReachable
  cases hg : m.gate? p <;> simp [h]

theorem isReachable_gate (h : p.isLocked = false) (hg : m.gate? p = some i.place) :
    m.isReachable p i = true := by
  simp [isReachable, h, hg, Place.le_refl]

/-! ## What is pending -/

/-- The pending requirements are the items that are not met, in the order of the module. -/
theorem pendingUpTo_eq (m : Module) (p : Progression) (limit : Option Place) :
    m.pendingUpTo p limit =
      (m.requirementItems.filter fun i => limit.all i.place.le && !isMet p i).filterMap
        fun i => i.requirement.map (m.pendingOf p i) := by
  unfold pendingUpTo requirements requirementItems
  rw [List.filter_filterMap, List.map_filterMap, List.filter_filter, List.filterMap_filter]
  refine List.filterMap_congr fun i _ => ?_
  cases hr : i.requirement with
  | none => simp
  | some r =>
    have hmet : isMet p i = p.hasMet i.id r.kind := by rw [isMet, hr]
    rw [Option.map_some, Option.filter_some, hmet]
    cases limit.all i.place.le && !p.hasMet i.id r.kind <;> simp

namespace GateAt

variable {before after : List Item} {g : Item}

theorem exists_requirement (h : GateAt m p before g after) :
    g ∈ m.items ∧ ∃ r, g.requirement = some r := by
  have hg : g ∈ m.requirementItems := by simp [h.split]
  obtain ⟨hitems, hreq⟩ := mem_requirementItems.1 hg
  exact ⟨hitems, Option.isSome_iff_exists.1 hreq⟩

/-- The gate is the first that is pending. -/
theorem pendingUpTo (h : GateAt m p before g after) (hr : g.requirement = some r)
    {limit : Option Place} (hle : limit.all g.place.le = true) :
    m.pendingUpTo p limit = m.pendingOf p g r ::
      (after.filter fun i => limit.all i.place.le && !isMet p i).filterMap
        fun i => i.requirement.map (m.pendingOf p i) := by
  have hskip : before.filter (fun i => limit.all i.place.le && !isMet p i) = [] := by
    rw [List.filter_eq_nil_iff]
    intro i hi
    simp [h.met i hi]
  rw [pendingUpTo_eq, h.split, List.filter_append, hskip, List.nil_append,
    List.filter_cons_of_pos (by simp [hle, h.unmet]), List.filterMap_cons_some (by rw [hr]; rfl)]

theorem not_isReachable (h : GateAt m p before g after) (hm : m.WellFormed)
    (hs : m.sequential = true) (hi : i ∈ after) : m.isReachable p i = false := by
  have hsub : (g :: after).Sublist m.items := by
    have hall : m.requirementItems.Sublist m.items := List.filter_sublist
    rw [h.split] at hall
    exact (List.sublist_append_right before _).trans hall
  have hordered := (List.pairwise_cons.1 (hm.inOrder.sublist hsub)).1 i hi
  have hdistinct := (List.pairwise_cons.1 ((List.pairwise_map.1 hm.distinct).sublist hsub)).1 i hi
  have hnot : i.place.le g.place = false := by
    rw [Bool.eq_false_iff]
    intro hle
    exact hdistinct (congrArg Prod.snd (Place.le_antisymm hordered hle))
  simp [isReachable, hs, h.place, hnot]

theorem exists_first (h : GateAt m p before g after) (hm : m.WellFormed) (hl : p.isLocked = false)
    (hs : m.sequential = true) {limit : Option Place} (hle : limit.all g.place.le = true) :
    ∃ first rest, m.pendingUpTo p limit = first :: rest ∧ first.available = true ∧
      ∀ x ∈ rest, x.available = false := by
  obtain ⟨-, r, hr⟩ := h.exists_requirement
  refine ⟨_, _, h.pendingUpTo hr hle, isReachable_gate hl h.place, fun x hx => ?_⟩
  obtain ⟨y, hy, hxy⟩ := List.mem_filterMap.1 hx
  obtain ⟨r', -, rfl⟩ := Option.map_eq_some_iff.1 hxy
  exact h.not_isReachable hm hs (List.mem_filter.1 hy).1

theorem place_le (h : GateAt m p before g after) (hm : m.WellFormed) (hi : i ∈ m.requirementItems)
    (hopen : isMet p i = false) : g.place.le i.place = true := by
  have hordered : m.requirementItems.Pairwise fun a b => a.place.le b.place = true :=
    hm.inOrder.sublist List.filter_sublist
  rw [h.split] at hi hordered
  rcases List.mem_append.1 hi with hi | hi
  · cases hopen.symm.trans (h.met i hi)
  · rcases List.mem_cons.1 hi with rfl | hi
    · exact Place.le_refl _
    · exact (List.pairwise_cons.1 (List.pairwise_append.1 hordered).2.1).1 i hi

end GateAt

/-- An item of a sequential module is within reach just when nothing before it is open. -/
theorem isReachable_iff (hm : m.WellFormed) (hitems : m.items = before ++ i :: after)
    (h : p.isLocked = false) :
    m.isReachable p i = true ↔ (m.sequential = true →
      ∀ j ∈ before, j.requirement.isSome = true → isMet p j = true) := by
  rw [← not_iff_not, Bool.not_eq_true, isReachable_eq_false_iff h, Classical.not_imp]
  refine and_congr_right fun _ => ?_
  simp only [not_forall, exists_prop, Bool.not_eq_true]
  rcases gate?_cases m p with ⟨hnone, hall⟩ | ⟨before', g, after', hg⟩
  · rw [hnone]
    refine iff_of_false (fun ⟨_, hgate, _⟩ => nomatch hgate) fun ⟨j, hj, hr, hopen⟩ => ?_
    have hjitems : j ∈ m.items := hitems ▸ List.mem_append_left _ hj
    cases hopen.symm.trans (hall j (mem_requirementItems.2 ⟨hjitems, hr⟩))
  · obtain ⟨hgitems, r, hr⟩ := hg.exists_requirement
    rw [hg.place]
    constructor
    · rintro ⟨_, ⟨⟩, hbehind⟩
      exact ⟨g, (hm.place_le_eq_false_iff hitems hgitems).1 hbehind, by rw [hr]; rfl, hg.unmet⟩
    · rintro ⟨j, hj, hjr, hopen⟩
      have hjitems : j ∈ m.items := hitems ▸ List.mem_append_left _ hj
      refine ⟨g.place, rfl, Bool.eq_false_iff.2 fun hle => ?_⟩
      -- The gate is no later than what is open before the item.
      have hgj := hg.place_le hm (mem_requirementItems.2 ⟨hjitems, hjr⟩) hopen
      cases ((hm.place_le_eq_false_iff hitems hjitems).2 hj).symm.trans
        (Place.le_trans _ _ _ hle hgj)

end Module

/-! ## Assessed modules -/

namespace Assessment

theorem metItems_sublist_items (facts : Facts) (m : Module) :
    (metItems facts m).Sublist m.items := by
  have hwalk : (walk facts m).1.Sublist m.items := by
    unfold walk
    split
    · exact List.takeWhile_sublist _
    · exact List.Sublist.refl _
  exact List.filter_sublist.trans hwalk

theorem isMet_unlocked (hm : m.WellFormed) (hi : i ∈ m.items) :
    Module.isMet (unlocked facts learner m previous) i = true ↔ i ∈ metItems facts m := by
  have hmem : ∀ r, i.requirement = some r →
      ((unlocked facts learner m previous).hasMet i.id r.kind = true ↔ i ∈ metItems facts m) := by
    intro r hr
    rw [Progression.hasMet, List.contains_iff_mem]
    constructor
    · intro h
      obtain ⟨j, hj, hjmet⟩ := List.mem_filterMap.1 h
      obtain ⟨r', -, he⟩ := Option.map_eq_some_iff.1 hjmet
      have hid : j.id = i.id := congrArg Met.item he
      exact hm.eq_of_id ((metItems_sublist_items facts m).subset hj) hi hid ▸ hj
    · intro h
      exact List.mem_filterMap.2 ⟨i, h, by rw [metOf, hr]; rfl⟩
  unfold Module.isMet
  cases hr : i.requirement with
  | some r => exact hmem r hr
  | none =>
    have hnot : i ∉ metItems facts m := by
      intro h
      simp [metItems, hr] at h
    simp [hnot]

theorem exists_gate (hm : m.WellFormed)
    (hc : (unlocked facts learner m previous).isCompleted = false) :
    ∃ before g after, Module.GateAt m (unlocked facts learner m previous) before g after := by
  refine (Module.gate?_cases _ _).resolve_left ?_
  rintro ⟨-, hall⟩
  -- Were every requirement met, they would be enough.
  have hsub : m.requirementItems ⊆ metItems facts m := fun i hi =>
    (isMet_unlocked hm (Module.mem_requirementItems.1 hi).1).1 (hall i hi)
  have hnodup : m.requirementItems.Nodup := (List.Nodup.of_map _ hm.distinct).filter _
  have hle : m.requirementItems.length ≤ (metItems facts m).length :=
    (List.subperm_of_subset hnodup hsub).length_le
  have hstate : stateOf facts m previous = .completed := by
    have hneeded := Nat.le_trans (needed_le m) hle
    simp [stateOf, hneeded]
  simp [Progression.isCompleted, unlocked, hstate] at hc

theorem isReachable_unlocked_iff (hm : m.WellFormed) (hitems : m.items = before ++ i :: after) :
    m.isReachable (unlocked facts learner m previous) i = true ↔
      (m.sequential = true → ∀ j ∈ before, passes facts j = true) := by
  rw [Module.isReachable_iff hm hitems isLocked_unlocked]
  refine forall_congr' fun _ => ⟨fun hmet j hj => ?_, fun hpass j hj hr => ?_⟩
  · cases hr : j.requirement with
    | none => exact passes_of_isNone hr
    | some r =>
      have hjmet := hmet j hj (by rw [hr]; rfl)
      rw [isMet_unlocked hm (hitems ▸ List.mem_append_left _ hj)] at hjmet
      exact (Bool.and_eq_true_iff.1 (List.mem_filter.1 hjmet).2).2
  · -- What stands before such an item stands before the given one.
    rw [isMet_unlocked hm (hitems ▸ List.mem_append_left _ hj)]
    obtain ⟨l₁, l₂, rfl⟩ := List.append_of_mem hj
    rw [List.append_assoc, List.cons_append] at hitems
    exact (mem_metItems_iff hm hitems).2 ⟨hr, hpass j hj, fun _ k hk =>
      hpass k (List.mem_append_left _ hk)⟩

theorem way_of_available (hm : m.WellFormed) (hitems : m.items = before ++ i :: after)
    (h : m.availability (unlocked facts learner m previous) i = .available) :
    (m.sequential = true → ∀ j ∈ before, passes facts j = true) ∧
      (i.requirement.isSome = true → passes facts i = false) := by
  have hi : i ∈ m.items := hitems ▸ List.mem_append_right _ List.mem_cons_self
  unfold Module.availability at h
  split at h
  · cases h
  next hmet =>
  split at h
  · next hreach =>
    have hway := (isReachable_unlocked_iff hm hitems).1 hreach
    refine ⟨hway, fun hr => Bool.eq_false_iff.2 fun hpass => hmet ?_⟩
    exact (isMet_unlocked hm hi).2 ((mem_metItems_iff hm hitems).2 ⟨hr, hpass, hway⟩)
  · cases h

/-- Before an item that is locked in an open module something is open. -/
theorem stops_of_locked (hm : m.WellFormed) (hitems : m.items = before ++ i :: after)
    (h : m.availability (unlocked facts learner m previous) i = .locked) :
    m.sequential = true ∧ ∃ j ∈ before, passes facts j = false := by
  unfold Module.availability at h
  split at h
  · cases h
  split at h
  · cases h
  · next hreach =>
    rw [isReachable_unlocked_iff hm hitems] at hreach
    simpa only [Classical.not_imp, not_forall, Bool.not_eq_true, exists_prop] using hreach

/-! ## Results -/

theorem isMet_of_isLocked (h : (progression facts learner now m met previous).isLocked = true)
    (i : Item) : Module.isMet (progression facts learner now m met previous) i = false := by
  unfold progression at h ⊢
  split at h
  · cases isLocked_unlocked.symm.trans h
  · next ho =>
    rw [if_neg ho]
    unfold Module.isMet
    split <;> rfl

/-- A module underway has something that can be done now. -/
theorem exists_available (hm : m.WellFormed)
    (hl : (progression facts learner now m met previous).isLocked = false)
    (hc : (progression facts learner now m met previous).isCompleted = false) :
    ∃ x ∈ m.pending (progression facts learner now m met previous), x.available = true := by
  rw [eq_unlocked hl] at hc ⊢
  obtain ⟨before, g, after, h⟩ := exists_gate hm hc
  obtain ⟨-, r, hr⟩ := h.exists_requirement
  have hfirst : m.pendingOf (unlocked facts learner m previous) g r ∈
      m.pending (unlocked facts learner m previous) := by
    rw [Module.pending, h.pendingUpTo hr rfl]
    exact List.mem_cons_self
  exact ⟨_, hfirst, Module.isReachable_gate isLocked_unlocked h.place⟩

end Assessment

end Pathway
