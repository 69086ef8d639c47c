import Mathlib.Data.List.Perm.Basic
import Pathway.Proofs.Course.Drafts

/-!
# Courses in canonical form

Of all the ways to tell a course, what is read has only one: places increase, prerequisites stand
where they were first named, and moments have their offset.
-/

namespace Pathway

/-! ## What is read as a draft -/

def Requirement.draft (r : Requirement) : RequirementDraft := ⟨r.kind, r.threshold?⟩

def Item.draft (i : Item) : ItemDraft :=
  ⟨i.id, i.title, i.position, i.requirement.map (·.draft), i.contentLocked⟩

def Module.draft (m : Module) : ModuleDraft :=
  ⟨m.id, m.name, m.position, m.items.map (·.draft), m.prerequisites, m.sequential,
    m.requiredCount, m.unlockAt.map (·.toTimestamp)⟩

def Course.draft (c : Course) : CourseDraft := ⟨c.id, c.name, c.modules.map (·.draft)⟩

/-! ## The form -/

/-- Positions first, then ids, and never the same place. -/
def Place.lt (a b : Place) : Prop := a.1 < b.1 ∨ (a.1 = b.1 ∧ a.2 < b.2)

/-- The module is the draft in canonical form. -/
structure ModuleDraft.Canonical (m : ModuleDraft) (n : Module) : Prop where
  id : n.id = m.id
  name : n.name = m.name
  position : n.position = m.position
  items : (n.items.map Item.draft).Perm m.items
  increasing : n.items.Pairwise fun i j => i.place.lt j.place
  distinct : n.prerequisites.Nodup
  prerequisites : ∀ p, p ∈ n.prerequisites ↔ p ∈ m.prerequisites
  inOrder : n.prerequisites.Pairwise fun p q => m.prerequisites.idxOf p < m.prerequisites.idxOf q
  sequential : n.sequential = m.sequential
  requiredCount : (n.requiredCount : Int) = m.requiredCount
  /-- Without an offset a moment is one of UTC. -/
  unlockAt : n.unlockAt = m.unlockAt.map fun t => ⟨t.wall, t.offset.getD 0⟩

/-- The course is the draft in canonical form, and so is each of its modules. -/
structure CourseDraft.Canonical (d : CourseDraft) (c : Course) : Prop where
  id : c.id = d.id
  name : c.name = d.name
  modules : ∃ ms, ms.Perm d.modules ∧ List.Forall₂ ModuleDraft.Canonical ms c.modules
  increasing : c.modules.Pairwise fun m n => m.place.lt n.place

/-! ## What is made of a draft has the form -/

theorem Place.lt_of_le_of_ne {a b : Place} (hle : a.le b = true) (hne : a.2 ≠ b.2) : a.lt b := by
  simp only [le, Bool.or_eq_true, Bool.and_eq_true, decide_eq_true_eq] at hle
  rcases hle with hposition | ⟨hposition, hid⟩
  · exact Or.inl hposition
  · refine Or.inr ⟨hposition, ?_⟩
    by_contra hlt
    exact hne (String.le_antisymm hid (String.not_lt.1 hlt))

theorem pairwise_lt_sortByPlace {α : Type} {place : α → Place} {xs : List α}
    (h : (xs.map fun x => (place x).2).Nodup) :
    (sortByPlace place xs).Pairwise fun a b => (place a).lt (place b) := by
  have hids : ((sortByPlace place xs).map fun x => (place x).2).Nodup :=
    ((sortByPlace_perm place xs).map _).nodup_iff.2 h
  have hne := List.pairwise_map.1 hids
  exact ((sortByPlace_pairwise place xs).and hne).imp fun h => Place.lt_of_le_of_ne h.1 h.2

theorem idxOf_lt_of_filter {keep : String → Bool} {l : List String} {p q : String}
    (hp : keep p = true) (hq : keep q = true)
    (h : (l.filter keep).idxOf p < (l.filter keep).idxOf q) : l.idxOf p < l.idxOf q := by
  induction l with
  | nil => exact absurd h (Nat.lt_irrefl 0)
  | cons a l ih =>
    by_cases hap : a = p
    · subst hap
      have hne : a ≠ q := by
        rintro rfl
        exact Nat.lt_irrefl _ h
      rw [List.idxOf_cons_self, List.idxOf_cons_ne l hne]
      exact Nat.succ_pos _
    · have haq : a ≠ q := by
        rintro rfl
        rw [List.filter_cons_of_pos hq, List.idxOf_cons_self] at h
        exact Nat.not_lt_zero _ h
      rw [List.idxOf_cons_ne l hap, List.idxOf_cons_ne l haq]
      refine Nat.succ_lt_succ (ih ?_)
      by_cases hkeep : keep a = true
      · rw [List.filter_cons_of_pos hkeep, List.idxOf_cons_ne _ hap, List.idxOf_cons_ne _ haq] at h
        exact Nat.lt_of_succ_lt_succ h
      · rwa [List.filter_cons_of_neg hkeep] at h

theorem pairwise_idxOf_eraseDups (l : List String) :
    l.eraseDups.Pairwise fun p q => l.idxOf p < l.idxOf q := by
  induction l using eraseDups_induction with
  | nil => exact .nil
  | cons a l ih =>
    have hkept : ∀ p ∈ (l.filter fun b => !b == a).eraseDups, (!p == a) = true :=
      fun p hp => (List.mem_filter.1 (List.mem_eraseDups.1 hp)).2
    have hne : ∀ p ∈ (l.filter fun b => !b == a).eraseDups, a ≠ p := by
      rintro p hp rfl
      simpa using hkept a hp
    rw [List.eraseDups_cons, List.pairwise_cons]
    refine ⟨fun p hp => ?_, ih.imp_of_mem fun {p q} hp hq hpq => ?_⟩
    · rw [List.idxOf_cons_self, List.idxOf_cons_ne l (hne p hp)]
      exact Nat.succ_pos _
    · rw [List.idxOf_cons_ne l (hne p hp), List.idxOf_cons_ne l (hne q hq)]
      exact Nat.succ_lt_succ (idxOf_lt_of_filter (hkept p hp) (hkept q hq) hpq)

theorem map_map_eq_self {α β : Type} {f : α → β} {g : β → α} {xs : List α}
    (h : ∀ x ∈ xs, g (f x) = x) : (xs.map f).map g = xs := by
  rw [List.map_map]
  exact (List.map_congr_left h).trans (List.map_id xs)

theorem RequirementDraft.draft_requirement {r : RequirementDraft} (h : r.Acceptable) :
    r.requirement.draft = r := by
  obtain ⟨kind, threshold⟩ := r
  have hthreshold := h.threshold
  cases kind <;> cases threshold <;>
    simp [requirement, Requirement.draft, Requirement.kind, Requirement.threshold?] at hthreshold ⊢

theorem ItemDraft.draft_item {i : ItemDraft} (h : i.Acceptable) : i.item.draft = i := by
  obtain ⟨id, title, position, requirement, locked⟩ := i
  have hrequirement : (requirement.map (·.requirement)).map (·.draft) = requirement := by
    cases requirement with
    | none => rfl
    | some r => exact congrArg some (RequirementDraft.draft_requirement (h.requirement r rfl))
  exact congrArg (ItemDraft.mk id title position · locked) hrequirement

theorem ModuleDraft.Acceptable.nodup_ids {m : ModuleDraft} (h : m.Acceptable) :
    ((m.items.map (·.item)).map fun i => i.place.2).Nodup := by
  rw [List.map_map]
  exact h.distinct

theorem CourseDraft.Acceptable.nodup_ids {d : CourseDraft} (h : d.Acceptable) :
    ((d.modules.map (·.module)).map fun m => m.place.2).Nodup := by
  rw [List.map_map]
  exact h.distinct

theorem ModuleDraft.canonical_module {m : ModuleDraft} (h : m.Acceptable) :
    m.Canonical m.module where
  id := rfl
  name := rfl
  position := rfl
  items := by
    have hdrafts : (m.items.map (·.item)).map Item.draft = m.items :=
      map_map_eq_self fun i hi => ItemDraft.draft_item (h.items i hi)
    have hperm := (sortByPlace_perm Item.place (m.items.map (·.item))).map Item.draft
    exact hperm.trans (.of_eq hdrafts)
  increasing := pairwise_lt_sortByPlace h.nodup_ids
  distinct := nodup_eraseDups m.prerequisites
  prerequisites _ := List.mem_eraseDups
  inOrder := pairwise_idxOf_eraseDups m.prerequisites
  sequential := rfl
  requiredCount := Int.toNat_of_nonneg h.requiredCount
  unlockAt := rfl

theorem CourseDraft.canonical_course {d : CourseDraft} (h : d.Acceptable) :
    d.Canonical d.course where
  id := rfl
  name := rfl
  modules := by
    have hforms : List.Forall₂ (fun n m => ModuleDraft.Canonical m n) (d.modules.map (·.module))
        d.modules :=
      List.forall₂_map_left_iff.2
        (List.forall₂_same.2 fun m hm => ModuleDraft.canonical_module (h.modules m hm))
    -- The sort is undone on the side of the drafts.
    obtain ⟨ms, hms, hperm⟩ := List.perm_comp_forall₂ (sortByPlace_perm Module.place _) hforms
    exact ⟨ms, hperm, hms.flip⟩
  increasing := pairwise_lt_sortByPlace h.nodup_ids

/-! ## There is one form -/

theorem Place.lt_asymm {a b : Place} (h : a.lt b) : ¬ b.lt a := by
  rcases h with h | ⟨h, g⟩ <;> rintro (h' | ⟨h', g'⟩)
  · exact Int.lt_asymm h h'
  · exact Int.lt_irrefl _ (h' ▸ h)
  · exact Int.lt_irrefl _ (h ▸ h')
  · exact String.lt_asymm g g'

theorem eq_of_perm_of_pairwise_lt {α : Type} {place : α → Place} {xs ys : List α} (h : xs.Perm ys)
    (hxs : xs.Pairwise fun a b => (place a).lt (place b))
    (hys : ys.Pairwise fun a b => (place a).lt (place b)) : xs = ys :=
  h.eq_of_pairwise (fun _ _ _ _ hab hba => absurd hba (Place.lt_asymm hab)) hxs hys

theorem Requirement.requirement_draft (r : Requirement) : r.draft.requirement = r := by
  cases r <;> rfl

theorem Item.item_draft (i : Item) : i.draft.item = i := by
  obtain ⟨id, title, position, requirement, locked⟩ := i
  have hrequirement : (requirement.map (·.draft)).map (·.requirement) = requirement := by
    cases requirement with
    | none => rfl
    | some r => exact congrArg some r.requirement_draft
  exact congrArg (Item.mk id title position · locked) hrequirement

theorem ModuleDraft.Canonical.unique {m : ModuleDraft} {n n' : Module} (h : m.Canonical n)
    (h' : m.Canonical n') : n = n' := by
  have hitems : n.items = n'.items := by
    have hdraft : Function.Injective Item.draft := Function.LeftInverse.injective Item.item_draft
    have hperm := (List.map_perm_map_iff hdraft).1 (h.items.trans h'.items.symm)
    exact eq_of_perm_of_pairwise_lt hperm h.increasing h'.increasing
  have hprerequisites : n.prerequisites = n'.prerequisites := by
    have hperm := (List.perm_ext_iff_of_nodup h.distinct h'.distinct).2 fun p =>
      (h.prerequisites p).trans (h'.prerequisites p).symm
    exact hperm.eq_of_pairwise (fun _ _ _ _ hab hba => absurd hba (Nat.lt_asymm hab)) h.inOrder
      h'.inOrder
  have hcount : n.requiredCount = n'.requiredCount :=
    Int.natCast_inj.1 (h.requiredCount.trans h'.requiredCount.symm)
  obtain ⟨id, name, position, items, prerequisites, sequential, count, unlockAt⟩ := n
  cases hitems
  cases hprerequisites
  cases hcount
  cases h.id.trans h'.id.symm
  cases h.name.trans h'.name.symm
  cases h.position.trans h'.position.symm
  cases h.sequential.trans h'.sequential.symm
  cases h.unlockAt.trans h'.unlockAt.symm
  rfl

theorem CourseDraft.Canonical.unique {d : CourseDraft} {c c' : Course} (h : d.Canonical c)
    (h' : d.Canonical c') : c = c' := by
  obtain ⟨ms, hperm, hms⟩ := h.modules
  obtain ⟨ms', hperm', hms'⟩ := h'.modules
  -- The drafts are put into one order, where they tell the modules one by one.
  obtain ⟨ns, hns, hsame⟩ := List.perm_comp_forall₂ (hperm.trans hperm'.symm) hms'
  have hone : Relator.RightUnique ModuleDraft.Canonical := fun _ _ _ h h' => h.unique h'
  obtain rfl := List.right_unique_forall₂' hone hms hns
  have hmodules := eq_of_perm_of_pairwise_lt hsame h.increasing h'.increasing
  obtain ⟨id, name, modules⟩ := c
  cases hmodules
  cases h.id.trans h'.id.symm
  cases h.name.trans h'.name.symm
  rfl

end Pathway
