import Pathway.Proofs.Store.Basic

/-!
# Looking into stores

The modules that a store knows, and how it lists them, whichever of the two it is. Two stores that
differ in nothing but facts, or in nothing but progressions, answer all other questions alike.
-/

namespace Pathway.Store

variable {α : Type} {s t u : Store} {learner l : LearnerId} {id i : ModuleId} {item j : ItemId}
  {kind : RequirementKind} {score : Option Score} {satisfiedAt : Instant} {facts : ItemFacts}
  {m : Module} {course : Option CourseId} {p : Progression}

theorem fits (s : Store) (id : ModuleId) (stored : StoredModule)
    (h : s.modules[id]? = some stored) : stored.Fits id := by
  cases s with
  | memory d =>
    simp only [modules, Dictionaries.storedModules, Std.ExtTreeMap.getElem?_map,
      Option.map_eq_some_iff] at h
    obtain ⟨m, hm, rfl⟩ := h
    intro n hn
    cases hn
    rw [Module.place, d.named id m hm]
  | database r =>
    simp only [modules, Rows.storedModules, Std.ExtTreeMap.getElem?_map,
      Option.map_eq_some_iff] at h
    obtain ⟨row, hrow, rfl⟩ := h
    exact r.fits id row hrow

theorem getModule_eq (s : Store) (id : ModuleId) :
    s.getModule id =
      match s.modules[id]? with
      | some stored => stored.definition.read
      | none => .error (.notFound .module id) := by
  cases s with
  | memory d =>
    simp only [getModule, Dictionaries.getModule, modules, Dictionaries.storedModules,
      Std.ExtTreeMap.getElem?_map]
    cases d.modules[id]? <;> rfl
  | database r =>
    simp only [getModule, Rows.getModule, modules, Rows.storedModules, Std.ExtTreeMap.getElem?_map]
    cases r.modules[id]? <;> rfl

theorem hasModule_eq (s : Store) (id : ModuleId) : s.hasModule id = s.modules.contains id := by
  cases s with
  | memory d => exact Std.ExtTreeMap.contains_map.symm
  | database r => exact Std.ExtTreeMap.contains_map.symm

theorem hasModule_iff_stored : s.hasModule id = true ↔ ∃ stored, s.modules[id]? = some stored := by
  rw [hasModule_eq, Table.contains_iff]

theorem mem_modules : id ∈ s.modules ↔ s.hasModule id = true := by
  rw [hasModule_eq, Std.ExtTreeMap.mem_iff_contains]

theorem moduleIds_eq (s : Store) (course : Option CourseId) :
    s.moduleIds course =
      (sortByPlace (fun p => (p.2.position, p.1))
        (s.modules.toList.filter fun p => course.isNone || p.2.course == course)).map (·.1) := by
  cases s with
  | memory d =>
    simp only [modules, Dictionaries.storedModules, Std.ExtTreeMap.toList_map]
    rw [d.toList_modules, List.map_map, List.filter_map, sortByPlace_map, List.map_map]
    rfl
  | database r =>
    simp only [modules, Rows.storedModules, Std.ExtTreeMap.toList_map]
    rw [List.filter_map, sortByPlace_map, List.map_map]
    rfl

theorem getModule_of_stored {stored : StoredModule} (h : s.modules[id]? = some stored) :
    s.getModule id = stored.definition.read := by
  rw [getModule_eq, h]

theorem hasModule_iff : s.hasModule id = true ↔ s.getModule id ≠ .error (.notFound .module id) := by
  rw [hasModule_eq]
  constructor
  · intro h hnone
    obtain ⟨stored, hs⟩ := Table.contains_iff.1 h
    rw [getModule_of_stored hs] at hnone
    cases hd : stored.definition with
    | value m =>
      rw [hd] at hnone
      cases hnone
    | document d =>
      rw [hd, Definition.read] at hnone
      cases hread : Module.ofDocument d <;> rw [hread] at hnone <;> cases hnone
  · intro h
    by_contra hno
    refine h ?_
    have hs : s.modules[id]? = none := by
      rw [← Option.not_isSome_iff_eq_none, Std.ExtTreeMap.isSome_getElem?_eq_contains]
      exact hno
    rw [getModule_eq, hs]

/-! ## Lists of learners and modules -/

theorem mem_learnerIds : l ∈ s.learnerIds ↔ s.hasLearner l = true := by
  cases s <;> exact Std.ExtTreeMap.mem_keys.trans Std.ExtTreeMap.mem_iff_contains

theorem nodup_learnerIds : s.learnerIds.Nodup := by
  cases s <;> exact Std.ExtTreeMap.nodup_keys

theorem mem_moduleIds : id ∈ s.moduleIds none ↔ s.hasModule id = true := by
  rw [hasModule_eq, moduleIds_eq, Table.contains_iff]
  simp only [List.mem_map, mem_sortByPlace, Option.isNone_none, Bool.true_or,
    List.filter_true, Prod.exists, exists_and_right, exists_eq_right,
    Std.ExtTreeMap.mem_toList_iff_getElem?_eq_some]

theorem nodup_selected (s : Store) (course : Option CourseId) : (s.moduleIds course).Nodup := by
  rw [moduleIds_eq]
  refine ((sortByPlace_perm _ _).map _).nodup_iff.2 (.sublist (List.filter_sublist.map _) ?_)
  rw [Std.ExtTreeMap.map_fst_toList_eq_keys]
  exact Std.ExtTreeMap.nodup_keys

theorem nodup_moduleIds : (s.moduleIds none).Nodup := nodup_selected s none

theorem hasModule_of_selected {course : Option CourseId} (h : id ∈ s.moduleIds course) :
    s.hasModule id = true := by
  rw [moduleIds_eq] at h
  obtain ⟨p, hp, rfl⟩ := List.mem_map.1 h
  have hstored := (List.mem_filter.1 ((mem_sortByPlace _ _).1 hp)).1
  rw [hasModule_eq]
  exact Table.contains_iff.2 ⟨p.2, Std.ExtTreeMap.mem_toList_iff_getElem?_eq_some.1 hstored⟩

/-- Those of the modules that can be read stand in walking order. -/
def InWalkingOrder (s : Store) (ids : List ModuleId) : Prop :=
  ids.Pairwise fun a b => ∀ m n, s.getModule a = .ok m → s.getModule b = .ok n →
    m.place.le n.place = true

theorem inWalkingOrder_moduleIds : s.InWalkingOrder (s.moduleIds none) := by
  have place_of_mem : ∀ q ∈ s.modules.toList, ∀ m, s.getModule q.1 = .ok m →
      m.place = (q.2.position, q.1) := by
    intro q hq m hm
    have hs : s.modules[q.1]? = some q.2 := Std.ExtTreeMap.mem_toList_iff_getElem?_eq_some.1 hq
    rw [getModule_of_stored hs] at hm
    exact s.fits q.1 q.2 hs m hm
  simp only [InWalkingOrder, moduleIds_eq, Option.isNone_none, Bool.true_or, List.filter_true,
    List.pairwise_map]
  refine (sortByPlace_pairwise _ _).imp_of_mem fun {a b} ha hb hab m n hm hn => ?_
  rw [place_of_mem a ((mem_sortByPlace _ _).1 ha) m hm,
    place_of_mem b ((mem_sortByPlace _ _).1 hb) n hn]
  exact hab

/-! ## Stores that differ in facts -/

def withoutFacts : Store → Store
  | memory d => memory { d with facts := ∅ }
  | database r => database { r with facts := ∅, kinds := Rows.kinds_empty }

/-- Nothing but facts tells the two stores apart. -/
structure SameButFacts (s t : Store) : Prop where
  frame : t.withoutFacts = s.withoutFacts

namespace SameButFacts

theorem refl (s : Store) : s.SameButFacts s := ⟨rfl⟩

theorem trans (h : s.SameButFacts t) (g : t.SameButFacts u) : s.SameButFacts u :=
  ⟨g.frame.trans h.frame⟩

/-- A view that facts do not show in is the same of both stores. -/
theorem view_eq (h : s.SameButFacts t) (f : Store → α) (hf : ∀ s, f s.withoutFacts = f s) :
    f t = f s := by
  rw [← hf t, h.frame, hf]

theorem backing (h : s.SameButFacts t) : t.backing = s.backing :=
  h.view_eq (·.backing) fun s => by cases s <;> rfl

theorem hasLearner (h : s.SameButFacts t) (l : LearnerId) : t.hasLearner l = s.hasLearner l :=
  h.view_eq (·.hasLearner l) fun s => by cases s <;> rfl

theorem modules (h : s.SameButFacts t) : t.modules = s.modules :=
  h.view_eq (·.modules) fun s => by cases s <;> rfl

theorem getModule (h : s.SameButFacts t) (id : ModuleId) : t.getModule id = s.getModule id := by
  rw [getModule_eq, h.modules, ← getModule_eq]

theorem moduleIds (h : s.SameButFacts t) : t.moduleIds none = s.moduleIds none := by
  rw [moduleIds_eq, h.modules, ← moduleIds_eq]

theorem loadProgression (h : s.SameButFacts t) (l : LearnerId) (id : ModuleId) :
    t.loadProgression l id = s.loadProgression l id :=
  h.view_eq (·.loadProgression l id) fun s => by cases s <;> rfl

end SameButFacts

/-! ## Stores that differ in progressions -/

def withoutProgressions : Store → Store
  | memory d => memory { d with progressions := ∅ }
  | database r => database { r with progressions := ∅ }

/-- Nothing but progressions tells the two stores apart. -/
structure SameBase (s t : Store) : Prop where
  frame : t.withoutProgressions = s.withoutProgressions

namespace SameBase

theorem refl (s : Store) : s.SameBase s := ⟨rfl⟩

theorem symm (h : s.SameBase t) : t.SameBase s := ⟨h.frame.symm⟩

theorem trans (h : s.SameBase t) (g : t.SameBase u) : s.SameBase u := ⟨g.frame.trans h.frame⟩

/-- A view that progressions do not show in is the same of both stores. -/
theorem view_eq (h : s.SameBase t) (f : Store → α) (hf : ∀ s, f s.withoutProgressions = f s) :
    f t = f s := by
  rw [← hf t, h.frame, hf]

theorem backing (h : s.SameBase t) : t.backing = s.backing :=
  h.view_eq (·.backing) fun s => by cases s <;> rfl

theorem hasLearner (h : s.SameBase t) (l : LearnerId) : t.hasLearner l = s.hasLearner l :=
  h.view_eq (·.hasLearner l) fun s => by cases s <;> rfl

theorem modules (h : s.SameBase t) : t.modules = s.modules :=
  h.view_eq (·.modules) fun s => by cases s <;> rfl

theorem getModule (h : s.SameBase t) (id : ModuleId) : t.getModule id = s.getModule id := by
  rw [getModule_eq, h.modules, ← getModule_eq]

theorem moduleIds (h : s.SameBase t) : t.moduleIds none = s.moduleIds none := by
  rw [moduleIds_eq, h.modules, ← moduleIds_eq]

theorem itemFacts (h : s.SameBase t) : t.itemFacts = s.itemFacts :=
  h.view_eq (·.itemFacts) fun s => by cases s <;> rfl

end SameBase

end Pathway.Store
