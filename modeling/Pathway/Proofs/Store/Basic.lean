import Pathway.Proofs.Store.Rows

/-!
# What stores keep

Facts on an item by the names of their kinds, scores by their numbers, modules by their definitions,
and what a store in memory finds in its dictionaries.
-/

namespace Pathway

section Map

variable {ε α β : Type} {x : Except ε α} {g : α → β}

theorem map_eq_ok {b : β} : x.map g = .ok b ↔ ∃ a, x = .ok a ∧ g a = b := by
  cases x <;> simp [Except.map]

theorem map_eq_error {e : ε} : x.map g = .error e ↔ x = .error e := by
  cases x <;> simp [Except.map]

end Map

theorem ItemFacts.eq_none_of_isEmpty {fs : ItemFacts} (h : fs.isEmpty = true) :
    fs = ItemFacts.none := by
  funext k
  exact List.filterMap_eq_nil_iff.1 (List.isEmpty_iff.1 h) k k.mem_all

/-- The facts but for those of the named kind, or for all. -/
def ItemFacts.without (fs : ItemFacts) (name : Option String) : ItemFacts :=
  fun k => if name.all (· == k.name) then .none else fs k

def ItemFacts.countOf (fs : ItemFacts) (name : Option String) : Nat :=
  RequirementKind.all.countP fun k => name.all (· == k.name) && (fs k).isSome

theorem sortByPlace_map {α β : Type} (place : β → Place) (f : α → β) (xs : List α) :
    sortByPlace place (xs.map f) = (sortByPlace (fun a => place (f a)) xs).map f :=
  (List.map_mergeSort (f := f) fun _ _ _ _ => rfl).symm

theorem ItemFacts.none_without (name : Option String) : ItemFacts.none.without name = .none :=
  funext fun _ => ite_self _

theorem ItemFacts.countOf_none (name : Option String) : ItemFacts.none.countOf name = 0 := by
  simp [countOf, none]

theorem ItemFacts.length_toList (fs : ItemFacts) : fs.toList.length = fs.countOf .none := by
  rw [toList, List.length_filterMap_eq_countP]
  rfl

theorem ItemFacts.remove_eq (fs : ItemFacts) (kind : RequirementKind) :
    fs.remove kind = fs.without (some kind.name) := by
  funext k
  simp only [remove, without, Option.all_some, beq_iff_eq, RequirementKind.name_inj,
    eq_comm (a := k)]

theorem ItemFacts.countOf_some (fs : ItemFacts) (kind : RequirementKind) :
    fs.countOf (some kind.name) = if (fs kind).isSome then 1 else 0 := by
  have hkind : ∀ k : RequirementKind, (kind.name == k.name) = (k == kind) := fun k => by
    rw [Bool.eq_iff_iff, beq_iff_eq, beq_iff_eq, RequirementKind.name_inj, eq_comm]
  simp only [countOf, Option.all_some, hkind]
  cases kind <;> cases h : fs _ <;> simp [RequirementKind.all, h]

/-! ## Scores and kinds -/

/-- The number that a score stands for. -/
def Store.Score.number : Store.Score → Binary64
  | .whole i => .ofInt i
  | .real x => x

/-- The score stands for a number that is finite. -/
def Store.Score.Admissible (x : Store.Score) : Prop := x.number.isFinite = true

instance (x : Store.Score) : Decidable x.Admissible := inferInstanceAs (Decidable (_ = _))

theorem Store.Score.number_of_read {x : Score} {y : Binary64} (h : x.read = .ok y) :
    y = x.number := by
  cases x with
  | whole i =>
    rw [read] at h
    have hreal := Checked.valid_of_under (Checked.valid_of_orFail h)
    unfold Check.realOfInt at hreal
    dsimp only at hreal
    split at hreal
    · exact (Checked.valid.inj hreal).symm
    · cases hreal
  | real x =>
    cases h
    rfl

theorem Store.Score.Admissible.read {x : Score} (h : x.Admissible) : x.read = .ok x.number := by
  cases x with
  | whole i =>
    have hfinite : (Binary64.ofInt i).isFinite = true := h
    rw [Score.read, Check.realOfInt, if_pos hfinite]
    rfl
  | real x => rfl

theorem Store.Score.Admissible.ne_nan {x : Score} (h : x.Admissible) : x.number ≠ .nan := by
  intro hnan
  rw [Admissible, hnan] at h
  cases h

theorem Store.kindNamed_name (kind : RequirementKind) : kindNamed kind.name = .ok kind := by
  rw [kindNamed, RequirementKind.ofName?_name]

theorem Store.name_of_kindNamed {name : String} {kind : RequirementKind}
    (h : kindNamed name = .ok kind) : kind.name = name := by
  unfold kindNamed at h
  split at h
  · next k hk =>
    cases h
    simpa using List.find?_some hk
  · cases h

theorem Store.name_of_mapM_kindNamed {name : Option String} {kind : Option RequirementKind}
    (h : name.mapM kindNamed = .ok kind) : name = kind.map (·.name) := by
  cases name with
  | none =>
    cases h
    rfl
  | some name =>
    rw [Option.mapM_some] at h
    cases hk : kindNamed name with
    | error f =>
      rw [hk] at h
      cases h
    | ok k =>
      rw [hk] at h
      cases h
      exact congrArg some (name_of_kindNamed hk).symm

/-! ## Modules as they are stored -/

def Definition.of (backing : Backing) (m : Module) : Definition :=
  match backing with
  | .memory => .value m
  | .database => .document m.document

/-- What is read of a module stored under an id has that id, and the position it is ordered by. -/
def StoredModule.Fits (id : ModuleId) (stored : StoredModule) : Prop :=
  ∀ m, stored.definition.read = .ok m → m.place = (stored.position, id)

theorem Dictionaries.toList_modules (d : Dictionaries) :
    d.modules.toList = (d.modules.toList.map (·.2)).map fun m => (m.id, m) := by
  rw [List.map_map]
  refine (List.map_id'' (fun _ => rfl) _).symm.trans (List.map_congr_left fun p hp => ?_)
  exact Prod.ext (d.named _ _ (Std.ExtTreeMap.mem_toList_iff_getElem?_eq_some.1 hp)).symm rfl

theorem Dictionaries.listProgressions_eq (d : Dictionaries) (module : Option ModuleId) :
    d.listProgressions module =
      (d.progressions.keys.filter fun key => module.isNone || some key.2 == module).filterMap
        fun key => d.loadProgression key.1 key.2 := by
  rw [← Std.ExtTreeMap.map_fst_toList_eq_keys, List.filter_map, List.filterMap_map,
    listProgressions, ← List.filterMap_eq_map]
  refine List.filterMap_congr fun p hp => ?_
  exact (Std.ExtTreeMap.mem_toList_iff_getElem?_eq_some.1 (List.mem_filter.1 hp).1).symm

theorem Dictionaries.isSome_loadProgression (d : Dictionaries) (key : LearnerId × ModuleId) :
    (d.loadProgression key.1 key.2).isSome = d.progressions.contains key :=
  Std.ExtTreeMap.isSome_getElem?_eq_contains

theorem Dictionaries.course_of_stored (d : Dictionaries) (id : ModuleId) :
    (d.storedModules[id]?.bind (·.course)) = d.courses.getD id none := by
  rw [storedModules, Std.ExtTreeMap.getElem?_map]
  cases hm : d.modules[id]? with
  | some m => rfl
  | none =>
    refine (Std.ExtTreeMap.getD_eq_fallback_of_contains_eq_false ?_).symm
    rw [d.filed, ← Std.ExtTreeMap.isSome_getElem?_eq_contains, hm]
    rfl

theorem Dictionaries.getD_courses_putModule {d : Dictionaries} {m : Module}
    {course : Option CourseId} {id : ModuleId} :
    (d.putModule m course).courses.getD id none =
      if m.id = id then course.or (d.courses.getD id none) else d.courses.getD id none := by
  unfold putModule
  dsimp only
  split
  · next hnew =>
    rw [Table.getD_insert]
    split
    · next he =>
      subst he
      cases course with
      | some c => rfl
      | none =>
        rw [Option.isSome_none, Bool.false_or, Bool.not_eq_true'] at hnew
        exact (Std.ExtTreeMap.getD_eq_fallback_of_contains_eq_false hnew).symm
    · rfl
  · next hold =>
    rw [Bool.or_eq_true, not_or, Bool.not_eq_true, Option.isSome_eq_false_iff,
      Option.isNone_iff_eq_none] at hold
    rw [hold.1, Option.none_or, ite_self]

end Pathway
