import Pathway.Proofs.Store.Facts

/-!
# Writing to stores

What a store answers after something was written to it, whichever of the two it is. Each operation
is described by what is read afterwards, so that nothing else needs to look into a store.
-/

namespace Pathway.Store

variable {s t u : Store} {learner l : LearnerId} {id i : ModuleId} {item j : ItemId}
  {kind : RequirementKind} {score : Option Score} {satisfiedAt : Instant} {facts : ItemFacts}
  {m : Module} {course : Option CourseId} {p : Progression}

/-! ## The empty stores -/

section Empty

variable (backing : Backing) (learner) (id) (item)

@[simp] theorem backing_empty : (empty backing).backing = backing := by
  cases backing <;> rfl

@[simp] theorem modules_empty : (empty backing).modules = ∅ := by
  cases backing <;> rfl

@[simp] theorem hasLearner_empty : (empty backing).hasLearner learner = false := by
  cases backing <;> rfl

@[simp] theorem hasModule_empty : (empty backing).hasModule id = false := by
  cases backing <;> rfl

@[simp] theorem itemFacts_empty : (empty backing).itemFacts learner item = ItemFacts.none := by
  cases backing <;> rfl

@[simp] theorem loadProgression_empty : (empty backing).loadProgression learner id = none := by
  cases backing <;> rfl

end Empty

/-! ## Learners -/

section Learners

variable (s) (learner l) (id) (item) (name : String)

@[simp] theorem backing_addLearner : (s.addLearner learner name).backing = s.backing := by
  cases s <;> rfl

@[simp] theorem modules_addLearner : (s.addLearner learner name).modules = s.modules := by
  cases s <;> rfl

@[simp] theorem getModule_addLearner :
    (s.addLearner learner name).getModule id = s.getModule id := by
  cases s <;> rfl

@[simp] theorem itemFacts_addLearner :
    (s.addLearner learner name).itemFacts l item = s.itemFacts l item := by
  cases s <;> rfl

@[simp] theorem loadProgression_addLearner :
    (s.addLearner learner name).loadProgression l id = s.loadProgression l id := by
  cases s <;> rfl

@[simp] theorem hasLearner_addLearner :
    (s.addLearner learner name).hasLearner l = (learner == l || s.hasLearner l) := by
  cases s <;>
  · simp only [addLearner, hasLearner, Dictionaries.addLearner, Dictionaries.hasLearner,
      Rows.addLearner, Rows.hasLearner, Std.ExtTreeMap.contains_insert]
    congr 1
    rw [Bool.eq_iff_iff, beq_iff_eq, beq_iff_eq, Std.LawfulEqCmp.compare_eq_iff_eq]

@[simp] theorem backing_resetLearner : (s.resetLearner learner).backing = s.backing := by
  cases s <;> rfl

@[simp] theorem hasLearner_resetLearner :
    (s.resetLearner learner).hasLearner l = s.hasLearner l := by
  cases s <;> rfl

@[simp] theorem modules_resetLearner : (s.resetLearner learner).modules = s.modules := by
  cases s <;> rfl

@[simp] theorem getModule_resetLearner :
    (s.resetLearner learner).getModule id = s.getModule id := by
  cases s <;> rfl

end Learners

theorem loadProgression_resetLearner :
    (s.resetLearner l).loadProgression learner id =
      if learner = l then none else s.loadProgression learner id := by
  have hkeep : (learner != l) = true ↔ ¬ learner = l := bne_iff_ne
  cases s with
  | memory d =>
    refine (getElem?_filter_key d.progressions (fun key => key.1 != l) (learner, id)).trans ?_
    simp only [hkeep, ite_not]
    rfl
  | database r =>
    simp only [resetLearner, loadProgression, Rows.resetLearner, Rows.loadProgression,
      getElem?_filter_key r.progressions fun key => key.1 != l, hkeep, ite_not]
    split <;> rfl

theorem itemFacts_resetLearner :
    (s.resetLearner l).itemFacts learner item =
      if learner = l then ItemFacts.none else s.itemFacts learner item := by
  have hkeep : (learner != l) = true ↔ ¬ learner = l := bne_iff_ne
  cases s with
  | memory d =>
    simp only [resetLearner, itemFacts, Dictionaries.resetLearner, Dictionaries.itemFacts,
      Std.ExtTreeMap.getD_eq_getD_getElem?, getElem?_filter_key d.facts fun key => key.1 != l,
      hkeep, ite_not]
    split <;> rfl
  | database r =>
    refine Rows.itemFacts_deleteFacts.trans ?_
    simp only [beq_iff_eq]
    split <;> rfl

/-! ## Modules -/

def checkColumn (s : Store) (i : Int) : Except Failure Unit :=
  match s with
  | memory _ => .ok ()
  | database _ => Column.check i

/-- The store with the module put into it, whatever its position. -/
def placeModule (s : Store) (m : Module) (course : Option CourseId) : Store :=
  match s with
  | memory d => memory (d.putModule m course)
  | database r => database (r.placeModule m course)

theorem putModule_eq (s : Store) (m : Module) (course : Option CourseId) :
    s.putModule m course = (s.checkColumn m.position).map fun _ => s.placeModule m course := by
  cases s with
  | memory d => rfl
  | database r =>
    simp only [putModule, Rows.putModule, checkColumn]
    cases Column.check m.position <;> rfl

theorem putModule_eq_ok :
    s.putModule m course = .ok t ↔
      s.checkColumn m.position = .ok () ∧ s.placeModule m course = t := by
  rw [putModule_eq, map_eq_ok]
  exact ⟨fun ⟨_, h, ht⟩ => ⟨h, ht⟩, fun ⟨h, ht⟩ => ⟨(), h, ht⟩⟩

theorem putModule_eq_error {f : Failure} :
    s.putModule m course = .error f ↔ s.checkColumn m.position = .error f := by
  rw [putModule_eq, map_eq_error]

section Modules

variable (s) (m) (course) (learner) (id) (item)

@[simp] theorem backing_placeModule : (s.placeModule m course).backing = s.backing := by
  cases s <;> rfl

@[simp] theorem hasLearner_placeModule :
    (s.placeModule m course).hasLearner learner = s.hasLearner learner := by
  cases s <;> rfl

@[simp] theorem itemFacts_placeModule :
    (s.placeModule m course).itemFacts learner item = s.itemFacts learner item := by
  cases s <;> rfl

@[simp] theorem loadProgression_placeModule :
    (s.placeModule m course).loadProgression learner id = s.loadProgression learner id := by
  cases s <;> rfl

/-- A module replaced without naming a course stays in the course it was in. -/
theorem modules_placeModule :
    (s.placeModule m course).modules = s.modules.insert m.id
      ⟨.of s.backing m, m.position, course.or (s.modules[m.id]?.bind (·.course))⟩ := by
  refine Std.ExtTreeMap.ext_getElem? fun k => ?_
  cases s with
  | memory d =>
    have hold : d.storedModules[m.id]?.bind (·.course) = d.courses.getD m.id none :=
      d.course_of_stored m.id
    simp only [modules, hold]
    simp only [placeModule, Dictionaries.storedModules, Std.ExtTreeMap.getElem?_map,
      Dictionaries.getD_courses_putModule, Table.getElem?_insert]
    simp only [Dictionaries.putModule, Table.getElem?_insert]
    by_cases hk : m.id = k
    · subst hk
      simp only [if_true, Option.map_some]
      rfl
    · simp only [if_neg hk]
  | database r =>
    simp only [placeModule, modules, Rows.storedModules, Rows.placeModule, Rows.insertModule,
      Std.ExtTreeMap.getElem?_map, Table.getElem?_insert]
    by_cases hk : m.id = k
    · subst hk
      simp only [if_true, Option.map_some]
      cases r.modules[m.id]? <;> rfl
    · simp only [if_neg hk]

theorem getModule_placeModule :
    (s.placeModule m course).getModule id =
      if m.id = id then (Definition.of s.backing m).read else s.getModule id := by
  rw [getModule_eq, modules_placeModule, Table.getElem?_insert, getModule_eq]
  split_ifs <;> rfl

@[simp] theorem backing_removeModule : (s.removeModule id).backing = s.backing := by
  cases s <;> rfl

@[simp] theorem hasLearner_removeModule :
    (s.removeModule id).hasLearner learner = s.hasLearner learner := by
  cases s <;> rfl

@[simp] theorem itemFacts_removeModule :
    (s.removeModule id).itemFacts learner item = s.itemFacts learner item := by
  cases s <;> rfl

theorem modules_removeModule : (s.removeModule id).modules = s.modules.erase id := by
  refine Std.ExtTreeMap.ext_getElem? fun k => ?_
  cases s with
  | memory d =>
    simp only [removeModule, modules, Dictionaries.storedModules, Dictionaries.removeModule,
      Std.ExtTreeMap.getElem?_map, Table.getElem?_erase, Std.ExtTreeMap.getD_erase,
      Std.LawfulEqCmp.compare_eq_iff_eq]
    by_cases hk : id = k
    · simp only [if_pos hk, Option.map_none]
    · simp only [if_neg hk]
  | database r =>
    simp only [removeModule, modules, Rows.storedModules, Rows.removeModule,
      Std.ExtTreeMap.getElem?_map, Table.getElem?_erase]
    by_cases hk : id = k
    · simp only [if_pos hk, Option.map_none]
    · simp only [if_neg hk]

theorem getModule_removeModule :
    (s.removeModule i).getModule id =
      if i = id then .error (.notFound .module id) else s.getModule id := by
  rw [getModule_eq, modules_removeModule, Table.getElem?_erase, getModule_eq]
  split_ifs <;> rfl

end Modules

theorem loadProgression_removeModule :
    (s.removeModule i).loadProgression learner id =
      if id = i then none else s.loadProgression learner id := by
  have hkeep : (id != i) = true ↔ ¬ id = i := bne_iff_ne
  cases s with
  | memory d =>
    refine (getElem?_filter_key d.progressions (fun key => key.2 != i) (learner, id)).trans ?_
    simp only [hkeep, ite_not]
    rfl
  | database r =>
    simp only [removeModule, loadProgression, Rows.removeModule, Rows.loadProgression,
      getElem?_filter_key r.progressions fun key => key.2 != i, hkeep, ite_not]
    split <;> rfl

/-! ## Progressions -/

def checkProgression (s : Store) (p : Progression) : Except Failure Unit :=
  match s with
  | memory _ => .ok ()
  | database _ => Column.checkOptional p.currentPosition

/-- What is read of a progression that was written under a key. -/
def keepProgression (s : Store) (learner : LearnerId) (module : ModuleId) (p : Progression) :
    Progression :=
  match s with
  | memory _ => p
  | database _ => { p with learner := learner, module := module }

/-- The store with the progression put into it, whatever its position. -/
def putProgression (s : Store) (learner : LearnerId) (module : ModuleId) (p : Progression) :
    Store :=
  match s with
  | memory d => memory (d.saveProgression learner module p)
  | database r => database (r.insertProgression learner module p)

theorem saveProgression_eq (s : Store) (learner : LearnerId) (id : ModuleId) (p : Progression) :
    s.saveProgression learner id p =
      (s.checkProgression p).map fun _ => s.putProgression learner id p := by
  cases s with
  | memory d => rfl
  | database r =>
    simp only [saveProgression, Rows.saveProgression, checkProgression]
    cases Column.checkOptional p.currentPosition <;> rfl

theorem saveProgression_eq_ok :
    s.saveProgression learner id p = .ok t ↔
      s.checkProgression p = .ok () ∧ s.putProgression learner id p = t := by
  rw [saveProgression_eq, map_eq_ok]
  exact ⟨fun ⟨_, h, ht⟩ => ⟨h, ht⟩, fun ⟨h, ht⟩ => ⟨(), h, ht⟩⟩

theorem saveProgression_eq_error {f : Failure} :
    s.saveProgression learner id p = .error f ↔ s.checkProgression p = .error f := by
  rw [saveProgression_eq, map_eq_error]

theorem checkProgression_congr (h : s.backing = t.backing) :
    s.checkProgression p = t.checkProgression p := by
  cases s <;> cases t <;> first | rfl | cases h

theorem checkProgression_of_memory (h : s.backing = .memory) : s.checkProgression p = .ok () := by
  cases s with
  | memory d => rfl
  | database r => cases h

theorem keepProgression_congr (h : s.backing = t.backing) :
    s.keepProgression learner id p = t.keepProgression learner id p := by
  cases s <;> cases t <;> first | rfl | cases h

theorem loadProgression_putProgression :
    (s.putProgression learner id p).loadProgression l i =
      if learner = l ∧ id = i then some (s.keepProgression learner id p)
      else s.loadProgression l i := by
  cases s with
  | memory d =>
    simp only [putProgression, loadProgression, Dictionaries.saveProgression,
      Dictionaries.loadProgression, Std.ExtTreeMap.getElem?_insert,
      Std.LawfulEqCmp.compare_eq_iff_eq, Prod.mk.injEq]
    rfl
  | database r => exact Rows.loadProgression_insertProgression

section Progressions

variable (s) (learner) (id) (p)

theorem sameBase_putProgression : s.SameBase (s.putProgression learner id p) := by
  cases s <;> exact ⟨rfl⟩

theorem withoutFacts_putProgression :
    (s.putProgression learner id p).withoutFacts =
      s.withoutFacts.putProgression learner id p := by
  cases s <;> rfl

@[simp] theorem backing_putProgression :
    (s.putProgression learner id p).backing = s.backing := by
  cases s <;> rfl

@[simp] theorem hasLearner_putProgression :
    (s.putProgression learner id p).hasLearner l = s.hasLearner l := by
  cases s <;> rfl

@[simp] theorem getModule_putProgression :
    (s.putProgression learner id p).getModule i = s.getModule i := by
  cases s <;> rfl

@[simp] theorem moduleIds_putProgression :
    (s.putProgression learner id p).moduleIds course = s.moduleIds course := by
  cases s <;> rfl

@[simp] theorem itemFacts_putProgression :
    (s.putProgression learner id p).itemFacts l item = s.itemFacts l item := by
  cases s <;> rfl

end Progressions

theorem SameButFacts.putProgression (h : s.SameButFacts t) (learner : LearnerId) (id : ModuleId)
    (p : Progression) :
    (s.putProgression learner id p).SameButFacts (t.putProgression learner id p) := by
  constructor
  rw [withoutFacts_putProgression, withoutFacts_putProgression, h.frame]

end Pathway.Store
