import Mathlib.Data.List.Dedup
import Pathway.Proofs.Calls.Changes

/-!
# Courses put one after the other

Courses may share ids of modules, and a store has one module of each id. It is the one of the course
that was put last among those that have the id, and it is in that course.
-/

namespace Pathway

open Pathway.Action

variable {s : Store} {σ : Session} {d : Course} {cs : List Course} {m : Module} {id : ModuleId}
  {b : Backing}

namespace Course

/-- A module as a store keeps it when the course is put. -/
def stored (d : Course) (b : Backing) (m : Module) : StoredModule :=
  ⟨.of b m, m.position, some d.id⟩

/-- The last of the courses that have a module of the id. -/
def holder (cs : List Course) (id : ModuleId) : Option Course :=
  cs.reverse.find? (·.moduleIds.contains id)

theorem module?_of_mem (hn : d.moduleIds.Nodup) (hm : m ∈ d.modules) :
    d.module? m.id = some m := by
  have hsome : (d.modules.find? (·.id == m.id)).isSome = true :=
    List.find?_isSome.2 ⟨m, hm, beq_self_eq_true m.id⟩
  obtain ⟨n, hfound⟩ := Option.isSome_iff_exists.1 hsome
  have hid : n.id = m.id := by simpa using List.find?_some hfound
  rw [module?, hfound, List.inj_on_of_nodup_map hn (List.mem_of_find?_eq_some hfound) hm hid]

theorem module?_eq_none : d.module? id = none ↔ id ∉ d.moduleIds := by
  simp [module?, moduleIds]

theorem holder_cons : holder (d :: cs) id =
    (holder cs id).or (if d.moduleIds.contains id then some d else none) := by
  rw [holder, List.reverse_cons, List.find?_append, List.find?_singleton]
  rfl

theorem mem_of_holder (h : holder cs id = some d) : d ∈ cs ∧ id ∈ d.moduleIds := by
  refine ⟨List.mem_reverse.1 (List.mem_of_find?_eq_some h), ?_⟩
  simpa using List.find?_some h

theorem holder_eq_none : holder cs id = none ↔ id ∉ cs.flatMap moduleIds := by
  simp [holder]

theorem holder_eq_some {before after : List Course}
    (hids : ((before ++ d :: after).map (·.id)).Nodup) (hid : id ∈ d.moduleIds) :
    holder (before ++ d :: after) id = some d ↔ ∀ later ∈ after, id ∉ later.moduleIds := by
  have hafter : d ∉ after := by
    have hn := (List.Nodup.of_map _ hids).sublist (List.sublist_append_right before _)
    exact (List.nodup_cons.1 hn).1
  have hd : [d].find? (·.moduleIds.contains id) = some d := by
    rw [List.find?_singleton, if_pos (List.contains_iff_mem.2 hid)]
  have hholder : holder (before ++ d :: after) id = (holder after id).or (some d) := by
    simp only [holder, List.reverse_append, List.reverse_cons, List.find?_append, hd,
      Option.some_or, Option.or_some]
  rw [hholder]
  cases h : holder after id with
  | none =>
    refine iff_of_true rfl fun later hlater hmem => ?_
    exact holder_eq_none.1 h (List.mem_flatMap.2 ⟨later, hlater, hmem⟩)
  | some later =>
    obtain ⟨hlater, hmem⟩ := mem_of_holder h
    refine iff_of_false (fun heq => hafter ?_) fun hno => hno later hlater hmem
    rw [← Option.some.inj heq]
    exact hlater

end Course

namespace Store

/-! ## What is stored -/

def withModule (s : Store) (course : CourseId) (m : Module) : Store := s.placeModule m (some course)

def withModules (s : Store) (course : CourseId) (ms : List Module) : Store :=
  ms.foldl (·.withModule course) s

def withCourses (s : Store) (cs : List Course) : Store :=
  cs.foldl (fun s d => s.withModules d.id d.modules) s

theorem getElem?_withModule {course : CourseId} : (s.withModule course m).modules[id]? =
    if m.id = id then some ⟨.of s.backing m, m.position, some course⟩ else s.modules[id]? := by
  rw [withModule, modules_placeModule, Table.getElem?_insert, Option.some_or]

theorem backing_withModules {course : CourseId} {ms : List Module} :
    (s.withModules course ms).backing = s.backing := by
  induction ms generalizing s with
  | nil => rfl
  | cons m ms ih => exact (ih (s := s.withModule course m)).trans (s.backing_placeModule m _)

theorem getElem?_withModules (hn : d.moduleIds.Nodup) :
    (s.withModules d.id d.modules).modules[id]? =
      ((d.module? id).map (d.stored s.backing)).or s.modules[id]? := by
  obtain ⟨course, name, ms⟩ := d
  induction ms generalizing s with
  | nil => rfl
  | cons m ms ih =>
    obtain ⟨hm, hms⟩ := List.nodup_cons.1 hn
    have hrest : ((s.withModule course m).withModules course ms).modules[id]? =
        ((ms.find? (·.id == id)).map (Course.stored ⟨course, name, ms⟩ s.backing)).or
          (s.withModule course m).modules[id]? := by
      rw [← s.backing_placeModule m (some course)]
      exact ih hms
    have hstored : Course.stored ⟨course, name, ms⟩ s.backing =
        Course.stored ⟨course, name, m :: ms⟩ s.backing := rfl
    show ((s.withModule course m).withModules course ms).modules[id]? = _
    rw [hrest, getElem?_withModule, Course.module?, List.find?_cons, hstored]
    by_cases hid : m.id = id
    · have hnone : ms.find? (·.id == id) = none := by
        refine List.find?_eq_none.2 fun n hmem hni => hm ?_
        refine List.mem_map.2 ⟨n, hmem, ?_⟩
        exact (eq_of_beq hni).trans hid.symm
      rw [if_pos hid, hnone, hid, beq_self_eq_true]
      rfl
    · rw [if_neg hid, beq_false_of_ne hid]

theorem getElem?_withCourses (hn : ∀ d ∈ cs, d.moduleIds.Nodup) :
    (s.withCourses cs).modules[id]? =
      ((Course.holder cs id).bind fun d => (d.module? id).map (d.stored s.backing)).or
        s.modules[id]? := by
  induction cs generalizing s with
  | nil => rfl
  | cons d cs ih =>
    obtain ⟨hd, hcs⟩ := List.forall_mem_cons.1 hn
    show ((s.withModules d.id d.modules).withCourses cs).modules[id]? = _
    rw [ih hcs, backing_withModules, getElem?_withModules hd, Course.holder_cons]
    cases hholder : Course.holder cs id with
    | some d' =>
      obtain ⟨m, hm⟩ := Option.ne_none_iff_exists'.1 fun hnone =>
        Course.module?_eq_none.1 hnone (Course.mem_of_holder hholder).2
      rw [Option.some_or, Option.bind_some, hm]
      rfl
    | none =>
      rw [Option.bind_none, Option.none_or, Option.none_or]
      split
      · rfl
      · next hno =>
        rw [Course.module?_eq_none.2 fun hmem => hno (List.contains_iff_mem.2 hmem)]
        rfl

/-! ## What is listed -/

theorem moduleIds_some {course : CourseId} {ms : List Module} (hn : (ms.map (·.id)).Nodup)
    (h : ∀ place : Place, place ∈ ms.map Module.place ↔
      ∃ stored, s.modules[place.2]? = some stored ∧ stored.course = some course ∧
        stored.position = place.1) :
    s.moduleIds (some course) = (sortByPlace Module.place ms).map (·.id) := by
  let chosen := s.modules.toList.filter fun p => p.2.course == some course
  have hperm : (chosen.map fun p => (p.2.position, p.1)).Perm (ms.map Module.place) := by
    have hkeys : (s.modules.toList.map Prod.fst).Nodup := by
      rw [Std.ExtTreeMap.map_fst_toList_eq_keys]
      exact Std.ExtTreeMap.nodup_keys
    have hchosen : (chosen.map fun p => (p.2.position, p.1)).Nodup := by
      refine List.Nodup.of_map Prod.snd ?_
      rw [List.map_map]
      exact hkeys.sublist (List.filter_sublist.map Prod.fst)
    have hplaces : (ms.map Module.place).Nodup := by
      refine List.Nodup.of_map Prod.snd ?_
      rw [List.map_map]
      exact hn
    refine (List.perm_ext_iff_of_nodup hchosen hplaces).2 fun place => ?_
    rw [h, List.mem_map]
    constructor
    · rintro ⟨⟨id, stored⟩, hstored, rfl⟩
      obtain ⟨hmem, hcourse⟩ := List.mem_filter.1 hstored
      exact ⟨stored, Std.ExtTreeMap.mem_toList_iff_getElem?_eq_some.1 hmem, eq_of_beq hcourse, rfl⟩
    · rintro ⟨stored, hstored, hcourse, hposition⟩
      have hmem := Std.ExtTreeMap.mem_toList_iff_getElem?_eq_some.2 hstored
      exact ⟨(place.2, stored), List.mem_filter.2 ⟨hmem, beq_iff_eq.2 hcourse⟩,
        Prod.ext hposition rfl⟩
  have hleft : s.moduleIds (some course) =
      (sortByPlace (fun p => p) (chosen.map fun p => (p.2.position, p.1))).map Prod.snd := by
    rw [sortByPlace_map, List.map_map, moduleIds_eq]
    simp only [Option.isNone_some, Bool.false_or]
    rfl
  have hright : (sortByPlace Module.place ms).map (·.id) =
      (sortByPlace (fun p => p) (ms.map Module.place)).map Prod.snd := by
    rw [sortByPlace_map, List.map_map]
    rfl
  rw [hleft, hright, sortByPlace_of_perm _ _ hperm fun _ _ _ _ hplace => hplace]

/-! ## Courses in an empty store -/

section Empty

variable (hn : ∀ d ∈ cs, d.moduleIds.Nodup)
include hn

theorem getElem?_courses : ((empty b).withCourses cs).modules[id]? =
    (Course.holder cs id).bind fun d => (d.module? id).map (d.stored b) := by
  rw [getElem?_withCourses hn, backing_empty, modules_empty, Std.ExtTreeMap.getElem?_empty,
    Option.or_none]

theorem getElem?_of_holder (hm : m ∈ d.modules) (h : Course.holder cs m.id = some d) :
    ((empty b).withCourses cs).modules[m.id]? = some (d.stored b m) := by
  rw [getElem?_courses hn, h, Option.bind_some,
    Course.module?_of_mem (hn d (Course.mem_of_holder h).1) hm]
  rfl

theorem exists_of_getElem? {stored : StoredModule}
    (h : ((empty b).withCourses cs).modules[id]? = some stored) :
    ∃ d m, Course.holder cs id = some d ∧ m ∈ d.modules ∧ m.id = id ∧ d.stored b m = stored := by
  rw [getElem?_courses hn, Option.bind_eq_some_iff] at h
  obtain ⟨d, hd, h⟩ := h
  obtain ⟨m, hm, rfl⟩ := Option.map_eq_some_iff.1 h
  exact ⟨d, m, hd, List.mem_of_find?_eq_some hm, by simpa using List.find?_some hm, rfl⟩

theorem moduleIds_courses (hids : (cs.map (·.id)).Nodup) (hd : d ∈ cs) :
    ((empty b).withCourses cs).moduleIds (some d.id) =
      (sortByPlace Module.place
        (d.modules.filter fun m => Course.holder cs m.id = some d)).map (·.id) := by
  refine moduleIds_some ?_ fun place => ?_
  · exact (hn d hd).sublist (List.filter_sublist.map _)
  · simp only [List.mem_map, List.mem_filter, decide_eq_true_eq]
    constructor
    · rintro ⟨m, ⟨hm, hholder⟩, rfl⟩
      exact ⟨d.stored b m, getElem?_of_holder hn hm hholder, rfl, rfl⟩
    · rintro ⟨stored, hstored, hcourse, hposition⟩
      obtain ⟨d', m, hholder, hm, hid, rfl⟩ := exists_of_getElem? hn hstored
      obtain rfl : d' = d := List.inj_on_of_nodup_map hids (Course.mem_of_holder hholder).1 hd
        (Option.some.inj hcourse)
      exact ⟨m, ⟨hm, hid ▸ hholder⟩, Prod.ext hposition hid⟩

theorem length_moduleIds_courses : (((empty b).withCourses cs).moduleIds none).length =
    (cs.flatMap Course.moduleIds).dedup.length := by
  refine List.Perm.length_eq ?_
  refine (List.perm_ext_iff_of_nodup nodup_moduleIds (List.nodup_dedup _)).2 fun id => ?_
  rw [mem_moduleIds, List.mem_dedup, hasModule_iff_stored]
  constructor
  · rintro ⟨stored, hstored⟩
    obtain ⟨d, m, hholder, -⟩ := exists_of_getElem? hn hstored
    obtain ⟨hd, hid⟩ := Course.mem_of_holder hholder
    exact List.mem_flatMap.2 ⟨d, hd, hid⟩
  · intro hid
    obtain ⟨d, hholder⟩ := Option.ne_none_iff_exists'.1 fun hnone =>
      Course.holder_eq_none.1 hnone hid
    obtain ⟨m, hm, rfl⟩ := List.mem_map.1 (Course.mem_of_holder hholder).2
    exact ⟨d.stored b m, getElem?_of_holder hn hm hholder⟩

theorem length_moduleIds_courses_le : (((empty b).withCourses cs).moduleIds none).length ≤
    (cs.flatMap Course.moduleIds).length := by
  rw [length_moduleIds_courses hn]
  exact (List.dedup_sublist _).length_le

/-- No module makes way for another one just if no two courses share an id. -/
theorem length_moduleIds_courses_eq_iff : (((empty b).withCourses cs).moduleIds none).length =
    (cs.flatMap Course.moduleIds).length ↔ (cs.flatMap Course.moduleIds).Nodup := by
  rw [length_moduleIds_courses hn]
  refine ⟨fun h => ?_, fun h => by rw [h.dedup]⟩
  rw [← (List.dedup_sublist _).eq_of_length h]
  exact List.nodup_dedup _

/-- A database has a module as the course has that holds it. -/
theorem getModule_courses (hm : m ∈ d.modules) (h : Course.holder cs m.id = some d)
    (hwell : m.WellFormed) (hfinite : m.FiniteThresholds) :
    ((empty .database).withCourses cs).getModule m.id = .ok m := by
  rw [getModule_of_stored (getElem?_of_holder hn hm h)]
  show (Module.ofDocument m.document).orFail .module = .ok m
  rw [Module.ofDocument_document hwell hfinite]
  rfl

end Empty

end Store

/-! ## Putting a course -/

theorem Store.putModule_of_word {course : CourseId}
    (h : Number.isSignedWord m.position = true) :
    s.putModule m (some course) = .ok (s.withModule course m) := by
  refine putModule_eq_ok.2 ⟨?_, rfl⟩
  cases s with
  | memory d => rfl
  | database r => exact if_pos h

theorem putModules_of_words {course : CourseId} {ms : List Module}
    (h : ∀ m ∈ ms, Number.isSignedWord m.position = true) :
    (forIn ms PUnit.unit fun m _ => do
      updateOrFail fun s => s.putModule m (some course)
      pure (ForInStep.yield PUnit.unit) : Action PUnit) σ =
        .ok ⟨⟩ { σ with store := σ.store.withModules course ms } := by
  induction ms generalizing σ with
  | nil => rfl
  | cons m ms ih =>
    obtain ⟨hm, hms⟩ := List.forall_mem_cons.1 h
    rw [List.forIn_cons, bind_assoc, bind_of_ok (updateOrFail_of_ok (Store.putModule_of_word hm))]
    exact ih hms

theorem exists_of_putCourse (h : ∀ m ∈ d.modules, Number.isSignedWord m.position = true) :
    ∃ τ, Action.putCourse d σ = .ok () τ ∧ τ.store = σ.store.withModules d.id d.modules := by
  unfold Action.putCourse
  rw [bind_of_ok (putModules_of_words h), get_bind]
  split <;> exact ⟨_, rfl, rfl⟩

end Pathway
