import Pathway.Proofs.Calls.Courses
import Pathway.Proofs.Command.Files
import Pathway.Proofs.Course.Loading

/-!
# Importing courses

The courses are stored one after the other when all of them have been loaded. What a database then
has of a course is what no later course has too.
-/

namespace Pathway

namespace Command

open Pathway.Action

variable {c : Console} {db p : Path} {s : Store} {d : Course} {cs : List Course} {α : Type} {a : α}
  {x : CourseFile.Loading α} {f : Failure} {j : Array Notice}

theorem loading_of_ok (h : x c.journal = .ok a j) :
    loading x c = .ok a { c with journal := j } := by
  simp only [loading, h]

theorem exists_of_loading_error (h : x c.journal = .error f j) :
    ∃ stop c', loading x c = .error stop c' ∧ c'.files = c.files := by
  simp only [loading, h, reject]
  split <;> exact ⟨_, _, rfl, rfl⟩

theorem exists_of_forM_note (ns : List Notice) :
    ∃ c', ns.forM note c = .ok () c' ∧ c'.files = c.files := by
  induction ns generalizing c with
  | nil => exact ⟨c, rfl, rfl⟩
  | cons n ns ih => exact ih

namespace ImportCourses

open CourseFile

theorem exists_of_onStore_putCourse (n : Notice) (hs : c.files.find? db = some (.database s))
    (hd : ∀ m ∈ d.modules, Number.isSignedWord m.position = true) :
    ∃ c', (onStore db (Action.putCourse d) >>= fun _ => note n) c = .ok () c' ∧
      c'.files.find? db = some (.database (s.withModules d.id d.modules)) := by
  obtain ⟨σ, hput, hσ⟩ := exists_of_putCourse hd
  obtain ⟨c', hc', hs'⟩ := onStore_of_ok hs hput
  refine ⟨{ c' with journal := c'.journal.push n }, bind_of_ok hc', ?_⟩
  rw [hσ] at hs'
  exact hs'

theorem exists_of_store (hs : c.files.find? db = some (.database s))
    (hd : ∀ m ∈ d.modules, Number.isSignedWord m.position = true) :
    ∃ c', store db d c = .ok () c' ∧
      c'.files.find? db = some (.database (s.withModules d.id d.modules)) := by
  obtain ⟨c₁, hc₁, hfiles⟩ := exists_of_forM_note (c := c) (CourseFile.unknownNotices d.modules)
  rw [← hfiles] at hs
  unfold store
  rw [bind_of_ok hc₁]
  dsimp only
  split
  · exact exists_of_onStore_putCourse (c := { c₁ with journal := _ }) _ hs hd
  · exact exists_of_onStore_putCourse _ hs hd

theorem exists_of_forM_store (hs : c.files.find? db = some (.database s))
    (hcs : ∀ d ∈ cs, ∀ m ∈ d.modules, Number.isSignedWord m.position = true) :
    ∃ c', cs.forM (store db) c = .ok () c' ∧
      c'.files.find? db = some (.database (s.withCourses cs)) := by
  induction cs generalizing c s with
  | nil => exact ⟨c, rfl, hs⟩
  | cons d cs ih =>
    obtain ⟨hd, hcs⟩ := List.forall_mem_cons.1 hcs
    obtain ⟨c', hc', hs'⟩ := exists_of_store hs hd
    rw [forM_cons, bind_of_ok hc']
    exact ih hs' hcs

theorem exists_of_importInto {directory : Option Path} {files : List Path} {c₀ : Console}
    (hroot : c.files.Grounded) (hload : courses c.files directory files c.journal = .ok cs j)
    (hopen : openStore db c = .ok s c₀)
    (hcs : ∀ d ∈ cs, ∀ m ∈ d.modules, Number.isSignedWord m.position = true) :
    ∃ c', importInto db directory files c = .ok (cs.flatMap (·.modules)).length c' ∧
      c'.files.find? db = some (.database (s.withCourses cs)) := by
  have hopened := openStore_journal (j := j) hopen
  have hfound : c₀.files.find? db = some (.database s) := find?_of_openStore hroot hopen
  obtain ⟨c', hc', hs⟩ := exists_of_forM_store (c := { c₀ with journal := j }) hfound hcs
  refine ⟨c', ?_, hs⟩
  unfold importInto
  rw [get_bind, bind_of_ok (loading_of_ok hload), bind_of_ok hopened, bind_of_ok hc']
  rfl

end ImportCourses

end Command

open Pathway.Action Command ImportCourses CourseFile in
/-- When all files have been loaded, and the ids of the courses differ, a new database has of each
course the modules that no later course has. They are counted as many times as they were stored. A
file that cannot be read leaves all as it was. -/
theorem imported_courses_are_stored (c : Console) (db : Path) (directory : Option Path)
    (files : List Path) (hroot : c.files.Grounded) :
    (∀ cs j c₀, courses c.files directory files c.journal = .ok cs j → (cs.map (·.id)).Nodup →
      (∀ d ∈ cs, ∀ m ∈ d.modules, Number.isSignedWord m.position = true) →
      openStore db c = .ok (.empty .database) c₀ →
      ∃ s c', importInto db directory files c = .ok (cs.flatMap (·.modules)).length c' ∧
        c'.files.find? db = some (.database s) ∧
        (∀ before d after, cs = before ++ d :: after →
          s.moduleIds (some d.id) = (sortByPlace Module.place (d.modules.filter fun m =>
            ∀ later ∈ after, m.id ∉ later.moduleIds)).map (·.id) ∧
          ∀ m ∈ d.modules, (∀ later ∈ after, m.id ∉ later.moduleIds) → m.FiniteThresholds →
            s.getModule m.id = .ok m) ∧
        (s.moduleIds none).length ≤ (cs.flatMap (·.modules)).length ∧
        ((s.moduleIds none).length = (cs.flatMap (·.modules)).length ↔
          (cs.flatMap Course.moduleIds).Nodup)) ∧
    ∀ p ∈ asked c.files directory files, ∀ f, CourseFile.read c.files p = .error f →
      ∃ stop c', importInto db directory files c = .error stop c' ∧ c'.files = c.files := by
  constructor
  · intro cs j c₀ hload hids hwords hopen
    have hwell := wellFormed_of_courses hload
    have hn : ∀ d ∈ cs, d.moduleIds.Nodup := fun d hd => (hwell d hd).distinct
    obtain ⟨c', hc', hs⟩ := exists_of_importInto hroot hload hopen hwords
    have hcount : (cs.flatMap (·.modules)).length = (cs.flatMap Course.moduleIds).length := by
      simp [List.length_flatMap, Course.moduleIds]
    rw [hcount]
    refine ⟨_, c', hcount ▸ hc', hs, ?_, Store.length_moduleIds_courses_le hn,
      Store.length_moduleIds_courses_eq_iff hn⟩
    rintro before d after rfl
    have hd : d ∈ before ++ d :: after := by simp
    have hholder : ∀ m ∈ d.modules, Course.holder (before ++ d :: after) m.id = some d ↔
        ∀ later ∈ after, m.id ∉ later.moduleIds :=
      fun m hm => Course.holder_eq_some hids (List.mem_map_of_mem hm)
    constructor
    · rw [Store.moduleIds_courses hn hids hd]
      congr 2
      exact List.filter_congr fun m hm => decide_eq_decide.2 (hholder m hm)
    · intro m hm hlater hfinite
      exact Store.getModule_courses hn hm ((hholder m hm).2 hlater) ((hwell d hd).modules m hm)
        hfinite
  · intro p hp f hf
    obtain ⟨g, j, hload⟩ := exists_of_read_error (j := c.journal) hp hf
    obtain ⟨stop, c', hc', hfiles⟩ := exists_of_loading_error hload
    refine ⟨stop, c', ?_, hfiles⟩
    unfold importInto
    rw [get_bind, bind_of_error hc']

/-! ## Two courses that share a module -/

namespace Sample

def algebra : Module := ⟨"algebra", "", 0, [], [], false, 0, none⟩

def laterAlgebra : Module := ⟨"algebra", "", 7, [], [], false, 0, none⟩

def spring : Course := ⟨"spring", "", [algebra]⟩

def autumn : Course := ⟨"autumn", "", [laterAlgebra]⟩

def springText : String :=
  "\x7b\"id\": \"spring\", \"modules\": [\x7b\"id\": \"algebra\"\x7d]\x7d"

def autumnText : String :=
  "\x7b\"id\": \"autumn\", \"modules\": [\x7b\"id\": \"algebra\", \"position\": 7\x7d]\x7d"

def shelf : Console :=
  ⟨⟨[(⟨"", ["spring.json"]⟩, .file springText.toUTF8.toList),
    (⟨"", ["autumn.json"]⟩, .file autumnText.toUTF8.toList)]⟩, #[], ""⟩

def termFiles : List Path := [⟨"", ["spring.json"]⟩, ⟨"", ["autumn.json"]⟩]

def database : Path := ⟨"", ["progress.db"]⟩

theorem read_spring : CourseFile.read shelf.files ⟨"", ["spring.json"]⟩ = .ok spring := by
  decide +kernel

theorem read_autumn : CourseFile.read shelf.files ⟨"", ["autumn.json"]⟩ = .ok autumn := by
  decide +kernel

theorem grounded_shelf : shelf.files.Grounded := by
  intro root
  simp [FileTree.entryAt, shelf]

theorem courses_term : ∃ j,
    Command.ImportCourses.courses shelf.files none termFiles shelf.journal =
      .ok [spring, autumn] j :=
  Command.ImportCourses.exists_of_courses (.cons read_spring (.cons read_autumn .nil))

end Sample

open Command ImportCourses in
theorem sample_imported_courses_are_stored :
    (∃ s c', importInto Sample.database none Sample.termFiles Sample.shelf = .ok 2 c' ∧
      c'.files.find? Sample.database = some (.database s) ∧
      s.moduleIds (some "autumn") = ["algebra"] ∧
      s.getModule "algebra" = .ok Sample.laterAlgebra) ∧
    ∃ stop c', importInto Sample.database none [⟨"", ["winter.json"]⟩] Sample.shelf =
      .error stop c' ∧ c'.files = Sample.shelf.files := by
  constructor
  · obtain ⟨j, hload⟩ := Sample.courses_term
    obtain ⟨s, c', hc', hs, hcourses, -⟩ :=
      (imported_courses_are_stored Sample.shelf Sample.database none Sample.termFiles
        Sample.grounded_shelf).1 _ j _ hload (by decide) (by decide) rfl
    obtain ⟨hids, hmodules⟩ := hcourses [Sample.spring] Sample.autumn [] rfl
    exact ⟨s, c', hc', hs, hids.trans (by decide +kernel),
      hmodules Sample.laterAlgebra List.mem_cons_self nofun nofun⟩
  · exact (imported_courses_are_stored Sample.shelf Sample.database none
      [⟨"", ["winter.json"]⟩] Sample.grounded_shelf).2 _ List.mem_cons_self _ rfl

open Command ImportCourses in
/-- The second course takes the module that both have from the first one. -/
theorem shared_module_leaves_course :
    ∃ j c₀ s c', courses Sample.shelf.files none Sample.termFiles Sample.shelf.journal =
        .ok [Sample.spring, Sample.autumn] j ∧
      openStore Sample.database Sample.shelf = .ok (.empty .database) c₀ ∧
      importInto Sample.database none Sample.termFiles Sample.shelf = .ok 2 c' ∧
      c'.files.find? Sample.database = some (.database s) ∧
      Sample.spring.moduleIds = ["algebra"] ∧ s.moduleIds (some "spring") = [] ∧
      s.getModule "algebra" ≠ .ok Sample.algebra ∧ s.moduleIds none = ["algebra"] := by
  obtain ⟨j, hload⟩ := Sample.courses_term
  have hopen : openStore Sample.database Sample.shelf = .ok (.empty .database) _ := rfl
  obtain ⟨c', hc', hs⟩ := exists_of_importInto Sample.grounded_shelf hload hopen (by decide)
  refine ⟨j, _, _, c', hload, hopen, hc', hs, rfl, ?_, ?_, ?_⟩ <;> decide +kernel

end Pathway
