import Mathlib.Data.List.Forall2
import Pathway.Command.ImportCourses
import Pathway.Proofs.Course.Modules
import Pathway.Proofs.Session

/-!
# Courses that are loaded

A course is well formed if it was read from a file. All files that are asked for are read, one after
the other, or none of their courses is.
-/

namespace Pathway

open Check Pathway.Action

/-- What a document says of a course, whatever the course is. -/
structure Course.WellFormed (d : Course) : Prop where
  modules : ∀ m ∈ d.modules, m.WellFormed
  distinct : d.moduleIds.Nodup

theorem Course.wellFormed_of_ofDocument {d : Course} {doc : Document}
    (h : Course.ofDocument doc = .valid d) : d.WellFormed := by
  obtain ⟨fs, hfs⟩ := exists_of_record h
  obtain ⟨_, modules, hnamed, hmodules, rfl⟩ := Checked.seq_eq_valid hfs
  obtain ⟨_, name, hid, -, rfl⟩ := Checked.seq_eq_valid hnamed
  obtain ⟨id, -, rfl⟩ := Checked.map_eq_valid hid
  rcases exists_of_fieldOr hmodules with rfl | ⟨_, hmodules⟩
  · exact ⟨nofun, List.nodup_nil⟩
  · obtain ⟨read, hread, horder⟩ := exists_of_andThen hmodules
    obtain ⟨rfl, hdistinct⟩ := eq_of_inOrder horder
    refine ⟨fun m hm => ?_, ?_⟩
    · obtain ⟨doc, hdoc⟩ := exists_of_list hread m ((mem_sortByPlace _ _).1 hm)
      exact Module.wellFormed_of_ofDocument hdoc
    · exact ((sortByPlace_perm Module.place read).map (·.id)).nodup_iff.2 hdistinct

theorem exists_of_except_bind {ε α β : Type} {x : Except ε α} {k : α → Except ε β} {b : β}
    (h : x >>= k = .ok b) : ∃ a, x = .ok a ∧ k a = .ok b := by
  cases x with
  | ok a => exact ⟨a, rfl, h⟩
  | error f => cases h

namespace CourseFile

variable {t : FileTree} {p : Path} {ps : List Path} {d : Course} {cs done : List Course}
  {j j' : Array Notice}

theorem wellFormed_of_courseOf {doc : Document} (h : courseOf p doc = .ok d) : d.WellFormed := by
  unfold courseOf at h
  split at h
  · split at h
    · next hvalid =>
      cases h
      exact Course.wellFormed_of_ofDocument hvalid
    · cases h
  · cases h

theorem wellFormed_of_read_eq_ok (h : read t p = .ok d) : d.WellFormed := by
  unfold read at h
  split at h
  · split at h
    · obtain ⟨text, -, h⟩ := exists_of_except_bind h
      obtain ⟨doc, -, h⟩ := exists_of_except_bind h
      exact wellFormed_of_courseOf h
    · cases h
  · cases h

theorem load_of_read (h : read t p = .ok d) :
    load t p j = .ok d (j ++ (notices p d).toArray) := by
  unfold load
  rw [h]
  rfl

theorem read_of_load (h : load t p j = .ok d j') : read t p = .ok d := by
  unfold load at h
  cases hread : read t p with
  | ok d' =>
    rw [hread] at h
    cases h
    rfl
  | error f =>
    rw [hread] at h
    cases h

theorem read_of_mapM_load (h : ps.mapM (load t) j = .ok cs j') :
    List.Forall₂ (fun p d => read t p = .ok d) ps cs := by
  induction ps generalizing cs j with
  | nil =>
    cases h
    exact .nil
  | cons p ps ih =>
    rw [List.mapM_cons] at h
    obtain ⟨d, k, hd, h⟩ := bind_eq_ok.1 h
    obtain ⟨ds, hds, rfl⟩ := bind_pure_eq_ok.1 h
    exact .cons (read_of_load hd) (ih hds)

theorem exists_of_mapM_load (h : List.Forall₂ (fun p d => read t p = .ok d) ps cs) :
    ∃ j', ps.mapM (load t) j = .ok cs j' := by
  induction h generalizing j with
  | nil => exact ⟨j, rfl⟩
  | @cons p d ps cs hd _ ih =>
    obtain ⟨j', hj'⟩ := ih (j := j ++ (notices p d).toArray)
    refine ⟨j', ?_⟩
    rw [List.mapM_cons, bind_of_ok (load_of_read hd), bind_of_ok hj']
    rfl

theorem read_of_loadEach (h : loadEach t done ps j = .ok cs j') :
    ∃ ds, cs = done ++ ds ∧ List.Forall₂ (fun p d => read t p = .ok d) ps ds := by
  induction ps generalizing done j with
  | nil =>
    cases h
    exact ⟨[], (List.append_nil _).symm, .nil⟩
  | cons p ps ih =>
    unfold loadEach at h
    obtain ⟨d, k, hd, h⟩ := bind_eq_ok.1 h
    split at h
    · cases h
    · obtain ⟨ds, rfl, hds⟩ := ih h
      exact ⟨d :: ds, List.append_assoc .., .cons (read_of_load hd) hds⟩

theorem exists_of_read (h : List.Forall₂ (fun p d => read t p = .ok d) ps cs) (hp : p ∈ ps) :
    ∃ d, read t p = .ok d := by
  induction h with
  | nil => cases hp
  | cons hd _ ih =>
    rcases List.mem_cons.1 hp with rfl | hp
    · exact ⟨_, hd⟩
    · exact ih hp

/-- The files in a directory that are asked for, and those asked for by themselves. -/
def asked (t : FileTree) (directory : Option Path) (files : List Path) : List Path :=
  (match directory.map (pathsIn t) with
    | some (.ok ps) => ps
    | _ => []) ++ files

end CourseFile

namespace Command.ImportCourses

open CourseFile

variable {t : FileTree} {directory : Option Path} {files : List Path} {cs : List Course}
  {j j' : Array Notice}

theorem courses_eq_ok (h : courses t directory files j = .ok cs j') :
    List.Forall₂ (fun p d => read t p = .ok d) (asked t directory files) cs := by
  unfold courses at h
  cases directory with
  | none =>
    obtain ⟨es, hes, rfl⟩ := bind_pure_eq_ok.1 h
    exact read_of_mapM_load hes
  | some d =>
    obtain ⟨ds, k, hds, h⟩ := bind_eq_ok.1 h
    obtain ⟨es, hes, rfl⟩ := bind_pure_eq_ok.1 h
    unfold loadDirectory at hds
    cases hps : pathsIn t d with
    | ok ps =>
      rw [hps] at hds
      obtain ⟨_, rfl, hread⟩ := read_of_loadEach hds
      rw [asked, Option.map_some, hps]
      exact List.rel_append hread (read_of_mapM_load hes)
    | error f =>
      rw [hps] at hds
      cases hds

theorem exists_of_courses
    (h : List.Forall₂ (fun p d => read t p = .ok d) files cs) :
    ∃ j', courses t none files j = .ok cs j' := by
  obtain ⟨j', hj'⟩ := exists_of_mapM_load (j := j) h
  exact ⟨j', (bind_of_ok hj').trans rfl⟩

theorem wellFormed_of_courses (h : courses t directory files j = .ok cs j') :
    ∀ d ∈ cs, d.WellFormed := by
  intro d hd
  obtain ⟨p, -, hp⟩ := (mem_of_forall₂_ok (courses_eq_ok h)).1 hd
  exact wellFormed_of_read_eq_ok hp

theorem exists_of_read_error {p : Path} {f : Failure} (hp : p ∈ asked t directory files)
    (h : read t p = .error f) : ∃ g j', courses t directory files j = .error g j' := by
  cases hload : courses t directory files j with
  | error g j' => exact ⟨g, j', rfl⟩
  | ok cs j' =>
    obtain ⟨d, hd⟩ := exists_of_read (courses_eq_ok hload) hp
    cases h.symm.trans hd

end Command.ImportCourses

end Pathway
