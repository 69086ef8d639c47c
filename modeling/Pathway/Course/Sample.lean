/-!
# The sample course

An introduction to biology in four modules, each behind the one before. It shows every kind of
requirement, a sequential module, a module that asks for some of its requirements only, and one
that opens on a day.
-/

namespace Pathway.Sample

/-- The course file that comes with the program. -/
def courseText : String := "id: intro-biology
name: Introduction to Biology
modules:
  - id: orientation
    name: Orientation
    position: 1
    items:
      - id: welcome-page
        title: Welcome
        position: 1
        requirement: \x7btype: must_view\x7d
      - id: syllabus-quiz
        title: Syllabus quiz
        position: 2
        requirement: \x7btype: min_score, min_score: 70\x7d

  - id: cells
    name: Cells
    position: 2
    prerequisite_module_ids: [orientation]
    require_sequential_progress: true
    items:
      - id: cells-reading
        title: Cell structure reading
        position: 1
        requirement: \x7btype: must_view\x7d
      - id: cells-video
        title: Lecture video
        position: 2
      - id: cells-discussion
        title: Discussion - what makes a cell alive?
        position: 3
        requirement: \x7btype: must_contribute\x7d
      - id: cells-lab
        title: Microscope lab report
        position: 4
        requirement: \x7btype: must_submit\x7d

  - id: genetics
    name: Genetics
    position: 3
    prerequisite_module_ids: [cells]
    requirement_count: 2
    items:
      - id: genetics-reading
        title: Mendel reading
        position: 1
        requirement: \x7btype: must_mark_done\x7d
      - id: genetics-quiz
        title: Punnett square quiz
        position: 2
        requirement: \x7btype: min_score, min_score: 8\x7d
      - id: genetics-essay
        title: Heredity essay
        position: 3
        requirement: \x7btype: must_submit\x7d

  - id: final-project
    name: Final project
    position: 4
    prerequisite_module_ids: [cells, genetics]
    unlock_at: 2026-12-01T00:00:00Z
    items:
      - id: project-brief
        title: Project brief
        position: 1
        requirement: \x7btype: must_view\x7d
"

end Pathway.Sample
