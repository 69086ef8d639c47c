import Pathway.Proofs.Course.Modules
import Pathway.Proofs.Evaluation.Gating

/-!
# A sample store

The first two modules of the sample course in memory, and one learner. Every evaluation in it is
answered.
-/

open Relation

namespace Pathway

variable {s : Store} {ids : List ModuleId} {id : ModuleId}

theorem Store.exists_module_of_inClosure
    (hread : ∀ id, s.hasModule id = true → ∃ m, s.getModule id = .ok m)
    (hids : ∀ id ∈ ids, s.hasModule id = true) (h : s.InClosure ids id) :
    ∃ m, s.getModule id = .ok m := by
  obtain ⟨a, ha, hreach⟩ := h
  rcases ReflTransGen.cases_tail hreach with rfl | ⟨b, -, hb⟩
  · exact hread id (hids id ha)
  · exact hread id hb.2

namespace Sample

def item (id : ItemId) (title : String) (position : Int) (requirement : Option Requirement) :
    Item :=
  ⟨id, title, position, requirement, false⟩

def orientation : Module :=
  ⟨"orientation", "Orientation", 1,
    [item "welcome-page" "Welcome" 1 (some .view),
      item "syllabus-quiz" "Syllabus quiz" 2 (some (.minScore (.ofNat 70)))],
    [], false, 0, none⟩

def cells : Module :=
  ⟨"cells", "Cells", 2,
    [item "cells-reading" "Cell structure reading" 1 (some .view),
      item "cells-video" "Lecture video" 2 none,
      item "cells-discussion" "Discussion - what makes a cell alive?" 3 (some .contribute),
      item "cells-lab" "Microscope lab report" 4 (some .submit)],
    ["orientation"], true, 0, none⟩

def store : Store :=
  (((Store.empty .memory).addLearner "ada" "Ada").placeModule orientation none).placeModule cells
    none

theorem getModule_store :
    store.getModule id =
      if "cells" = id then .ok cells
      else if "orientation" = id then .ok orientation
      else .error (.notFound .module id) := by
  simp only [store, Store.getModule_placeModule]
  rfl

theorem exists_module_store (h : store.hasModule id = true) : ∃ m, store.getModule id = .ok m := by
  rw [Store.hasModule_iff] at h
  rw [getModule_store] at h ⊢
  split_ifs at h ⊢
  · exact ⟨_, rfl⟩
  · exact ⟨_, rfl⟩
  · exact absurd rfl h

theorem requires_store {a b : ModuleId} (h : store.Requires a b) :
    a = "cells" ∧ b = "orientation" := by
  obtain ⟨⟨m, hm, hb⟩, -⟩ := h
  rw [getModule_store] at hm
  split_ifs at hm with hcells
  · cases hm
    exact ⟨hcells.symm, List.mem_singleton.1 hb⟩
  · cases hm
    cases hb

theorem not_onCircle_store : ¬ OnCircle store.Requires id := by
  intro h
  obtain ⟨b, hab, -⟩ := TransGen.head'_iff.1 h
  obtain ⟨c, -, hca⟩ := TransGen.tail'_iff.1 h
  have hne := (requires_store hab).1.symm.trans (requires_store hca).2
  simp at hne

theorem accessible_store (now : Instant) (id : ModuleId) : store.Accessible now id := by
  refine ⟨not_onCircle_store, fun m hm => ?_⟩
  rw [getModule_store] at hm
  split_ifs at hm <;> cases hm <;> rfl

theorem not_refusal_store {now : Instant} {limit : Option Nat} {f : Failure}
    (hids : ∀ id ∈ ids, store.hasModule id = true) : ¬ Refusal store "ada" now limit ids f :=
  not_refusal_of_memory rfl rfl fun _ hid =>
    Store.exists_module_of_inClosure (fun _ => exists_module_store) hids hid

/-! ## What the store holds -/

theorem threshold_orientation {i : Item} {t : Binary64} (hi : i ∈ orientation.items)
    (ht : i.requirement = some (.minScore t)) : t = .ofNat 70 := by
  simp only [orientation, item, List.mem_cons, List.not_mem_nil, or_false] at hi
  rcases hi with rfl | rfl
  · cases ht
  · exact (Requirement.minScore.inj (Option.some.inj ht)).symm

theorem wellFormed_orientation : orientation.WellFormed where
  id := by decide
  itemIds := by decide
  thresholds i hi t ht := by
    rw [threshold_orientation hi ht]
    decide +kernel
  distinct := by decide
  inOrder := by
    unfold Module.InOrder
    decide
  prerequisites := by decide

theorem wellFormed_cells : cells.WellFormed where
  id := by decide
  itemIds := by decide
  thresholds i hi t ht := by
    simp only [cells, item, List.mem_cons, List.not_mem_nil, or_false] at hi
    rcases hi with rfl | rfl | rfl | rfl <;> cases ht
  distinct := by decide
  inOrder := by
    unfold Module.InOrder
    decide
  prerequisites := by decide

theorem wellFormed_store {m : Module} (h : store.getModule id = .ok m) : m.WellFormed := by
  rw [getModule_store] at h
  split_ifs at h <;> cases h
  · exact wellFormed_cells
  · exact wellFormed_orientation

theorem state_orientation {now : Instant} {p : Progression}
    (h : reference store "ada" now none "orientation" = some p) : p.state = .unlocked := by
  have hread : store.getModule orientation.id = .ok orientation := getModule_store
  have hreach : Reachable store "ada" now none orientation := by
    refine ⟨?_, fun _ hu => by cases hu⟩
    rintro (hcircle | ⟨n, hn, -⟩)
    · exact not_onCircle_store hcircle
    · cases hn
  have href := reference_eq hread (iff_of_true rfl hreach)
  rw [Option.some.inj (h.symm.trans href)]
  rfl

theorem isLocked_cells {now : Instant} {p : Progression}
    (h : reference store "ada" now none "cells" = some p) : p.isLocked = true := by
  rw [← Bool.not_eq_false]
  intro hl
  have hread : store.getModule "cells" = .ok cells := getModule_store
  have hreq : store.Requires "cells" "orientation" :=
    ⟨⟨cells, hread, List.mem_singleton.2 rfl⟩, rfl⟩
  obtain ⟨q, hq, hcompl⟩ := completed_of_requires h hl hreq
  simp [Progression.isCompleted, state_orientation hq] at hcompl

end Sample

end Pathway
