import Pathway.Proofs.Calls.CircleReports
import Pathway.Proofs.Evaluation.Saving

/-!
# What a request saves

A request for progressions is answered from one evaluation, so it assesses each module of its
closure once and saves each progression that has changed once.
-/

namespace Pathway

open Evaluation

variable {c : Call} {e : Evaluator} {now : Instant} {learner : LearnerId} {ids : List ModuleId}
  {memo : Memo} {found : List (Module × Progression)} {σ τ : Session}

/-- A request assesses the modules of its closure, each once and no other, and is answered with what
they are found to have. It saves each progression that differs from the stored one once and nothing
else, and in the end the store holds what was found. -/
theorem saves_are_exact (h : c.Asks σ.store learner ids) :
    (c.perform e now).Ends σ
      (fun a τ => ∃ memo found, Evaluated e now learner ids σ memo τ ∧
        c.answerFrom ids memo = some a ∧ ExactSaves e now learner ids memo found σ τ)
      (Refusal σ.store learner now e.depthLimit ids) := by
  refine h.ends.imp ?_ fun _ hf => hf
  rintro a τ ⟨memo, hev, ha⟩
  obtain ⟨found, hexact⟩ := hev.exists_exactSaves
  exact ⟨memo, found, hev, ha, hexact⟩

theorem ExactSaves.saves_of_blank (h : ExactSaves e now learner ids memo found σ τ)
    (hblank : ∀ id, σ.store.loadProgression learner id = none) :
    τ.saves = σ.saves + found.length := by
  rw [h.saved.saves, Store.changes, List.filter_eq_self.2]
  intro x _
  rw [hblank]
  rfl

theorem Sample.exact_saves_crossed :
    ∃ a τ memo found, Call.perform ⟨1, none⟩ ⟨0, 0⟩ (.evaluate "ada" "b") crossed = .ok a τ ∧
      ExactSaves ⟨1, none⟩ ⟨0, 0⟩ "ada" ["b"] memo found crossed τ ∧
      (found.map (·.1.id)).Perm ["a", "b", "c"] ∧ τ.saves = 3 := by
  obtain ⟨a, ha⟩ := exists_answer "b" (.refl crossed.store) rfl
  obtain ⟨memo, found, -, -, hexact⟩ := (saves_are_exact .one).of_ok (Session.answer_eq_ok.1 ha)
  have hids : (found.map (·.1.id)).Perm ["a", "b", "c"] := by
    refine (List.perm_ext_iff_of_nodup hexact.once (by decide)).2 fun id => ?_
    rw [hexact.closure, ← (closed_of_required required_b).mem]
    simp [bare, or_left_comm]
  have hlength : found.length = 3 := by
    rw [← List.length_map, hids.length_eq]
    rfl
  have hblank : ∀ id, crossed.store.loadProgression "ada" id = none := by
    intro id
    exact Std.ExtTreeMap.getElem?_empty
  refine ⟨a, _, memo, found, Session.answer_eq_ok.1 ha, hexact, hids, ?_⟩
  rw [hexact.saves_of_blank hblank, hlength]
  rfl

end Pathway
