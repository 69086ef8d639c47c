import Pathway.Proofs.Calls.Stored

/-!
# Modules are read back

Nothing but putting and removing touches a module. So it is read as it was put, whatever else is
asked in between; but a database has no form for an infinite threshold, and takes a module with one
only to find it not valid whenever it is read.
-/

namespace Pathway

variable {s t : Store} {id : ModuleId} {m : Module} {course : Option CourseId} {c : Call}
  {σ : Session} {r : Request} {rs : List Request} {e : Evaluator} {now : Instant}

/-- The call neither puts a module of the id nor removes it. -/
def Call.Leaves (id : ModuleId) (c : Call) : Prop :=
  (∀ m ∈ c.puts, m.id ≠ id) ∧ c ≠ .removeModule id

/-! ## What leaves modules alone -/

theorem Call.Changes.getModule (h : c.Changes s t) (hc : c.Leaves id) :
    t.getModule id = s.getModule id := by
  cases h with
  | learners => exact s.getModule_addLearner ..
  | reset => exact s.getModule_resetLearner ..
  | facts _ ht => exact ht.rest.getModule id
  | put hm ht => rw [Store.getModule_putModule ht, if_neg (hc.1 _ hm)]
  | removal hr =>
    rw [Store.getModule_removeModule, if_neg]
    rintro rfl
    exact hc.2 hr
  | save _ ht => exact (Store.SameBase.save (.refl s) ht).getModule id

theorem getModule_next (hr : r.call.Leaves id) (σ : Session) :
    (σ.next r).store.getModule id = σ.store.getModule id := by
  by_cases he : r.call.Evaluates
  · exact (sameBase_next he σ).getModule id
  · exact Session.next_of_changes (I := fun s => s.getModule id = σ.store.getModule id) he rfl
      fun s t hs ht => (ht.getModule hr).trans hs

theorem getModule_after (hrs : ∀ r ∈ rs, r.call.Leaves id) (σ : Session) :
    (σ.after rs).store.getModule id = σ.store.getModule id :=
  Session.after_of_next (I := fun τ => τ.store.getModule id = σ.store.getModule id) rfl
    fun r hr τ h => (getModule_next (hrs r hr) τ).trans h

/-! ## Putting and reading -/

theorem Session.answer_getModule :
    σ.answer ⟨e, now, .getModule id⟩ = (σ.store.getModule id).map .module := by
  have hperform : σ.perform ⟨e, now, .getModule id⟩ =
      (Action.askOrFail fun s => (s.getModule id).map Answer.module) σ :=
    congrFun Action.askOrFail_bind_pure σ
  rw [Session.answer, hperform, Action.askOrFail_apply]
  cases σ.store.getModule id <;> rfl

theorem getModule_of_put (h : σ.answer ⟨e, now, .putModule m course⟩ = .ok .done) :
    (σ.next ⟨e, now, .putModule m course⟩).store.getModule m.id =
      (Definition.of σ.store.backing m).read := by
  have hput : σ.store.putModule m course = .ok (σ.next ⟨e, now, .putModule m course⟩).store :=
    updated_of_done rfl h
  rw [Store.getModule_putModule hput, if_pos rfl]

/-- A well-formed module that a database has taken is answered as it was put, if its thresholds are
finite, until it is put again or removed. With an infinite threshold it was taken too, but from then
on the answer is that the module is not valid. -/
theorem database_reads_back (σ : Session) (hdb : σ.store.backing = .database) (e e' : Evaluator)
    (now now' : Instant) (m : Module) (hm : m.WellFormed) (course : Option CourseId)
    (hput : σ.answer ⟨e, now, .putModule m course⟩ = .ok .done) (rs : List Request)
    (hrs : ∀ r ∈ rs, r.call.Leaves m.id) :
    (m.FiniteThresholds →
      ((σ.next ⟨e, now, .putModule m course⟩).after rs).answer ⟨e', now', .getModule m.id⟩ =
        .ok (.module m)) ∧
    (¬ m.FiniteThresholds → ∃ faults,
      ((σ.next ⟨e, now, .putModule m course⟩).after rs).answer ⟨e', now', .getModule m.id⟩ =
        .error (.invalid .module faults)) := by
  have hread : ((σ.next ⟨e, now, .putModule m course⟩).after rs).store.getModule m.id =
      (Module.ofDocument m.document).orFail .module := by
    rw [getModule_after hrs, getModule_of_put hput, hdb]
    rfl
  rw [Session.answer_getModule, hread]
  constructor
  · intro hfin
    rw [Module.ofDocument_document hm hfin]
    rfl
  · intro hinf
    cases hd : Module.ofDocument m.document with
    | valid n => exact absurd (Module.finiteThresholds_of_ofDocument_document hd) hinf
    | faulty faults => exact ⟨faults, rfl⟩

namespace Sample

theorem finiteThresholds_orientation : orientation.FiniteThresholds := by
  intro i hi t ht
  rw [threshold_orientation hi ht]
  decide +kernel

/-- An evaluation, and a module that is put and removed again. -/
def meanwhile : List Request :=
  [.evaluate "ada" "orientation", .putModule cells none, .removeModule "cells"].map
    fun c => ⟨⟨1, none⟩, ⟨0, 0⟩, c⟩

theorem leaves_meanwhile : ∀ r ∈ meanwhile, r.call.Leaves "orientation" := by
  simp [meanwhile, Call.Leaves, Call.puts, cells]

/-- A quiz that no score is good enough for. -/
def hopeless : Module :=
  ⟨"hopeless", "", 0, [⟨"quiz", "", 1, some (.minScore (.infinite false)), false⟩], [], false, 0,
    none⟩

end Sample

theorem sample_database_reads_back :
    (((Session.ofStore (.empty .database)).next
      ⟨⟨1, none⟩, ⟨0, 0⟩, .putModule Sample.orientation none⟩).after Sample.meanwhile).answer
        ⟨⟨1, none⟩, ⟨0, 0⟩, .getModule "orientation"⟩ = .ok (.module Sample.orientation) :=
  (database_reads_back (.ofStore (.empty .database)) rfl ⟨1, none⟩ ⟨1, none⟩ ⟨0, 0⟩ ⟨0, 0⟩
    Sample.orientation Sample.wellFormed_orientation none rfl Sample.meanwhile
    Sample.leaves_meanwhile).1 Sample.finiteThresholds_orientation

/-- A database takes a well-formed module with an infinite threshold, and does not read it back. -/
theorem infinite_threshold_taken_but_not_read_back :
    Sample.hopeless.WellFormed ∧
    (Session.ofStore (.empty .database)).answer
      ⟨⟨1, none⟩, ⟨0, 0⟩, .putModule Sample.hopeless none⟩ = .ok .done ∧
    ∃ faults, ((Session.ofStore (.empty .database)).next
      ⟨⟨1, none⟩, ⟨0, 0⟩, .putModule Sample.hopeless none⟩).answer
        ⟨⟨1, none⟩, ⟨0, 0⟩, .getModule "hopeless"⟩ = .error (.invalid .module faults) := by
  have hm : Sample.hopeless.WellFormed := by
    refine ⟨by decide, by decide, fun i hi t ht => ?_, by decide, ?_, by decide⟩
    · obtain rfl := List.mem_singleton.1 hi
      cases ht
      rfl
    · exact List.pairwise_singleton _ _
  exact ⟨hm, rfl, _, rfl⟩

end Pathway
