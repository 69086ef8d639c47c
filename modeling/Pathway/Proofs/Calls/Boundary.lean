import Pathway.Proofs.Calls.Equivalence
import Pathway.Proofs.Calls.ReadBack

/-!
# What an evaluation can fail with

Where the learner is known and the modules can be read, one thing is left to fail: a database has no
column for a position beyond 64 bits, and takes the module but not the progression of a learner who
stands there.
-/

open Relation

namespace Pathway

variable {s : Store} {learner : LearnerId} {now : Instant} {limit : Option Nat}
  {ids : List ModuleId} {id : ModuleId} {m : Module} {p : Progression} {f : Failure} {e : Evaluator}
  {σ : Session} {rs : List Request}

/-- The store is a database, and what some modules lead to has an item at a position beyond 64
bits. -/
def Store.Overflows (s : Store) (ids : List ModuleId) : Prop :=
  s.backing = .database ∧ ∃ m, s.getModule m.id = .ok m ∧ s.InClosure ids m.id ∧
    ∃ i ∈ m.items, Number.isSignedWord i.position = false

/-! ## Refusals -/

theorem Store.exists_of_checkProgression (h : s.checkProgression p = .error f) :
    f = .oversizedInteger ∧ s.backing = .database ∧
      ∃ i, p.currentPosition = some i ∧ Number.isSignedWord i = false := by
  cases s with
  | memory d => cases h
  | database r =>
    rw [checkProgression] at h
    cases hi : p.currentPosition with
    | none =>
      rw [hi] at h
      cases h
    | some i =>
      rw [hi] at h
      obtain ⟨hf, hword⟩ := Column.check_eq_error.1 h
      exact ⟨hf, rfl, i, rfl, hword⟩

theorem Refusal.overflows (h : Refusal s learner now limit ids f)
    (hl : s.hasLearner learner = true)
    (hread : ∀ id, s.InClosure ids id → ∃ m, s.getModule id = .ok m) :
    f = .oversizedInteger ∧ s.Overflows ids := by
  rcases h with hno | ⟨hin, hf⟩ | ⟨hin, hp, -, hf⟩
  · cases hl.symm.trans hno
  · obtain ⟨m, hm⟩ := hread _ hin
    cases hm.symm.trans hf
  · obtain ⟨rfl, hdb, i, hi, hword⟩ :=
      Store.exists_of_checkProgression (Store.saveProgression_eq_error.1 hf)
    obtain ⟨m, met, hm, rfl, rfl⟩ := exists_assessment hp
    obtain ⟨item, hitem, rfl⟩ := Assessment.exists_item_of_currentPosition hi
    exact ⟨rfl, hdb, m, hm, hin, item, hitem, hword⟩

theorem refusal_of_position {i : Int} (hdb : s.backing = .database) (hacc : s.Accepted)
    (hin : s.InClosure ids id) (hp : reference s learner now limit id = some p)
    (hi : p.currentPosition = some i) (hword : Number.isSignedWord i = false) :
    Refusal s learner now limit ids .oversizedInteger := by
  have hcheck : s.checkProgression p = .error .oversizedInteger := by
    cases s with
    | memory d => cases hdb
    | database r =>
      rw [Store.checkProgression, hi]
      exact Column.check_eq_error.2 ⟨rfl, hword⟩
  exact refusal_of_check (hacc learner id) hin hp hcheck

theorem evaluate_eq_error (hl : σ.store.hasLearner learner = true)
    (hread : ∀ a, σ.store.InClosure [id] a → ∃ m, σ.store.getModule a = .ok m)
    (hf : Refusal σ.store learner now e.depthLimit [id] f) :
    ∃ τ, e.evaluate now learner id σ = .error .oversizedInteger τ := by
  cases h : e.evaluate now learner id σ with
  | ok p τ =>
    have hfinds : e.Finds now learner σ id p := ⟨τ, h⟩
    exact absurd hf (hfinds.not_refusal f)
  | error g τ =>
    obtain ⟨rfl, -⟩ := ((ends_evaluate e now learner id σ).of_error h).overflows hl hread
    exact ⟨τ, rfl⟩

/-! ## Requests -/

/-- A progression for each module asked for, the learner's own on that module. -/
structure Complete (learner : LearnerId) (ids : List ModuleId)
    (results : List (ModuleId × Progression)) : Prop where
  asked : results.map Prod.fst = ids
  own : ∀ r ∈ results, r.2.IsOf learner r.1

theorem Answered.complete {results : List (ModuleId × Progression)}
    (h : Answered s learner now limit ids results) : Complete learner ids.eraseDups results where
  asked := h.asked
  own r hr := key_of_reference (h.result r hr)

/-- The three ways to ask for progressions are answered in full, unless a position overflows. -/
structure AnswersInFull (σ : Session) (learner : LearnerId) : Prop where
  one : ∀ (e : Evaluator) now id, σ.store.hasModule id = true →
    (e.evaluate now learner id).Ends σ (fun p _ => p.IsOf learner id)
      fun f => f = .oversizedInteger ∧ σ.store.Overflows [id]
  several : ∀ (e : Evaluator) now ids, (∀ id ∈ ids, σ.store.hasModule id = true) →
    (e.evaluateAll now learner ids).Ends σ
      (fun results _ => Complete learner ids.eraseDups results)
      fun f => f = .oversizedInteger ∧ σ.store.Overflows ids
  every : ∀ (e : Evaluator) now,
    (e.evaluateEvery now learner).Ends σ
      (fun results _ => Complete learner (σ.store.moduleIds none) results)
      fun f => f = .oversizedInteger ∧ σ.store.Overflows (σ.store.moduleIds none)

theorem AnswersInFull.exists_results (h : AnswersInFull σ learner) (e : Evaluator) (now : Instant)
    (hids : ∀ id ∈ ids, σ.store.hasModule id = true) (hno : ¬ σ.store.Overflows ids) :
    ∃ results τ, e.evaluateAll now learner ids σ = .ok results τ ∧
      Complete learner ids.eraseDups results :=
  (h.several e now ids hids).exists_ok fun _ hf => hno hf.2

theorem answersInFull (hreads : σ.store.Reads fun x => ∃ m, x = .ok m)
    (hl : σ.store.hasLearner learner = true) : AnswersInFull σ learner := by
  have hover : ∀ {now limit ids f}, (∀ id ∈ ids, σ.store.hasModule id = true) →
      Refusal σ.store learner now limit ids f →
      f = .oversizedInteger ∧ σ.store.Overflows ids := fun hids hf =>
    hf.overflows hl fun _ hin => Store.exists_module_of_inClosure hreads hids hin
  refine ⟨fun e now id hid => ?_, fun e now ids hids => ?_, fun e now => ?_⟩
  · refine (ends_evaluate_caughtUp (.refl σ.store) id).imp (fun p _ hp => ?_) fun f =>
      hover fun a ha => List.mem_singleton.1 ha ▸ hid
    exact hp.1.complete.own (id, p) List.mem_cons_self
  · exact (ends_evaluateAll_caughtUp (.refl σ.store) ids).imp (fun _ _ h => h.1.complete)
      fun f => hover hids
  · refine (ends_evaluateEvery_caughtUp (.refl σ.store)).imp (fun _ _ h => ?_) fun f =>
      hover fun _ => Store.mem_moduleIds.1
    have hcomplete := h.1.complete
    rwa [eraseDups_of_nodup Store.nodup_moduleIds] at hcomplete

/-- Whatever was asked of a database before, if the modules put into it were well formed with finite
thresholds, each evaluation for a learner it knows of modules it holds gives a progression for each
of them, or fails because a position does not fit into its column. -/
theorem database_answers_in_full (rs : List Request)
    (hputs : ∀ r ∈ rs, ∀ m ∈ r.call.puts, m.WellFormed ∧ m.FiniteThresholds) (learner : LearnerId)
    (hl : ((Session.ofStore (.empty .database)).after rs).store.hasLearner learner = true) :
    AnswersInFull ((Session.ofStore (.empty .database)).after rs) learner :=
  answersInFull (reads_after_database hputs) hl

/-! ## With and without overflow -/

theorem not_overflows_of_storable (hputs : ∀ r ∈ rs, ∀ m ∈ r.call.puts, m.Storable)
    (ids : List ModuleId) :
    ¬ ((Session.ofStore (.empty .database)).after rs).store.Overflows ids := by
  rintro ⟨-, m, hm, -, i, hi, hword⟩
  have hreads : ((Session.ofStore (.empty .database)).after rs).store.Reads
      fun x => ∀ m, x = .ok m → m.Storable := by
    refine reads_after fun r hr n hn x hx => ?_
    have hread := Module.ofDocument_document (hputs r hr n hn).toWellFormed (hputs r hr n hn).finite
    cases (congrArg (Checked.orFail .module) hread).symm.trans hx
    exact hputs r hr n hn
  have hstorable := hreads m.id (Store.hasModule_of_getModule hm) m hm
  cases (hstorable.positions i hi).symm.trans hword

theorem sample_database_answers_in_full :
    ∃ results τ, Evaluator.evaluateAll ⟨1, none⟩ ⟨0, 0⟩ "ada" ["orientation"]
        ((Session.ofStore (.empty .database)).after (Sample.edits.take 2)) = .ok results τ ∧
      Complete "ada" ["orientation"] results := by
  have hputs : ∀ r ∈ Sample.edits.take 2, ∀ m ∈ r.call.puts, m = Sample.orientation := by
    simp [Sample.edits, Call.puts]
  have hanswers := database_answers_in_full (Sample.edits.take 2)
    (fun r hr m hm => hputs r hr m hm ▸
      ⟨Sample.wellFormed_orientation, Sample.finiteThresholds_orientation⟩) "ada" rfl
  have hknown : ∀ id ∈ ["orientation"], ((Session.ofStore (.empty .database)).after
      (Sample.edits.take 2)).store.hasModule id = true := by
    intro id hid
    rw [List.mem_singleton.1 hid]
    rfl
  have hno := not_overflows_of_storable
    (fun r hr m hm => hputs r hr m hm ▸ Sample.storable_orientation) ["orientation"]
  obtain ⟨results, τ, heval, hresults⟩ :=
    hanswers.exists_results ⟨1, none⟩ ⟨0, 0⟩ hknown hno
  have hids : ["orientation"].eraseDups = ["orientation"] := rfl
  exact ⟨results, τ, heval, hids ▸ hresults⟩

/-! ## Modules without prerequisites -/

section Alone

variable (hm : s.getModule m.id = .ok m) (h : m.prerequisites = [])
include hm h

theorem not_requires_of_no_prerequisites (b : ModuleId) : ¬ s.Requires m.id b := by
  rintro ⟨⟨n, hn, hb⟩, -⟩
  cases hm.symm.trans hn
  rw [h] at hb
  cases hb

theorem eq_of_inClosure_of_no_prerequisites (hid : s.InClosure [m.id] id) : id = m.id := by
  obtain ⟨a, ha, hreach⟩ := hid
  obtain rfl := List.mem_singleton.1 ha
  rcases ReflTransGen.cases_head hreach with rfl | ⟨b, hb, -⟩
  · rfl
  · exact absurd hb (not_requires_of_no_prerequisites hm h b)

theorem reference_of_no_prerequisites (ho : m.toBeUnlocked now = false) :
    reference s learner now none m.id =
      some (Assessment.unlocked (s.itemFacts learner) learner m
        (s.loadProgression learner m.id)) := by
  have hreach : Reachable s learner now none m := by
    refine ⟨?_, fun b hb => by rw [h] at hb; cases hb⟩
    rintro (hcircle | ⟨n, hn, -⟩)
    · obtain ⟨b, hb, -⟩ := TransGen.head'_iff.1 hcircle
      exact not_requires_of_no_prerequisites hm h b hb
    · cases hn
  have hopen : Assessment.isOpen now m true = true := by rw [Assessment.isOpen, ho]; rfl
  rw [reference_eq hm (iff_of_true rfl hreach), Assessment.progression_of_isOpen hopen]

end Alone

namespace Sample

/-- Two pages, the second at the first position that is too far. -/
def far : Module :=
  ⟨"far", "", 0, [item "first" "" 1 (some .view), item "page" "" (2 ^ 63) (some .view)], [], true,
    0, none⟩

theorem thresholds_far {i : Item} {t : Binary64} (hi : i ∈ far.items) :
    i.requirement ≠ some (.minScore t) := by
  simp only [far, item, List.mem_cons, List.not_mem_nil, or_false] at hi
  rcases hi with rfl | rfl <;> exact fun h => by cases h

theorem wellFormed_far : far.WellFormed where
  id := by decide
  itemIds := by decide
  thresholds _ hi _ ht := absurd ht (thresholds_far hi)
  distinct := by decide
  inOrder := by
    unfold Module.InOrder
    decide
  prerequisites := by decide

theorem finiteThresholds_far : far.FiniteThresholds :=
  fun _ hi _ ht => absurd ht (thresholds_far hi)

theorem position_far {facts : Assessment.Facts} (hfirst : (facts "first" .view).isSome = true)
    (hpage : facts "page" .view = none) : Assessment.position? facts far = some (2 ^ 63) := by
  simp [Assessment.position?, Assessment.walk, far, item, Assessment.passes, Assessment.satisfied,
    Requirement.kind, hfirst, hpage]

theorem evaluate_far (hdb : σ.store.backing = .database) (hacc : σ.store.Accepted)
    (hl : σ.store.hasLearner "ada" = true) (hm : σ.store.getModule far.id = .ok far)
    (hfirst : (σ.store.itemFacts "ada" "first" .view).isSome = true)
    (hpage : σ.store.itemFacts "ada" "page" .view = none) :
    ∃ τ, Evaluator.evaluate ⟨1, none⟩ ⟨0, 0⟩ "ada" "far" σ = .error .oversizedInteger τ := by
  refine evaluate_eq_error hl (fun a ha => ?_)
    (refusal_of_position hdb hacc ⟨"far", List.mem_singleton.2 rfl, .refl⟩
      (reference_of_no_prerequisites hm rfl rfl) (position_far hfirst hpage) (by decide))
  obtain rfl := eq_of_inClosure_of_no_prerequisites hm rfl ha
  exact ⟨far, hm⟩

def putsFar : Request := ⟨⟨1, none⟩, ⟨0, 0⟩, .putModule far none⟩

def readsFirst : Request := ⟨⟨1, none⟩, ⟨0, 0⟩, .record "ada" "first" "must_view" none none⟩

end Sample

/-- A database takes a well-formed module with finite thresholds, and fails to evaluate it for a
learner it knows. -/
theorem oversized_position_not_answered :
    Sample.far.WellFormed ∧ Sample.far.FiniteThresholds ∧
    ∃ τ, Evaluator.evaluate ⟨1, none⟩ ⟨0, 0⟩ "ada" "far"
      ((Session.ofStore (.empty .database)).after
        [⟨⟨1, none⟩, ⟨0, 0⟩, .addLearner "ada" "Ada"⟩, Sample.putsFar, Sample.readsFirst]) =
      .error .oversizedInteger τ := by
  refine ⟨Sample.wellFormed_far, Sample.finiteThresholds_far,
    Sample.evaluate_far rfl (accepted_after (.empty .database) _) rfl ?_ rfl rfl⟩
  exact congrArg (Checked.orFail .module)
    (Module.ofDocument_document Sample.wellFormed_far Sample.finiteThresholds_far)

end Pathway
