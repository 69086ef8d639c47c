import Pathway.Command.WriteReport
import Pathway.Proofs.Calls.Boundary
import Pathway.Proofs.Calls.Isolation
import Pathway.Proofs.Report.Table

/-!
# The report of a database

A report evaluates one learner after the other, and each gets what an evaluation for that learner
alone gives. So it has a row for each learner and each module that is selected, or it is refused
because one of the evaluations is.
-/

namespace Pathway.Command.WriteReport

open Evaluation

variable {e : Evaluator} {now : Instant} {course : Option CourseId}
  {l learner : LearnerId} {ids modules : List ModuleId} {learners : List LearnerId}
  {σ τ υ : Session} {f : Failure} {ps : Report.Progressions}
  {results : List (ModuleId × Progression)}

/-! ## One learner after the other -/

theorem outcome_evaluateAll (h : σ.store.AgreesFor {l} τ.store) :
    (e.evaluateAll now l ids).outcome τ = (e.evaluateAll now l ids).outcome σ :=
  (((Store.AgreesFor.accord {l}).evaluateAll rfl h).imp fun _ _ h => h.eq).outcome_eq

theorem agreesFor_evaluateAll (h : e.evaluateAll now learner ids τ = .ok results υ)
    (hne : l ≠ learner) : τ.store.AgreesFor {l} υ.store := by
  have hnext := keepsBut_next (r := ⟨e, now, .evaluateAll learner (some ids)⟩) trivial τ
  rw [Session.next_eq_finish, Call.perform, Action.finish_bind fun _ _ => rfl, Action.finish, h]
    at hnext
  exact hnext.agreesFor hne

theorem store_forM_note (n : Option Notice) :
    ∃ υ, n.forM Action.note τ = .ok () υ ∧ υ.store = τ.store := by
  cases n with
  | none => exact ⟨τ, rfl, rfl⟩
  | some n => exact ⟨τ.note n, rfl, rfl⟩

theorem outcome_evaluateNext (n : Option Notice) (h : σ.store.AgreesFor {learner} τ.store) :
    (∃ results υ, (e.evaluateAll now learner modules).outcome σ = .ok results ∧
        evaluateNext e now modules n learner τ = .ok (learner, results) υ ∧
        ∀ l, l ≠ learner → τ.store.AgreesFor {l} υ.store) ∨
      ∃ f υ, (e.evaluateAll now learner modules).outcome σ = .error f ∧
        evaluateNext e now modules n learner τ = .error f υ := by
  rw [← outcome_evaluateAll h]
  cases hp : e.evaluateAll now learner modules τ with
  | error f υ => exact Or.inr ⟨f, υ, Action.outcome_of_error hp, Action.bind_of_error hp⟩
  | ok results υ =>
    obtain ⟨υ', hnote, hstore⟩ := store_forM_note (τ := υ) n
    refine Or.inl ⟨results, υ', Action.outcome_of_ok hp, ?_, fun l hne => ?_⟩
    · rw [evaluateNext, Action.bind_of_ok hp, Action.bind_of_ok hnote]
      rfl
    · rw [hstore]
      exact agreesFor_evaluateAll hp hne

theorem outcome_zipIdx (total : Nat) (hn : learners.Nodup)
    (h : ∀ l ∈ learners, σ.store.AgreesFor {l} τ.store) (k : Nat) :
    ((learners.zipIdx k).mapM fun (l, i) =>
        evaluateNext e now modules (progressNotice? (i + 1) total) l).outcome τ =
      learners.mapM fun l => ((e.evaluateAll now l modules).outcome σ).map (l, ·) := by
  induction learners generalizing τ k with
  | nil => rfl
  | cons l ls ih =>
    obtain ⟨hl, hn⟩ := List.nodup_cons.1 hn
    obtain ⟨hagree, h⟩ := List.forall_mem_cons.1 h
    rw [List.zipIdx_cons, List.mapM_cons, List.mapM_cons]
    obtain ⟨results, υ, hout, hstep, hothers⟩ | ⟨f, υ, hout, hstep⟩ :=
      outcome_evaluateNext (progressNotice? (k + 1) total) hagree
    · have hrest := ih hn (fun l' hl' => (h l' hl').trans
        (hothers l' fun he => hl (he ▸ hl'))) (k + 1)
      rw [Action.outcome_bind_of_ok hstep, Action.outcome_bind_pure, hrest, hout]
      cases ls.mapM fun l => ((e.evaluateAll now l modules).outcome σ).map (l, ·) <;> rfl
    · rw [Action.outcome_bind_of_error hstep, hout]
      rfl

theorem outcome_collect (e : Evaluator) (now : Instant) (course : Option CourseId) (σ : Session) :
    (collect e now course).outcome σ = σ.store.learnerIds.mapM fun l =>
      ((e.evaluateAll now l (σ.store.moduleIds course)).outcome σ).map (l, ·) :=
  outcome_zipIdx (τ := σ.note _) σ.store.learnerIds.length Store.nodup_learnerIds
    (fun _ _ => .refl σ.store) 0

/-! ## The tables of a report -/

theorem map_fst_of_evaluateAll (hn : ids.Nodup)
    (h : (e.evaluateAll now learner ids).outcome σ = .ok results) :
    results.map Prod.fst = ids := by
  obtain ⟨υ, hυ⟩ := Action.outcome_eq_ok.1 h
  obtain ⟨memo, hev, rfl⟩ := (ends_evaluateAll e now learner ids σ).of_ok hυ
  rw [eraseDups_of_nodup hn]
  exact map_fst_answers fun id hid =>
    (hev.exists_result (Evaluated.inClosure_of_mem hid)).imp fun _ h => h.2

/-- There are the progressions of all modules for each of the learners, as evaluations for one
learner alone give them. The tables have them all, and each row of the summary has all learners. -/
structure Covers (e : Evaluator) (now : Instant) (σ : Session) (modules : List ModuleId)
    (learners : List LearnerId) (ps : Report.Progressions) : Prop where
  mapping : Report.IsMapping ps
  who : ps.map Prod.fst = learners
  each : ∀ l ∈ ps, l.2.map Prod.fst = modules
  own : ∀ l ∈ ps, (e.evaluateAll now l.1 modules).outcome σ = .ok l.2
  rows : (Report.rows ps).length = learners.length * modules.length
  shown : learners ≠ [] →
    ∀ id ∈ modules, id ∈ (Report.summary (Report.rows ps)).map (·.module)
  total : ∀ r ∈ Report.summary (Report.rows ps), r.module ∈ modules ∧
    r.count .locked + r.count .unlocked + r.count .started + r.count .completed = learners.length

theorem Covers.not_refusal (h : Covers e now σ modules learners ps) (hl : l ∈ learners) :
    ¬ Refusal σ.store l now e.depthLimit modules f := by
  intro hf
  obtain ⟨f', τ, he⟩ := exists_error_of_refusal hf
  rw [← h.who] at hl
  obtain ⟨x, hx, rfl⟩ := List.mem_map.1 hl
  have hown := h.own x hx
  rw [Action.outcome_of_error he] at hown
  cases hown

section Tables

variable (heach : ∀ l ∈ ps, l.2.map Prod.fst = modules)
include heach

theorem length_rows : (Report.rows ps).length = ps.length * modules.length := by
  have hlengths : ∀ l ∈ ps, (l.2.map fun x => Report.rowOf l.1 x.1 x.2).length = modules.length :=
    fun l hl => by rw [List.length_map, ← heach l hl, List.length_map]
  rw [Report.rows_perm.length_eq, Report.listed, List.length_flatMap,
    List.map_congr_left hlengths, List.map_const', List.sum_replicate_nat]

theorem mem_modules_of_rows {id : ModuleId} (h : id ∈ (Report.rows ps).map (·.module)) :
    id ∈ modules := by
  obtain ⟨r, hr, rfl⟩ := List.mem_map.1 h
  obtain ⟨l, hl, hr⟩ := List.mem_flatMap.1 (Report.rows_perm.mem_iff.1 hr)
  obtain ⟨x, hx, rfl⟩ := List.mem_map.1 hr
  exact heach l hl ▸ List.mem_map.2 ⟨x, hx, rfl⟩

theorem mem_rows_of_mem {id : ModuleId} (hps : ps ≠ []) (hid : id ∈ modules) :
    id ∈ (Report.rows ps).map (·.module) := by
  obtain ⟨l, hl⟩ := List.exists_mem_of_ne_nil ps hps
  rw [← heach l hl] at hid
  obtain ⟨x, hx, rfl⟩ := List.mem_map.1 hid
  refine List.mem_map.2 ⟨Report.rowOf l.1 x.1 x.2, Report.rows_perm.mem_iff.2 ?_, rfl⟩
  exact List.mem_flatMap.2 ⟨l, hl, List.mem_map.2 ⟨x, hx, rfl⟩⟩

theorem covers (hn : modules.Nodup) (hmapping : (ps.map Prod.fst).Nodup)
    (hown : ∀ l ∈ ps, (e.evaluateAll now l.1 modules).outcome σ = .ok l.2) :
    Covers e now σ modules (ps.map Prod.fst) ps := by
  have hps : Report.IsMapping ps := ⟨hmapping, fun l hl => (heach l hl).symm ▸ hn⟩
  have hsum := Report.summarizes_summary hps Report.rows_perm
  refine ⟨hps, rfl, heach, hown, ?_, fun hne id hid => ?_, fun r hr => ?_⟩
  · rw [List.length_map]
    exact length_rows heach
  · exact (hsum.mem id).2 (mem_rows_of_mem heach (fun h => hne (congrArg _ h)) hid)
  · have hr' := mem_modules_of_rows heach ((hsum.mem r.module).1 (List.mem_map.2 ⟨r, hr, rfl⟩))
    refine ⟨hr', ?_⟩
    rw [hsum.total r hr, hsum.learners r hr, List.length_map]
    -- Each of the learners has the module.
    refine List.countP_eq_length.2 fun l hl => ?_
    rw [← heach l hl] at hr'
    obtain ⟨x, hx, hxr⟩ := List.mem_map.1 hr'
    exact List.any_eq_true.2 ⟨x, hx, beq_iff_eq.2 hxr⟩

end Tables

theorem own_of_mapM {g : LearnerId → Except Failure (List (ModuleId × Progression))}
    (h : learners.mapM (fun l => (g l).map (l, ·)) = .ok ps) :
    ps.map Prod.fst = learners ∧ ∀ l ∈ ps, g l.1 = .ok l.2 := by
  have hall := forall₂_of_mapM h
  clear h
  induction hall with
  | nil => exact ⟨rfl, fun _ hl => by cases hl⟩
  | @cons l x ls ps hx _ ih =>
    obtain ⟨hwho, hown⟩ := ih
    cases hg : g l with
    | error f =>
      rw [hg] at hx
      cases hx
    | ok results =>
      rw [hg] at hx
      cases hx
      exact ⟨congrArg (l :: ·) hwho, List.forall_mem_cons.2 ⟨hg, hown⟩⟩

/-- The report covers all learners and the selected modules, or fails as said. -/
def CoversUnless (e : Evaluator) (now : Instant) (course : Option CourseId) (σ : Session)
    (E : Failure → Prop) : Prop :=
  (collect e now course).Ends σ
    (fun ps _ => Covers e now σ (σ.store.moduleIds course) σ.store.learnerIds ps) E

theorem coversUnless (e : Evaluator) (now : Instant) (course : Option CourseId) (σ : Session) :
    CoversUnless e now course σ fun f => ∃ l ∈ σ.store.learnerIds,
      Refusal σ.store l now e.depthLimit (σ.store.moduleIds course) f := by
  have hout := outcome_collect e now course σ
  unfold CoversUnless Action.Ends
  cases hc : collect e now course σ with
  | ok ps τ =>
    rw [Action.outcome_of_ok hc] at hout
    obtain ⟨hwho, hown⟩ := own_of_mapM hout.symm
    have hcovers := covers (fun l hl => map_fst_of_evaluateAll (Store.nodup_selected _ _)
      (hown l hl)) (Store.nodup_selected _ _) (hwho ▸ Store.nodup_learnerIds) hown
    exact hwho ▸ hcovers
  | error f τ =>
    rw [Action.outcome_of_error hc] at hout
    obtain ⟨l, hl, hf⟩ := exists_of_mapM_error hout.symm
    refine ⟨l, hl, ?_⟩
    cases he : e.evaluateAll now l (σ.store.moduleIds course) σ with
    | ok results υ =>
      rw [Action.outcome_of_ok he] at hf
      cases hf
    | error f' υ =>
      rw [Action.outcome_of_error he] at hf
      cases hf
      exact (ends_evaluateAll e now l _ σ).of_error he

/-! ## Reports of databases -/

/-- Where all modules can be read, nothing but a position can stop a report. -/
theorem coversUnless_overflows (hreads : σ.store.Reads fun x => ∃ m, x = .ok m) (e : Evaluator)
    (now : Instant) (course : Option CourseId) :
    CoversUnless e now course σ fun f =>
      f = .oversizedInteger ∧ σ.store.Overflows (σ.store.moduleIds course) := by
  refine (coversUnless e now course σ).imp (fun _ _ h => h) ?_
  rintro f ⟨l, hl, hf⟩
  refine hf.overflows (Store.mem_learnerIds.1 hl) fun id hid => ?_
  exact Store.exists_module_of_inClosure hreads (fun _ => Store.hasModule_of_selected) hid

end Pathway.Command.WriteReport

namespace Pathway

open Evaluation

namespace Sample

/-- A learner has read the page before the one that is too far. -/
def reader : Session :=
  (Session.ofStore (.empty .database)).after
    [⟨⟨1, none⟩, ⟨0, 0⟩, .addLearner "ada" "Ada"⟩, putsFar, readsFirst]

theorem getModule_reader : reader.store.getModule far.id = .ok far :=
  congrArg (Checked.orFail .module)
    (Module.ofDocument_document wellFormed_far finiteThresholds_far)

theorem reads_reader : reader.store.Reads fun x => ∃ m, x = .ok m := by
  have hputs : ∀ r ∈ [⟨⟨1, none⟩, ⟨0, 0⟩, .addLearner "ada" "Ada"⟩, putsFar, readsFirst],
      ∀ m ∈ r.call.puts, m = far := by
    simp [putsFar, readsFirst, Call.puts]
  refine reads_after_database fun r hr m hm => ?_
  rw [hputs r hr m hm]
  exact ⟨wellFormed_far, finiteThresholds_far⟩

theorem refusal_reader :
    Refusal reader.store "ada" ⟨0, 0⟩ none (reader.store.moduleIds none) .oversizedInteger := by
  have hfirst : (reader.store.itemFacts "ada" "first" .view).isSome = true := rfl
  have hpage : reader.store.itemFacts "ada" "page" .view = none := rfl
  refine refusal_of_position rfl (accepted_after (.empty .database) _) ?_
    (reference_of_no_prerequisites getModule_reader rfl rfl) (position_far hfirst hpage)
    (by decide)
  exact ⟨"far", Store.mem_moduleIds.2 rfl, .refl⟩

end Sample

end Pathway

namespace Pathway.Command.WriteReport

/-- The rows of a report are all progressions, with one row for each learner and module, and the
summary counts each of them once. So a report of a store has a row for each learner and selected
module and counts all learners for each of these modules, unless the evaluation of a learner is
refused. A database that was given well-formed modules with finite thresholds refuses none but for a
position that does not fit into its column. -/
theorem progressions_are_counted_once (h : Report.IsMapping ps) (e : Evaluator) (now : Instant)
    (course : Option CourseId) (σ : Session) (rs : List Request)
    (hputs : ∀ r ∈ rs, ∀ m ∈ r.call.puts, m.WellFormed ∧ m.FiniteThresholds) :
    Report.Tabulates ps (Report.rows ps) ∧
    Report.Summarizes ps (Report.rows ps) (Report.summary (Report.rows ps)) ∧
    CoversUnless e now course σ (fun f => ∃ l ∈ σ.store.learnerIds,
      Refusal σ.store l now e.depthLimit (σ.store.moduleIds course) f) ∧
    CoversUnless e now course ((Session.ofStore (.empty .database)).after rs) fun f =>
      f = .oversizedInteger ∧ ((Session.ofStore (.empty .database)).after rs).store.Overflows
        (((Session.ofStore (.empty .database)).after rs).store.moduleIds course) := by
  refine ⟨Report.tabulates_rows h, Report.summarizes_summary h Report.rows_perm, ?_, ?_⟩
  · exact coversUnless e now course σ
  · exact coversUnless_overflows (reads_after_database hputs) e now course

theorem sample_progressions_are_counted_once :
    Report.Tabulates Sample.twoLearners (Report.rows Sample.twoLearners) ∧
    Report.Summarizes Sample.twoLearners (Report.rows Sample.twoLearners)
      (Report.summary (Report.rows Sample.twoLearners)) ∧
    (∃ ps τ, collect ⟨1, none⟩ ⟨0, 0⟩ none (Session.ofStore Sample.store) = .ok ps τ ∧
      ps.map Prod.fst = ["ada"]) ∧
    ∃ ps τ, collect ⟨1, none⟩ ⟨0, 0⟩ none
        ((Session.ofStore (.empty .database)).after (Sample.edits.take 2)) = .ok ps τ ∧
      ps.map Prod.fst = ["ada"] := by
  have hputs : ∀ r ∈ Sample.edits.take 2, ∀ m ∈ r.call.puts, m = Sample.orientation := by
    simp [Sample.edits, Call.puts]
  obtain ⟨htable, hsummary, hmemory, hdatabase⟩ :=
    progressions_are_counted_once Sample.isMapping_twoLearners ⟨1, none⟩ ⟨0, 0⟩ none
      (Session.ofStore Sample.store) (Sample.edits.take 2) fun r hr m hm => hputs r hr m hm ▸
        ⟨Sample.wellFormed_orientation, Sample.finiteThresholds_orientation⟩
  refine ⟨htable, hsummary, ?_, ?_⟩
  · obtain ⟨ps, τ, hok, hcovers⟩ := hmemory.exists_ok fun f => by
      rintro ⟨l, hl, hf⟩
      obtain rfl := List.mem_singleton.1 hl
      exact Sample.not_refusal_store (fun _ => Store.hasModule_of_selected) hf
    exact ⟨ps, τ, hok, hcovers.who⟩
  · obtain ⟨ps, τ, hok, hcovers⟩ := hdatabase.exists_ok fun f hf => by
      refine not_overflows_of_storable (fun r hr m hm => ?_) _ hf.2
      exact hputs r hr m hm ▸ Sample.storable_orientation
    exact ⟨ps, τ, hok, hcovers.who⟩

/-- One learner who stands at a position beyond its column stops the report of a database. -/
theorem oversized_position_stops_report :
    Sample.far.WellFormed ∧ Sample.far.FiniteThresholds ∧
    ∃ τ, collect ⟨1, none⟩ ⟨0, 0⟩ none Sample.reader = .error .oversizedInteger τ := by
  refine ⟨Sample.wellFormed_far, Sample.finiteThresholds_far, ?_⟩
  have hends := coversUnless_overflows Sample.reads_reader ⟨1, none⟩ ⟨0, 0⟩ none
  cases hc : collect ⟨1, none⟩ ⟨0, 0⟩ none Sample.reader with
  | ok ps τ =>
    have hada : "ada" ∈ Sample.reader.store.learnerIds := Store.mem_learnerIds.2 rfl
    exact absurd Sample.refusal_reader ((hends.of_ok hc).not_refusal hada)
  | error f τ =>
    obtain ⟨rfl, -⟩ := hends.of_error hc
    exact ⟨τ, rfl⟩

end Pathway.Command.WriteReport
