import Pathway.Proofs.Evaluation.Assessment
import Pathway.Proofs.Evaluation.Trail
import Pathway.Proofs.Store

/-!
# What an evaluation reports

An evaluation reports a circle of each cyclic component and the flaws of each module, once the
module has its progression. An issue joins the others, and the journal, unless one of its class and
its text is among them.
-/

namespace Pathway

open Evaluation Assessment

/-! ## Texts -/

theorem head?_append {a b : String} {c : Char} (h : a.toList.head? = some c) :
    (a ++ b).toList.head? = some c := by
  rw [String.toList_append, List.head?_append, h, Option.some_or]

theorem getLast?_append {a b : String} {c : Char} (h : b.toList.getLast? = some c) :
    (a ++ b).toList.getLast? = some c := by
  rw [String.toList_append, List.getLast?_append, h, Option.some_or]

/-! ## Class and text -/

inductive IssueClass where
  | malformedGraph
  | unsatisfiableCount
  | inconsistentFact
deriving DecidableEq, Repr

namespace Issue

variable {i j : Issue}

def sort : Issue → IssueClass
  | circularPrerequisites _ => .malformedGraph
  | excessiveCount .. => .unsatisfiableCount
  | unusableFact .. => .inconsistentFact

/-- Issues are told apart by their class and their text. -/
def pair (i : Issue) : IssueClass × String := (i.sort, i.message)

theorem same_iff : i.same j = true ↔ i.pair = j.pair := by
  cases i <;> cases j <;> simp [same, pair, sort]

theorem any_same_iff {is : List Issue} : is.any i.same = true ↔ i.pair ∈ is.map pair := by
  rw [List.any_eq_true, List.mem_map]
  exact exists_congr fun j => and_congr_right fun _ => same_iff.trans eq_comm

/-- The first letter of the text tells the class. -/
def initial : IssueClass → Char
  | .malformedGraph => 'C'
  | .unsatisfiableCount => 'M'
  | .inconsistentFact => 'I'

theorem head?_message (i : Issue) : i.message.toList.head? = some (initial i.sort) := by
  cases i with
  | circularPrerequisites circle => exact head?_append (by simp [sort, initial])
  | excessiveCount m r a =>
    refine head?_append (a := s!"Module {m} requires {r} requirements but has {a}; ") ?_
    repeat apply head?_append
    rfl
  | unusableFact learner m i flaw =>
    unfold message
    repeat apply head?_append
    rfl

theorem notice_eq_iff : i.notice = j.notice ↔ i.pair = j.pair := by
  constructor
  · intro h
    have hmessage : i.message = j.message := congrArg Notice.message h
    have hinitial : initial i.sort = initial j.sort := by
      rw [← Option.some.injEq, ← head?_message, ← head?_message, hmessage]
    have hsort : i.sort = j.sort := by
      cases hi : i.sort <;> cases hj : j.sort <;> simp_all [initial]
    exact Prod.ext hsort hmessage
  · intro h
    obtain ⟨hsort, hmessage⟩ := Prod.ext_iff.1 h
    have hlevel : i.level = j.level := by
      cases i <;> cases j <;> first | rfl | cases hsort
    exact congrArg₂ Notice.mk hlevel hmessage

theorem count_notice {is : List Issue} :
    (is.map notice).count i.notice = (is.map pair).count i.pair := by
  rw [List.count, List.count, List.countP_map, List.countP_map]
  refine List.countP_congr fun j _ => ?_
  simp only [Function.comp_apply, beq_iff_eq, notice_eq_iff]

end Issue

/-! ## Notices that are not of issues -/

def Notice.OfIssue (n : Notice) : Prop := ∃ i : Issue, i.notice = n

theorem not_ofIssue_of_head? {n : Notice} {c : Char} (h : n.message.toList.head? = some c)
    (hc : ∀ s, Issue.initial s ≠ c) : ¬ n.OfIssue := by
  rintro ⟨i, rfl⟩
  exact hc _ (Option.some.inj ((i.head?_message).symm.trans h))

theorem head?_evaluatedNotice (p : Progression) :
    (evaluatedNotice p).message.toList.head? = some 'E' := by
  unfold evaluatedNotice
  repeat apply head?_append
  decide

theorem head?_tooDeepNotice (run : Run) (c : Graph.Component) :
    (tooDeepNotice run c).message.toList.head? = some 'P' := by
  unfold tooDeepNotice
  repeat apply head?_append
  decide

theorem head?_unknownNotice (p : ModuleId × ModuleId) :
    (unknownNotice p).message.toList.head? = some 'M' := by
  unfold unknownNotice
  repeat apply head?_append
  decide

theorem not_ofIssue_evaluatedNotice (p : Progression) : ¬ (evaluatedNotice p).OfIssue :=
  not_ofIssue_of_head? (head?_evaluatedNotice p) (by intro s; cases s <;> decide)

theorem not_ofIssue_tooDeepNotice (run : Run) (c : Graph.Component) :
    ¬ (tooDeepNotice run c).OfIssue :=
  not_ofIssue_of_head? (head?_tooDeepNotice run c) (by intro s; cases s <;> decide)

theorem not_ofIssue_unknownNotice (p : ModuleId × ModuleId) : ¬ (unknownNotice p).OfIssue := by
  rintro ⟨i, h⟩
  have hmessage : i.message = (unknownNotice p).message := congrArg Notice.message h
  have hfirst : i.message.toList.head? = some 'M' := by
    rw [hmessage, head?_unknownNotice]
  have hlast : i.message.toList.getLast? = some 'g' := by
    rw [hmessage]
    exact getLast?_append (by decide)
  cases i with
  | circularPrerequisites => cases hfirst.symm.trans (Issue.head?_message _)
  | excessiveCount m r a =>
    -- The first letters agree, but a count is needed and an unknown module passed over.
    have hneeded : (Issue.excessiveCount m r a).message.toList.getLast? = some 'd' :=
      getLast?_append (getLast?_append (by decide))
    cases hneeded.symm.trans hlast
  | unusableFact => cases hfirst.symm.trans (Issue.head?_message _)

/-! ## What a session tells -/

namespace Session

variable {σ τ υ : Session} {i : Issue} {is js : List Issue} {n : Notice}

open Classical in
/-- The notices of issues in the journal. -/
noncomputable def tellings (σ : Session) : List Notice := σ.journal.toList.filter Notice.OfIssue

theorem tellings_note (h : ¬ n.OfIssue) : (σ.note n).tellings = σ.tellings := by
  simp [tellings, note, h]

theorem tellings_report_of_new (h : σ.issues.any i.same = false) :
    (σ.report i).issues = σ.issues ++ [i] ∧
      (σ.report i).tellings = σ.tellings ++ [i.notice] := by
  have hi : i.notice.OfIssue := ⟨i, rfl⟩
  rw [report, h, if_neg Bool.false_ne_true]
  exact ⟨rfl, by simp [tellings, hi]⟩

theorem reportAll_cons : σ.reportAll (i :: is) = (σ.report i).reportAll is := rfl

theorem reportAll_congr (is : List Issue) (h : τ.issues = σ.issues)
    (ht : τ.tellings = σ.tellings) :
    (τ.reportAll is).issues = (σ.reportAll is).issues ∧
      (τ.reportAll is).tellings = (σ.reportAll is).tellings := by
  induction is generalizing σ τ with
  | nil => exact ⟨h, ht⟩
  | cons i is ih =>
    rw [reportAll_cons, reportAll_cons]
    cases hi : σ.issues.any i.same with
    | true =>
      rw [report_of_reported hi, report_of_reported (h ▸ hi : τ.issues.any i.same = true)]
      exact ih h ht
    | false =>
      obtain ⟨hσ, hσt⟩ := tellings_report_of_new hi
      obtain ⟨hτ, hτt⟩ := tellings_report_of_new (h ▸ hi : τ.issues.any i.same = false)
      exact ih (by rw [hσ, hτ, h]) (by rw [hσt, hτt, ht])

theorem exists_added (σ : Session) (is : List Issue) :
    ∃ new, (σ.reportAll is).issues = σ.issues ++ new ∧
      (σ.reportAll is).tellings = σ.tellings ++ new.map Issue.notice := by
  induction is generalizing σ with
  | nil => exact ⟨[], by simp [reportAll], by simp [reportAll]⟩
  | cons i is ih =>
    rw [reportAll_cons]
    cases hi : σ.issues.any i.same with
    | true =>
      rw [report_of_reported hi]
      exact ih σ
    | false =>
      obtain ⟨new, hnew, hnewt⟩ := ih (σ.report i)
      obtain ⟨hσ, hσt⟩ := tellings_report_of_new hi
      rw [hnew, hnewt, hσ, hσt, List.append_assoc, List.append_assoc]
      exact ⟨i :: new, rfl, rfl⟩

theorem mem_pair_reportAll : i.pair ∈ (σ.reportAll is).issues.map Issue.pair ↔
    i.pair ∈ σ.issues.map Issue.pair ∨ i.pair ∈ is.map Issue.pair := by
  rw [← Issue.any_same_iff, any_reportAll, Bool.or_eq_true, Issue.any_same_iff, Issue.any_same_iff]

theorem nodup_pair_reportAll (h : (σ.issues.map Issue.pair).Nodup) :
    ((σ.reportAll is).issues.map Issue.pair).Nodup := by
  induction is generalizing σ with
  | nil => exact h
  | cons i is ih =>
    refine ih (σ := σ.report i) ?_
    cases hi : σ.issues.any i.same with
    | true => rwa [report_of_reported hi]
    | false =>
      rw [(tellings_report_of_new hi).1, List.map_append]
      have hnew : i.pair ∉ σ.issues.map Issue.pair := by
        rw [← Issue.any_same_iff, hi]
        exact Bool.false_ne_true
      refine List.nodup_append.2 ⟨h, List.nodup_singleton _, ?_⟩
      rintro a ha b hb rfl
      exact hnew (List.mem_singleton.1 hb ▸ ha)

/-! ### From one session to another -/

/-- From `σ` to `τ` the issues were reported, and whatever else was noted is not of an issue. -/
structure Told (σ : Session) (is : List Issue) (τ : Session) : Prop where
  issues : τ.issues = (σ.reportAll is).issues
  tellings : τ.tellings = (σ.reportAll is).tellings
  journal : σ.journal.toList <+: τ.journal.toList

theorem journal_report : σ.journal.toList <+: (σ.report i).journal.toList := by
  unfold report
  split
  · exact List.prefix_rfl
  · simp

theorem journal_reportAll : σ.journal.toList <+: (σ.reportAll is).journal.toList := by
  induction is generalizing σ with
  | nil => exact List.prefix_rfl
  | cons i is ih => exact journal_report.trans ih

theorem told_reportAll (σ : Session) (is : List Issue) : σ.Told is (σ.reportAll is) :=
  ⟨rfl, rfl, journal_reportAll⟩

theorem told_report (σ : Session) (i : Issue) : σ.Told [i] (σ.report i) := told_reportAll σ [i]

theorem told_note (h : ¬ n.OfIssue) : σ.Told [] (σ.note n) :=
  ⟨rfl, tellings_note h, by simp [note]⟩

theorem told_withSave (s : Store) : σ.Told [] (σ.withSave s) := ⟨rfl, rfl, List.prefix_rfl⟩

theorem Told.refl (σ : Session) : σ.Told [] σ := ⟨rfl, rfl, List.prefix_rfl⟩

theorem Told.trans (h : σ.Told is τ) (g : τ.Told js υ) : σ.Told (is ++ js) υ := by
  obtain ⟨hissues, htellings⟩ := reportAll_congr js h.issues h.tellings
  rw [← reportAll_append] at hissues htellings
  exact ⟨g.issues.trans hissues, g.tellings.trans htellings, h.journal.trans g.journal⟩

theorem told_noteAll {ns : List Notice} (h : ∀ n ∈ ns, ¬ n.OfIssue) : σ.Told [] (σ.noteAll ns) := by
  induction ns generalizing σ with
  | nil => exact .refl σ
  | cons n ns ih =>
    obtain ⟨hn, hns⟩ := List.forall_mem_cons.1 h
    exact (told_note hn).trans (ih hns)

theorem Told.exists_logged (h : σ.Told is τ) :
    ∃ new logged, τ.issues = σ.issues ++ new ∧ τ.journal.toList = σ.journal.toList ++ logged ∧
      ∀ i : Issue, logged.count i.notice = (new.map Issue.pair).count i.pair := by
  classical
  obtain ⟨new, hissues, htellings⟩ := exists_added σ is
  obtain ⟨logged, hlogged⟩ := h.journal
  have hall : τ.tellings = σ.tellings ++ logged.filter Notice.OfIssue := by
    unfold Session.tellings
    rw [← hlogged, List.filter_append]
  rw [h.tellings, htellings] at hall
  refine ⟨new, logged, h.issues.trans hissues, hlogged.symm, fun i => ?_⟩
  rw [← Issue.count_notice, List.append_cancel_left hall, List.count_filter]
  exact decide_eq_true ⟨i, rfl⟩

end Session

/-! ## What a run makes -/

/-- The flaws of a module and its facts. A count is told always, a fact where the module is open. -/
def findings (facts : Facts) (learner : LearnerId) (x : Module × Progression) : List Issue :=
  countIssues x.1 ++ if x.2.isLocked then [] else factIssues facts learner x.1

def Evaluation.Memo.with (memo : Memo) (found : List (Module × Progression)) : Memo :=
  found.foldl (fun memo x => memo.insert x.1.id x.2) memo

/-- On its way from `σ` to `τ` the run reported some circles, came to the progressions of some
modules, one after the other, and reported what it found on them. -/
structure Evaluation.Run.Made (run : Run) (σ : Session) (memo : Memo)
    (circles : List (List ModuleId)) (found : List (Module × Progression)) (τ : Session)
    (memo' : Memo) : Prop where
  memo : memo' = memo.with found
  facts : τ.store.itemFacts = σ.store.itemFacts
  told : ∃ is, σ.Told is τ ∧ ∀ i, i ∈ is ↔ i ∈ circles.map Issue.circularPrerequisites ∨
    i ∈ found.flatMap (findings (σ.store.itemFacts run.learner) run.learner)

variable {run : Run} {m : Module} {met : Bool} {memo memo' memo'' : Memo} {p : Progression}
  {circles circles' : List (List ModuleId)} {found found' : List (Module × Progression)}
  {x : Module × Progression} {id : ModuleId} {e : Evaluator} {now : Instant} {learner : LearnerId}
  {ids : List ModuleId} {σ τ υ : Session}

theorem getElem?_with_of_notMem (h : id ∉ found.map (·.1.id)) :
    (memo.with found)[id]? = memo[id]? := by
  unfold Memo.with
  induction found generalizing memo with
  | nil => rfl
  | cons x found ih =>
    rw [List.map_cons, List.mem_cons, not_or] at h
    rw [List.foldl_cons, ih h.2, Table.getElem?_insert, if_neg (Ne.symm h.1)]

theorem getElem?_with_of_mem (hn : (found.map (·.1.id)).Nodup) (hx : x ∈ found) :
    (memo.with found)[x.1.id]? = some x.2 := by
  induction found generalizing memo with
  | nil => cases hx
  | cons y found ih =>
    obtain ⟨hy, hn⟩ := List.nodup_cons.1 hn
    rcases List.mem_cons.1 hx with rfl | hx
    · -- The ids are distinct, so what is inserted later leaves this one alone.
      have hkept : (Memo.with (memo.insert x.1.id x.2) found)[x.1.id]? = _ :=
        getElem?_with_of_notMem hy
      rw [Table.getElem?_insert, if_pos rfl] at hkept
      exact hkept
    · exact ih hn hx

theorem issuesIn_eq_findings {s : Store} (hp : progressionIn run s m met = p) :
    issuesIn run s m met = findings (s.itemFacts run.learner) run.learner (m, p) := by
  subst hp
  unfold issuesIn issues findings progressionIn progression
  split
  · rw [isLocked_unlocked]
    rfl
  · rfl

namespace Evaluation.Run.Made

theorem start : run.Made σ memo [] [] σ memo := ⟨rfl, rfl, [], .refl σ, by simp⟩

theorem trans (h : run.Made σ memo circles found τ memo')
    (g : run.Made τ memo' circles' found' υ memo'') :
    run.Made σ memo (circles ++ circles') (found ++ found') υ memo'' := by
  obtain ⟨rfl, hfacts, is, his, hall⟩ := h
  obtain ⟨rfl, hfacts', js, hjs, hall'⟩ := g
  -- The facts stay, so the second part finds in them what it would have found before the first.
  refine ⟨List.foldl_append.symm, hfacts'.trans hfacts, is ++ js, his.trans hjs, fun i => ?_⟩
  rw [List.mem_append, hall, hall', hfacts, List.map_append, List.flatMap_append, List.mem_append,
    List.mem_append]
  exact or_or_or_comm

theorem of_told (h : run.Made σ memo circles found τ memo') (hσ : υ.store = σ.store)
    (ht : υ.Told [] σ) : run.Made υ memo circles found τ memo' := by
  obtain ⟨rfl, hfacts, is, his, hall⟩ := h
  exact ⟨rfl, hσ ▸ hfacts, is, ht.trans his, hσ ▸ hall⟩

end Evaluation.Run.Made

theorem made_evaluateModule (h : evaluateModule run m met memo σ = .ok memo' τ) :
    run.Made σ memo [] [(m, progressionIn run σ.store m met)] τ memo' := by
  generalize hp : progressionIn run σ.store m met = p
  have hlooked : σ.Told (findings (σ.store.itemFacts run.learner) run.learner (m, p))
      (looked run m met σ) := issuesIn_eq_findings hp ▸ Session.told_reportAll σ _
  -- Whether or not the progression is saved, the only notice besides is that of the outcome.
  have hnoted : ∀ {υ : Session}, (looked run m met σ).Told [] υ →
      σ.Told (findings (σ.store.itemFacts run.learner) run.learner (m, p))
        (υ.note (evaluatedNotice p)) := by
    intro υ hυ
    have hboth := (hlooked.trans hυ).trans (Session.told_note (not_ofIssue_evaluatedNotice p))
    rwa [List.append_nil, List.append_nil] at hboth
  rw [evaluateModule_apply hp] at h
  split at h
  · cases h
    exact ⟨rfl, congrArg Store.itemFacts store_looked, _, hnoted (.refl _), by simp⟩
  · split at h
    · next s hs =>
      cases h
      obtain ⟨-, rfl⟩ := Store.saveProgression_eq_ok.1 hs
      exact ⟨rfl, (Store.sameBase_putProgression _ _ _ _).itemFacts, _,
        hnoted (Session.told_withSave _), by simp⟩
    · cases h

theorem Evaluation.Run.Trail.made (h : run.Trail σ memo circles found τ memo') :
    run.Made σ memo circles found τ memo' := by
  induction h with
  | done => exact .start
  | @circle σ τ memo memo' circle circles found _ ih =>
    have hcircle : run.Made σ memo [circle] [] (σ.report (.circularPrerequisites circle)) memo :=
      ⟨rfl, congrArg Store.itemFacts (Session.store_report _), _, Session.told_report σ _, by simp⟩
    exact hcircle.trans ih
  | tooDeep _ ih => exact ih.of_told rfl (Session.told_note (not_ofIssue_tooDeepNotice _ _))
  | assess hm _ ih => exact (made_evaluateModule hm).trans ih

theorem Closed.mem_modules_iff {s : Store} {all : List Module} (hc : Closed s ids all) :
    m ∈ all ↔ s.InClosure ids m.id ∧ s.getModule m.id = .ok m := by
  constructor
  · exact fun hm => ⟨hc.inClosure hm, hc.read m hm⟩
  · rintro ⟨hin, hm⟩
    obtain ⟨n, hn, -, hread⟩ := hc.exists_module hin
    cases hread.symm.trans hm
    exact hn

/-- The modules that a run came to, with their progressions, are those of the closure with what the
memo has of them. -/
theorem Closed.mem_found {s : Store} {all : List Module} (hc : Closed s ids all)
    (h : (found.map Prod.fst).Perm all) :
    (m, p) ∈ found ↔ s.InClosure ids m.id ∧ s.getModule m.id = .ok m ∧
      (Memo.with ∅ found)[m.id]? = some p := by
  have hn : (found.map (·.1.id)).Nodup := by
    have hids := h.map (·.id)
    rw [List.map_map] at hids
    exact hids.nodup_iff.2 hc.nodup
  constructor
  · intro hx
    obtain ⟨hin, hm⟩ := hc.mem_modules_iff.1 (h.mem_iff.1 (List.mem_map_of_mem hx))
    exact ⟨hin, hm, getElem?_with_of_mem hn hx⟩
  · rintro ⟨hin, hm, hp⟩
    obtain ⟨⟨_, q⟩, hx, rfl⟩ := List.mem_map.1 (h.mem_iff.2 (hc.mem_modules_iff.2 ⟨hin, hm⟩))
    cases (getElem?_with_of_mem hn hx).symm.trans hp
    exact hx

theorem made_evaluateClosure (h : e.evaluateClosure now learner ids σ = .ok memo τ) :
    ∃ all found, σ.store.required learner ids = .ok all ∧ (found.map Prod.fst).Perm all ∧
      (runOf e learner now all).Made σ ∅ (σ.store.circlesFor learner ids) found τ memo := by
  obtain ⟨all, found, hall, hperm, htrail⟩ := trail_evaluateClosure h
  have hquiet : σ.Told [] (σ.noteAll (unknownNotices all)) := by
    refine Session.told_noteAll fun n hn => ?_
    obtain ⟨pair, -, rfl⟩ := List.mem_map.1 hn
    exact not_ofIssue_unknownNotice pair
  exact ⟨all, found, hall, hperm, htrail.made.of_told (Session.store_noteAll _).symm hquiet⟩

end Pathway
