import Pathway.Proofs.Calls.CircleReports
import Pathway.Proofs.Evaluation.Findings

/-!
# Which issues are reported

A new evaluator that is asked once has just the issues that are due: a circle of each cyclic
component, a count beyond the requirements of a module, and the facts that cannot count towards a
module that is not locked. Asked again, it has nothing to add.
-/

open Relation

namespace Pathway

open Evaluation Assessment Pathway.Graph

/-! ## Flawed facts -/

section Flaws

variable {fs : ItemFacts} {item : Item} {r : Requirement}

theorem ItemFacts.isEmpty_eq_false_iff : fs.isEmpty = false ↔ ∃ kind f, fs kind = some f := by
  rw [← Bool.not_eq_true]
  constructor
  · intro h
    by_contra hnone
    push Not at hnone
    have hfs : fs = ItemFacts.none :=
      funext fun kind => Option.eq_none_iff_forall_ne_some.2 (hnone kind)
    exact h (hfs ▸ rfl)
  · rintro ⟨kind, f, hf⟩ hempty
    cases hf.symm.trans (congrFun (eq_none_of_isEmpty hempty) kind)

theorem flaw?_eq_contentLocked :
    flaw? fs item r = some .contentLocked ↔
      item.contentLocked = true ∧ ∃ kind f, fs kind = some f := by
  rw [← ItemFacts.isEmpty_eq_false_iff]
  unfold flaw?
  cases item.contentLocked with
  | true => cases fs.isEmpty <;> simp
  | false => cases r <;> cases fs .minScore <;> simp

theorem flaw?_eq_noScore :
    flaw? fs item r = some .noScore ↔
      item.contentLocked = false ∧ ∃ threshold f, r = .minScore threshold ∧
        fs .minScore = some f ∧ f.score = none := by
  unfold flaw?
  cases item.contentLocked with
  | true => simp
  | false =>
    cases r <;> cases fs .minScore <;> simp

end Flaws

/-! ## What is due -/

variable {s : Store} {learner : LearnerId} {ids : List ModuleId} {all : List Module} {m : Module}
  {found : List (Module × Progression)} {memo : Memo} {i : Issue} {v : ModuleId} {c : Call}
  {a : Answer} {e : Evaluator} {now : Instant} {σ τ : Session}

/-- The issues that the modules of a closure give rise to, where the memo has their progressions. -/
inductive Due (s : Store) (learner : LearnerId) (ids : List ModuleId) (memo : Memo) : Issue → Prop
  | count {m : Module} (hin : s.InClosure ids m.id) (hm : s.getModule m.id = .ok m)
      (hcount : m.requirements.length < m.requiredCount) :
      Due s learner ids memo (.excessiveCount m.id m.requiredCount m.requirements.length)
  | contentLocked {m : Module} {p : Progression} {item : Item} {r : Requirement}
      {kind : RequirementKind} {f : Fact} (hin : s.InClosure ids m.id)
      (hm : s.getModule m.id = .ok m) (hp : memo[m.id]? = some p) (hopen : p.isLocked = false)
      (hr : (item, r) ∈ m.requirements) (hcontent : item.contentLocked = true)
      (hf : s.itemFacts learner item.id kind = some f) :
      Due s learner ids memo (.unusableFact learner m.id item.id .contentLocked)
  | noScore {m : Module} {p : Progression} {item : Item} {threshold : Binary64} {f : Fact}
      (hin : s.InClosure ids m.id) (hm : s.getModule m.id = .ok m) (hp : memo[m.id]? = some p)
      (hopen : p.isLocked = false) (hr : (item, .minScore threshold) ∈ m.requirements)
      (hcontent : item.contentLocked = false)
      (hf : s.itemFacts learner item.id .minScore = some f) (hscore : f.score = none) :
      Due s learner ids memo (.unusableFact learner m.id item.id .noScore)

theorem mem_findings {facts : Facts} {x : Module × Progression} :
    i ∈ findings facts learner x ↔
      (x.1.requirements.length < x.1.requiredCount ∧
        i = .excessiveCount x.1.id x.1.requiredCount x.1.requirements.length) ∨
      x.2.isLocked = false ∧ ∃ y ∈ x.1.requirements, ∃ flaw,
        flaw? (facts y.1.id) y.1 y.2 = some flaw ∧
          i = .unusableFact learner x.1.id y.1.id flaw := by
  rw [findings, List.mem_append]
  refine or_congr ?_ ?_
  · by_cases hcount : x.1.requirements.length < x.1.requiredCount <;> simp [countIssues, hcount]
  · cases x.2.isLocked with
    | true => simp
    | false => simp [factIssues, eq_comm]

theorem Closed.due_iff (hc : Closed s ids all) (h : (found.map Prod.fst).Perm all) :
    Due s learner ids (Memo.with ∅ found) i ↔
      i ∈ found.flatMap (findings (s.itemFacts learner) learner) := by
  rw [List.mem_flatMap]
  constructor
  · rintro (⟨hin, hm, hcount⟩ | ⟨hin, hm, hp, hopen, hr, hcontent, hf⟩ |
      ⟨hin, hm, hp, hopen, hr, hcontent, hf, hscore⟩)
    · obtain ⟨x, hx, rfl⟩ := List.mem_map.1 (h.mem_iff.2 (hc.mem_modules_iff.2 ⟨hin, hm⟩))
      exact ⟨x, hx, mem_findings.2 (Or.inl ⟨hcount, rfl⟩)⟩
    · exact ⟨_, (hc.mem_found h).2 ⟨hin, hm, hp⟩, mem_findings.2 (Or.inr ⟨hopen, _, hr,
        _, flaw?_eq_contentLocked.2 ⟨hcontent, _, _, hf⟩, rfl⟩)⟩
    · exact ⟨_, (hc.mem_found h).2 ⟨hin, hm, hp⟩, mem_findings.2 (Or.inr ⟨hopen, _, hr,
        _, flaw?_eq_noScore.2 ⟨hcontent, _, _, rfl, hf, hscore⟩, rfl⟩)⟩
  · rintro ⟨⟨m, p⟩, hx, hi⟩
    obtain ⟨hin, hm, hp⟩ := (hc.mem_found h).1 hx
    rcases mem_findings.1 hi with ⟨hcount, rfl⟩ | ⟨hopen, ⟨item, r⟩, hr, flaw, hflaw, rfl⟩
    · exact .count hin hm hcount
    · cases flaw with
      | contentLocked =>
        obtain ⟨hcontent, kind, f, hf⟩ := flaw?_eq_contentLocked.1 hflaw
        exact .contentLocked hin hm hp hopen hr hcontent hf
      | noScore =>
        obtain ⟨hcontent, threshold, f, rfl, hf, hscore⟩ := flaw?_eq_noScore.1 hflaw
        exact .noScore hin hm hp hopen hr hcontent hf hscore

/-! ## Circles of a request -/

/-- The circles pass modules of the closure, each cyclic component of it once. -/
structure Store.OnePerComponent (s : Store) (ids : List ModuleId)
    (circles : List (List ModuleId)) : Prop where
  genuine : ∀ written ∈ circles, ∃ v circle, s.CircleOf v circle ∧ Writes written circle ∧
    ∀ u ∈ circle, s.InClosure ids u
  each : ∀ v, s.InClosure ids v → OnCircle s.Requires v →
    ∃! written, written ∈ circles ∧ s.Concerns v written

theorem Store.CircleOf.concerns {circle : Cycle ModuleId} {written : List ModuleId}
    (h : s.CircleOf v circle) (hw : Writes written circle) : s.Concerns v written := by
  obtain ⟨u, hu⟩ := List.exists_mem_of_ne_nil written hw.ne_nil
  exact ⟨u, hu, h.mates u (hw.mem_iff.1 hu)⟩

theorem onePerComponent_circlesFor (h : s.required learner ids = .ok all) :
    s.OnePerComponent ids (s.circlesFor learner ids) where
  genuine _ hw := exists_circleOf hw
  each v hin hv := by
    obtain ⟨written, hw, circle, hcircle, hwrites⟩ := exists_mem_circlesFor h hin hv
    obtain ⟨u, hu, hvu⟩ := hcircle.concerns hwrites
    refine ⟨written, ⟨hw, u, hu, hvu⟩, ?_⟩
    rintro other ⟨hother, w, hw', hvw⟩
    exact circlesFor_unique hother hw hw' hu (hvw.symm.trans hvu)

/-! ## What is reported -/

/-- The call told of one circle for each cyclic component and of what was due besides, and of
nothing else. -/
structure ExactIssues (e : Evaluator) (now : Instant) (c : Call) (learner : LearnerId)
    (ids : List ModuleId) (memo : Memo) (σ : Session) (a : Answer) (τ : Session) : Prop where
  told : ∃ circles, σ.store.OnePerComponent ids circles ∧
    ∀ x, x ∈ τ.issues.map Issue.pair ↔ ∃ i, i.pair = x ∧
      (i ∈ circles.map Issue.circularPrerequisites ∨ Due σ.store learner ids memo i)
  distinct : (τ.issues.map Issue.pair).Nodup
  logged : ∃ logged, τ.journal.toList = σ.journal.toList ++ logged ∧
    ∀ i : Issue, logged.count i.notice = if i.pair ∈ τ.issues.map Issue.pair then 1 else 0
  again : ∃ υ logged, c.perform e now τ = .ok a υ ∧ υ.issues = τ.issues ∧
    υ.journal.toList = τ.journal.toList ++ logged ∧ ∀ i : Issue, i.notice ∉ logged

theorem Evaluated.exists_told (h : Evaluated e now learner ids σ memo τ) :
    σ.store.OnePerComponent ids (σ.store.circlesFor learner ids) ∧ ∃ is, σ.Told is τ ∧
      ∀ i, i ∈ is ↔ i ∈ (σ.store.circlesFor learner ids).map Issue.circularPrerequisites ∨
        Due σ.store learner ids memo i := by
  obtain ⟨all, found, hall, hperm, hmade⟩ := made_evaluateClosure h.ended
  obtain ⟨rfl, -, is, htold, his⟩ := hmade
  exact ⟨onePerComponent_circlesFor hall, is, htold, fun i =>
    (his i).trans (or_congr_right ((closed_of_required hall).due_iff hperm).symm)⟩

/-- A request made of a new evaluator leaves just the issues that are due, each noted once. Made
again, it adds none and notes none. -/
theorem issues_are_exact (h : c.Asks σ.store learner ids) (hnew : σ.issues = []) :
    (c.perform e now).Ends σ
      (fun a τ => ∃ memo, Evaluated e now learner ids σ memo τ ∧
        ExactIssues e now c learner ids memo σ a τ)
      (Refusal σ.store learner now e.depthLimit ids) := by
  refine h.ends.imp_ok fun a τ ha => ?_
  obtain ⟨memo, hev, -⟩ := h.perform_eq_ok.1 ha
  obtain ⟨hcircles, is, htold, his⟩ := hev.exists_told
  -- Starting from no issues, a pair is there if one of the reports has it.
  have hmem : ∀ i : Issue, i.pair ∈ τ.issues.map Issue.pair ↔ i.pair ∈ is.map Issue.pair := by
    intro i
    rw [htold.issues, Session.mem_pair_reportAll, hnew]
    simp
  have hdistinct : (τ.issues.map Issue.pair).Nodup := by
    rw [htold.issues]
    exact Session.nodup_pair_reportAll (by rw [hnew]; exact List.nodup_nil)
  refine ⟨memo, hev, ⟨_, hcircles, fun x => ?_⟩, hdistinct, ?_, ?_⟩
  · constructor
    · intro hx
      obtain ⟨i, -, rfl⟩ := List.mem_map.1 hx
      obtain ⟨j, hj, hij⟩ := List.mem_map.1 ((hmem i).1 hx)
      exact ⟨j, hij, (his j).1 hj⟩
    · rintro ⟨i, rfl, hi⟩
      exact (hmem i).2 (List.mem_map_of_mem ((his i).2 hi))
  · obtain ⟨new, logged, hissues, hlogged, hcount⟩ := htold.exists_logged
    rw [hnew, List.nil_append] at hissues
    refine ⟨logged, hlogged, fun i => ?_⟩
    rw [hcount, ← hissues, hdistinct.count]
  · -- The second time the issues stay, so there is none that could have been noted.
    obtain ⟨h', υ, hagain, hund⟩ := h.again ha
    obtain ⟨memo', hev', -⟩ := h'.perform_eq_ok.1 hagain
    obtain ⟨-, is', htold', -⟩ := hev'.exists_told
    obtain ⟨new, logged, hissues, hlogged, hcount⟩ := htold'.exists_logged
    obtain rfl : new = [] := List.self_eq_append_right.1 (hund.issues.symm.trans hissues)
    exact ⟨υ, logged, hagain, hund.issues, hlogged, fun i => List.count_eq_zero.1 (hcount i)⟩

theorem Sample.exact_issues_crossed :
    ∃ a τ memo, ExactIssues ⟨1, none⟩ ⟨0, 0⟩ (.evaluate "ada" "b") "ada" ["b"] memo crossed a τ ∧
      ∃ written, crossed.store.Concerns "b" written ∧
        (Issue.circularPrerequisites written).pair ∈ τ.issues.map Issue.pair := by
  obtain ⟨a, ha⟩ := exists_answer "b" (.refl crossed.store) rfl
  obtain ⟨memo, -, hexact⟩ := (issues_are_exact .one rfl).of_ok (Session.answer_eq_ok.1 ha)
  obtain ⟨circles, hcircles, hmem⟩ := hexact.told
  obtain ⟨hba, hab⟩ := requires_crossed "b" (Or.inl rfl)
  obtain ⟨written, ⟨hw, hb⟩, -⟩ := hcircles.each "b"
    (Evaluated.inClosure_of_mem List.mem_cons_self) (.head hba (.single hab))
  exact ⟨a, _, memo, hexact, written, hb,
    (hmem _).2 ⟨_, rfl, Or.inl (List.mem_map_of_mem hw)⟩⟩

end Pathway
