import Pathway.Proofs.Evaluation.Repetition
import Pathway.Proofs.Prerequisites.Search
import Pathway.Proofs.Tandem

/-!
# Reports of circles

Of each cyclic component that it takes up an evaluation reports one circle, and an evaluation that
ends well takes up all. A circle joins the issues unless its text is among them.
-/

namespace Pathway

open Evaluation

/-! ## Circles among the issues -/

def Issue.circle? : Issue → Option (List ModuleId)
  | circularPrerequisites circle => some circle
  | _ => none

namespace Graph

/-- The text under which a circle is reported. -/
def text (circle : List ModuleId) : String := (Issue.circularPrerequisites circle).message

variable {i j : ModuleId} {x y : String} {a b : List ModuleId}

/-! ## Texts -/

/-- The id has no tip of an arrow in it. -/
def Plain (id : ModuleId) : Prop := '>' ∉ id.toList

theorem cut_at_arrow (hi : Plain i) (hj : Plain j) (h : i ++ " -> " ++ x = j ++ " -> " ++ y) :
    i = j ∧ x = y := by
  have upTo : ∀ {i x : String}, Plain i →
      (i ++ " -> " ++ x).toList.takeWhile (· != '>') = i.toList ++ [' ', '-'] := by
    intro i x hi
    have hstop : ∀ c ∈ i.toList ++ [' ', '-'], (c != '>') = true := by
      intro c hc
      rw [bne_iff_ne]
      rintro rfl
      rcases List.mem_append.1 hc with hc | hc
      · exact hi hc
      · simp at hc
    have hcut : (i ++ " -> " ++ x).toList = (i.toList ++ [' ', '-']) ++ '>' :: ' ' :: x.toList := by
      simp
    rw [hcut, List.takeWhile_append_of_pos hstop, List.takeWhile_cons_of_neg (by simp),
      List.append_nil]
  have hij : i = j := by
    have hcut := congrArg (fun s => s.toList.takeWhile (· != '>')) h
    rw [upTo hi, upTo hj] at hcut
    exact String.toList_inj.1 (List.append_cancel_right hcut)
  subst hij
  exact ⟨rfl, (String.append_right_inj _).1 h⟩

theorem eq_of_text_eq (ha : ∀ i ∈ a, Plain i) (hb : ∀ i ∈ b, Plain i) (hne : a ≠ [])
    (hne' : b ≠ []) (h : text a = text b) : a = b := by
  have hids : " -> ".intercalate a = " -> ".intercalate b := (String.append_right_inj _).1 h
  -- Only the last id is not followed by an arrow.
  have hlast : ∀ {i j x}, Plain i → i ≠ j ++ " -> " ++ x := by
    rintro i j x hi rfl
    exact hi (by simp)
  clear h
  induction a generalizing b with
  | nil => exact absurd rfl hne
  | cons i a ih =>
    cases b with
    | nil => exact absurd rfl hne'
    | cons j b =>
      obtain ⟨hi, hia⟩ := List.forall_mem_cons.1 ha
      obtain ⟨hj, hjb⟩ := List.forall_mem_cons.1 hb
      cases a with
      | nil =>
        cases b with
        | nil => simpa using hids
        | cons j' b =>
          rw [String.intercalate_singleton, String.intercalate_cons_cons] at hids
          exact absurd hids (hlast hi)
      | cons i' a =>
        cases b with
        | nil =>
          rw [String.intercalate_singleton, String.intercalate_cons_cons] at hids
          exact absurd hids.symm (hlast hj)
        | cons j' b =>
          rw [String.intercalate_cons_cons, String.intercalate_cons_cons] at hids
          obtain ⟨rfl, hrest⟩ := cut_at_arrow hi hj hids
          rw [ih hia hjb (List.cons_ne_nil _ _) (List.cons_ne_nil _ _) hrest]

/-- Ids with arrows in them can make one text of two circles. -/
example : text ["a", "a -> a -> a -> a", "a"] = text ["a -> a -> a", "a -> a -> a"] := rfl

/-! ## Adding circles -/

variable {circles new : List (List ModuleId)} {circle : List ModuleId} {t : String}

def addCircle (circles : List (List ModuleId)) (circle : List ModuleId) : List (List ModuleId) :=
  if text circle ∈ circles.map text then circles else circles ++ [circle]

def addCircles (circles new : List (List ModuleId)) : List (List ModuleId) :=
  new.foldl addCircle circles

@[simp]
theorem addCircles_nil : addCircles circles [] = circles := rfl

theorem addCircles_append {later : List (List ModuleId)} :
    addCircles circles (new ++ later) = addCircles (addCircles circles new) later :=
  List.foldl_append

theorem mem_text_addCircle :
    t ∈ (addCircle circles circle).map text ↔ t ∈ circles.map text ∨ t = text circle := by
  unfold addCircle
  split
  · next h =>
    constructor
    · exact Or.inl
    · rintro (ht | rfl)
      · exact ht
      · exact h
  · simp

theorem mem_text_addCircles :
    t ∈ (addCircles circles new).map text ↔ t ∈ circles.map text ∨ t ∈ new.map text := by
  unfold addCircles
  induction new generalizing circles with
  | nil => simp
  | cons circle new ih =>
    rw [List.foldl_cons, ih, mem_text_addCircle, List.map_cons, List.mem_cons, or_assoc]

theorem mem_addCircles (h : circle ∈ addCircles circles new) : circle ∈ circles ∨ circle ∈ new := by
  unfold addCircles at h
  induction new generalizing circles with
  | nil => exact Or.inl h
  | cons first new ih =>
    rcases ih h with h | h
    · unfold addCircle at h
      split at h
      · exact Or.inl h
      · rcases List.mem_append.1 h with h | h
        · exact Or.inl h
        · exact Or.inr (List.mem_cons.2 (Or.inl (List.mem_singleton.1 h)))
    · exact Or.inr (List.mem_cons_of_mem first h)

theorem nodup_text_addCircles (h : (circles.map text).Nodup) :
    ((addCircles circles new).map text).Nodup := by
  unfold addCircles
  induction new generalizing circles with
  | nil => exact h
  | cons circle new ih =>
    apply ih
    unfold addCircle
    split
    · exact h
    · next hnew =>
      rw [List.map_append]
      refine List.nodup_append.2 ⟨h, List.nodup_singleton _, ?_⟩
      rintro a ha b hb rfl
      exact hnew (List.mem_singleton.1 hb ▸ ha)

/-- The circles that are reported of some components. -/
def reports (g : Graph) (cs : List Component) : List (List ModuleId) :=
  (cs.filter g.isCyclic).map g.circleIn

theorem reports_append (g : Graph) (cs cs' : List Component) :
    g.reports (cs ++ cs') = g.reports cs ++ g.reports cs' := by
  simp [reports]

end Graph

open Pathway.Graph

namespace Session

variable {σ : Session} {i : Issue} {is : List Issue} {circle : List ModuleId}

def circles (σ : Session) : List (List ModuleId) := σ.issues.filterMap Issue.circle?

theorem any_same_circle :
    σ.issues.any (Issue.circularPrerequisites circle).same = true ↔
      text circle ∈ σ.circles.map text := by
  simp only [circles, List.any_eq_true, List.mem_map, List.mem_filterMap]
  constructor
  · rintro ⟨i, hi, hsame⟩
    cases i with
    | circularPrerequisites other =>
      exact ⟨other, ⟨_, hi, rfl⟩, (beq_iff_eq.1 hsame).symm⟩
    | excessiveCount => cases hsame
    | unusableFact => cases hsame
  · rintro ⟨other, ⟨i, hi, hcircle⟩, htext⟩
    cases i with
    | circularPrerequisites =>
      cases hcircle
      exact ⟨_, hi, beq_iff_eq.2 htext.symm⟩
    | excessiveCount => cases hcircle
    | unusableFact => cases hcircle

theorem circles_report_circle :
    (σ.report (.circularPrerequisites circle)).circles = addCircle σ.circles circle := by
  unfold report addCircle
  simp only [any_same_circle]
  split
  · rfl
  · simp [circles, Issue.circle?]

theorem circles_report (h : i.circle? = none) : (σ.report i).circles = σ.circles := by
  unfold report
  split
  · rfl
  · simp [circles, h]

theorem circles_reportAll (h : ∀ i ∈ is, i.circle? = none) :
    (σ.reportAll is).circles = σ.circles := by
  induction is generalizing σ with
  | nil => rfl
  | cons i is ih =>
    obtain ⟨hi, his⟩ := List.forall_mem_cons.1 h
    exact (ih his).trans (circles_report hi)

end Session

/-! ## What an action reports -/

namespace Action

variable {α β : Type} {x : Action α} {k : α → Action β} {circles circles' : List (List ModuleId)}
  {σ : Session}

/-- However the action ends, the circles that it reports are among the given ones, and stand in
their order. If it ends well, it reports all of them. -/
def Reports (x : Action α) (circles : List (List ModuleId)) (σ : Session) : Prop :=
  ∃ made, made.Sublist circles ∧ (x.finish σ).circles = addCircles σ.circles made ∧
    ∀ a τ, x σ = .ok a τ → made = circles

theorem reports_of_quiet (h : (x.finish σ).circles = σ.circles) : x.Reports [] σ :=
  ⟨[], List.Sublist.slnil, h, fun _ _ _ => rfl⟩

theorem reports_pure (a : α) : (pure a : Action α).Reports [] σ := reports_of_quiet rfl

theorem Reports.bind (h : x.Reports circles σ)
    (hk : ∀ a τ, x σ = .ok a τ → (k a).Reports circles' τ) :
    (x >>= k).Reports (circles ++ circles') σ := by
  obtain ⟨made, hsub, hmade, hall⟩ := h
  unfold Action.finish at hmade
  cases hx : x σ with
  | ok a τ =>
    rw [hx] at hmade
    obtain ⟨made', hsub', hmade', hall'⟩ := hk a τ hx
    obtain rfl := hall a τ hx
    refine ⟨made ++ made', (List.Sublist.refl made).append hsub', ?_, fun b υ hb => ?_⟩
    · rw [finish_bind_of_ok hx, hmade', addCircles_append, hmade]
    · rw [bind_of_ok hx] at hb
      rw [hall' b υ hb]
  | error f τ =>
    rw [hx] at hmade
    refine ⟨made, hsub.trans (List.sublist_append_left circles circles'), ?_, fun b υ hb => ?_⟩
    · rw [finish, bind_of_error hx]
      exact hmade
    · rw [bind_of_error hx] at hb
      cases hb

theorem attempt_of_ok {a : α} {τ : Session} (h : x σ = .ok a τ) :
    attempt x σ = .ok (.ok a) τ := by rw [attempt, h]

theorem attempt_of_error {f : Failure} {τ : Session} (h : x σ = .error f τ) :
    attempt x σ = .ok (.error f) τ := by rw [attempt, h]

theorem bind_throw_ne_ok {f : Failure} {b : β} {υ : Session} :
    (x >>= fun _ => throw f : Action β) σ ≠ .ok b υ := by
  intro h
  obtain ⟨a, τ, -, hthrow⟩ := bind_eq_ok.1 h
  cases hthrow

theorem Reports.then_throw (h : x.Reports circles σ) (f : Failure) :
    (attempt x >>= fun _ => throw f : Action β).Reports circles σ := by
  obtain ⟨made, hsub, hmade, -⟩ := h
  refine ⟨made, hsub, ?_, fun b υ hb => absurd hb bind_throw_ne_ok⟩
  rw [← hmade]
  unfold Action.finish
  cases hx : x σ with
  | ok a τ =>
    rw [bind_of_ok (attempt_of_ok hx)]
    rfl
  | error g τ =>
    rw [bind_of_ok (attempt_of_error hx)]
    rfl

theorem Reports.attempt_bind {k : Except Failure α → Action β} (h : x.Reports circles σ)
    (hok : ∀ a τ, x σ = .ok a τ → (k (.ok a)).Reports circles' τ)
    (herror : ∀ f τ, x σ = .error f τ →
      (k (.error f)).Reports circles' τ ∧ ∀ b υ, k (.error f) τ ≠ .ok b υ) :
    (attempt x >>= k).Reports (circles ++ circles') σ := by
  cases hx : x σ with
  | ok a τ =>
    have hboth := h.bind hok
    unfold Reports at hboth ⊢
    rw [finish_bind_of_ok hx, bind_of_ok hx] at hboth
    rwa [finish_bind_of_ok (attempt_of_ok hx), bind_of_ok (attempt_of_ok hx)]
  | error f τ =>
    obtain ⟨made, hsub, hmade, -⟩ := h
    obtain ⟨⟨made', hsub', hmade', -⟩, hfails⟩ := herror f τ hx
    rw [finish, hx] at hmade
    refine ⟨made ++ made', hsub.append hsub', ?_, fun b υ hb => ?_⟩
    · rw [finish_bind_of_ok (attempt_of_error hx), hmade', addCircles_append, hmade]
    · rw [bind_of_ok (attempt_of_error hx)] at hb
      exact absurd hb (hfails b υ)

end Action

/-! ## Evaluations -/

variable {run : Run} {m : Module} {met : Bool} {memo : Memo} {e : Evaluator} {learner : LearnerId}
  {now : Instant} {ids : List ModuleId} {σ : Session}

theorem circle?_of_mem_issues {facts : Assessment.Facts} {i : Issue}
    (h : i ∈ Assessment.issues facts learner now m met) : i.circle? = none := by
  rw [Assessment.issues, List.mem_append] at h
  rcases h with h | h
  · rw [Assessment.countIssues] at h
    split at h
    · rw [List.mem_singleton.1 h]
      rfl
    · cases h
  · split at h
    · obtain ⟨p, -, hp⟩ := List.mem_filterMap.1 h
      obtain ⟨flaw, -, rfl⟩ := Option.map_eq_some_iff.1 hp
      rfl
    · cases h

theorem reports_evaluateModule : (evaluateModule run m met memo).Reports [] σ := by
  apply Action.reports_of_quiet
  have hlooked : (looked run m met σ).circles = σ.circles :=
    Session.circles_reportAll fun _ => circle?_of_mem_issues
  unfold Action.finish
  rw [evaluateModule_apply rfl]
  split_ifs
  · exact hlooked
  · cases σ.store.saveProgression run.learner m.id (progressionIn run σ.store m met) with
    | ok s => exact hlooked
    | error f => exact hlooked

theorem reports_evaluateMembers (barred : Bool) (c : Component) :
    (evaluateMembers run barred c memo).Reports [] σ := by
  induction c generalizing memo σ with
  | nil => exact Action.reports_pure memo
  | cons id ids ih =>
    unfold evaluateMembers
    split
    · exact ih
    · exact reports_evaluateModule.bind fun _ _ _ => ih

theorem reports_evaluateComponent (depth : Nat) (c : Component) :
    (evaluateComponent run depth c memo).Reports (run.graph.reports [c]) σ := by
  unfold evaluateComponent reports
  dsimp only
  split
  · next h =>
    rw [List.filter_cons_of_pos h]
    have hreport : (Action.report (.circularPrerequisites (run.graph.circleIn c))).Reports
        [run.graph.circleIn c] σ :=
      ⟨_, .refl _, Session.circles_report_circle, fun _ _ _ => rfl⟩
    exact hreport.bind fun _ _ _ => reports_evaluateMembers _ c
  · next h =>
    rw [List.filter_cons_of_neg h]
    split
    · exact (Action.reports_of_quiet rfl).bind fun _ _ _ => reports_evaluateMembers _ c
    · exact reports_evaluateMembers _ c

theorem reports_evaluateInTurn (depth : Nat) (cs : List Component) :
    (evaluateInTurn run depth cs memo).Reports (run.graph.reports cs) σ := by
  induction cs generalizing memo σ with
  | nil => exact Action.reports_pure memo
  | cons c cs ih =>
    unfold evaluateInTurn
    rw [← List.singleton_append, reports_append]
    exact (reports_evaluateComponent depth c).bind fun _ _ _ => ih

theorem reports_evaluateTogether (depth : Nat) (cs : List Component) :
    (evaluateTogether run depth cs memo).Reports (run.graph.reports cs) σ := by
  induction cs generalizing memo σ with
  | nil => exact Action.reports_pure memo
  | cons c cs ih =>
    unfold evaluateTogether
    rw [← List.singleton_append, reports_append]
    exact (reports_evaluateComponent depth c).attempt_bind (fun _ _ _ => ih)
      fun f _ _ => ⟨ih.then_throw f, fun _ _ => Action.bind_throw_ne_ok⟩

theorem reports_evaluateGenerations (depth : Nat) (gs : List (List Component)) :
    (evaluateGenerations e run depth gs memo).Reports (run.graph.reports gs.flatten) σ := by
  induction gs generalizing depth memo σ with
  | nil => exact Action.reports_pure memo
  | cons gen gs ih =>
    unfold evaluateGenerations
    rw [List.flatten_cons, reports_append]
    split
    · exact (reports_evaluateTogether depth gen).bind fun _ _ _ => ih (depth + 1)
    · exact (reports_evaluateInTurn depth gen).bind fun _ _ _ => ih (depth + 1)

/-! ## Requests -/

theorem closed_of_required {s : Store} {all : List Module}
    (h : s.required learner ids = .ok all) : Closed s ids all := by
  unfold Store.required at h
  by_cases hl : s.hasLearner learner = true
  · rw [if_pos hl] at h
    cases hms : ids.eraseDups.mapM s.getModule with
    | error f =>
      rw [hms] at h
      cases h
    | ok ms =>
      rw [hms] at h
      have hmap : (ids.eraseDups.mapM fun id => Action.askOrFail (·.getModule id)) (.ofStore s) =
          .ok ms (.ofStore s) := by
        rw [Action.mapM_askOrFail_apply]
        exact congrArg (Action.ofExcept · _) hms
      obtain ⟨-, hread⟩ := (Action.ends_mapM_askOrFail _).of_ok hmap
      obtain ⟨hids, hread⟩ := forall₂_getModule hread
      have hclosed := closed_of_closure hread (hids ▸ nodup_eraseDups ids) h
      exact hclosed.of_mem_iff fun a => by rw [hids, List.mem_eraseDups]
  · rw [if_neg hl] at h
    cases h

/-- The circles that an evaluation of some modules reports. -/
def Store.circlesFor (s : Store) (learner : LearnerId) (ids : List ModuleId) :
    List (List ModuleId) :=
  match s.required learner ids with
  | .ok all => (Graph.ofModules all).reports (Graph.ofModules all).generations.flatten
  | .error _ => []

theorem circles_noteAll (ns : List Notice) : (σ.noteAll ns).circles = σ.circles := by
  rw [Session.circles, Session.issues_noteAll, Session.circles]

theorem reports_evaluateClosure :
    (e.evaluateClosure now learner ids).Reports (σ.store.circlesFor learner ids) σ := by
  unfold Evaluator.evaluateClosure Store.circlesFor
  cases hreq : σ.store.required learner ids with
  | error f =>
    have hplan : e.plan now learner ids σ = .error f σ := by rw [plan_apply, hreq]
    apply Action.reports_of_quiet
    rw [Action.finish, Action.bind_of_error hplan]
  | ok all =>
    have hplan : e.plan now learner ids σ =
        .ok (runOf e learner now all) (σ.noteAll (unknownNotices all)) := by rw [plan_apply, hreq]
    have hquiet : (e.plan now learner ids).Reports [] σ := by
      apply Action.reports_of_quiet
      rw [Action.finish, hplan, circles_noteAll]
    refine hquiet.bind fun run τ hrun => ?_
    rw [hplan] at hrun
    cases hrun
    exact reports_evaluateGenerations 0 _

theorem reports_evaluateAll :
    (e.evaluateAll now learner ids).Reports (σ.store.circlesFor learner ids) σ := by
  rw [← List.append_nil (σ.store.circlesFor learner ids)]
  exact reports_evaluateClosure.bind fun _ _ _ => Action.reports_pure _

theorem reports_evaluate {id : ModuleId} :
    (e.evaluate now learner id).Reports (σ.store.circlesFor learner [id]) σ := by
  rw [← List.append_nil (σ.store.circlesFor learner [id])]
  refine reports_evaluateAll.bind fun results τ _ => ?_
  cases results with
  | nil => exact Action.reports_of_quiet rfl
  | cons _ _ => exact Action.reports_pure _

theorem reports_evaluateEvery :
    (e.evaluateEvery now learner).Reports (σ.store.circlesFor learner (σ.store.moduleIds none))
      σ := by
  unfold Action.Reports Action.finish
  cases hl : σ.store.hasLearner learner with
  | true =>
    rw [evaluateEvery_apply hl]
    exact reports_evaluateAll
  | false =>
    rw [evaluateEvery_of_unknown hl]
    exact ⟨[], List.nil_sublist _, rfl, nofun⟩

end Pathway
