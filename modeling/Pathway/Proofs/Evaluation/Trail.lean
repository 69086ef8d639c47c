import Pathway.Proofs.Evaluation.Reporting
import Pathway.Proofs.Evaluation.Requests
import Pathway.Proofs.Evaluation.Steps

/-!
# The trail of an evaluation

However its components and generations fall out, an evaluation that ends well has assessed the
modules of its closure one after the other, each once. What else it does is to report circles and
to note which chains are too long.
-/

namespace Pathway

open Evaluation

variable {run : Run} {m : Module} {met barred : Bool} {memo memo' memo'' : Memo}
  {c : Graph.Component} {cs : List Graph.Component} {gs : List (List Graph.Component)} {d : Nat}
  {circle : List ModuleId} {circles circles' : List (List ModuleId)}
  {found found' : List (Module × Progression)} {e : Evaluator} {now : Instant}
  {learner : LearnerId} {ids : List ModuleId} {σ τ υ : Session} {s : Store} {all : List Module}

/-! ## Steps -/

/-- A way from one session and memo to another, with the circles that are reported on it and the
modules that are assessed, each with the progression that it is found to have. -/
inductive Evaluation.Run.Trail (run : Run) :
    Session → Memo → List (List ModuleId) → List (Module × Progression) → Session → Memo → Prop
  | done {σ : Session} {memo : Memo} : Trail run σ memo [] [] σ memo
  | circle {σ τ : Session} {memo memo' : Memo} {circle : List ModuleId}
      {circles : List (List ModuleId)} {found : List (Module × Progression)} :
      Trail run (σ.report (.circularPrerequisites circle)) memo circles found τ memo' →
      Trail run σ memo (circle :: circles) found τ memo'
  | tooDeep {σ τ : Session} {memo memo' : Memo} {c : Graph.Component}
      {circles : List (List ModuleId)} {found : List (Module × Progression)} :
      Trail run (σ.note (tooDeepNotice run c)) memo circles found τ memo' →
      Trail run σ memo circles found τ memo'
  | assess {σ τ υ : Session} {memo memo' memo'' : Memo} {m : Module} {met : Bool}
      {circles : List (List ModuleId)} {found : List (Module × Progression)} :
      evaluateModule run m met memo σ = .ok memo' τ → Trail run τ memo' circles found υ memo'' →
      Trail run σ memo circles ((m, progressionIn run σ.store m met) :: found) υ memo''

theorem Evaluation.Run.Trail.trans (h : run.Trail σ memo circles found τ memo')
    (g : run.Trail τ memo' circles' found' υ memo'') :
    run.Trail σ memo (circles ++ circles') (found ++ found') υ memo'' := by
  induction h with
  | done => exact g
  | circle _ ih => exact .circle (ih g)
  | tooDeep _ ih => exact .tooDeep (ih g)
  | assess hm _ ih => exact .assess hm (ih g)

/-! ## Components and generations -/

theorem trail_evaluateMembers (h : evaluateMembers run barred c memo σ = .ok memo' τ) :
    ∃ found, found.map Prod.fst = c.filterMap (run.modules[·]?) ∧
      run.Trail σ memo [] found τ memo' := by
  induction c generalizing memo σ with
  | nil =>
    cases h
    exact ⟨[], rfl, .done⟩
  | cons id c ih =>
    rw [List.filterMap_cons]
    unfold evaluateMembers at h
    cases hm : run.modules[id]? with
    | none =>
      rw [hm] at h
      exact ih h
    | some m =>
      rw [hm] at h
      obtain ⟨memo₁, σ₁, hmodule, hrest⟩ := Action.bind_eq_ok.1 h
      obtain ⟨found, hfound, htrail⟩ := ih hrest
      exact ⟨(m, _) :: found, congrArg (m :: ·) hfound, .assess hmodule htrail⟩

theorem trail_evaluateComponent (h : evaluateComponent run d c memo σ = .ok memo' τ) :
    ∃ found, found.map Prod.fst = c.filterMap (run.modules[·]?) ∧
      run.Trail σ memo (run.graph.reports [c]) found τ memo' := by
  unfold evaluateComponent at h
  unfold Graph.reports
  dsimp only at h
  split at h
  · next hcyclic =>
    obtain ⟨⟨⟩, σ₁, hreport, hmembers⟩ := Action.bind_eq_ok.1 h
    cases hreport
    obtain ⟨found, hfound, htrail⟩ := trail_evaluateMembers hmembers
    rw [List.filter_cons_of_pos hcyclic]
    exact ⟨found, hfound, .circle htrail⟩
  · next hcyclic =>
    rw [List.filter_cons_of_neg hcyclic]
    split at h
    · obtain ⟨⟨⟩, σ₁, hnote, hmembers⟩ := Action.bind_eq_ok.1 h
      cases hnote
      obtain ⟨found, hfound, htrail⟩ := trail_evaluateMembers hmembers
      exact ⟨found, hfound, .tooDeep htrail⟩
    · exact trail_evaluateMembers h

theorem trail_evaluateInTurn (h : evaluateInTurn run d cs memo σ = .ok memo' τ) :
    ∃ found, found.map Prod.fst = cs.flatten.filterMap (run.modules[·]?) ∧
      run.Trail σ memo (run.graph.reports cs) found τ memo' := by
  induction cs generalizing memo σ with
  | nil =>
    cases h
    exact ⟨[], rfl, .done⟩
  | cons c cs ih =>
    obtain ⟨memo₁, σ₁, hfirst, hrest⟩ := Action.bind_eq_ok.1 h
    obtain ⟨found, hfound, htrail⟩ := trail_evaluateComponent hfirst
    obtain ⟨found', hfound', htrail'⟩ := ih hrest
    rw [List.flatten_cons, List.filterMap_append, ← List.singleton_append, Graph.reports_append]
    exact ⟨found ++ found', by rw [List.map_append, hfound, hfound'], htrail.trans htrail'⟩

theorem trail_evaluateGenerations (h : evaluateGenerations e run d gs memo σ = .ok memo' τ) :
    ∃ found, found.map Prod.fst = gs.flatten.flatten.filterMap (run.modules[·]?) ∧
      run.Trail σ memo (run.graph.reports gs.flatten) found τ memo' := by
  induction gs generalizing d memo σ with
  | nil =>
    cases h
    exact ⟨[], rfl, .done⟩
  | cons gen gs ih =>
    -- Together or in turn, what ends well ends in the same way.
    obtain ⟨memo₁, σ₁, hturn, hrest⟩ : ∃ memo₁ σ₁,
        evaluateInTurn run d gen memo σ = .ok memo₁ σ₁ ∧
          evaluateGenerations e run (d + 1) gs memo₁ σ₁ = .ok memo' τ := by
      unfold evaluateGenerations at h
      split at h
      · obtain ⟨memo₁, σ₁, htogether, hrest⟩ := Action.bind_eq_ok.1 h
        exact ⟨memo₁, σ₁, evaluateTogether_eq_ok.1 htogether, hrest⟩
      · exact Action.bind_eq_ok.1 h
    obtain ⟨found, hfound, htrail⟩ := trail_evaluateInTurn hturn
    obtain ⟨found', hfound', htrail'⟩ := ih hrest
    rw [List.flatten_cons, List.flatten_append, List.filterMap_append, Graph.reports_append]
    exact ⟨found ++ found', by rw [List.map_append, hfound, hfound'], htrail.trans htrail'⟩

/-! ## The modules of a closure -/

theorem Closed.perm_modules (hc : Closed s ids all) :
    ((Graph.ofModules all).generations.flatten.flatten.filterMap ((tableOf all)[·]?)).Perm all := by
  have hg := Graph.wellFormed_ofModules all
  have hids : (Graph.ofModules all).nodes.Perm (all.map (·.id)) :=
    (List.perm_ext_iff_of_nodup hg.nodup hc.nodup).2 fun _ => Graph.mem_nodes_ofModules
  refine (((Graph.perm_nodes hg).trans hids).filterMap _).trans (.of_eq ?_)
  rw [List.filterMap_map]
  exact (List.filterMap_congr fun m hm => hc.getElem?_tableOf hm).trans List.filterMap_some

/-- An evaluation comes to the progression of each module of the closure, once. Before that it notes
which prerequisites are unknown. -/
theorem trail_evaluateClosure (h : e.evaluateClosure now learner ids σ = .ok memo τ) :
    ∃ all found, σ.store.required learner ids = .ok all ∧ (found.map Prod.fst).Perm all ∧
      (runOf e learner now all).Trail (σ.noteAll (unknownNotices all)) ∅
        (σ.store.circlesFor learner ids) found τ memo := by
  obtain ⟨run, σ₁, hplan, hgens⟩ := Action.bind_eq_ok.1 h
  rw [plan_apply] at hplan
  split at hplan
  · next all hall =>
    cases hplan
    obtain ⟨found, hfound, htrail⟩ := trail_evaluateGenerations hgens
    refine ⟨all, found, hall, hfound ▸ (closed_of_required hall).perm_modules, ?_⟩
    unfold Store.circlesFor
    rwa [hall]
  · cases hplan

end Pathway
