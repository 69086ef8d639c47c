import Pathway.Proofs.Evaluation.CatchUp
import Pathway.Proofs.Evaluation.Findings

/-!
# What an evaluation saves

Of the progressions that it comes to, an evaluation saves those that differ from what the store held
before, each once. A module is assessed once, so no save gets between the look at what is stored of
a module and its own save.
-/

namespace Pathway

open Evaluation

variable {run : Run} {m : Module} {met : Bool} {memo memo' : Memo} {p : Progression} {n : Notice}
  {circles : List (List ModuleId)} {xs found found' : List (Module × Progression)}
  {x : Module × Progression} {id : ModuleId} {e : Evaluator} {now : Instant} {learner : LearnerId}
  {ids : List ModuleId} {σ τ υ : Session} {s t : Store}

/-! ## Changes -/

namespace Store

/-- Those progressions that are not the same as what the store holds of their modules. -/
def changes (s : Store) (learner : LearnerId) (found : List (Module × Progression)) :
    List (Module × Progression) :=
  found.filter fun x => !(s.loadProgression learner x.1.id).any x.2.same

def putAll (s : Store) (learner : LearnerId) (xs : List (Module × Progression)) : Store :=
  xs.foldl (fun s x => s.putProgression learner x.1.id x.2) s

theorem changes_of_same (h : (s.loadProgression learner m.id).any p.same = true) :
    s.changes learner [(m, p)] = [] := by
  simp [changes, h]

theorem changes_of_differs (h : ¬ (s.loadProgression learner m.id).any p.same = true) :
    s.changes learner [(m, p)] = [(m, p)] := by
  simp [changes, h]

theorem changes_congr
    (h : ∀ x ∈ found, t.loadProgression learner x.1.id = s.loadProgression learner x.1.id) :
    t.changes learner found = s.changes learner found :=
  List.filter_congr fun x hx => by rw [h x hx]

theorem loadProgression_putAll (h : ∀ x ∈ xs, x.1.id ≠ id) :
    (s.putAll learner xs).loadProgression learner id = s.loadProgression learner id := by
  induction xs generalizing s with
  | nil => rfl
  | cons x xs ih =>
    obtain ⟨hx, hxs⟩ := List.forall_mem_cons.1 h
    refine (ih hxs).trans (loadProgression_putProgression.trans (if_neg ?_))
    exact fun heq => hx heq.2

end Store

/-! ## Notices of outcomes -/

/-- The notice that a module has been assessed. -/
def Notice.OfOutcome (n : Notice) : Prop := ∃ p, evaluatedNotice p = n

theorem ofOutcome_evaluatedNotice (p : Progression) : (evaluatedNotice p).OfOutcome := ⟨p, rfl⟩

theorem not_ofOutcome_of_head? {c : Char} (h : n.message.toList.head? = some c) (hc : c ≠ 'E') :
    ¬ n.OfOutcome := by
  rintro ⟨p, rfl⟩
  exact hc (Option.some.inj (h.symm.trans (head?_evaluatedNotice p)))

theorem not_ofOutcome_notice (i : Issue) : ¬ i.notice.OfOutcome :=
  not_ofOutcome_of_head? i.head?_message (by cases i.sort <;> decide)

namespace Session

open Classical in
/-- The notices of outcomes in the journal. -/
noncomputable def outcomes (σ : Session) : List Notice :=
  σ.journal.toList.filter Notice.OfOutcome

theorem outcomes_note_of_not (h : ¬ n.OfOutcome) : (σ.note n).outcomes = σ.outcomes := by
  simp [outcomes, note, h]

theorem outcomes_note_evaluatedNotice :
    (σ.note (evaluatedNotice p)).outcomes = σ.outcomes ++ [evaluatedNotice p] := by
  simp [outcomes, note, ofOutcome_evaluatedNotice]

theorem outcomes_noteAll {ns : List Notice} (h : ∀ n ∈ ns, ¬ n.OfOutcome) :
    (σ.noteAll ns).outcomes = σ.outcomes := by
  induction ns generalizing σ with
  | nil => rfl
  | cons n ns ih =>
    obtain ⟨hn, hns⟩ := List.forall_mem_cons.1 h
    exact (ih hns).trans (outcomes_note_of_not hn)

theorem outcomes_report (i : Issue) : (σ.report i).outcomes = σ.outcomes := by
  unfold report
  split
  · rfl
  · exact outcomes_note_of_not (σ := { σ with issues := σ.issues ++ [i] }) (not_ofOutcome_notice i)

theorem saves_report (i : Issue) : (σ.report i).saves = σ.saves := by
  unfold report
  split <;> rfl

theorem outcomes_reportAll (is : List Issue) : (σ.reportAll is).outcomes = σ.outcomes := by
  induction is generalizing σ with
  | nil => rfl
  | cons i is ih => exact (ih (σ := σ.report i)).trans (outcomes_report i)

theorem saves_reportAll (is : List Issue) : (σ.reportAll is).saves = σ.saves := by
  induction is generalizing σ with
  | nil => rfl
  | cons i is ih => exact (ih (σ := σ.report i)).trans (saves_report i)

/-! ## From one session to another -/

/-- From `σ` to `τ` the outcome of each module found was noted, and of their progressions those were
saved that the store of `σ` did not hold. -/
structure SavedChanges (learner : LearnerId) (σ : Session) (found : List (Module × Progression))
    (τ : Session) : Prop where
  outcomes : τ.outcomes = σ.outcomes ++ found.map fun x => evaluatedNotice x.2
  saves : τ.saves = σ.saves + (σ.store.changes learner found).length
  store : τ.store = σ.store.putAll learner (σ.store.changes learner found)

theorem savedChanges_report (i : Issue) : σ.SavedChanges learner [] (σ.report i) :=
  ⟨(outcomes_report i).trans (List.append_nil _).symm, saves_report i, store_report i⟩

theorem savedChanges_note (h : ¬ n.OfOutcome) : σ.SavedChanges learner [] (σ.note n) :=
  ⟨(outcomes_note_of_not h).trans (List.append_nil _).symm, rfl, rfl⟩

theorem savedChanges_noteAll {ns : List Notice} (h : ∀ n ∈ ns, ¬ n.OfOutcome) :
    σ.SavedChanges learner [] (σ.noteAll ns) :=
  ⟨(outcomes_noteAll h).trans (List.append_nil _).symm, saves_noteAll ns, store_noteAll ns⟩

/-- What was saved first is of other modules, so the second part compares with what was stored at
the start. -/
theorem SavedChanges.trans (h : σ.SavedChanges learner found τ)
    (g : τ.SavedChanges learner found' υ) (hd : ∀ x ∈ found, ∀ y ∈ found', x.1.id ≠ y.1.id) :
    σ.SavedChanges learner (found ++ found') υ := by
  have hchanges : τ.store.changes learner found' = σ.store.changes learner found' := by
    refine Store.changes_congr fun y hy => ?_
    rw [h.store]
    exact Store.loadProgression_putAll fun x hx => hd x (List.mem_filter.1 hx).1 y hy
  have happend : σ.store.changes learner (found ++ found') =
      σ.store.changes learner found ++ τ.store.changes learner found' := by
    rw [hchanges]
    exact List.filter_append ..
  refine ⟨?_, ?_, ?_⟩
  · rw [g.outcomes, h.outcomes, List.append_assoc, List.map_append]
  · rw [g.saves, h.saves, happend, List.length_append, Nat.add_assoc]
  · calc
      υ.store = τ.store.putAll learner (τ.store.changes learner found') := g.store
      _ = (σ.store.putAll learner (σ.store.changes learner found)).putAll learner
            (τ.store.changes learner found') := by rw [← h.store]
      _ = σ.store.putAll learner (σ.store.changes learner (found ++ found')) := by
        rw [happend]
        exact List.foldl_append.symm

end Session

/-! ## Runs -/

theorem savedChanges_evaluateModule (h : evaluateModule run m met memo σ = .ok memo' τ) :
    σ.SavedChanges run.learner [(m, progressionIn run σ.store m met)] τ := by
  generalize hp : progressionIn run σ.store m met = p
  have hlooked : (looked run m met σ).outcomes = σ.outcomes := Session.outcomes_reportAll _
  have hsaves : (looked run m met σ).saves = σ.saves := Session.saves_reportAll _
  rw [evaluateModule_apply hp] at h
  split at h
  · next hsame =>
    cases h
    refine ⟨?_, ?_, ?_⟩
    · rw [Session.outcomes_note_evaluatedNotice, hlooked]
      rfl
    · rw [Store.changes_of_same hsame]
      exact hsaves
    · rw [Store.changes_of_same hsame]
      exact store_looked
  · next hdiffers =>
    split at h
    · next s hs =>
      cases h
      obtain ⟨-, rfl⟩ := Store.saveProgression_eq_ok.1 hs
      refine ⟨?_, ?_, ?_⟩
      · rw [Session.outcomes_note_evaluatedNotice]
        exact congrArg (· ++ [evaluatedNotice p]) hlooked
      · rw [Store.changes_of_differs hdiffers]
        exact congrArg (· + 1) hsaves
      · rw [Store.changes_of_differs hdiffers]
        rfl
    · cases h

/-- A run that assesses no module twice saves just what differs from the store at its start. -/
theorem Evaluation.Run.Trail.savedChanges (h : run.Trail σ memo circles found τ memo')
    (hn : (found.map (·.1.id)).Nodup) : σ.SavedChanges run.learner found τ := by
  induction h with
  | done => exact ⟨(List.append_nil _).symm, rfl, rfl⟩
  | circle _ ih =>
    exact (Session.savedChanges_report _).trans (ih hn) fun _ hx => nomatch hx
  | tooDeep _ ih =>
    refine (Session.savedChanges_note ?_).trans (ih hn) fun _ hx => nomatch hx
    exact not_ofOutcome_of_head? (head?_tooDeepNotice run _) (by decide)
  | assess hm _ ih =>
    obtain ⟨hnew, hrest⟩ := List.nodup_cons.1 hn
    refine (savedChanges_evaluateModule hm).trans (ih hrest) fun x hx y hy heq => hnew ?_
    obtain rfl := List.mem_singleton.1 hx
    exact List.mem_map.2 ⟨y, hy, heq.symm⟩

/-! ## Evaluations -/

/-- The evaluation assessed the modules of the closure, each once. It saved the progressions that
differ from those stored before, each once, and no others. -/
structure ExactSaves (e : Evaluator) (now : Instant) (learner : LearnerId) (ids : List ModuleId)
    (memo : Memo) (found : List (Module × Progression)) (σ τ : Session) : Prop where
  closure : ∀ id, id ∈ found.map (·.1.id) ↔ σ.store.InClosure ids id
  once : (found.map (·.1.id)).Nodup
  read : ∀ x ∈ found, σ.store.getModule x.1.id = .ok x.1
  trail : ∃ all circles, (runOf e learner now all).Trail (σ.noteAll (unknownNotices all)) ∅ circles
    found τ memo
  memo : ∀ x ∈ found, memo[x.1.id]? = some x.2
  saved : σ.SavedChanges learner found τ
  held : ∀ x ∈ found, ∃ q, τ.store.loadProgression learner x.1.id = some q ∧ x.2.same q = true

theorem Evaluated.exists_held (h : Evaluated e now learner ids σ memo τ) (hp : memo[id]? = some p) :
    ∃ q, τ.store.loadProgression learner id = some q ∧ p.same q = true := by
  obtain ⟨hin, href⟩ := h.reference_of_memo hp
  obtain ⟨hl, hm⟩ := key_of_reference href
  rw [h.found.held id hin p href, Store.heldAfter]
  split
  · next hsame =>
    exact (Option.any_eq_true _ _).1 hsame
  · exact ⟨p, by rw [Store.keepProgression_of_key hl hm], p.same_refl⟩

theorem Evaluated.exists_exactSaves (h : Evaluated e now learner ids σ memo τ) :
    ∃ found, ExactSaves e now learner ids memo found σ τ := by
  obtain ⟨all, found, hall, hperm, htrail⟩ := trail_evaluateClosure h.ended
  have hc := closed_of_required hall
  have hids : (found.map (·.1.id)).Perm (all.map (·.id)) := by
    have := hperm.map (·.id)
    rwa [List.map_map] at this
  have hn : (found.map (·.1.id)).Nodup := hids.nodup_iff.2 hc.nodup
  have hmemo : ∀ x ∈ found, memo[x.1.id]? = some x.2 := by
    rw [htrail.made.memo]
    exact fun x hx => getElem?_with_of_mem hn hx
  -- The unknown prerequisites are noted first, which touches nothing that is saved.
  have hquiet : σ.SavedChanges learner [] (σ.noteAll (unknownNotices all)) := by
    refine Session.savedChanges_noteAll fun n hn => ?_
    obtain ⟨pair, -, rfl⟩ := List.mem_map.1 hn
    exact not_ofOutcome_of_head? (head?_unknownNotice pair) (by decide)
  refine ⟨found, fun id => ?_, hn, fun x hx => ?_, ⟨all, _, htrail⟩, hmemo, ?_, fun x hx => ?_⟩
  · exact hids.mem_iff.trans (hc.mem id)
  · exact hc.read _ (hperm.mem_iff.1 (List.mem_map_of_mem hx))
  · exact hquiet.trans (htrail.savedChanges hn) fun _ hx => nomatch hx
  · exact h.exists_held (hmemo x hx)

end Pathway
