import Pathway.Proofs.Calls.Changes
import Pathway.Proofs.Calls.Sticky
import Pathway.Proofs.Evaluation.Earned
import Pathway.Proofs.Evaluation.Shape

/-!
# What is stored

Stores that began empty hold what was put into them and what was assessed since. So what can be said
of modules when they are put, and of progressions when they are assessed, can be said of all that is
stored, whatever was edited, removed, cleared or folded in between.
-/

namespace Pathway

open Evaluation

variable {s t : Store} {l learner : LearnerId} {id i : ModuleId} {m : Module}
  {p q : Progression} {c : Call} {σ τ : Session} {r : Request} {rs : List Request}
  {P : Except Failure Module → Prop}

/-! ## Modules -/

theorem Call.Changes.backing (h : c.Changes s t) : t.backing = s.backing := by
  cases h with
  | learners => exact s.backing_addLearner ..
  | reset => exact s.backing_resetLearner ..
  | put _ ht => exact Store.backing_putModule ht
  | removal => exact s.backing_removeModule ..
  | facts _ ht => exact ht.rest.backing
  | save _ ht => exact (Store.SameBase.save (.refl s) ht).backing

/-- Whatever reading a module gives, of those that the store knows, has the property. -/
def Store.Reads (P : Except Failure Module → Prop) (s : Store) : Prop :=
  ∀ id, s.hasModule id = true → P (s.getModule id)

namespace Store.Reads

theorem empty (backing : Backing) : (Store.empty backing).Reads P := by
  intro id hid
  rw [hasModule_empty] at hid
  cases hid

theorem of_getModule (h : s.Reads P) (hread : ∀ id, t.getModule id = s.getModule id) :
    t.Reads P := by
  intro id hid
  rw [Store.hasModule_iff, hread] at hid
  rw [hread]
  exact h id (Store.hasModule_iff.2 hid)

theorem changes (h : s.Reads P) (hputs : ∀ m ∈ c.puts, P (Definition.of s.backing m).read)
    (ht : c.Changes s t) : t.Reads P := by
  cases ht with
  | learners => exact h.of_getModule fun i => s.getModule_addLearner _ i _
  | reset => exact h.of_getModule fun i => s.getModule_resetLearner _ i
  | facts _ ht => exact h.of_getModule ht.rest.getModule
  | @put m course _ hm ht =>
    intro id hid
    rw [Store.hasModule_iff] at hid
    rw [Store.getModule_putModule ht] at hid ⊢
    split_ifs at hid ⊢
    · exact hputs m hm
    · exact h id (Store.hasModule_iff.2 hid)
  | @removal i _ =>
    intro id hid
    rw [Store.hasModule_iff] at hid
    rw [Store.getModule_removeModule] at hid ⊢
    split_ifs at hid ⊢
    · exact absurd rfl hid
    · exact h id (Store.hasModule_iff.2 hid)
  | save _ ht => exact h.of_getModule (Store.SameBase.save (.refl s) ht).getModule

theorem next (h : σ.store.Reads P)
    (hputs : ∀ m ∈ r.call.puts, P (Definition.of σ.store.backing m).read) :
    (σ.next r).store.Reads P := by
  by_cases hr : r.call.Evaluates
  · exact h.of_getModule (sameBase_next hr σ).getModule
  · refine (Session.next_of_changes
      (I := fun s => s.backing = σ.store.backing ∧ s.Reads P) hr ⟨rfl, h⟩ ?_).2
    rintro s t ⟨hb, hs⟩ ht
    exact ⟨ht.backing.trans hb, hs.changes (hb ▸ hputs) ht⟩

end Store.Reads

theorem backing_next (σ : Session) (r : Request) :
    (σ.next r).store.backing = σ.store.backing := by
  by_cases hr : r.call.Evaluates
  · exact (sameBase_next hr σ).backing
  · exact Session.next_of_changes (I := fun s => s.backing = σ.store.backing) hr rfl
      fun s t hs ht => ht.backing.trans hs

theorem backing_after (σ : Session) (rs : List Request) :
    (σ.after rs).store.backing = σ.store.backing :=
  Session.after_of_next (I := fun τ => τ.store.backing = σ.store.backing) rfl
    fun r _ τ h => (backing_next τ r).trans h

/-- What can be said of the modules that a run puts, read in the form in which they are kept, can be
said of all modules afterwards. -/
theorem reads_after {backing : Backing}
    (hputs : ∀ r ∈ rs, ∀ m ∈ r.call.puts, P (Definition.of backing m).read) :
    ((Session.ofStore (.empty backing)).after rs).store.Reads P := by
  refine (Session.after_of_next (I := fun τ => τ.store.backing = backing ∧ τ.store.Reads P)
    ⟨Store.backing_empty backing, .empty backing⟩ ?_).2
  rintro r hr τ ⟨rfl, hτ⟩
  exact ⟨backing_next τ r, hτ.next (hputs r hr)⟩

theorem reads_after_database
    (hputs : ∀ r ∈ rs, ∀ m ∈ r.call.puts, m.WellFormed ∧ m.FiniteThresholds) :
    ((Session.ofStore (.empty .database)).after rs).store.Reads fun x => ∃ m, x = .ok m := by
  refine reads_after fun r hr m hm => ?_
  obtain ⟨hwf, hfin⟩ := hputs r hr m hm
  exact ⟨m, congrArg (Checked.orFail .module) (Module.ofDocument_document hwf hfin)⟩

theorem wellFormed_of_read {backing : Backing} {n : Module} (hm : m.WellFormed)
    (h : (Definition.of backing m).read = .ok n) : n.WellFormed := by
  cases backing with
  | memory =>
    cases h
    exact hm
  | database => exact Module.wellFormed_of_ofDocument (Checked.valid_of_orFail h)

/-! ## Progressions -/

theorem Call.Changes.held (h : c.Changes s t) (hp : t.loadProgression l id = some p) :
    s.loadProgression l id = some p ∨ ∃ q, c = .saveProgression l id q ∧
      s.checkProgression q = .ok () ∧ p = s.keepProgression l id q := by
  cases h with
  | learners =>
    rw [Store.loadProgression_addLearner] at hp
    exact Or.inl hp
  | facts _ ht =>
    rw [ht.rest.loadProgression] at hp
    exact Or.inl hp
  | reset =>
    rw [Store.loadProgression_resetLearner] at hp
    exact Or.inl (Option.ite_none_left_eq_some.1 hp).2
  | removal =>
    rw [Store.loadProgression_removeModule] at hp
    exact Or.inl (Option.ite_none_left_eq_some.1 hp).2
  | put _ ht =>
    obtain ⟨-, rfl⟩ := Store.putModule_eq_ok.1 ht
    rw [Store.loadProgression_placeModule] at hp
    exact Or.inl hp
  | @save learner i q _ hc ht =>
    obtain ⟨hcheck, rfl⟩ := Store.saveProgression_eq_ok.1 ht
    rw [Store.loadProgression_putProgression] at hp
    split at hp
    · next heq =>
      obtain ⟨rfl, rfl⟩ := heq
      exact Or.inr ⟨q, hc, hcheck, (Option.some.inj hp).symm⟩
    · exact Or.inl hp

/-- The store would take again whatever it holds. -/
def Store.Accepted (s : Store) : Prop :=
  ∀ l id p, s.loadProgression l id = some p → s.checkProgression p = .ok ()

namespace Store.Accepted

theorem empty (backing : Backing) : (Store.empty backing).Accepted := by
  intro l id p hp
  rw [loadProgression_empty] at hp
  cases hp

theorem save (h : s.Accepted) (hs : s.saveProgression learner i q = .ok t) : t.Accepted := by
  obtain ⟨hcheck, rfl⟩ := Store.saveProgression_eq_ok.1 hs
  intro l id p hp
  rw [Store.loadProgression_putProgression] at hp
  split at hp
  · cases hp
    refine (Store.checkProgression_of_position ?_ currentPosition_keepProgression).trans hcheck
    exact s.backing_putProgression ..
  · exact (Store.checkProgression_congr (s.backing_putProgression ..)).trans (h l id p hp)

theorem changes (h : s.Accepted) (ht : c.Changes s t) : t.Accepted := by
  intro l id p hp
  rw [Store.checkProgression_congr ht.backing]
  rcases ht.held hp with hp | ⟨q, -, hcheck, rfl⟩
  · exact h l id p hp
  · exact (Store.checkProgression_of_position rfl currentPosition_keepProgression).trans hcheck

end Store.Accepted

theorem accepted_after (h : σ.store.Accepted) (rs : List Request) :
    (σ.after rs).store.Accepted := by
  refine Session.after_of_next (I := fun τ => τ.store.Accepted) h fun r _ τ hτ => ?_
  by_cases hr : r.call.Evaluates
  · exact (kept_of_save fun _ _ _ _ _ h ht => h.save ht).next hr hτ
  · exact Session.next_of_changes hr hτ fun s t hs ht => hs.changes ht

/-! ## Sessions that began empty -/

/-- The session began with an empty store, in memory or in a database, and each module that was put
into it was well formed. -/
def Session.FromEmpty (σ : Session) : Prop :=
  ∃ backing rs, (∀ r ∈ rs, ∀ m ∈ r.call.puts, m.WellFormed) ∧
    σ = (Session.ofStore (.empty backing)).after rs

namespace Session.FromEmpty

theorem next (h : σ.FromEmpty) (hr : ∀ m ∈ r.call.puts, m.WellFormed) : (σ.next r).FromEmpty := by
  obtain ⟨backing, rs, hputs, rfl⟩ := h
  have hafter : ((Session.ofStore (.empty backing)).after rs).next r =
      (Session.ofStore (.empty backing)).after (rs ++ [r]) := Eq.symm List.foldl_append
  refine ⟨backing, rs ++ [r], fun r' hr' => ?_, hafter⟩
  rcases List.mem_append.1 hr' with hr' | hr'
  · exact hputs r' hr'
  · exact List.mem_singleton.1 hr' ▸ hr

theorem accepted (h : σ.FromEmpty) : σ.store.Accepted := by
  obtain ⟨backing, rs, -, rfl⟩ := h
  exact accepted_after (.empty backing) rs

theorem wellFormed (h : σ.FromEmpty) (hm : σ.store.getModule m.id = .ok m) : m.WellFormed := by
  obtain ⟨backing, rs, hputs, rfl⟩ := h
  have hreads : ((Session.ofStore (.empty backing)).after rs).store.Reads
      fun x => ∀ n, x = .ok n → n.WellFormed :=
    reads_after fun r hr m hm n hn => wellFormed_of_read (hputs r hr m hm) hn
  exact hreads m.id (Store.hasModule_of_getModule hm) m hm

end Session.FromEmpty

/-! ## Well-formed progressions -/

/-- A progression is stored by hand. -/
def Call.Saves : Call → Prop
  | saveProgression .. => True
  | _ => False

/-- Modules are well formed, and so is what is stored of progressions, each under its own key. -/
structure Store.Sound (s : Store) : Prop where
  modules : s.Reads fun x => ∀ m, x = .ok m → m.WellFormed
  progressions : ∀ l id p, s.loadProgression l id = some p → p.IsOf l id ∧ p.WellFormed

namespace Store.Sound

theorem empty {backing : Backing} : (Store.empty backing).Sound where
  modules := .empty backing
  progressions l id p hp := by
    rw [loadProgression_empty] at hp
    cases hp

theorem save (h : s.Sound) (hs : s.saveProgression learner i q = .ok t) (hof : q.IsOf learner i)
    (hq : q.WellFormed) : t.Sound := by
  refine ⟨h.modules.of_getModule (Store.SameBase.save (.refl s) hs).getModule, fun l id p hp => ?_⟩
  obtain ⟨-, rfl⟩ := Store.saveProgression_eq_ok.1 hs
  rw [Store.loadProgression_putProgression] at hp
  split at hp
  · next heq =>
    obtain ⟨rfl, rfl⟩ := heq
    rw [Store.keepProgression_of_key hof.1 hof.2] at hp
    cases hp
    exact ⟨hof, hq⟩
  · exact h.progressions l id p hp

theorem changes (h : s.Sound) (hputs : ∀ m ∈ c.puts, m.WellFormed) (hsave : ¬ c.Saves)
    (ht : c.Changes s t) : t.Sound where
  modules := h.modules.changes (fun m hm n hn => wellFormed_of_read (hputs m hm) hn) ht
  progressions l id p hp := by
    rcases ht.held hp with hp | ⟨q, rfl, -⟩
    · exact h.progressions l id p hp
    · exact absurd trivial hsave

theorem wellFormed (h : s.Sound) (hm : s.getModule id = .ok m) : m.WellFormed :=
  h.modules id (Store.hasModule_of_getModule hm) m hm

end Store.Sound

theorem wellFormed_of_evaluate {e : Evaluator} {now : Instant} (h : σ.store.Sound)
    (heval : e.evaluate now learner id τ = .ok p σ) : p.WellFormed := by
  have hfinds : e.Finds now learner τ id p := ⟨σ, heval⟩
  obtain ⟨-, hcaught⟩ := (ends_evaluate_caughtUp (.refl τ.store) id).of_ok heval
  obtain ⟨m, met, hm, -, rfl⟩ := exists_assessment hfinds.reference
  exact Assessment.wellFormed_progression (h.wellFormed ((hcaught.getModule id).trans hm))

theorem kept_sound : Kept Set.univ (fun σ => σ.store.Sound) Module.WellFormed where
  good h hm := h.wellFormed hm
  note h _ := h
  report h i := by
    rw [Session.store_report]
    exact h
  assess {σ run m met memo} _ h hm := by
    rcases store_finish_evaluateModule run m met memo σ with hs | hs
    · rw [hs]
      exact h
    · exact h.save hs (isOf_progressionIn run σ.store m met) (Assessment.wellFormed_progression hm)
  save {σ l id p b} _ h heval := by
    obtain ⟨e, now, τ, heval⟩ := heval
    rcases store_finish_saveProgression l id { p with collapsed := b } σ with hs | hs
    · rw [hs]
      exact h
    · obtain ⟨hl, hid⟩ := key_of_evaluate heval
      exact h.save hs ⟨hl, hid⟩ ((wellFormed_of_evaluate h heval).fold b)

theorem sound_after (h : σ.store.Sound) (hputs : ∀ r ∈ rs, ∀ m ∈ r.call.puts, m.WellFormed)
    (hsaves : ∀ r ∈ rs, ¬ r.call.Saves) : (σ.after rs).store.Sound := by
  refine Session.after_of_next (I := fun τ => τ.store.Sound) h fun r hmem τ hτ => ?_
  by_cases hr : r.call.Evaluates
  · exact kept_sound.next hr hτ
  · exact Session.next_of_changes hr hτ fun s t hs ht =>
      hs.changes (hputs r hmem) (hsaves r hmem) ht

/-- Whatever was asked of a store that was empty at first, and in whatever order, each progression
that it holds is well formed and is that of its key. Only a progression that is stored by hand may
be otherwise. -/
theorem stored_wellFormed (backing : Backing) (rs : List Request)
    (hputs : ∀ r ∈ rs, ∀ m ∈ r.call.puts, m.WellFormed) (hsaves : ∀ r ∈ rs, ¬ r.call.Saves) :
    ∀ l id p, ((Session.ofStore (.empty backing)).after rs).store.loadProgression l id = some p →
      p.IsOf l id ∧ p.WellFormed :=
  (sound_after (σ := Session.ofStore (.empty backing)) .empty hputs hsaves).progressions

/-! ## A run on the sample course -/

theorem exists_stored_of_evaluate {e : Evaluator} {now : Instant}
    (h : e.evaluate now learner id σ = .ok p τ) :
    ∃ q, τ.store.loadProgression learner id = some q ∧ p.same q = true := by
  obtain ⟨memo, hev, hp⟩ := (ends_evaluate e now learner id σ).of_ok h
  obtain ⟨hin, href⟩ := hev.reference_of_memo hp
  obtain ⟨hl, hid⟩ := key_of_evaluate h
  rw [hev.found.held id hin p href, Store.heldAfter]
  split
  · next hsame => exact (Option.any_eq_true _ _).1 hsame
  · exact ⟨p, by rw [Store.keepProgression_of_key hl hid], Progression.same_refl p⟩

namespace Sample

def edit : Request := ⟨⟨1, none⟩, ⟨0, 0⟩, .putModule { orientation with requiredCount := 1 } none⟩

/-- The module is edited after it was evaluated. -/
def edits : List Request :=
  [⟨⟨1, none⟩, ⟨0, 0⟩, .addLearner "ada" "Ada"⟩, ⟨⟨1, none⟩, ⟨0, 0⟩, .putModule orientation none⟩,
    ⟨⟨1, none⟩, ⟨0, 0⟩, .evaluate "ada" "orientation"⟩, edit]

theorem wellFormed_puts_edits : ∀ r ∈ edits, ∀ m ∈ r.call.puts, m.WellFormed := by
  simp only [edits, edit, List.forall_mem_cons, Call.puts, List.not_mem_nil, false_implies,
    implies_true, and_true, true_and]
  exact ⟨wellFormed_orientation, { wellFormed_orientation with }⟩

/-- The two requests before the evaluation. -/
def enrolled : Session := (Session.ofStore (.empty .memory)).after (edits.take 2)

theorem exists_evaluated_enrolled :
    ∃ p τ, Evaluator.evaluate ⟨1, none⟩ ⟨0, 0⟩ "ada" "orientation" enrolled = .ok p τ := by
  have hreads : enrolled.store.Reads fun x => ∃ m, x = .ok m :=
    reads_after fun _ _ m _ => ⟨m, rfl⟩
  obtain ⟨p, τ, h, -⟩ := (ends_evaluate ⟨1, none⟩ ⟨0, 0⟩ "ada" "orientation" enrolled).exists_ok
    fun f => not_refusal_of_memory rfl rfl fun _ =>
      Store.exists_module_of_inClosure hreads (by simp; rfl)
  exact ⟨p, τ, h⟩

end Sample

theorem sample_stored_wellFormed :
    ∃ p, ((Session.ofStore (.empty .memory)).after Sample.edits).store.loadProgression "ada"
        "orientation" = some p ∧ p.IsOf "ada" "orientation" ∧ p.WellFormed := by
  obtain ⟨p, τ, heval⟩ := Sample.exists_evaluated_enrolled
  obtain ⟨q, hq, -⟩ := exists_stored_of_evaluate heval
  have hnext : Sample.enrolled.next
      ⟨⟨1, none⟩, ⟨0, 0⟩, .evaluate "ada" "orientation"⟩ = τ := by
    rw [Session.next_eq_finish, Call.perform, Action.finish_bind_of_ok heval]
    rfl
  -- Editing the module leaves what is stored of it.
  have hedit : (τ.next Sample.edit).store.loadProgression "ada" "orientation" =
      τ.store.loadProgression "ada" "orientation" := loadProgression_next (fun h => h) trivial
  have hstored : ((Session.ofStore (.empty .memory)).after Sample.edits).store.loadProgression
      "ada" "orientation" = some q := by
    rw [← hq, ← hedit, ← hnext]
    rfl
  have hsaves : ∀ r ∈ Sample.edits, ¬ r.call.Saves := by
    simp [Sample.edits, Sample.edit, Call.Saves]
  exact ⟨q, hstored, stored_wellFormed .memory Sample.edits Sample.wellFormed_puts_edits hsaves
    "ada" "orientation" q hstored⟩

end Pathway
