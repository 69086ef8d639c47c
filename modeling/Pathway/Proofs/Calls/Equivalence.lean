import Pathway.Proofs.Calls.Mirror
import Pathway.Proofs.Calls.Sameness
import Pathway.Proofs.Sample

/-!
# The same answers in memory and in a database

Whatever is asked of a store in memory and of a database, both give the same answers or fail for the
same cause, as long as the database has a form for all that is put into it.
-/

namespace Pathway

open Evaluation Pathway.Action

variable {σ τ : Session} {run : Run} {m : Module} {met : Bool} {memo memo' : Memo}
  {p q : Progression} {e : Evaluator} {now : Instant} {learner : LearnerId} {id : ModuleId}
  {d : Dictionaries} {r : Rows}

/-! ## Sessions -/

/-- The one session has a store in memory and the other a database that mirrors it, and both have
reported the same issues. Their journals may differ. -/
inductive Mirrored : Session → Session → Prop
  | intro {d : Dictionaries} {r : Rows} {issues : List Issue} {j j' : Array Notice} {n n' : Nat} :
      Mirrors d r → Mirrored ⟨.memory d, issues, j, n⟩ ⟨.database r, issues, j', n'⟩

/-- The same progression, on an item whose position has a column. -/
def SameValue (p q : Progression) : Prop :=
  q.plain = p.plain ∧ ∀ i ∈ p.currentPosition, Number.isSignedWord i = true

theorem SameValue.same (h : SameValue p q) : p.same q = true := Progression.same_of_plain h.1.symm

theorem SameValue.fold (h : SameValue p q) (b : Bool) :
    SameValue { p with collapsed := b } { q with collapsed := b } :=
  ⟨congrArg (fun r : Progression => { r with collapsed := b }) h.1, h.2⟩

namespace Mirrored

theorem note (h : Mirrored σ τ) (n n' : Notice) : Mirrored (σ.note n) (τ.note n') := by
  obtain ⟨h⟩ := h
  exact .intro h

theorem report (h : Mirrored σ τ) (i : Issue) : Mirrored (σ.report i) (τ.report i) := by
  obtain ⟨h⟩ := h
  unfold Session.report
  dsimp only
  split <;> exact .intro h

theorem reportAll (h : Mirrored σ τ) (is : List Issue) :
    Mirrored (σ.reportAll is) (τ.reportAll is) := by
  induction is generalizing σ τ with
  | nil => exact h
  | cons i is ih => exact ih (h.report i)

theorem withSave (h : Mirrored σ τ) (hdr : Mirrors d r) :
    Mirrored (σ.withSave (.memory d)) (τ.withSave (.database r)) := by
  obtain ⟨-⟩ := h
  exact .intro hdr

theorem hasLearner (h : Mirrored σ τ) (learner : LearnerId) :
    τ.store.hasLearner learner = σ.store.hasLearner learner := by
  obtain ⟨h⟩ := h
  exact h.hasLearner learner

theorem getModule (h : Mirrored σ τ) (id : ModuleId) :
    τ.store.getModule id = σ.store.getModule id := by
  obtain ⟨h⟩ := h
  exact h.getModule id

theorem moduleIds (h : Mirrored σ τ) : τ.store.moduleIds none = σ.store.moduleIds none := by
  obtain ⟨h⟩ := h
  exact h.moduleIds none

theorem storable_of_getModule (h : Mirrored σ τ) (hm : σ.store.getModule id = .ok m) :
    m.Storable := by
  obtain ⟨h⟩ := h
  exact h.storable_of_getModule hm

theorem loadProgression (h : Mirrored σ τ) (learner : LearnerId) (id : ModuleId) :
    (τ.store.loadProgression learner id).map Progression.plain =
      (σ.store.loadProgression learner id).map Progression.plain := by
  obtain ⟨h⟩ := h
  exact h.progressions learner id

theorem tandem_updateOrFail (h : Mirrored σ τ) {f : Store → Except Failure Store}
    (hd : f σ.store = .ok (.memory d)) (hr : f τ.store = .ok (.database r)) (hdr : Mirrors d r) :
    (updateOrFail f).Tandem (updateOrFail f) σ τ Eq Mirrored := by
  unfold Tandem
  rw [updateOrFail_of_ok hd, updateOrFail_of_ok hr]
  obtain ⟨-⟩ := h
  exact ⟨rfl, .intro hdr⟩

theorem exists_saveProgression (h : Mirrored σ τ) (hpq : SameValue p q) (hl : p.learner = learner)
    (hm : p.module = id) :
    ∃ d r, σ.store.saveProgression learner id p = .ok (.memory d) ∧
      τ.store.saveProgression learner id q = .ok (.database r) ∧ Mirrors d r := by
  obtain ⟨h⟩ := h
  obtain ⟨r, hr, hdr⟩ := h.saveProgression hpq.1 hl hm hpq.2
  exact ⟨_, r, rfl, map_eq_ok.2 ⟨r, hr, rfl⟩, hdr⟩

theorem tandem_saveProgression (h : Mirrored σ τ) (hpq : SameValue p q) (hl : p.learner = learner)
    (hm : p.module = id) :
    (Action.saveProgression learner id p).Tandem (Action.saveProgression learner id q) σ τ Eq
      Mirrored := by
  obtain ⟨d, r, hd, hr, hdr⟩ := h.exists_saveProgression hpq hl hm
  unfold Tandem
  rw [saveProgression_of_ok hd, saveProgression_of_ok hr]
  exact ⟨rfl, h.withSave hdr⟩

/-! ## Evaluations -/

theorem facts_plain (h : Mirrored σ τ) (learner : LearnerId) :
    Assessment.Facts.plain (τ.store.itemFacts learner) =
      Assessment.Facts.plain (σ.store.itemFacts learner) := by
  obtain ⟨h⟩ := h
  exact funext fun item => h.facts learner item

theorem issuesIn_eq (h : Mirrored σ τ) :
    issuesIn run τ.store m met = issuesIn run σ.store m met := by
  unfold issuesIn
  rw [← Assessment.issues_plain, h.facts_plain, Assessment.issues_plain]

theorem sameValue_progressionIn (h : Mirrored σ τ) (hm : m.Storable) :
    SameValue (progressionIn run σ.store m met) (progressionIn run τ.store m met) := by
  constructor
  · unfold progressionIn
    rw [← Assessment.progression_plain, h.facts_plain, h.loadProgression,
      Assessment.progression_plain]
  · intro i hi
    obtain ⟨item, hitem, rfl⟩ := Assessment.exists_item_of_currentPosition hi
    exact hm.positions item hitem

/-- What is stored is the same as the result in one store if it is in the other. -/
theorem any_same (h : Mirrored σ τ) (hpq : q.plain = p.plain) :
    (τ.store.loadProgression learner id).any q.same =
      (σ.store.loadProgression learner id).any p.same := by
  have hany : ∀ (o : Option Progression) (r : Progression),
      o.any r.same = (o.map Progression.plain).any r.plain.same := by
    intro o r
    cases o with
    | none => rfl
    | some x => exact (Progression.same_plain r x).symm
  rw [hany, hpq, h.loadProgression, ← hany]

theorem evaluateModule (h : Mirrored σ τ) (hm : m.Storable)
    (hmemo : SameMemo SameValue memo memo') :
    (evaluateModule run m met memo).Tandem (evaluateModule run m met memo') σ τ
      (SameMemo SameValue) Mirrored := by
  have hpq : SameValue (progressionIn run σ.store m met) (progressionIn run τ.store m met) :=
    h.sameValue_progressionIn hm
  have hlooked : Mirrored (looked run m met σ) (looked run m met τ) := by
    unfold looked
    rw [h.issuesIn_eq]
    exact h.reportAll _
  unfold Tandem
  rw [evaluateModule_apply rfl, evaluateModule_apply rfl, h.any_same hpq.1]
  split_ifs
  · exact ⟨hmemo.insert hpq, hlooked.note _ _⟩
  · obtain ⟨d, r, hd, hr, hdr⟩ := h.exists_saveProgression hpq
      Assessment.learner_progression Assessment.module_progression
    rw [hd, hr]
    exact ⟨hmemo.insert hpq, (hlooked.withSave hdr).note _ _⟩

theorem accord : Accord Set.univ Mirrored SameValue Module.Storable where
  hasLearner _ h := h.hasLearner _
  getModule h := h.getModule
  moduleIds h := h.moduleIds
  good h := h.storable_of_getModule
  note h n := h.note n n
  report := report
  state h := congrArg (·.state) h.1
  met h := congrArg (·.met) h.1
  collapsed h := congrArg (·.collapsed) h.1
  fold h := h.fold _
  assess _ := evaluateModule
  save _ h hpq heval := by
    obtain ⟨e, now, σ₀, heval⟩ := heval
    obtain ⟨hl, hm⟩ := key_of_evaluate heval
    exact h.tandem_saveProgression (hpq.fold _) hl hm

end Mirrored

/-! ## Requests -/

/-- A database has a form for all that the call puts into it. A progression is saved under the
learner and the module that it names itself. -/
def Call.Admissible : Call → Prop
  | putModule m _ => m.Storable
  | putCourse c => ∀ m ∈ c.modules, m.Storable
  | record _ _ _ score _ => ∀ x ∈ score, x.Admissible
  | recordScore _ _ score _ => score.Admissible
  | clear _ _ kind => ∀ name ∈ kind, ∃ k : RequirementKind, k.name = name
  | saveProgression learner id p =>
    p.learner = learner ∧ p.module = id ∧
      ∀ i ∈ p.currentPosition, Number.isSignedWord i = true
  | _ => True

abbrev Answer.SameByValue : Answer → Answer → Prop := Answer.Same fun p q => p.same q = true

theorem Fact.same_plain (f g : Fact) : f.plain.same g.plain = f.same g := by
  simp only [Fact.same, Fact.plain, sameOption_map Binary64.same_dropZeroSign_dropZeroSign]

theorem Fact.same_refl (f : Fact) : f.same f = true := by
  simp only [Fact.same, beq_self_eq_true, Instant.same_refl,
    sameOption_refl Binary64.same_refl, Bool.and_self]

theorem Mirrors.completionsFor (h : Mirrors d r) (learner : LearnerId) (items : List ItemId) :
    SameFacts ((Store.memory d).completionsFor learner items)
      ((Store.database r).completionsFor learner items) := by
  unfold Store.completionsFor
  induction items.eraseDups with
  | nil => exact .nil
  | cons i is ih =>
    have hplain := h.facts learner i
    have hempty : (r.itemFacts learner i).isEmpty = (d.itemFacts learner i).isEmpty := by
      rw [← ItemFacts.isEmpty_plain, hplain, ItemFacts.isEmpty_plain]
    simp only [List.map_cons, List.filter_cons, Store.itemFacts, hempty]
    split
    · refine .cons ⟨rfl, fun kind => ?_⟩ ih
      have hkind : (r.itemFacts learner i kind).map Fact.plain =
          (d.itemFacts learner i kind).map Fact.plain := congrFun hplain kind
      rw [← sameOption_map Fact.same_plain, hkind]
      exact sameOption_refl Fact.same_refl _
    · exact ih

theorem forall₂_same_of_plain {ps qs : List Progression}
    (h : qs.map Progression.plain = ps.map Progression.plain) :
    List.Forall₂ (fun p q => p.same q = true) ps qs := by
  have hplain : List.Forall₂ (fun p q => p.plain = q.plain) ps qs := by
    rw [← List.forall₂_map_left_iff (R := fun a q => a = Progression.plain q),
      ← List.forall₂_map_right_iff, List.forall₂_eq_eq_eq, h]
  exact hplain.imp fun _ _ => Progression.same_of_plain

theorem optionRel_same_of_plain {p q : Option Progression}
    (h : q.map Progression.plain = p.map Progression.plain) :
    Option.Rel (fun p q => p.same q = true) p q := by
  cases p <;> cases q <;> first | exact .none | cases h | skip
  exact .some (Progression.same_of_plain (Option.some.inj h).symm)

namespace Mirrored

theorem tandem_putModule (h : Mirrored σ τ) (hm : m.Storable) (course : Option CourseId) :
    (updateOrFail (·.putModule m course)).Tandem (updateOrFail (·.putModule m course)) σ τ Eq
      Mirrored := by
  obtain ⟨h⟩ := h
  obtain ⟨r, hr, hdr⟩ := h.putModule hm course
  exact (Mirrored.intro h).tandem_updateOrFail rfl (map_eq_ok.2 ⟨r, hr, rfl⟩) hdr

theorem tandem_putCourse (h : Mirrored σ τ) {c : Course} (hc : ∀ m ∈ c.modules, m.Storable) :
    (Action.putCourse c).Tandem (Action.putCourse c) σ τ Eq Mirrored := by
  unfold Action.putCourse
  refine (tandem_forIn (fun m hm σ τ h => ?_) h).bind fun _ _ σ τ _ _ h => ?_
  · exact h.tandem_putModule (hc m hm) _
  · -- The database writes to its journal here, which no answer shows.
    obtain ⟨h⟩ := h
    exact ⟨rfl, .intro h⟩

theorem tandem_record (h : Mirrored σ τ) {score : Option Store.Score}
    (hs : ∀ x ∈ score, x.Admissible) (learner : LearnerId) (item : ItemId) (kind : RequirementKind)
    (satisfiedAt : Instant) :
    (updateOrFail (·.record learner item kind score satisfiedAt)).Tandem
      (updateOrFail (·.record learner item kind score satisfiedAt)) σ τ Eq Mirrored := by
  obtain ⟨h⟩ := h
  have hread : score.mapM Store.Score.read = .ok (score.map (·.number)) := by
    cases score with
    | none => rfl
    | some x => rw [Option.mapM_some, (hs x rfl).read]; rfl
  have hnan : score.map (·.number) ≠ some .nan := by
    cases score with
    | none => simp
    | some x => simpa using (hs x rfl).ne_nan
  have hput : ∀ s : Store, s.record learner item kind score satisfiedAt =
      .ok (s.putFact learner item kind (score.map (·.number)) satisfiedAt) := fun s => by
    rw [s.record_eq, hread]
    rfl
  exact (Mirrored.intro h).tandem_updateOrFail (hput _) (hput _) (h.record hnan kind satisfiedAt)

theorem exists_clear (h : Mirrored σ τ) {kind : Option String}
    (hk : ∀ name ∈ kind, ∃ k : RequirementKind, k.name = name) (learner : LearnerId)
    (item : ItemId) :
    ∃ d r n, σ.store.clearNamed learner item kind = .ok (.memory d, n) ∧
      τ.store.clearNamed learner item kind = .ok (.database r, n) ∧ Mirrors d r := by
  obtain ⟨h⟩ := h
  obtain ⟨d, r, n, hd, hr, hdr⟩ := h.clear hk
  exact ⟨d, r, n, map_eq_ok.2 ⟨_, hd, rfl⟩, map_eq_ok.2 ⟨_, hr, rfl⟩, hdr⟩

theorem perform (h : Mirrored σ τ) {c : Call} (hc : c.Admissible) :
    (c.perform e now).Tandem (c.perform e now) σ τ Answer.SameByValue Mirrored := by
  by_cases heval : c.Evaluates
  · exact (accord.perform heval (fun _ _ => trivial) h).imp fun _ _ hab =>
      hab.1.imp fun _ _ => SameValue.same
  have hdone : ∀ {α β : Type} {x : Action α} {y : Action β} {S : α → β → Prop},
      x.Tandem y σ τ S Mirrored →
      (x >>= fun _ => pure Answer.done).Tandem (y >>= fun _ => pure Answer.done) σ τ
        Answer.SameByValue Mirrored :=
    fun hxy => hxy.bind fun _ _ _ _ _ _ h => tandem_pure .equal h
  -- What is left does not evaluate: it reads the store, or writes to it.
  cases c with
  | putModule m course => exact hdone (h.tandem_putModule hc course)
  | putCourse c => exact hdone (h.tandem_putCourse hc)
  | getModule id =>
    refine (tandem_askOrFail (h.getModule id) h).bind fun m _ _ _ _ hm h => ?_
    subst hm
    exact tandem_pure .equal h
  | record learner item kind score satisfiedAt =>
    refine (tandem_ofExcept h).bind fun kind _ _ _ _ hk h => ?_
    subst hk
    exact (h.tandem_record hc learner item kind _).bind fun _ _ _ _ _ _ h => tandem_pure .equal h
  | recordScore learner item score satisfiedAt =>
    have hs : ∀ x ∈ some score, x.Admissible := by
      rintro x ⟨⟩
      exact hc
    exact hdone (h.tandem_record hs learner item .minScore _)
  | saveProgression learner id p => exact hdone (h.tandem_saveProgression ⟨rfl, hc.2.2⟩ hc.1 hc.2.1)
  | evaluate | evaluateAll | evaluateLearners | gateReport | itemAvailability | openItem
  | setCollapsed | setAllCollapsed | tree | summary => exact absurd trivial heval
  | clear learner item kind =>
    obtain ⟨d, r, n, hs, ht, hdr⟩ := h.exists_clear hc learner item
    have happly : ∀ {υ : Session} {u : Store},
        υ.store.clearNamed learner item kind = .ok (u, n) →
        (Call.clear learner item kind).perform e now υ = .ok (.count n) { υ with store := u } := by
      intro υ u hu
      have hask : askOrFail (·.clearNamed learner item kind) υ = .ok (u, n) υ := askOrFail_of_ok hu
      exact bind_of_ok hask
    unfold Tandem
    rw [happly hs, happly ht]
    obtain ⟨-⟩ := h
    exact ⟨.equal, .intro hdr⟩
  | addLearner learner name =>
    obtain ⟨h⟩ := h
    exact ⟨.equal, .intro (h.addLearner learner name)⟩
  | hasLearner learner =>
    exact ⟨.of_eq (congrArg Answer.flag (h.hasLearner learner)), h⟩
  | learnerIds =>
    obtain ⟨h⟩ := h
    exact ⟨.of_eq (congrArg Answer.ids h.learnerIds), .intro h⟩
  | resetLearner learner =>
    obtain ⟨h⟩ := h
    exact ⟨.equal, .intro (h.resetLearner learner)⟩
  | removeModule id =>
    obtain ⟨h⟩ := h
    exact ⟨.of_eq (congrArg Answer.flag (h.hasModule id)), .intro (h.removeModule id)⟩
  | moduleIds course =>
    obtain ⟨h⟩ := h
    exact ⟨.of_eq (congrArg Answer.ids (h.moduleIds course)), .intro h⟩
  | completions learner items =>
    obtain ⟨h⟩ := h
    exact ⟨.facts (h.completionsFor learner items), .intro h⟩
  | loadProgression learner id =>
    exact ⟨.stored (optionRel_same_of_plain (h.loadProgression learner id)), h⟩
  | listProgressions id =>
    obtain ⟨h⟩ := h
    exact ⟨.listed (forall₂_same_of_plain (h.listProgressions id)), .intro h⟩
  | newEvaluator =>
    obtain ⟨h⟩ := h
    exact ⟨.equal, .intro h⟩
  | issues =>
    obtain ⟨h⟩ := h
    exact ⟨.equal, .intro h⟩

end Mirrored

/-! ## Runs -/

/-- Of two stores that are empty at first, one in memory and one a database, no admissible requests
tell which is which. -/
theorem stores_equivalent (rs : List Request) (h : ∀ r ∈ rs, r.call.Admissible) :
    List.Forall₂ (SameOutcome Answer.SameByValue)
      ((Session.ofStore (.empty .memory)).answers rs)
      ((Session.ofStore (.empty .database)).answers rs) :=
  have hempty : Mirrored (.ofStore (.empty .memory)) (.ofStore (.empty .database)) :=
    .intro .empty
  (answers_same (fun _ _ _ hr hR => hR.perform hr) h hempty).1

/-! ## A run of the sample course -/

namespace Sample

theorem storable_orientation : orientation.Storable where
  toWellFormed := wellFormed_orientation
  finite i hi t ht := by
    rw [threshold_orientation hi ht]
    decide +kernel
  position := by decide
  positions := by decide

/-- The learner reads a page, passes the quiz, and takes the page back. -/
def requests : List Request :=
  [.addLearner "ada" "Ada", .putModule orientation none,
    .record "ada" "welcome-page" "must_view" none none,
    .recordScore "ada" "syllabus-quiz" (.whole 80) none, .evaluate "ada" "orientation",
    .clear "ada" "welcome-page" (some "must_view"), .evaluate "ada" "orientation",
    .listProgressions none].map fun c => ⟨⟨1, none⟩, ⟨0, 0⟩, c⟩

end Sample

theorem sample_stores_equivalent :
    (∀ r ∈ Sample.requests, r.call.Admissible) ∧
      List.Forall₂ (SameOutcome Answer.SameByValue)
        ((Session.ofStore (.empty .memory)).answers Sample.requests)
        ((Session.ofStore (.empty .database)).answers Sample.requests) := by
  have h : ∀ r ∈ Sample.requests, r.call.Admissible := by
    have hkind : ∀ name ∈ some "must_view", ∃ k : RequirementKind, k.name = name := by
      rintro _ ⟨⟩
      exact ⟨.view, rfl⟩
    have hscore : (Store.Score.whole 80).Admissible := by decide +kernel
    simp only [Sample.requests, List.forall_mem_map, List.forall_mem_cons]
    exact ⟨trivial, Sample.storable_orientation, by rintro _ ⟨⟩, hscore, trivial, hkind, trivial,
      trivial, by simp⟩
  exact ⟨h, stores_equivalent _ h⟩

/-! ## What tells the two apart -/

theorem not_same_answers {S : Progression → Progression → Prop} {σ τ : Session} {r : Request}
    {a : Answer} {f : Failure} (hσ : σ.answer r = .ok a) (hτ : τ.answer r = .error f) :
    ¬ List.Forall₂ (SameOutcome (Answer.Same S)) (σ.answers [r]) (τ.answers [r]) := by
  simp only [Session.answers, hσ, hτ]
  rintro (_ | ⟨h, -⟩)
  cases h

/-- A kind that does not exist, where there are no facts: memory has nothing to clear, and the
database fails. -/
theorem stores_told_apart :
    ¬ List.Forall₂ (SameOutcome Answer.SameByValue)
      ((Session.ofStore (.empty .memory)).answers
        [⟨⟨1, none⟩, ⟨0, 0⟩, .clear "ada" "welcome-page" (some "must_dance")⟩])
      ((Session.ofStore (.empty .database)).answers
        [⟨⟨1, none⟩, ⟨0, 0⟩, .clear "ada" "welcome-page" (some "must_dance")⟩]) :=
  not_same_answers (a := .count 0) (f := .unknownRequirementKind "must_dance") rfl rfl

end Pathway
