import Pathway.Proofs.Evaluation.Plain
import Pathway.Proofs.Store

/-!
# A store in memory and a database

A database mirrors a store in memory if its rows say the same as the dictionaries. The same is read
of both, up to the writing of equal numbers. Whatever both have a form for can be written to both,
which leaves the one a mirror of the other.
-/

namespace Pathway

/-- A module, and a row of it that the database can read. -/
def SameModule (m : Module) (row : ModuleRow) : Prop :=
  m.Storable ∧ row.definition = m.document ∧ row.position = m.position

structure Mirrors (d : Dictionaries) (r : Rows) : Prop where
  learners : r.learners = d.learners
  modules : SameTable SameModule d.modules r.modules
  courses : ∀ id, r.modules[id]?.bind (·.course) = d.courses.getD id none
  facts : ∀ learner item, (r.itemFacts learner item).plain = (d.itemFacts learner item).plain
  progressions : ∀ learner id, (r.loadProgression learner id).map Progression.plain =
    (d.loadProgression learner id).map Progression.plain

namespace Mirrors

variable {d d' : Dictionaries} {r r' : Rows} {learner l : LearnerId} {id : ModuleId}
  {item i : ItemId} {m : Module} {course : Option CourseId} {p q : Progression}

theorem empty : Mirrors .empty .empty where
  learners := rfl
  modules := .empty
  courses _ := rfl
  facts _ _ := rfl
  progressions _ _ := rfl

/-! ## Learners and modules -/

theorem hasLearner (h : Mirrors d r) (learner : LearnerId) :
    r.hasLearner learner = d.hasLearner learner := by
  rw [Rows.hasLearner, h.learners, Dictionaries.hasLearner]

theorem learnerIds (h : Mirrors d r) : r.learnerIds = d.learnerIds := by
  rw [Rows.learnerIds, h.learners, Dictionaries.learnerIds]

theorem hasModule (h : Mirrors d r) (id : ModuleId) : r.hasModule id = d.hasModule id :=
  h.modules.contains

theorem getModule (h : Mirrors d r) (id : ModuleId) : r.getModule id = d.getModule id := by
  unfold Rows.getModule Dictionaries.getModule
  rcases cases_of_optionRel (h.modules id) with ⟨hm, hrow⟩ | ⟨m, row, hm, hrow, hs, hdef, -⟩
  · rw [hm, hrow]
  · simp only [hm, hrow, ModuleRow.read, hdef,
      Module.ofDocument_document hs.toWellFormed hs.finite]
    rfl

theorem storable_of_getModule (h : Mirrors d r) (hm : d.getModule id = .ok m) : m.Storable := by
  unfold Dictionaries.getModule at hm
  rcases cases_of_optionRel (h.modules id) with ⟨hn, -⟩ | ⟨n, row, hn, -, hs, -⟩
  · rw [hn] at hm
    cases hm
  · rw [hn] at hm
    cases hm
    exact hs

theorem moduleIds (h : Mirrors d r) (course : Option CourseId) :
    r.moduleIds course = d.moduleIds course := by
  have hbeside : SameTable (fun a b => b.position = a.position ∧ b.course = a.course)
      d.storedModules r.storedModules := by
    intro id
    rw [Dictionaries.storedModules, Rows.storedModules, Std.ExtTreeMap.getElem?_map,
      Std.ExtTreeMap.getElem?_map]
    have hcourse := h.courses id
    rcases cases_of_optionRel (h.modules id) with ⟨hm, hrow⟩ | ⟨m, row, hm, hrow, -, -, hposition⟩
    · rw [hm, hrow]
      exact .none
    · rw [hrow] at hcourse
      rw [hm, hrow]
      exact .some ⟨hposition, hcourse⟩
  have hlisted := hbeside.map_toList (f := fun a => (a.position, a.course))
    (g := fun b => (b.position, b.course)) fun _ _ hab => by rw [hab.1, hab.2]
  have hids : ∀ s : Store, s.moduleIds course =
      (sortByPlace (fun p => (p.2.1, p.1))
        ((s.modules.toList.map fun p => (p.1, p.2.position, p.2.course)).filter
          fun p => course.isNone || p.2.2 == course)).map (·.1) := by
    intro s
    rw [s.moduleIds_eq, List.filter_map, sortByPlace_map, List.map_map]
    rfl
  show (Store.database r).moduleIds course = (Store.memory d).moduleIds course
  rw [hids, hids]
  simp only [Store.modules, hlisted]

theorem addLearner (h : Mirrors d r) (learner : LearnerId) (name : String) :
    Mirrors (d.addLearner learner name) (r.addLearner learner name) :=
  { h with learners := congrArg (·.insert learner name) h.learners }

theorem resetLearner (h : Mirrors d r) (learner : LearnerId) :
    Mirrors (d.resetLearner learner) (r.resetLearner learner) :=
  { h with
    facts := fun l i => by
      have hd : (d.resetLearner learner).itemFacts l i =
        if l = learner then ItemFacts.none else d.itemFacts l i :=
          Store.itemFacts_resetLearner (s := .memory d)
      have hr : (r.resetLearner learner).itemFacts l i =
        if l = learner then ItemFacts.none else r.itemFacts l i :=
          Store.itemFacts_resetLearner (s := .database r)
      rw [hd, hr]
      split
      · rfl
      · exact h.facts l i
    progressions := fun l id => by
      have hd : (d.resetLearner learner).loadProgression l id =
        if l = learner then none else d.loadProgression l id :=
          Store.loadProgression_resetLearner (s := .memory d)
      have hr : (r.resetLearner learner).loadProgression l id =
        if l = learner then none else r.loadProgression l id :=
          Store.loadProgression_resetLearner (s := .database r)
      rw [hd, hr]
      split
      · rfl
      · exact h.progressions l id }

theorem putModule (h : Mirrors d r) (hm : m.Storable) (course : Option CourseId) :
    ∃ r', r.putModule m course = .ok r' ∧ Mirrors (d.putModule m course) r' := by
  refine ⟨r.placeModule m course, ?_, { h with
    modules := h.modules.insert ⟨hm, rfl, rfl⟩
    courses := fun id => ?_ }⟩
  · rw [Rows.putModule, Column.check, if_pos hm.position]
    rfl
  · simp only [Rows.placeModule, Rows.insertModule, Table.getElem?_insert,
      Dictionaries.getD_courses_putModule, ← h.courses]
    split
    · next heq =>
      subst heq
      rfl
    · rfl

theorem removeModule (h : Mirrors d r) (id : ModuleId) :
    Mirrors (d.removeModule id) (r.removeModule id) :=
  { h with
    modules := h.modules.erase
    courses := fun i => by
      simp only [Rows.removeModule, Dictionaries.removeModule, Table.getElem?_erase,
        Std.ExtTreeMap.getD_erase, Std.LawfulEqCmp.compare_eq_iff_eq, ← h.courses]
      split <;> rfl
    progressions := fun l i => by
      have hd : (d.removeModule id).loadProgression l i =
        if i = id then none else d.loadProgression l i :=
          Store.loadProgression_removeModule (s := .memory d)
      have hr : (r.removeModule id).loadProgression l i =
        if i = id then none else r.loadProgression l i :=
          Store.loadProgression_removeModule (s := .database r)
      rw [hd, hr]
      split
      · rfl
      · exact h.progressions l i }

/-! ## Facts -/

theorem of_factsSet (h : Mirrors d r) {fs gs : ItemFacts}
    (hd : (Store.memory d).FactsSet learner item fs (.memory d'))
    (hr : (Store.database r).FactsSet learner item gs (.database r')) (hfs : gs.plain = fs.plain) :
    Mirrors d' r' := by
  obtain ⟨hdlearners, hdmodules, hdcourses, -⟩ :=
    Dictionaries.mk.inj (Store.memory.inj hd.rest.frame)
  obtain ⟨hrlearners, hrmodules, -⟩ := Rows.mk.inj (Store.database.inj hr.rest.frame)
  constructor
  · rw [hrlearners, hdlearners, h.learners]
  · rw [hrmodules, hdmodules]
    exact h.modules
  · rw [hrmodules, hdcourses]
    exact h.courses
  · intro l i
    have hdfacts : d'.itemFacts l i = _ := hd.itemFacts l i
    have hrfacts : r'.itemFacts l i = _ := hr.itemFacts l i
    rw [hdfacts, hrfacts]
    split
    · exact hfs
    · exact h.facts l i
  · intro l id
    have hdsame : d'.loadProgression l id = d.loadProgression l id := hd.rest.loadProgression l id
    have hrsame : r'.loadProgression l id = r.loadProgression l id := hr.rest.loadProgression l id
    rw [hdsame, hrsame]
    exact h.progressions l id

theorem record (h : Mirrors d r) {score : Option Binary64} (hscore : score ≠ some .nan)
    (kind : RequirementKind) (satisfiedAt : Instant) :
    Mirrors (d.record learner item kind score satisfiedAt)
      (r.record learner item kind score satisfiedAt) := by
  have hkept : (score.bind Column.ofReal).map Binary64.dropZeroSign =
      score.map Binary64.dropZeroSign := by
    cases score with
    | none => rfl
    | some x =>
      have hx : x ≠ .nan := fun hx => hscore (congrArg some hx)
      rw [Option.bind_some, Column.ofReal, if_neg hx, Option.map_some, Option.map_some,
        Binary64.dropZeroSign_dropZeroSign]
  refine h.of_factsSet (Store.factsSet_putFact ..) (Store.factsSet_putFact ..) ?_
  have hfacts : ((Store.database r).itemFacts learner item).plain =
      ((Store.memory d).itemFacts learner item).plain := h.facts learner item
  rw [ItemFacts.plain_set, ItemFacts.plain_set, hfacts]
  simp only [Store.keepScore, Fact.plain, hkept]

theorem clear (h : Mirrors d r) {kind : Option String}
    (hk : ∀ name ∈ kind, ∃ k : RequirementKind, k.name = name) :
    ∃ d' r' n, d.clear learner item kind = .ok (d', n) ∧ r.clear learner item kind = .ok (r', n) ∧
      Mirrors d' r' := by
  obtain ⟨d', n, hd⟩ := Store.exists_clear hk d
  obtain ⟨r', n', hr⟩ := Store.exists_rows_clear hk r
  obtain ⟨hdset, rfl⟩ := Store.factsSet_of_clear hd
  obtain ⟨hrset, rfl⟩ := Store.factsSet_of_rows_clear hr
  have hfacts := h.facts learner item
  have hcount :
      (r.itemFacts learner item).countOf kind = (d.itemFacts learner item).countOf kind := by
    rw [← ItemFacts.countOf_plain, hfacts, ItemFacts.countOf_plain]
  refine ⟨d', r', _, hd, hcount ▸ hr, h.of_factsSet hdset hrset ?_⟩
  rw [ItemFacts.plain_without, hfacts, ItemFacts.plain_without]

/-! ## Progressions -/

theorem saveProgression (h : Mirrors d r) (hpq : q.plain = p.plain) (hl : p.learner = learner)
    (hm : p.module = id) (hword : ∀ i ∈ p.currentPosition, Number.isSignedWord i = true) :
    ∃ r', r.saveProgression learner id q = .ok r' ∧
      Mirrors (d.saveProgression learner id p) r' := by
  subst hl hm
  have hcheck : Column.checkOptional q.currentPosition = .ok () := by
    have hposition : q.currentPosition = p.currentPosition := congrArg (·.currentPosition) hpq
    rw [hposition]
    cases hp : p.currentPosition with
    | none => rfl
    | some i => rw [Column.checkOptional, Column.check, if_pos (hword i hp)]
  refine ⟨r.insertProgression p.learner p.module q, ?_, { h with
    progressions := fun l i => ?_ }⟩
  · rw [Rows.saveProgression, hcheck]
    rfl
  · have hkey : { q with learner := p.learner, module := p.module } = q := by
      have hlearner : q.learner = p.learner := congrArg (·.learner) hpq
      have hmodule : q.module = p.module := congrArg (·.module) hpq
      rw [← hlearner, ← hmodule]
    have hd : (d.saveProgression p.learner p.module p).loadProgression l i =
      if p.learner = l ∧ p.module = i then some p else d.loadProgression l i :=
        Store.loadProgression_putProgression (s := .memory d)
    rw [hd, Rows.loadProgression_insertProgression, hkey]
    split
    · exact congrArg some hpq
    · exact h.progressions l i

theorem listProgressions (h : Mirrors d r) (id : Option ModuleId) :
    (r.listProgressions id).map Progression.plain =
      (d.listProgressions id).map Progression.plain := by
  have hkeys : r.progressions.keys = d.progressions.keys := by
    refine keys_eq_of_contains fun key => ?_
    rw [← Rows.isSome_loadProgression, ← Dictionaries.isSome_loadProgression,
      ← Option.isSome_map, h.progressions, Option.isSome_map]
  rw [Rows.listProgressions, d.listProgressions_eq, hkeys, List.map_filterMap, List.map_filterMap]
  exact List.filterMap_congr fun key _ => h.progressions key.1 key.2

end Mirrors

end Pathway
