import Pathway.Proofs.Evaluation.Previous
import Pathway.Proofs.Evaluation.Traffic

/-!
# Completions that last among evaluations

An evaluation that loads what is stored after a completion was saved keeps the completion. So a
completion is lost only to an evaluation that had loaded what was stored before.
-/

namespace Pathway

namespace Evaluation

variable {ι : Type} [DecidableEq ι] {x y z : Traffic ι} {v : Event ι} {vs : List (Event ι)} {i : ι}
  {learner : LearnerId} {id : ModuleId} {p p' : Process} {st st' : Shared} {r : Run} {m : Module}
  {q : Progression} {previous : Option Progression} {next : Process}

/-! ## Processes that keep a completion -/

/-- An answer that the store can give while it holds a completion of the module. -/
def Query.Allows (id : ModuleId) : {α : Type} → Query α → α → Prop
  | _, .load i, previous => i = id → Assessment.wasCompleted previous = true
  | _, .found _, _ => True
  | _, .facts, _ => True

def Effect.Keeps (id : ModuleId) : Effect → Prop
  | save i p => i = id → p.isLocked = false → p.isCompleted = true
  | _ => True

/-- As long as the store holds a completion of the module, the process saves it as completed, or as
locked. -/
def Process.Keeps (id : ModuleId) : Process → Prop
  | done => True
  | failed _ => True
  | ask q next => ∀ a, q.Allows id a → (next a).Keeps id
  | act x next => x.Keeps id ∧ next.Keeps id

namespace Process

theorem keeps_reportAll {is : List Issue} (h : next.Keeps id) : (reportAll is next).Keeps id := by
  induction is with
  | nil => exact h
  | cons i is ih => exact ⟨trivial, ih⟩

theorem keeps_askMet {ids : List ModuleId} {f : Bool → Process} (h : ∀ met, (f met).Keeps id) :
    (askMet ids f).Keeps id := by
  induction ids with
  | nil => exact h true
  | cons i ids ih =>
    intro found _
    dsimp only
    split
    · exact ih
    · exact h false

theorem keeps_settle (hq : m.id = id → q.isLocked = false → q.isCompleted = true)
    (h : next.Keeps id) : (settle m previous q next).Keeps id := by
  unfold settle
  refine ⟨trivial, ?_⟩
  split
  · exact ⟨trivial, h⟩
  · exact ⟨hq, trivial, h⟩

/-- The facts may be what they will: an assessment that finds a completion comes to one again, if
the module is open. -/
theorem keeps_ofModule {met : Bool} (h : next.Keeps id) : (ofModule r m met next).Keeps id := by
  intro previous hprevious
  refine keeps_reportAll ?_
  split
  · intro facts _
    refine keeps_reportAll (keeps_settle (fun hm _ => ?_) h)
    rw [← Progression.isSome_completion?, Assessment.completion?_unlocked (hprevious hm)]
    rfl
  · exact keeps_settle (fun _ hl => by cases hl) h

theorem keeps_ofMembers {barred : Bool} {c : Graph.Component} :
    (ofMembers r barred c).Keeps id := by
  induction c with
  | nil => trivial
  | cons i c ih =>
    unfold ofMembers
    split
    · exact ih
    · split
      · exact keeps_ofModule ih
      · exact keeps_askMet fun _ => keeps_ofModule ih

theorem keeps_ofComponent (r : Run) (depth : Nat) (c : Graph.Component) (id : ModuleId) :
    (ofComponent r depth c).Keeps id := by
  unfold ofComponent
  dsimp only
  split
  · exact ⟨trivial, keeps_ofMembers⟩
  · split
    · exact ⟨trivial, keeps_ofMembers⟩
    · exact keeps_ofMembers

theorem Keeps.step (h : p.Keeps id) (hstep : p.step learner st = some (p', st'))
    (hload : ∀ previous, p.deed learner st = .loads id previous →
      Assessment.wasCompleted previous = true) : p'.Keeps id := by
  cases p with
  | done => cases hstep
  | failed f => cases hstep
  | ask q next =>
    cases hstep
    refine h _ ?_
    cases q with
    | load i =>
      rintro rfl
      exact hload _ rfl
    | found i => trivial
    | facts => trivial
  | act x next =>
    rw [Process.step] at hstep
    split at hstep
    · cases hstep
      exact h.2
    · cases hstep
      trivial

theorem Keeps.isCompleted (h : p.Keeps id) (hd : p.deed learner st = .saves id q)
    (hq : q.isLocked = false) : q.isCompleted = true := by
  cases p with
  | done => cases hd
  | failed f => cases hd
  | ask q next => cases q <;> cases hd
  | act x next =>
    cases x with
    | save i p =>
      simp only [deed] at hd
      split at hd
      · cases hd
        exact h.1 rfl hq
      · cases hd
    | _ => cases hd

end Process

/-- What is left of the evaluation keeps a completion of the module, if it is for the learner. -/
def Errand.Keeps (learner : LearnerId) (id : ModuleId) : Errand → Prop
  | waiting _ => True
  | underway r config => r.learner = learner → ∀ y ∈ config.running, y.2.Keeps id

namespace Traffic

/-! ## One step -/

theorem Step.keeps (h : Step x v y) (hk : (x.errands i).Keeps learner id)
    (hload : ∀ previous, v = .deed i learner (.loads id previous) →
      Assessment.wasCompleted previous = true) : (y.errands i).Keeps learner id := by
  -- Only the evaluation that made the step is another one now.
  have hput : ∀ {j e s}, (j = i → e.Keeps learner id) →
      ((x.put j e s).errands i).Keeps learner id := by
    intro j e s he
    by_cases hj : j = i
    · subst hj
      simpa [put] using he rfl
    · simpa [put, Function.update_of_ne (Ne.symm hj)] using hk
  cases h with
  | plan hi hplan =>
    exact hput fun _ _ y hy => by cases hy
  | @begin j r ys depth gen later st hi hdone =>
    refine hput fun _ _ y hy => ?_
    obtain ⟨c, -, rfl⟩ := List.mem_map.1 hy
    exact Process.keeps_ofComponent r depth c id
  | record ht => exact hk
  | clear => exact hk
  | @advance j r ys zs c p p' depth later st st' hj hstep =>
    refine hput fun hji hr y hy => ?_
    subst hji
    rw [hj] at hk
    have hys := hk hr
    have hp' : p'.Keeps id := by
      refine (hys (c, p) (by simp)).step hstep fun previous hd => hload previous ?_
      rw [← hr, hd]
    rcases List.mem_append.1 hy with hy | hy
    · exact hys y (List.mem_append_left _ hy)
    rcases List.mem_cons.1 hy with rfl | hy
    · exact hp'
    · exact hys y (by simp [hy])

theorem Step.isCompleted (h : Step x (.deed i learner (.saves id q)) y)
    (hk : (x.errands i).Keeps learner id) (hq : q.isLocked = false) : q.isCompleted = true := by
  obtain ⟨r, config, c, p, p', st', hi, hr, hp, hdeed, -, -⟩ := h.exists_process nofun
  rw [hi] at hk
  exact (hk hr (c, p) hp).isCompleted hdeed hq

/-! ## Runs -/

theorem Runs.keeps (h : x.Runs vs y) (hk : (x.errands i).Keeps learner id)
    (hload : ∀ previous, .deed i learner (.loads id previous) ∈ vs →
      Assessment.wasCompleted previous = true) : (y.errands i).Keeps learner id := by
  induction vs generalizing x with
  | nil =>
    obtain rfl : y = x := h
    exact hk
  | cons v vs ih =>
    obtain ⟨z, hz, h⟩ := h
    refine ih h (hz.keeps hk fun previous hv => ?_) fun previous hmem => ?_
    · exact hload previous (hv ▸ List.mem_cons_self)
    · exact hload previous (List.mem_cons_of_mem _ hmem)

/-- Where the evaluations that do not keep a completion save none but completed progressions, a
completion lasts. -/
theorem Runs.completed {stale : Set ι} (h : x.Runs vs y)
    (hx : (x.store.completion? learner id).isSome = true)
    (hk : ∀ i, i ∉ stale → (x.errands i).Keeps learner id)
    (hopen : ∀ i q, .deed i learner (.saves id q) ∈ vs → q.isLocked = false)
    (hstale : ∀ i q, i ∈ stale → .deed i learner (.saves id q) ∈ vs → q.isCompleted = true) :
    (∀ i q, .deed i learner (.saves id q) ∈ vs → q.isCompleted = true) ∧
      (y.store.completion? learner id).isSome = true := by
  induction vs generalizing x with
  | nil =>
    obtain rfl : y = x := h
    exact ⟨nofun, hx⟩
  | cons v vs ih =>
    obtain ⟨z, hz, h⟩ := h
    have hsaved : ∀ i q, v = .deed i learner (.saves id q) → q.isCompleted = true := by
      rintro i q rfl
      by_cases hi : i ∈ stale
      · exact hstale i q hi List.mem_cons_self
      · exact hz.isCompleted (hk i hi) (hopen i q List.mem_cons_self)
    have hstore : (z.store.completion? learner id).isSome = true := by
      rcases hz.completion? learner id with ⟨i, q, rfl, hq⟩ | hsame
      · rw [hq, q.isSome_completion?]
        exact hsaved i q rfl
      · rw [hsame]
        exact hx
    have hkeep : ∀ i, i ∉ stale → (z.errands i).Keeps learner id := by
      refine fun i hi => hz.keeps (hk i hi) ?_
      rintro previous rfl
      rw [hz.previous_eq, Assessment.wasCompleted_eq]
      exact hx
    obtain ⟨hrest, hy⟩ := ih h hstore hkeep
      (fun i q hmem => hopen i q (List.mem_cons_of_mem _ hmem))
      fun i q hi hmem => hstale i q hi (List.mem_cons_of_mem _ hmem)
    refine ⟨fun i q hmem => ?_, hy⟩
    rcases List.mem_cons.1 hmem with heq | hmem
    · exact hsaved i q heq.symm
    · exact hrest i q hmem

end Traffic

/-- Once a completed progression is saved, and as long as none is saved as locked, only an
evaluation that had loaded what was stored before, and had found no completion there, can save one
that is not completed. -/
theorem completion_lasts_in_traffic (s : Store) (jobs : ι → Job) (before after : List (Event ι))
    (i : ι) (learner : LearnerId) (id : ModuleId) (p : Progression) (y : Traffic ι)
    (hrun : (Traffic.start s jobs).Runs (before ++ .deed i learner (.saves id p) :: after) y)
    (hp : p.isCompleted = true)
    (hopen : ∀ j q, .deed j learner (.saves id q) ∈ after → q.isLocked = false)
    (hstale : ∀ j previous q, .deed j learner (.loads id previous) ∈ before →
      Assessment.wasCompleted previous = false → .deed j learner (.saves id q) ∈ after →
      q.isCompleted = true) :
    (∀ j q, .deed j learner (.saves id q) ∈ after → q.isCompleted = true) ∧
      ∃ q, y.store.loadProgression learner id = some q ∧ q.isCompleted = true := by
  obtain ⟨x, hbefore, z, hz, hafter⟩ := Traffic.runs_append.1 hrun
  -- What was loaded after the completion was saved is completed.
  have hkeep : ∀ j, j ∉ {j | ∃ previous, .deed j learner (.loads id previous) ∈ before ∧
      Assessment.wasCompleted previous = false} → (z.errands j).Keeps learner id := by
    intro j hj
    refine hz.keeps (hbefore.keeps trivial fun previous hmem => ?_) fun previous hv => by cases hv
    rw [← Bool.not_eq_false]
    exact fun hno => hj ⟨previous, hmem, hno⟩
  have hstore : (z.store.completion? learner id).isSome = true := by
    rw [hz.completion?_of_saves, p.isSome_completion?]
    exact hp
  obtain ⟨hsaved, hy⟩ := hafter.completed hstore hkeep hopen
    fun j q ⟨previous, hmem, hno⟩ => hstale j previous q hmem hno
  obtain ⟨t, ht⟩ := Option.isSome_iff_exists.1 hy
  obtain ⟨q, hq, hqt⟩ := Option.bind_eq_some_iff.1 ht
  refine ⟨hsaved, q, hq, ?_⟩
  rw [← q.isSome_completion?, hqt]
  rfl

end Evaluation

/-! ## Two visits to a page -/

namespace Sample

open Evaluation

def page : Module := ⟨"page", "", 0, [item "text" "" 1 (some .view)], [], false, 0, none⟩

def library : Store :=
  ((Store.empty .memory).addLearner "ada" "Ada").placeModule page none

def visit : Job := ⟨⟨1, none⟩, ⟨0, 0⟩, "ada", ["page"]⟩

def visitRun : Run := runOf ⟨1, none⟩ "ada" ⟨0, 0⟩ [page]

/-- A visit that has nothing but one process left. -/
def visiting (p : Process) (st : Shared) : Errand :=
  .underway visitRun ⟨[(["page"], p)], 1, [], st⟩

theorem generations_visitRun : visitRun.graph.generations = [[["page"]]] := by decide +kernel

theorem ofComponent_visitRun :
    Process.ofComponent visitRun 0 ["page"] = .ofModule visitRun page true .done := by
  rfl

theorem required_visit {s : Store} (hl : s.hasLearner "ada" = true)
    (hm : s.getModule "page" = .ok page) : s.required "ada" ["page"] = .ok [page] := by
  have hids : ["page"].eraseDups = ["page"] := rfl
  unfold Store.required
  rw [if_pos hl, hids]
  simp only [List.mapM_cons, List.mapM_nil, hm]
  exact closure_of_no_prerequisites rfl

section Visits

variable {ι : Type} [DecidableEq ι] (x : Traffic ι) (i : ι) {s : Store} {st st' : Shared}
  {p p' : Process}

theorem step_visiting (h : p.step "ada" (st.on s) = some (p', st')) :
    (x.put i (visiting p st) s).Step (.deed i "ada" (p.deed "ada" (st.on s)))
      (x.put i (visiting p' st') st'.session.store) := by
  have hi : (x.put i (visiting p st) s).errands i =
      .underway visitRun ⟨[] ++ (["page"], p) :: [], 1, [], st⟩ := Traffic.errands_put
  have hstep := Traffic.Step.advance hi h
  rwa [Traffic.put_put] at hstep

/-- A visit is planned and begun, and loads what is stored and then asks for the facts. -/
def reading (i : ι) (previous : Option Progression) : List (Event ι) :=
  [.deed i "ada" .other, .deed i "ada" .other, .deed i "ada" (.loads "page" previous),
    .deed i "ada" .other]

theorem runs_reading (h : x.errands i = .waiting visit) (hl : x.store.hasLearner "ada" = true)
    (hm : x.store.getModule "page" = .ok page) :
    ∃ st, x.Runs (reading i (x.store.loadProgression "ada" "page"))
      (x.put i (visiting (.settle page (x.store.loadProgression "ada" "page")
        (Assessment.unlocked (x.store.itemFacts "ada") "ada" page
          (x.store.loadProgression "ada" "page")) .done) st) x.store) := by
  have hplan : visit.evaluator.plan visit.now visit.learner visit.ids (.ofStore x.store) =
      .ok visitRun (.ofStore x.store) := by
    have hreq : (Session.ofStore x.store).store.required visit.learner visit.ids = .ok [page] :=
      required_visit hl hm
    rw [plan_apply, hreq]
    rfl
  have hstart : Config.start visitRun (.ofStore x.store) =
      ⟨[], 0, [[["page"]]], ⟨∅, .ofStore x.store⟩⟩ := by
    rw [Config.start, generations_visitRun]
  have hstarted : started visitRun 0 [["page"]] =
      [(["page"], .ofModule visitRun page true .done)] := by
    rw [started, List.map_singleton, ofComponent_visitRun]
  refine ⟨⟨∅, .ofStore x.store⟩, _, .plan h hplan, ?_⟩
  rw [hstart]
  refine ⟨_, .begin Traffic.errands_put (by simp), ?_⟩
  rw [Traffic.put_put, hstarted]
  exact ⟨_, step_visiting x i rfl, _, step_visiting x i rfl, rfl⟩

theorem runs_saving {previous : Option Progression} {q : Progression} (st : Shared)
    (h : x.errands i = visiting (.settle page previous q .done) st)
    (hdiffers : previous.any q.same = false) (hcheck : x.store.checkProgression q = .ok ()) :
    ∃ e, x.Runs [.deed i "ada" .other, .deed i "ada" (.saves "page" q), .deed i "ada" .other]
      (x.put i e (x.store.putProgression "ada" "page" q)) := by
  let noting : Process := .act (.note (evaluatedNotice q)) .done
  have hsettle : Process.settle page previous q .done =
      .act (.remember "page" q) (.act (.save "page" q) noting) := by
    rw [Process.settle, if_neg (by rw [hdiffers]; exact Bool.false_ne_true)]
    rfl
  let st₁ : Shared := (Effect.remember "page" q).change "ada" (st.on x.store)
  have hcheck₁ : (st₁.on x.store).session.store.checkProgression q = .ok () := hcheck
  have hsave : (Process.act (.save "page" q) noting).step "ada" (st₁.on x.store) =
      some (noting, (Effect.save "page" q).change "ada" (st₁.on x.store)) :=
    Process.step_save hcheck₁
  rw [hsettle] at h
  have hremembers : x.Step (.deed i "ada" .other)
      (x.put i (visiting (.act (.save "page" q) noting) st₁) x.store) := by
    have hremember : (Process.act (.remember "page" q) (.act (.save "page" q) noting)).step "ada"
        (st.on x.store) = some (.act (.save "page" q) noting, st₁) := rfl
    have hstep := step_visiting x i hremember
    rwa [Traffic.put_self h] at hstep
  have hsaves := step_visiting x i hsave
  rw [Process.deed_save hcheck₁] at hsaves
  exact ⟨_, _, hremembers, _, hsaves, _, step_visiting x i rfl, rfl⟩

end Visits

def visits : Bool → Job := fun _ => visit

def bothWaiting : Traffic Bool := .start library visits

/-- The page has been read. -/
def readLibrary : Store :=
  library.putFact "ada" "text" .view none ⟨0, 0⟩

theorem record_library : library.record "ada" "text" .view none ⟨0, 0⟩ = .ok readLibrary := rfl

/-- What a visitor finds before the page is read. -/
def unread : Progression := Assessment.unlocked (library.itemFacts "ada") "ada" page none

/-- What a visitor finds after. -/
def done : Progression := Assessment.unlocked (readLibrary.itemFacts "ada") "ada" page none

/-- The one who looked after saves what was found, and then the page counts as not read. -/
def cleared : Store := library.putProgression "ada" "page" done

theorem clearNamed_readLibrary :
    (readLibrary.putProgression "ada" "page" done).clearNamed "ada" "text" none =
      .ok (cleared, 1) := by
  rfl

/-- What a visitor finds then. -/
def kept : Progression := Assessment.unlocked (cleared.itemFacts "ada") "ada" page (some done)

end Sample

open Evaluation Sample in
theorem sample_completion_lasts_in_traffic :
    ∃ before after y,
      bothWaiting.Runs (before ++ .deed true "ada" (.saves "page" done) :: after) y ∧
      .deed false "ada" (.saves "page" kept) ∈ after ∧ kept.met = [] ∧
      (∀ j q, .deed j "ada" (.saves "page" q) ∈ after → q.isCompleted = true) ∧
      ∃ q, y.store.loadProgression "ada" "page" = some q ∧ q.isCompleted = true := by
  let w : Traffic Bool := ⟨readLibrary, bothWaiting.errands⟩
  have hrecord : bothWaiting.Step .facts w := .record record_library
  obtain ⟨st, hfirst⟩ := runs_reading w true rfl rfl rfl
  let x : Traffic Bool := w.put true (visiting (.settle page none done .done) st) readLibrary
  obtain ⟨e, hsaved⟩ := runs_saving x true st (q := done) rfl rfl rfl
  let y : Traffic Bool := x.put true e (readLibrary.putProgression "ada" "page" done)
  let z : Traffic Bool := ⟨cleared, y.errands⟩
  have hclear : y.Step .facts z := .clear clearNamed_readLibrary
  obtain ⟨st', hsecond⟩ := runs_reading z false rfl rfl rfl
  let z' : Traffic Bool := z.put false (visiting (.settle page (some done) kept .done) st') cleared
  obtain ⟨e', hkept⟩ := runs_saving z' false st' (q := kept) rfl rfl rfl
  have hsecond : z.Runs (reading false (some done)) z' := hsecond
  have hlater : y.Runs (.facts :: _) _ := ⟨z, hclear, Traffic.runs_append.2 ⟨z', hsecond, hkept⟩⟩
  have hvisits := Traffic.runs_append.2 ⟨x, hfirst, Traffic.runs_append.2 ⟨y, hsaved, hlater⟩⟩
  have hall : bothWaiting.Runs (.facts :: _) _ := ⟨w, hrecord, hvisits⟩
  let before : List (Event Bool) := .facts :: (reading true none ++ [.deed true "ada" .other])
  let after : List (Event Bool) := .deed true "ada" .other :: .facts ::
    (reading false (some done) ++
      [.deed false "ada" .other, .deed false "ada" (.saves "page" kept), .deed false "ada" .other])
  have hloads : ∀ j previous q, .deed j "ada" (.loads "page" previous) ∈ before →
      Assessment.wasCompleted previous = false → .deed j "ada" (.saves "page" q) ∈ after →
      q.isCompleted = true := by
    intro j previous q hmem hno hq
    obtain ⟨rfl, rfl⟩ : j = false ∧ q = kept := by simpa [after, reading] using hq
    rfl
  have hopen : ∀ j q, .deed j "ada" (.saves "page" q) ∈ after → q.isLocked = false := by
    intro j q hq
    obtain ⟨rfl, rfl⟩ : j = false ∧ q = kept := by simpa [after, reading] using hq
    rfl
  exact ⟨before, after, _, hall, by simp [after], rfl,
    completion_lasts_in_traffic library visits before after true "ada" "page" done _ hall rfl
      hopen hloads⟩

open Evaluation Sample in
/-- Two visitors find the page not completed. The one who looked after it was read saves that it is
completed, and then the other one saves that it is not. -/
theorem completion_lost_in_traffic :
    ∃ before after y,
      bothWaiting.Runs (before ++ .deed true "ada" (.saves "page" done) :: after) y ∧
      done.isCompleted = true ∧
      (∀ j q, .deed j "ada" (.saves "page" q) ∈ after → q.isLocked = false) ∧
      .deed false "ada" (.saves "page" unread) ∈ after ∧ unread.isCompleted = false ∧
      y.store.loadProgression "ada" "page" = some unread := by
  obtain ⟨st, hfirst⟩ := runs_reading bothWaiting false rfl rfl rfl
  -- The page is read between the two looks.
  let w : Traffic Bool :=
    bothWaiting.put false (visiting (.settle page none unread .done) st) library
  let x : Traffic Bool := ⟨readLibrary, w.errands⟩
  have hrecord : w.Step .facts x := .record record_library
  obtain ⟨st', hsecond⟩ := runs_reading x true rfl rfl rfl
  let y : Traffic Bool := x.put true (visiting (.settle page none done .done) st') readLibrary
  obtain ⟨e, hsaved⟩ := runs_saving y true st' (q := done) rfl rfl rfl
  let z : Traffic Bool := y.put true e (readLibrary.putProgression "ada" "page" done)
  obtain ⟨e', hlost⟩ := runs_saving z false st (q := unread) rfl rfl rfl
  refine ⟨reading false none ++ .facts :: (reading true none ++ [.deed true "ada" .other]),
    [.deed true "ada" .other, .deed false "ada" .other,
      .deed false "ada" (.saves "page" unread), .deed false "ada" .other],
    z.put false e' (z.store.putProgression "ada" "page" unread), ?_, rfl, ?_, ?_, rfl, ?_⟩
  · have hvisits := Traffic.runs_append.2 ⟨y, hsecond, Traffic.runs_append.2 ⟨z, hsaved, hlost⟩⟩
    have hrest : w.Runs (.facts :: _) _ := ⟨x, hrecord, hvisits⟩
    have hall := Traffic.runs_append.2 ⟨w, hfirst, hrest⟩
    exact hall
  · intro j q hmem
    obtain ⟨rfl, rfl⟩ : j = false ∧ q = unread := by simpa using hmem
    rfl
  · simp
  · exact (Store.loadProgression_putProgression (s := z.store)).trans (if_pos ⟨rfl, rfl⟩)

end Pathway
