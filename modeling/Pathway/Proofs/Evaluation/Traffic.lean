import Pathway.Proofs.Evaluation.Agreement
import Pathway.Proofs.Evaluation.Completion
import Pathway.Proofs.Evaluation.Interleaving

/-!
# Evaluations on a shared store

Several clients evaluate on one store and record and clear facts. An evaluation reads what was
stored, reads the facts and saves, and each of these is one step between which others may fall.
What a learner has completed changes only in steps that save.
-/

namespace Pathway

namespace Evaluation

/-! ## The system -/

/-- What is asked of an evaluator. -/
structure Job where
  evaluator : Evaluator
  now : Instant
  learner : LearnerId
  ids : List ModuleId

/-- A job that waits, or is being done. It is done on the store that the clients share. -/
inductive Errand where
  | waiting (job : Job)
  | underway (run : Run) (config : Config)

/-- A store that is shared, and the evaluations on it. -/
structure Traffic (ι : Type) where
  store : Store
  errands : ι → Errand

/-- What one step of an evaluation does to the stored progressions of its learner. -/
inductive Deed where
  | loads (id : ModuleId) (previous : Option Progression)
  | saves (id : ModuleId) (p : Progression)
  | other

inductive Event (ι : Type) where
  | deed (i : ι) (learner : LearnerId) (d : Deed)
  | facts

def Shared.on (st : Shared) (s : Store) : Shared :=
  { st with session := { st.session with store := s } }

/-- What the next step of a process does. A save that is refused does nothing. -/
def Process.deed (learner : LearnerId) (st : Shared) : Process → Deed
  | ask (.load id) _ => .loads id (st.session.store.loadProgression learner id)
  | act (.save id p) _ =>
    match st.session.store.checkProgression p with
    | .ok _ => .saves id p
    | .error _ => .other
  | _ => .other

variable {ι : Type} [DecidableEq ι]

def Traffic.put (x : Traffic ι) (i : ι) (e : Errand) (s : Store) : Traffic ι :=
  ⟨s, Function.update x.errands i e⟩

/-- One evaluation goes one step further, or some fact is recorded or cleared. To plan an evaluation
counts as one step: it reads learners and modules, and no step changes these. -/
inductive Traffic.Step : Traffic ι → Event ι → Traffic ι → Prop
  | plan {x : Traffic ι} {i : ι} {job : Job} {r : Run} {σ : Session} :
      x.errands i = .waiting job →
      job.evaluator.plan job.now job.learner job.ids (.ofStore x.store) = .ok r σ →
      Step x (.deed i r.learner .other) (x.put i (.underway r (.start r σ)) x.store)
  | begin {x : Traffic ι} {i : ι} {r : Run} {ys : Running} {depth : Nat}
      {gen : List Graph.Component} {later : List (List Graph.Component)} {st : Shared} :
      x.errands i = .underway r ⟨ys, depth, gen :: later, st⟩ → (∀ y ∈ ys, y.2 = .done) →
      Step x (.deed i r.learner .other)
        (x.put i (.underway r ⟨started r depth gen, depth + 1, later, st⟩) x.store)
  | advance {x : Traffic ι} {i : ι} {r : Run} {ys zs : Running} {c : Graph.Component}
      {p p' : Process} {depth : Nat} {later : List (List Graph.Component)} {st st' : Shared} :
      x.errands i = .underway r ⟨ys ++ (c, p) :: zs, depth, later, st⟩ →
      p.step r.learner (st.on x.store) = some (p', st') →
      Step x (.deed i r.learner (p.deed r.learner (st.on x.store)))
        (x.put i (.underway r ⟨ys ++ (c, p') :: zs, depth, later, st'⟩) st'.session.store)
  | record {x : Traffic ι} {learner : LearnerId} {item : ItemId} {kind : RequirementKind}
      {score : Option Store.Score} {satisfiedAt : Instant} {t : Store} :
      x.store.record learner item kind score satisfiedAt = .ok t →
      Step x .facts ⟨t, x.errands⟩
  | clear {x : Traffic ι} {learner : LearnerId} {item : ItemId} {kind : Option String} {t : Store}
      {n : Nat} :
      x.store.clearNamed learner item kind = .ok (t, n) → Step x .facts ⟨t, x.errands⟩

/-- A series of steps with what they do. -/
def Traffic.Runs : Traffic ι → List (Event ι) → Traffic ι → Prop
  | x, [], y => y = x
  | x, v :: vs, y => ∃ z, Step x v z ∧ Runs z vs y

/-- The store, and jobs none of which has been begun. -/
def Traffic.start (s : Store) (jobs : ι → Job) : Traffic ι := ⟨s, fun i => .waiting (jobs i)⟩

variable {x y z : Traffic ι} {v : Event ι} {vs ws : List (Event ι)} {i j : ι} {e : Errand}
  {s : Store} {learner : LearnerId} {id : ModuleId} {p p' : Process} {st st' : Shared}
  {r : Run} {m : Module} {q : Progression} {previous : Option Progression} {next : Process}

/-! ## Putting and running -/

theorem Traffic.put_put {e' : Errand} {t : Store} : (x.put i e s).put i e' t = x.put i e' t := by
  unfold put
  rw [Function.update_idem]

theorem Traffic.errands_put : (x.put i e s).errands i = e := by
  unfold put
  exact Function.update_self ..

theorem Traffic.put_self (h : x.errands i = e) : x.put i e x.store = x := by
  unfold put
  rw [← h, Function.update_eq_self]

theorem Traffic.runs_append : x.Runs (vs ++ ws) y ↔ ∃ z, x.Runs vs z ∧ z.Runs ws y := by
  induction vs generalizing x with
  | nil => simp [Runs]
  | cons v vs ih =>
    simp only [List.cons_append, Runs, ih]
    constructor
    · rintro ⟨a, ha, z, hz, hy⟩
      exact ⟨z, ⟨a, ha, hz⟩, hy⟩
    · rintro ⟨z, ⟨a, ha, hz⟩, hy⟩
      exact ⟨a, ha, z, hz, hy⟩

/-! ## What a step does to the store -/

theorem store_step (h : p.step learner st = some (p', st')) :
    st'.session.store =
      match p.deed learner st with
      | .saves id q => st.session.store.putProgression learner id q
      | _ => st.session.store := by
  cases p with
  | done => cases h
  | failed f => cases h
  | ask q next =>
    cases h
    cases q <;> rfl
  | act x next =>
    rw [Process.step] at h
    cases x with
    | save id q =>
      cases hc : st.session.store.checkProgression q with
      | ok u =>
        have hcheck : (Effect.save id q).check st = .ok u := hc
        rw [hcheck] at h
        cases h
        simp only [Process.deed, hc]
        rfl
      | error f =>
        have hcheck : (Effect.save id q).check st = .error f := hc
        rw [hcheck] at h
        cases h
        simp only [Process.deed, hc]
    | report i =>
      cases h
      exact Session.store_report i
    | _ =>
      cases h
      rfl

namespace Traffic

theorem Step.completion? (h : Step x v y) (learner : LearnerId) (id : ModuleId) :
    (∃ i q, v = .deed i learner (.saves id q) ∧
      y.store.completion? learner id = q.completion?) ∨
    y.store.completion? learner id = x.store.completion? learner id := by
  cases h with
  | plan => exact Or.inr rfl
  | begin => exact Or.inr rfl
  | record ht =>
    obtain ⟨kept, -, hset⟩ := Store.factsSet_of_record ht
    exact Or.inr (hset.rest.completion? learner id)
  | clear ht => exact Or.inr ((Store.factsSet_of_clearNamed ht).1.rest.completion? learner id)
  | @advance i r ys zs c p p' depth later st st' hi hstep =>
    have hstore := store_step hstep
    dsimp only [put]
    rw [hstore]
    split
    · next j q hd =>
      rw [hd, Store.completion?_putProgression]
      split
      · next heq =>
        obtain ⟨rfl, rfl⟩ := heq
        exact Or.inl ⟨i, q, rfl, rfl⟩
      · exact Or.inr rfl
    · exact Or.inr rfl

theorem Step.required (h : Step x v y) (learner : LearnerId) (ids : List ModuleId) :
    y.store.required learner ids = x.store.required learner ids := by
  cases h with
  | plan => rfl
  | begin => rfl
  | record ht =>
    obtain ⟨kept, -, hset⟩ := Store.factsSet_of_record ht
    exact Store.required_agree (hset.rest.hasLearner learner) hset.rest.getModule
  | clear ht =>
    have hset := (Store.factsSet_of_clearNamed ht).1
    exact Store.required_agree (hset.rest.hasLearner learner) hset.rest.getModule
  | advance hi hstep =>
    have hstore := store_step hstep
    dsimp only [put]
    rw [hstore]
    split
    · next id q _ =>
      exact Store.required_agree ((Store.sameBase_putProgression _ _ id q).hasLearner learner)
        (Store.sameBase_putProgression _ _ id q).getModule
    · rfl

end Traffic

/-! ## Steps that load or save -/

theorem Process.previous_eq_of_deed (h : p.deed learner st = .loads id previous) :
    previous = st.session.store.loadProgression learner id := by
  cases p with
  | ask q next =>
    cases q <;> cases h
    rfl
  | act x next =>
    cases x with
    | save j q =>
      simp only [deed] at h
      split at h <;> cases h
    | _ => cases h
  | _ => cases h

namespace Traffic

theorem Step.exists_process {d : Deed} (h : Step x (.deed i learner d) y) (hd : d ≠ .other) :
    ∃ r config c p p' st', x.errands i = .underway r config ∧ r.learner = learner ∧
      (c, p) ∈ config.running ∧ p.deed learner (config.shared.on x.store) = d ∧
      p.step learner (config.shared.on x.store) = some (p', st') ∧
      y.store = st'.session.store := by
  generalize hv : Event.deed i learner d = v at h
  cases h with
  | plan =>
    cases hv
    exact absurd rfl hd
  | begin =>
    cases hv
    exact absurd rfl hd
  | record => cases hv
  | clear => cases hv
  | @advance j r ys zs c p p' depth later st st' hi hstep =>
    injection hv with hij hl hd
    subst hij hl
    exact ⟨r, _, c, p, p', st', hi, rfl, List.mem_append_right _ List.mem_cons_self, hd.symm, hstep,
      rfl⟩

theorem Step.previous_eq (h : Step x (.deed i learner (.loads id previous)) y) :
    previous = x.store.loadProgression learner id := by
  obtain ⟨r, config, c, p, p', st', -, -, -, hdeed, -, -⟩ := h.exists_process nofun
  exact Process.previous_eq_of_deed hdeed

theorem Step.completion?_of_saves (h : Step x (.deed i learner (.saves id q)) y) :
    y.store.completion? learner id = q.completion? := by
  obtain ⟨r, config, c, p, p', st', -, -, -, hdeed, hstep, hy⟩ := h.exists_process nofun
  rw [hy, store_step hstep, hdeed, Store.completion?_putProgression, if_pos ⟨rfl, rfl⟩]

end Traffic

section Save

variable (h : st.session.store.checkProgression q = .ok ())
include h

theorem Process.step_save : (act (.save id q) next).step learner st =
    some (next, (Effect.save id q).change learner st) := by
  have hcheck : (Effect.save id q).check st = .ok () := h
  rw [step, hcheck]

theorem Process.deed_save : (act (.save id q) next).deed learner st = .saves id q := by
  rw [deed, h]

end Save

end Evaluation

end Pathway
