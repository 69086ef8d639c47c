import Mathlib.Data.List.Forall2
import Pathway.Session

/-!
# How actions end

An action ends well in a session with a result, or it fails. Rules for each way of putting actions
together give what holds at the end.
-/

namespace Pathway

variable {α β : Type} {σ σ' : Session} {f : Failure}

theorem Issue.same_refl (i : Issue) : i.same i = true := by
  cases i <;> exact beq_self_eq_true _

theorem Issue.same_trans {i j k : Issue} (h : i.same j = true) (g : j.same k = true) :
    i.same k = true := by
  cases i <;> cases j <;> cases k <;>
    simp only [Issue.same, beq_iff_eq, Bool.false_eq_true] at * <;>
    exact h.trans g

namespace Session

@[simp]
theorem store_note (n : Notice) : (σ.note n).store = σ.store := rfl

@[simp]
theorem store_report (i : Issue) : (σ.report i).store = σ.store := by
  unfold report
  split <;> rfl

@[simp]
theorem store_noteAll (ns : List Notice) : (σ.noteAll ns).store = σ.store := by
  induction ns generalizing σ with
  | nil => rfl
  | cons n ns ih => exact ih

theorem issues_noteAll (ns : List Notice) : (σ.noteAll ns).issues = σ.issues := by
  induction ns generalizing σ with
  | nil => rfl
  | cons n ns ih => exact ih

theorem saves_noteAll (ns : List Notice) : (σ.noteAll ns).saves = σ.saves := by
  induction ns generalizing σ with
  | nil => rfl
  | cons n ns ih => exact ih

@[simp]
theorem store_reportAll (is : List Issue) : (σ.reportAll is).store = σ.store := by
  induction is generalizing σ with
  | nil => rfl
  | cons i is ih => exact ih.trans (store_report i)

theorem reportAll_append (is js : List Issue) :
    σ.reportAll (is ++ js) = (σ.reportAll is).reportAll js := List.foldl_append

theorem any_report (i j : Issue) :
    (σ.report i).issues.any j.same = (σ.issues.any j.same || j.same i) := by
  unfold report
  split
  · next h =>
    obtain ⟨x, hx, hix⟩ := List.any_eq_true.1 h
    cases hj : j.same i with
    | false => rw [Bool.or_false]
    | true =>
      rw [Bool.or_true]
      exact List.any_eq_true.2 ⟨x, hx, Issue.same_trans hj hix⟩
  · rw [List.any_append, List.any_cons, List.any_nil, Bool.or_false]

end Session

namespace Action

/-! ## One after the other -/

section Sequence

variable {ε ς : Type} {x : EStateM ε ς α} {k : α → EStateM ε ς β} {a : α} {b : β} {f : ε} {s t : ς}

theorem bind_of_ok (h : x s = .ok a t) : (x >>= k) s = k a t := by
  simp only [Bind.bind, EStateM.bind, h]

theorem bind_of_error (h : x s = .error f t) : (x >>= k) s = .error f t := by
  simp only [Bind.bind, EStateM.bind, h]

theorem bind_eq_ok : (x >>= k) s = .ok b t ↔ ∃ a u, x s = .ok a u ∧ k a u = .ok b t := by
  cases hx : x s with
  | ok a u =>
    rw [bind_of_ok hx]
    constructor
    · exact fun h => ⟨a, u, rfl, h⟩
    · rintro ⟨a', u', h, h'⟩
      cases h
      exact h'
  | error f u =>
    rw [bind_of_error hx]
    constructor
    · intro h
      cases h
    · rintro ⟨a', u', h, -⟩
      cases h

theorem bind_pure_eq_ok {g : α → β} :
    (x >>= fun a => pure (g a)) s = .ok b t ↔ ∃ a, x s = .ok a t ∧ g a = b := by
  rw [bind_eq_ok]
  constructor
  · rintro ⟨a, u, hx, hpure⟩
    cases hpure
    exact ⟨a, hx, rfl⟩
  · rintro ⟨a, hx, rfl⟩
    exact ⟨a, t, hx, rfl⟩

theorem error_of_bind (h : (x >>= k) s = .error f t) (hk : ∀ a u, ∃ b v, k a u = .ok b v) :
    x s = .error f t := by
  cases hx : x s with
  | ok a u =>
    rw [bind_of_ok hx] at h
    obtain ⟨b, v, hb⟩ := hk a u
    cases hb.symm.trans h
  | error g u =>
    rw [bind_of_error hx] at h
    cases h
    rfl

theorem get_bind {k : ς → EStateM ε ς β} : (get >>= k) s = k s s := rfl

theorem forM_cons {xs : List α} {k : α → EStateM ε ς PUnit} :
    (a :: xs).forM k s = (k a >>= fun _ => xs.forM k) s := rfl

theorem forM_of_ok {xs : List α} {k : α → EStateM ε ς PUnit} (h : ∀ a ∈ xs, k a s = .ok ⟨⟩ s) :
    xs.forM k s = .ok ⟨⟩ s := by
  induction xs with
  | nil => rfl
  | cons a xs ih =>
    rw [forM_cons, bind_of_ok (h a List.mem_cons_self)]
    exact ih fun a ha => h a (List.mem_cons_of_mem _ ha)

end Sequence

/-! ## How an action ends -/

variable {x : Action α} {k : α → Action β} {a : α} {P P' : α → Session → Prop}
  {Q : β → Session → Prop} {E E' : Failure → Prop}

/-- From the session, the action gives a result and a session with `P`, or fails with `E`. -/
def Ends (x : Action α) (σ : Session) (P : α → Session → Prop) (E : Failure → Prop) : Prop :=
  match x σ with
  | .ok a σ' => P a σ'
  | .error f _ => E f

theorem Ends.imp (h : x.Ends σ P E) (hP : ∀ a σ', P a σ' → P' a σ') (hE : ∀ f, E f → E' f) :
    x.Ends σ P' E' := by
  unfold Ends at *
  split at h
  · next hx => simpa only [hx] using hP _ _ h
  · next hx => simpa only [hx] using hE _ h

theorem Ends.of_ok (h : x.Ends σ P E) (hx : x σ = .ok a σ') : P a σ' := by
  unfold Ends at h
  rwa [hx] at h

theorem Ends.of_error (h : x.Ends σ P E) (hx : x σ = .error f σ') : E f := by
  unfold Ends at h
  rwa [hx] at h

theorem Ends.imp_ok (h : x.Ends σ P E) (hP : ∀ a σ', x σ = .ok a σ' → P' a σ') :
    x.Ends σ P' E := by
  unfold Ends at *
  split at h
  · next hx => simpa only [hx] using hP _ _ hx
  · next hx => simpa only [hx] using h

theorem Ends.and_ok (h : x.Ends σ P E) : x.Ends σ (fun a σ' => x σ = .ok a σ' ∧ P a σ') E :=
  h.imp_ok fun _ _ hx => ⟨hx, h.of_ok hx⟩

theorem Ends.exists_ok (h : x.Ends σ P E) (hE : ∀ f, ¬ E f) :
    ∃ a σ', x σ = .ok a σ' ∧ P a σ' := by
  unfold Ends at h
  split at h
  · next hx => exact ⟨_, _, hx, h⟩
  · exact absurd h (hE _)

theorem Ends.bind (h : x.Ends σ P E) (hk : ∀ a σ', P a σ' → (k a).Ends σ' Q E) :
    (x >>= k).Ends σ Q E := by
  unfold Ends at h
  split at h
  · next hx => simpa only [Ends, Bind.bind, EStateM.bind, hx] using hk _ _ h
  · next hx => simpa only [Ends, Bind.bind, EStateM.bind, hx] using h

theorem Ends.of_bind (h : (x >>= k).Ends σ Q E) : x.Ends σ (fun a σ' => (k a).Ends σ' Q E) E := by
  unfold Ends
  split
  · next hx => simpa only [Ends, Bind.bind, EStateM.bind, hx] using h
  · next hx => simpa only [Ends, Bind.bind, EStateM.bind, hx] using h

theorem ends_pure (h : P a σ) : (pure a : Action α).Ends σ P E := h

theorem ends_throw (h : E f) : (throw f : Action α).Ends σ P E := h

/-! ## First steps -/

theorem ask_bind {g : Store → α} : (ask g >>= k) σ = k (g σ.store) σ := rfl

theorem reportAll_bind {is : List Issue} {k : Unit → Action β} :
    (reportAll is >>= k) σ = k () (σ.reportAll is) := rfl

theorem ends_ask {g : Store → α} (h : (k (g σ.store)).Ends σ Q E) : (ask g >>= k).Ends σ Q E := h

theorem ends_note {n : Notice} {k : Unit → Action β} (h : (k ()).Ends (σ.note n) Q E) :
    (note n >>= k).Ends σ Q E := h

theorem ends_noteAll {ns : List Notice} {k : Unit → Action β} (h : (k ()).Ends (σ.noteAll ns) Q E) :
    (noteAll ns >>= k).Ends σ Q E := h

theorem ends_report {i : Issue} {k : Unit → Action β} (h : (k ()).Ends (σ.report i) Q E) :
    (report i >>= k).Ends σ Q E := h

theorem ends_reportAll {is : List Issue} {k : Unit → Action β}
    (h : (k ()).Ends (σ.reportAll is) Q E) : (reportAll is >>= k).Ends σ Q E := h

theorem ofExcept_ok (a : α) : ofExcept (.ok a) σ = .ok a σ := rfl

theorem ofExcept_error : (ofExcept (.error f) : Action α) σ = .error f σ := rfl

theorem ends_ofExcept {x : Except Failure α} (hx : x = .ok a) (h : (k a).Ends σ Q E) :
    (ofExcept x >>= k).Ends σ Q E := by
  subst hx
  exact h

theorem askOrFail_apply {g : Store → Except Failure α} :
    askOrFail g σ = ofExcept (g σ.store) σ := rfl

theorem askOrFail_of_ok {g : Store → Except Failure α} (h : g σ.store = .ok a) :
    askOrFail g σ = .ok a σ := by rw [askOrFail_apply, h, ofExcept_ok]

theorem askOrFail_of_error {g : Store → Except Failure α} (h : g σ.store = .error f) :
    askOrFail g σ = .error f σ := by rw [askOrFail_apply, h, ofExcept_error]

theorem ends_askOrFail {g : Store → Except Failure α}
    (hok : ∀ a, g σ.store = .ok a → (k a).Ends σ Q E) (herr : ∀ f, g σ.store = .error f → E f) :
    (askOrFail g >>= k).Ends σ Q E := by
  unfold Ends
  cases hg : g σ.store with
  | ok a =>
    rw [bind_of_ok (askOrFail_of_ok hg)]
    exact hok a hg
  | error f =>
    rw [bind_of_error (askOrFail_of_error hg)]
    exact herr f hg

theorem askOrFail_bind_pure {γ : Type} {g : Store → Except Failure α} {f : α → γ} :
    (askOrFail g >>= fun a => pure (f a)) = askOrFail fun s => (g s).map f := by
  funext σ
  cases hg : g σ.store with
  | ok a =>
    rw [bind_of_ok (askOrFail_of_ok hg), askOrFail_of_ok (by rw [hg]; rfl)]
    rfl
  | error f => rw [bind_of_error (askOrFail_of_error hg), askOrFail_of_error (by rw [hg]; rfl)]

theorem updateOrFail_of_ok {g : Store → Except Failure Store} {s : Store}
    (h : g σ.store = .ok s) : updateOrFail g σ = .ok () { σ with store := s } :=
  bind_of_ok (askOrFail_of_ok h)

theorem updateOrFail_of_error {g : Store → Except Failure Store}
    (h : g σ.store = .error f) : updateOrFail g σ = .error f σ :=
  bind_of_error (askOrFail_of_error h)

theorem saveProgression_of_ok {learner : LearnerId} {id : ModuleId} {p : Progression} {s : Store}
    (h : σ.store.saveProgression learner id p = .ok s) :
    saveProgression learner id p σ = .ok () { σ with store := s, saves := σ.saves + 1 } :=
  updateOrFail_of_ok (σ := { σ with saves := σ.saves + 1 }) h

theorem saveProgression_of_error {learner : LearnerId} {id : ModuleId} {p : Progression}
    (h : σ.store.saveProgression learner id p = .error f) :
    saveProgression learner id p σ = .error f { σ with saves := σ.saves + 1 } :=
  updateOrFail_of_error (σ := { σ with saves := σ.saves + 1 }) h

theorem ends_saveProgression {learner : LearnerId} {id : ModuleId} {p : Progression}
    {k : Unit → Action β}
    (hok : ∀ s, σ.store.saveProgression learner id p = .ok s →
      (k ()).Ends { σ with store := s, saves := σ.saves + 1 } Q E)
    (herr : ∀ f, σ.store.saveProgression learner id p = .error f → E f) :
    (saveProgression learner id p >>= k).Ends σ Q E := by
  unfold Ends
  cases h : σ.store.saveProgression learner id p with
  | ok s =>
    rw [bind_of_ok (saveProgression_of_ok h)]
    exact hok s h
  | error f =>
    rw [bind_of_error (saveProgression_of_error h)]
    exact herr f h

theorem ends_mapM_askOrFail {γ : Type} {g : γ → Store → Except Failure α} (l : List γ) :
    (l.mapM fun c => askOrFail (g c)).Ends σ
      (fun as σ' => σ' = σ ∧ List.Forall₂ (fun c a => g c σ.store = .ok a) l as)
      (fun f => ∃ c ∈ l, g c σ.store = .error f) := by
  induction l with
  | nil => exact ends_pure ⟨rfl, .nil⟩
  | cons c l ih =>
    rw [List.mapM_cons]
    refine ends_askOrFail (fun a ha => ?_) fun f h => ⟨c, List.mem_cons_self, h⟩
    refine Ends.bind (ih.imp (fun _ _ h => h) ?_) ?_
    · rintro f ⟨d, hd, h⟩
      exact ⟨d, List.mem_cons_of_mem _ hd, h⟩
    · rintro as _ ⟨rfl, has⟩
      exact ends_pure ⟨rfl, .cons ha has⟩

theorem mem_of_forall₂_ok {γ : Type} {g : γ → Except Failure α} {l : List γ} {as : List α}
    (h : List.Forall₂ (fun c a => g c = .ok a) l as) : a ∈ as ↔ ∃ c ∈ l, g c = .ok a := by
  induction h with
  | nil => simp
  | cons hca _ ih => simp [ih, hca, eq_comm]

end Action

end Pathway
