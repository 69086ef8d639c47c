import Pathway.Proofs.Session

/-!
# Two actions side by side

Two actions go in tandem from two sessions if both end well, with results that belong together, or
both fail for the same cause. The sessions they end in belong together either way.
-/

namespace Pathway.Action

variable {α β γ δ : Type} {x : Action α} {y : Action β} {k : α → Action γ} {l : β → Action δ}
  {σ τ : Session} {S S' : α → β → Prop} {T : γ → δ → Prop} {R : Session → Session → Prop}

def Tandem (x : Action α) (y : Action β) (σ τ : Session) (S : α → β → Prop)
    (R : Session → Session → Prop) : Prop :=
  match x σ, y τ with
  | .ok a σ', .ok b τ' => S a b ∧ R σ' τ'
  | .error f σ', .error g τ' => f = g ∧ R σ' τ'
  | _, _ => False

theorem Tandem.imp (h : x.Tandem y σ τ S R) (hS : ∀ a b, S a b → S' a b) :
    x.Tandem y σ τ S' R := by
  unfold Tandem at *
  split at h
  · exact ⟨hS _ _ h.1, h.2⟩
  · exact h
  · exact h.elim

theorem tandem_pure {a : α} {b : β} (h : S a b) (hR : R σ τ) :
    (pure a : Action α).Tandem (pure b) σ τ S R := ⟨h, hR⟩

theorem tandem_throw {f : Failure} (hR : R σ τ) :
    (throw f : Action α).Tandem (throw f : Action β) σ τ S R := ⟨rfl, hR⟩

/-- Two first parts in tandem, and two second parts from wherever the first ones end well. -/
theorem Tandem.bind (h : x.Tandem y σ τ S R)
    (hk : ∀ a b σ' τ', x σ = .ok a σ' → S a b → R σ' τ' → (k a).Tandem (l b) σ' τ' T R) :
    (x >>= k).Tandem (y >>= l) σ τ T R := by
  unfold Tandem at h
  split at h
  · next a σ' b τ' hx hy =>
    have := hk a b σ' τ' hx h.1 h.2
    unfold Tandem at *
    rwa [bind_of_ok hx, bind_of_ok hy]
  · next f σ' g τ' hx hy =>
    unfold Tandem
    rw [bind_of_error hx, bind_of_error hy]
    exact h
  · exact h.elim

/-! ## Results -/

/-- The result of an action, or its failure. -/
def outcome (x : Action α) (σ : Session) : Except Failure α :=
  match x σ with
  | .ok a _ => .ok a
  | .error f _ => .error f

theorem outcome_of_ok {a : α} (h : x σ = .ok a τ) : x.outcome σ = .ok a := by rw [outcome, h]

theorem outcome_of_error {f : Failure} (h : x σ = .error f τ) : x.outcome σ = .error f := by
  rw [outcome, h]

theorem outcome_eq_ok {a : α} : x.outcome σ = .ok a ↔ ∃ τ, x σ = .ok a τ := by
  unfold outcome
  cases x σ <;> simp

theorem outcome_bind_of_ok {a : α} (h : x σ = .ok a τ) :
    (x >>= k).outcome σ = (k a).outcome τ := by
  rw [outcome, bind_of_ok h, outcome]

theorem outcome_bind_of_error {f : Failure} (h : x σ = .error f τ) :
    (x >>= k).outcome σ = .error f := by
  rw [outcome, bind_of_error h]

theorem outcome_bind_pure {g : α → γ} :
    (x >>= fun a => pure (g a)).outcome σ = (x.outcome σ).map g := by
  cases hx : x σ with
  | ok a τ =>
    rw [outcome_bind_of_ok hx, outcome_of_ok hx]
    rfl
  | error f τ =>
    rw [outcome_bind_of_error hx, outcome_of_error hx]
    rfl

theorem Tandem.outcome_eq {y : Action α} (h : x.Tandem y σ τ Eq R) : y.outcome τ = x.outcome σ := by
  unfold Tandem at h
  split at h
  · next hx hy => rw [outcome_of_ok hx, outcome_of_ok hy, h.1]
  · next hx hy => rw [outcome_of_error hx, outcome_of_error hy, h.1]
  · exact h.elim

/-! ## One action beside itself -/

/-- The session in which an action ends, well or not. -/
def finish (x : Action α) (σ : Session) : Session :=
  match x σ with
  | .ok _ τ => τ
  | .error _ τ => τ

theorem finish_bind (hk : ∀ a τ, (k a).finish τ = τ) : (x >>= k).finish σ = x.finish σ := by
  unfold Action.finish at hk ⊢
  cases hx : x σ with
  | ok a τ =>
    rw [bind_of_ok hx]
    exact hk a τ
  | error f τ => rw [bind_of_error hx]

theorem finish_bind_of_ok {a : α} (h : x σ = .ok a τ) : (x >>= k).finish σ = (k a).finish τ := by
  rw [finish, bind_of_ok h, finish]

theorem finish_ofExcept {e : Except Failure α} : (ofExcept e).finish σ = σ := by
  cases e <;> rfl

theorem store_finish_updateOrFail {g : Store → Except Failure Store} :
    ((updateOrFail g).finish σ).store =
      match g σ.store with
      | .ok s => s
      | .error _ => σ.store := by
  unfold Action.finish
  cases h : g σ.store with
  | ok s => rw [updateOrFail_of_ok h]
  | error f => rw [updateOrFail_of_error h]

theorem Tandem.finish (h : x.Tandem y σ τ S R) : R (x.finish σ) (y.finish τ) := by
  unfold Tandem at h
  unfold Action.finish
  split at h
  · next hx hy =>
    rw [hx, hy]
    exact h.2
  · next hx hy =>
    rw [hx, hy]
    exact h.2
  · exact h.elim

theorem tandem_self {S : α → α → Prop} (hS : ∀ a, S a a) (hR : R (x.finish σ) (x.finish σ)) :
    x.Tandem x σ σ S R := by
  unfold Tandem
  unfold Action.finish at hR
  cases hx : x σ with
  | ok a σ' =>
    rw [hx] at hR
    exact ⟨hS a, hR⟩
  | error f σ' =>
    rw [hx] at hR
    exact ⟨rfl, hR⟩

/-! ## The store -/

theorem tandem_ask {g : Store → α} {g' : Store → β}
    (h : (k (g σ.store)).Tandem (l (g' τ.store)) σ τ T R) :
    (ask g >>= k).Tandem (ask g' >>= l) σ τ T R := h

theorem tandem_ofExcept {e : Except Failure α} (hR : R σ τ) :
    (ofExcept e).Tandem (ofExcept e) σ τ Eq R := by
  cases e <;> exact ⟨rfl, hR⟩

theorem tandem_askOrFail {g g' : Store → Except Failure α} (h : g' τ.store = g σ.store)
    (hR : R σ τ) : (askOrFail g).Tandem (askOrFail g') σ τ Eq R := by
  unfold Tandem
  rw [askOrFail_apply, askOrFail_apply, h]
  exact tandem_ofExcept hR

/-! ## Failures caught, and lists of actions -/

/-- Both results, and they belong together, or the same failure. -/
inductive SameOutcome (S : α → β → Prop) : Except Failure α → Except Failure β → Prop
  | ok {a : α} {b : β} : S a b → SameOutcome S (.ok a) (.ok b)
  | error {f : Failure} : SameOutcome S (.error f) (.error f)

theorem SameOutcome.eq {x y : Except Failure α} (h : SameOutcome Eq x y) : x = y := by
  cases h with
  | ok hab => rw [hab]
  | error => rfl

theorem Tandem.attempt (h : x.Tandem y σ τ S R) :
    (attempt x).Tandem (attempt y) σ τ (SameOutcome S) R := by
  unfold Tandem at h
  unfold Tandem Action.attempt
  split at h
  · next hx hy =>
    rw [hx, hy]
    exact ⟨.ok h.1, h.2⟩
  · next hx hy =>
    rw [hx, hy]
    obtain ⟨rfl, hR⟩ := h
    exact ⟨.error, hR⟩
  · exact h.elim

theorem tandem_mapM {Q : γ → δ → Prop} {cs : List γ} {ds : List δ} {f : γ → Action α}
    {g : δ → Action β} (h : List.Forall₂ Q cs ds)
    (hfg : ∀ c d σ τ, Q c d → R σ τ → (f c).Tandem (g d) σ τ S R) (hR : R σ τ) :
    (cs.mapM f).Tandem (ds.mapM g) σ τ (List.Forall₂ S) R := by
  induction h generalizing σ τ with
  | nil => exact tandem_pure .nil hR
  | cons hcd _ ih =>
    rw [List.mapM_cons, List.mapM_cons]
    refine (hfg _ _ σ τ hcd hR).bind fun a b σ' τ' _ hab hR' => ?_
    refine (ih hR').bind fun as bs σ'' τ'' _ habs hR'' => ?_
    exact tandem_pure (.cons hab habs) hR''

theorem tandem_forIn {cs : List γ} {f g : γ → Action Unit}
    (hfg : ∀ c ∈ cs, ∀ σ τ, R σ τ → (f c).Tandem (g c) σ τ Eq R) (hR : R σ τ) :
    (forIn cs PUnit.unit fun c _ => do f c; pure (ForInStep.yield PUnit.unit)).Tandem
      (forIn cs PUnit.unit fun c _ => do g c; pure (ForInStep.yield PUnit.unit)) σ τ Eq R := by
  induction cs generalizing σ τ with
  | nil => exact tandem_pure rfl hR
  | cons c cs ih =>
    rw [List.forIn_cons, List.forIn_cons, bind_assoc, bind_assoc]
    refine (hfg c List.mem_cons_self σ τ hR).bind fun _ _ σ' τ' _ _ hR' => ?_
    rw [pure_bind, pure_bind]
    exact ih (fun d hd => hfg d (List.mem_cons_of_mem c hd)) hR'

end Pathway.Action
