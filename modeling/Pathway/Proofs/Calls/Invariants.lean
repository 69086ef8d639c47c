import Pathway.Proofs.Calls.Sameness

/-!
# What requests for evaluations keep

Whatever a request for evaluations does to a session, it does in few kinds of steps: something is
noted or reported, a module is assessed, a display flag is set. What each kind of step keeps, every
such request keeps.
-/

namespace Pathway

open Evaluation

theorem inStep_self {Who : Set LearnerId} {I : Session → Prop} {Good : Module → Prop}
    (note : ∀ {σ}, I σ → ∀ n, I (σ.note n)) (report : ∀ {σ}, I σ → ∀ i, I (σ.report i))
    (assess : ∀ {σ run m met memo}, run.learner ∈ Who → I σ → Good m →
      I ((evaluateModule run m met memo).finish σ)) :
    InStep Who (fun σ τ => τ = σ ∧ I σ) Eq Good where
  note hR n := by
    obtain ⟨rfl, hI⟩ := hR
    exact ⟨rfl, note hI n⟩
  report hR i := by
    obtain ⟨rfl, hI⟩ := hR
    exact ⟨rfl, report hI i⟩
  state hpq := by rw [hpq]
  assess hl hR hm hmemo := by
    obtain ⟨rfl, hI⟩ := hR
    obtain rfl : _ = _ := hmemo.eq
    exact Action.tandem_self (fun _ => .refl) ⟨rfl, assess hl hI hm⟩

/-- What holds of a session holds after each kind of step, made for one of some learners. The
modules of such a session are all `Good`, and a flag is set only in a progression that was just
evaluated. -/
structure Kept (Who : Set LearnerId) (I : Session → Prop) (Good : Module → Prop) : Prop where
  good : ∀ {σ id m}, I σ → σ.store.getModule id = .ok m → Good m
  note : ∀ {σ}, I σ → ∀ n, I (σ.note n)
  report : ∀ {σ}, I σ → ∀ i, I (σ.report i)
  assess : ∀ {σ run m met memo}, run.learner ∈ Who → I σ → Good m →
    I ((evaluateModule run m met memo).finish σ)
  save : ∀ {σ l id p b}, l ∈ Who → I σ →
    (∃ (e : Evaluator) (now : Instant) (σ₀ : Session), e.evaluate now l id σ₀ = .ok p σ) →
    I ((Action.saveProgression l id { p with collapsed := b }).finish σ)

namespace Kept

variable {Who : Set LearnerId} {I : Session → Prop} {Good : Module → Prop} {σ : Session}
  {r : Request}

theorem accord (h : Kept Who I Good) : Accord Who (fun σ τ => τ = σ ∧ I σ) Eq Good where
  toInStep := inStep_self h.note h.report h.assess
  hasLearner _ hR := by rw [hR.1]
  getModule hR := by rw [hR.1]; exact fun _ => rfl
  moduleIds hR := by rw [hR.1]
  good hR hm := h.good hR.2 hm
  met hpq := by rw [hpq]
  collapsed hpq := by rw [hpq]
  fold hpq := by rw [hpq]
  save hl hR hpq heval := by
    obtain ⟨rfl, hI⟩ := hR
    subst hpq
    exact Action.tandem_self (fun _ => rfl) ⟨rfl, h.save hl hI heval⟩

theorem next_for (h : Kept Who I Good) (hr : r.call.Evaluates)
    (hls : ∀ l ∈ r.call.learners, l ∈ Who) (hI : I σ) : I (σ.next r) := by
  have htandem : (r.call.perform r.evaluator r.now).Tandem (r.call.perform r.evaluator r.now) σ σ
      (fun a b => Answer.Same Eq a b ∧ ∀ fs, a ≠ .facts fs) fun σ τ => τ = σ ∧ I σ :=
    h.accord.perform hr hls ⟨rfl, hI⟩
  rw [Session.next_eq_finish]
  exact htandem.finish.2

theorem next (h : Kept Set.univ I Good) (hr : r.call.Evaluates) (hI : I σ) : I (σ.next r) :=
  h.next_for hr (fun _ _ => trivial) hI

end Kept

end Pathway
