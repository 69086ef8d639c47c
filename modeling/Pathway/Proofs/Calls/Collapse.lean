import Pathway.Proofs.Calls.Isolation
import Pathway.Proofs.Navigation.Flags

/-!
# Folding modules

Modules are folded and unfolded by their display flags, one or all. That changes the flags and
nothing else, and what is found of a folded module stays the same until a flag is set again.
-/

open Relation

namespace Pathway

open Evaluation

variable {s t : Store} {e : Evaluator} {learner l : LearnerId} {now : Instant} {limit : Option Nat}
  {ids : List ModuleId} {id : ModuleId} {p : Progression} {b : Bool} {σ τ : Session} {r : Request}
  {rs : List Request}

/-! ## Actions that catch up -/

namespace Action

variable {α β : Type} {x : Action α} {k : α → Action β}

/-- However the action ends, the learner's progressions have at most caught up. -/
def CatchesUp (x : Action α) (learner : LearnerId) (now : Instant) (limit : Option Nat) : Prop :=
  ∀ σ : Session, σ.store.Obliging → σ.store.CaughtUp learner now limit (x.finish σ).store

theorem CatchesUp.bind (hx : x.CatchesUp learner now limit)
    (hk : ∀ a, (k a).CatchesUp learner now limit) : (x >>= k).CatchesUp learner now limit := by
  intro σ h
  have hfirst := hx σ h
  unfold finish at hfirst
  cases hxa : x σ with
  | ok a τ =>
    rw [hxa] at hfirst
    rw [finish_bind_of_ok hxa]
    exact hfirst.trans (hk a τ (h.of_sameBase hfirst.toSameBase))
  | error f τ =>
    rw [hxa] at hfirst
    unfold finish
    rwa [bind_of_error hxa]

end Action

open Pathway.Action

section Evaluations

end Evaluations

/-! ## Requests that set no flag -/

theorem Store.AgreesFor.reference (h : s.AgreesFor {learner} t) (id : ModuleId) :
    reference t learner now limit id = reference s learner now limit id := by
  have hm : s.SameModules t := h.getModule
  induction id using s.prerequisite_induction limit with
  | step id ih =>
    cases hread : s.getModule id with
    | error f => rw [reference_of_error hread, reference_of_error ((hm id).trans hread)]
    | ok m =>
      obtain rfl := Store.id_of_getModule hread
      have hreach : Reachable t learner now limit m ↔ Reachable s learner now limit m :=
        hm.reachable fun hb i hmem hk => by rw [ih hb i ⟨⟨m, hread, hmem⟩, hk⟩]
      obtain ⟨met, hmet, hresult⟩ := exists_met learner now limit hread
      rw [hresult, reference_eq ((hm m.id).trans hread) (hmet.trans hreach.symm),
        h.itemFacts learner rfl, h.loadProgression learner rfl]

section Folding

variable {α : Type} {x : Action α} {a : α} {found : List (ModuleId × Progression)}

end Folding

section Operations

variable (h : σ.store.Obliging) (hl : σ.store.hasLearner learner = true)
include h hl

end Operations

namespace Sample

end Sample

end Pathway
