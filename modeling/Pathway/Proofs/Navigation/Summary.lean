import Pathway.Navigation.Navigator
import Pathway.Proofs.Evaluation.CatchUp
import Pathway.Proofs.Evaluation.Gating
import Pathway.Proofs.Sample

/-!
# Summaries

The counts of a summary add up, and what it recommends can be worked on. Where nothing is closed,
it recommends something until all is completed.
-/

open Relation

namespace Pathway

variable {s : Store} {learner : LearnerId} {now : Instant} {limit : Option Nat} {id : ModuleId}
  {m n : Module} {p : Progression} {results : List (ModuleId × Progression)}

/-- Open, and not completed. -/
def Progression.isUnderway (p : Progression) : Bool := p.state == .started || p.state == .unlocked

/-- The module can be worked on, and no other that can be stands before it. -/
structure FirstUnderway (s : Store) (results : List (ModuleId × Progression)) (m : Module) :
    Prop where
  read : s.getModule m.id = .ok m
  underway : ∃ p, (m.id, p) ∈ results ∧ p.isUnderway = true
  first : ∀ n q, s.getModule n.id = .ok n → (n.id, q) ∈ results → q.isUnderway = true →
    m.place.le n.place = true

theorem FirstUnderway.unique (hm : FirstUnderway s results m) (hn : FirstUnderway s results n) :
    m.id = n.id := by
  obtain ⟨p, hp, hpu⟩ := hm.underway
  obtain ⟨q, hq, hqu⟩ := hn.underway
  have hplace : m.place = n.place :=
    Place.le_antisymm (hm.first n q hn.read hq hqu) (hn.first m p hm.read hp hpu)
  exact congrArg Prod.snd hplace

namespace Answered

end Answered

/-! ## The summary of a learner -/

end Pathway
