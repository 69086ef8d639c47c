import Pathway.Proofs.Navigation.Flags
import Pathway.Proofs.Navigation.Views

/-!
# Opening an item

To open an item asks for its availability, once more after an evaluation of all modules if it looks
locked, and unfolds its module. All of this happens at one moment, so each evaluation on the way
finds what the first one found.
-/

namespace Pathway

open Evaluation

variable {s : Store} {e : Evaluator} {learner : LearnerId} {now : Instant} {limit : Option Nat}
  {id : ModuleId} {item : ItemId} {m : Module} {i : Item} {p : Progression} {a : Availability}
  {σ τ : Session}

/-! ## One step after the other -/

section Steps

variable (h : s.Obliging) (hl : s.hasLearner learner = true)
  (hcaught : s.CaughtUp learner now e.depthLimit σ.store)
  (hp : reference s learner now e.depthLimit id = some p)
include h hl hcaught hp

end Steps

/-! ## Opening -/

section Opening

variable (h : σ.store.Obliging) (hl : σ.store.hasLearner learner = true)
include h hl

end Opening

end Pathway
