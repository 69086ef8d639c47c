import Pathway.Proofs.Evaluation.Assessment
import Pathway.Proofs.Evaluation.Closure
import Pathway.Proofs.Prerequisites.Chain

/-!
# The reference result

What the progression of a module is, said by recursion along its prerequisites: no graph, no
generations, no memo. The recursion goes only from modules that are on no circle, and from these it
goes down to where less can be reached.
-/

open Relation

namespace Pathway

variable {s t : Store} {learner : LearnerId} {now : Instant} {limit : Option Nat}
  {id a b : ModuleId} {m : Module} {p : Progression} {met : Bool}

theorem Store.finite_reach (s : Store) (a : ModuleId) :
    {x | ReflTransGen s.Requires a x}.Finite := by
  refine (Set.Finite.insert a s.modules.keys.finite_toSet).subset fun x hx => ?_
  rcases ReflTransGen.cases_tail hx with rfl | ⟨b, -, hb⟩
  · exact Set.mem_insert _ _
  · exact Set.mem_insert_of_mem _ (Std.ExtTreeMap.mem_keys.2 (Store.mem_of_requires hb))

/-- On a circle, or at the end of a chain as long as the limit. -/
def Store.Barred (s : Store) (limit : Option Nat) (id : ModuleId) : Prop :=
  OnCircle s.Requires id ∨ ∃ n ∈ limit, Chain s.Requires n id

open Classical in
/-- What an evaluation should find for a module. -/
noncomputable def reference (s : Store) (learner : LearnerId) (now : Instant) (limit : Option Nat)
    (id : ModuleId) : Option Progression :=
  match _hm : s.getModule id with
  | .error _ => none
  | .ok m =>
    let previous := s.loadProgression learner id
    if _hb : s.Barred limit id then some (Assessment.locked learner m previous)
    else if m.toBeUnlocked now then some (Assessment.locked learner m previous)
    else if ∃ p, ∃ _hp : p ∈ m.prerequisites ∧ s.hasModule p = true,
        ¬ (reference s learner now limit p).any (·.isCompleted) then
      some (Assessment.locked learner m previous)
    else some (Assessment.unlocked (s.itemFacts learner) learner m previous)
termination_by {x | ReflTransGen s.Requires id x}.ncard
decreasing_by
  -- What a module off every circle requires lies strictly behind it.
  have hreq : s.Requires id p := ⟨⟨m, _hm, _hp.1⟩, _hp.2⟩
  exact ncard_reach_lt (behind_of_not_onCircle hreq fun hc => _hb (Or.inl hc)) (s.finite_reach id)

/-- The causes for which an evaluation fails: the learner is not known, a module of the closure
cannot be read, or the store does not take a progression that it does not hold already. -/
inductive Refusal (s : Store) (learner : LearnerId) (now : Instant) (limit : Option Nat)
    (ids : List ModuleId) : Failure → Prop
  | learner : s.hasLearner learner = false →
      Refusal s learner now limit ids (.notFound .learner learner)
  | module {id : ModuleId} {f : Failure} : s.InClosure ids id → s.getModule id = .error f →
      Refusal s learner now limit ids f
  | progression {id : ModuleId} {p : Progression} {f : Failure} : s.InClosure ids id →
      reference s learner now limit id = some p →
      (s.loadProgression learner id).any p.same = false →
      s.saveProgression learner id p = .error f → Refusal s learner now limit ids f

/-- Induction along prerequisites. From a module that is not barred it goes down to where less can
be reached. -/
theorem Store.prerequisite_induction (s : Store) (limit : Option Nat) {P : ModuleId → Prop}
    (step : ∀ a, (¬ s.Barred limit a → ∀ b, s.Requires a b → P b) → P a) (a : ModuleId) : P a := by
  induction hn : {x | ReflTransGen s.Requires a x}.ncard using Nat.strong_induction_on
    generalizing a with
  | _ n ih =>
    refine step a fun hb b hab => ?_
    have hlt := ncard_reach_lt (behind_of_not_onCircle hab fun hc => hb (Or.inl hc))
      (s.finite_reach a)
    exact ih _ (hn ▸ hlt) b rfl

/-! ## Reading the reference result -/

/-- The module is not barred, and what it requires of the store should be completed. -/
def Reachable (s : Store) (learner : LearnerId) (now : Instant) (limit : Option Nat) (m : Module) :
    Prop :=
  ¬ s.Barred limit m.id ∧ ∀ p ∈ m.prerequisites, s.hasModule p = true →
    (reference s learner now limit p).any (·.isCompleted)

theorem reference_of_error {f : Failure} (h : s.getModule id = .error f) :
    reference s learner now limit id = none := by
  unfold reference
  split
  · rfl
  · next hm => cases h.symm.trans hm

theorem reference_eq (h : s.getModule m.id = .ok m)
    (hmet : met = true ↔ Reachable s learner now limit m) :
    reference s learner now limit m.id =
      some (Assessment.progression (s.itemFacts learner) learner now m met
        (s.loadProgression learner m.id)) := by
  unfold reference
  split
  · next hm => cases h.symm.trans hm
  next m' hm =>
  cases h.symm.trans hm
  unfold Assessment.progression Assessment.isOpen
  by_cases hr : Reachable s learner now limit m
  · obtain ⟨hb, hp⟩ := id hr
    have hnone : ¬ ∃ p, ∃ _ : p ∈ m.prerequisites ∧ s.hasModule p = true,
        ¬ (reference s learner now limit p).any (·.isCompleted) := by
      rintro ⟨p, ⟨hmem, hk⟩, hnot⟩
      exact hnot (hp p hmem hk)
    rw [dif_neg hb, if_neg hnone, hmet.2 hr]
    cases m.toBeUnlocked now <;> rfl
  · have hfalse : met = false := Bool.eq_false_iff.2 fun h => hr (hmet.1 h)
    rw [hfalse, Bool.false_and, if_neg (by simp)]
    split
    · rfl
    next hb =>
    split
    · rfl
    split
    · rfl
    next hnone => exact absurd ⟨hb, fun p hp hk => by_contra fun h => hnone ⟨p, ⟨hp, hk⟩, h⟩⟩ hr

theorem exists_met (learner : LearnerId) (now : Instant) (limit : Option Nat)
    (h : s.getModule m.id = .ok m) :
    ∃ met, (met = true ↔ Reachable s learner now limit m) ∧
      reference s learner now limit m.id =
        some (Assessment.progression (s.itemFacts learner) learner now m met
          (s.loadProgression learner m.id)) := by
  classical
  have hmet : decide (Reachable s learner now limit m) = true ↔ Reachable s learner now limit m :=
    decide_eq_true_iff
  exact ⟨_, hmet, reference_eq h hmet⟩

theorem exists_reference (learner : LearnerId) (now : Instant) (limit : Option Nat)
    (h : s.getModule m.id = .ok m) : ∃ p, reference s learner now limit m.id = some p := by
  obtain ⟨met, -, hp⟩ := exists_met learner now limit h
  exact ⟨_, hp⟩

theorem exists_assessment (h : reference s learner now limit id = some p) :
    ∃ m met, s.getModule id = .ok m ∧ m.id = id ∧
      p = Assessment.progression (s.itemFacts learner) learner now m met
        (s.loadProgression learner id) := by
  cases hm : s.getModule id with
  | error f => cases (reference_of_error hm).symm.trans h
  | ok m =>
    obtain rfl := Store.id_of_getModule hm
    obtain ⟨met, -, hp⟩ := exists_met learner now limit hm
    exact ⟨m, met, rfl, rfl, Option.some.inj (h.symm.trans hp)⟩

theorem not_isLocked_of_isCompleted (h : p.isCompleted = true) : p.isLocked = false := by
  unfold Progression.isCompleted Progression.isLocked at *
  simp_all

/-- A result that is not locked is that of an open module whose prerequisites are completed. -/
theorem reachable_of_not_isLocked (h : s.getModule m.id = .ok m)
    (hp : reference s learner now limit m.id = some p) (hl : p.isLocked = false) :
    Reachable s learner now limit m ∧ m.toBeUnlocked now = false := by
  obtain ⟨met, hmet, hresult⟩ := exists_met learner now limit h
  cases hresult.symm.trans hp
  unfold Assessment.progression at hl
  split at hl
  · next ho =>
    rw [Assessment.isOpen, Bool.and_eq_true, Bool.not_eq_true'] at ho
    exact ⟨hmet.1 ho.1, ho.2⟩
  · cases hl

theorem not_isLocked_of_reachable (h : s.getModule m.id = .ok m)
    (hp : reference s learner now limit m.id = some p) (hr : Reachable s learner now limit m)
    (ho : m.toBeUnlocked now = false) : p.isLocked = false := by
  have hopen : Assessment.isOpen now m true = true := by simp [Assessment.isOpen, ho]
  rw [reference_eq h (iff_of_true rfl hr), Assessment.progression_of_isOpen hopen] at hp
  cases hp
  exact Assessment.isLocked_unlocked

/-! ## Stores with the same modules -/

theorem Store.SameModules.barred (h : s.SameModules t) : t.Barred limit id ↔ s.Barred limit id := by
  rw [Store.Barred, Store.Barred, h.requires]

theorem Store.SameModules.reachable (h : s.SameModules t)
    (hcompleted : ¬ s.Barred limit m.id → ∀ b, b ∈ m.prerequisites → s.hasModule b = true →
      (reference t learner now limit b).any (·.isCompleted) =
        (reference s learner now limit b).any (·.isCompleted)) :
    Reachable t learner now limit m ↔ Reachable s learner now limit m := by
  unfold Reachable
  rw [h.barred]
  refine and_congr_right fun hb => forall₂_congr fun b hmem => ?_
  rw [h.hasModule]
  exact imp_congr_right fun hk => by rw [hcompleted hb b hmem hk]

/-! ## Refusals -/

theorem known_of_not_refusal {ids : List ModuleId}
    (h : ∀ f, ¬ Refusal s learner now limit ids f) :
    s.hasLearner learner = true ∧ ∀ id, s.InClosure ids id → ∃ m, s.getModule id = .ok m := by
  refine ⟨?_, fun id hin => ?_⟩
  · by_contra hno
    exact h _ (.learner (Bool.eq_false_iff.2 hno))
  · cases hm : s.getModule id with
    | ok m => exact ⟨m, rfl⟩
    | error f => exact absurd (.module hin hm) (h f)

/-- Between stores with the same modules and learners, only progressions make a difference to what
is refused. -/
theorem Refusal.of_sameModules {ids : List ModuleId} {f : Failure} (h : s.SameModules t)
    (hl : t.hasLearner learner = s.hasLearner learner)
    (hprogression : ∀ id q, s.InClosure ids id → reference t learner now limit id = some q →
      (t.loadProgression learner id).any q.same = false →
      t.saveProgression learner id q = .error f → Refusal s learner now limit ids f)
    (hf : Refusal t learner now limit ids f) : Refusal s learner now limit ids f := by
  rcases hf with hno | ⟨hin, hread⟩ | ⟨hin, hq, hne, hsave⟩
  · exact .learner (hl.symm.trans hno)
  · exact .module (h.inClosure ▸ hin) ((h _).symm.trans hread)
  · exact hprogression _ _ (h.inClosure ▸ hin) hq hne hsave

/-- A store in memory takes every progression, so nothing is refused if all that is asked for can be
read. -/
theorem not_refusal_of_memory {ids : List ModuleId} {f : Failure} (hb : s.backing = .memory)
    (hl : s.hasLearner learner = true)
    (hread : ∀ id, s.InClosure ids id → ∃ m, s.getModule id = .ok m) :
    ¬ Refusal s learner now limit ids f := by
  rintro (hno | ⟨hin, hf⟩ | ⟨-, -, -, hf⟩)
  · cases hl.symm.trans hno
  · obtain ⟨m, hm⟩ := hread _ hin
    cases hm.symm.trans hf
  · rw [Store.saveProgression_eq_error, Store.checkProgression_of_memory hb] at hf
    cases hf

end Pathway
