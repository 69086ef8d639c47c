import Pathway.Proofs.Calls.Totality
import Pathway.Proofs.Evaluation.Previous
import Pathway.Proofs.Evaluation.Saving

/-!
# Display flags

Setting the flag of a module evaluates it first, which stores results, and then stores its result
with the flag. An evaluation hands on the flag it finds and nothing depends on it, so of all that
evaluations find just this one result changes, and in nothing but its flag.
-/

open Relation

namespace Pathway

open Evaluation

/-- The progression with its flag set. -/
def Progression.flagged (b : Bool) (p : Progression) : Progression := { p with collapsed := b }

variable {s t u : Store} {e : Evaluator} {learner l : LearnerId} {now : Instant}
  {limit : Option Nat} {ids ids' : List ModuleId} {id i : ModuleId} {m : Module} {p : Progression}
  {b : Bool} {σ τ : Session} {memo : Memo}

namespace Progression

theorem map_flagged_flagged {o : Option Progression} :
    (o.map (flagged b)).map (flagged b) = o.map (flagged b) := by
  cases o <;> rfl

end Progression

open Progression

namespace Store.Obliging

theorem of_sameModules (h : s.Obliging) (hm : s.SameModules t) (hb : t.backing = s.backing) :
    t.Obliging where
  read {id f} hf := h.read ((hm id).symm.trans hf)
  save {l id m p} hread hkey hstands f hf := by
    refine h.save ((hm id).symm.trans hread) hkey hstands f ?_
    rw [saveProgression_eq_error] at hf ⊢
    exact (checkProgression_congr hb).symm.trans hf

theorem of_sameBase (h : s.Obliging) (hb : s.SameBase t) : t.Obliging :=
  h.of_sameModules hb.sameModules hb.backing

end Store.Obliging

theorem hasModule_of_reference (h : reference s learner now limit id = some p) :
    s.hasModule id = true := by
  obtain ⟨m, met, hm, rfl, -⟩ := exists_assessment h
  exact Store.hasModule_of_getModule hm

theorem Store.Obliging.finds_iff (h : σ.store.Obliging) (hl : σ.store.hasLearner learner = true) :
    e.Finds now learner σ id p ↔ reference σ.store learner now e.depthLimit id = some p := by
  refine ⟨Evaluator.Finds.reference, fun hp => ?_⟩
  have hid : ∀ a ∈ [id], σ.store.hasModule a = true := by
    intro a ha
    rw [List.mem_singleton.1 ha]
    exact hasModule_of_reference hp
  exact (Pathway.finds_iff (fun f => h.not_refusal hl hid)
    (Evaluated.inClosure_of_mem List.mem_cons_self)).2 hp

/-! ## One flag -/

/-- The store holds of the module what an evaluation finds. -/
def Store.Settled (s : Store) (learner : LearnerId) (now : Instant) (limit : Option Nat)
    (id : ModuleId) : Prop :=
  ∃ p q, reference s learner now limit id = some p ∧ s.loadProgression learner id = some q ∧
    p.same q = true

theorem Store.Settled.exists_held (h : s.Settled learner now limit id)
    (hp : reference s learner now limit id = some p) :
    ∃ q, s.loadProgression learner id = some q ∧ p.same q = true := by
  obtain ⟨p', q, hp', hq, hsame⟩ := h
  cases hp'.symm.trans hp
  exact ⟨q, hq, hsame⟩

theorem Store.CaughtUp.settled (h : s.CaughtUp learner now limit t)
    (hs : s.Settled learner now limit id) : t.Settled learner now limit id := by
  obtain ⟨p, q, hp, hq, hpq⟩ := hs
  rcases h.held id with hkept | hstored
  · exact ⟨p, q, (reference_caughtUp h id).trans hp, hkept.trans hq, hpq⟩
  · exact ⟨p, p, (reference_caughtUp h id).trans hp, hstored.trans hp, p.same_refl⟩

theorem Evaluated.settled (h : Evaluated e now learner ids σ memo τ)
    (hid : σ.store.InClosure ids id) : τ.store.Settled learner now e.depthLimit id := by
  obtain ⟨p, hp, hmemo⟩ := h.exists_result hid
  obtain ⟨q, hq, hpq⟩ := h.exists_held hmemo
  exact ⟨p, q, (reference_caughtUp h.caughtUp id).trans hp, hq, hpq⟩

/-- From `s` to `t` the flags of some modules were set for the learner. Evaluations find these
modules with the flag and all others as before, and all that was looked at is settled. -/
structure Store.FlagsSet (learner : LearnerId) (now : Instant) (limit : Option Nat) (b : Bool)
    (ids : List ModuleId) (s t : Store) : Prop extends Store.SameBase s t where
  others : ∀ l id, l ≠ learner → t.loadProgression l id = s.loadProgression l id
  flagged : ∀ id ∈ ids, reference t learner now limit id =
    (reference s learner now limit id).map (Progression.flagged b)
  unflagged : ∀ id ∉ ids, reference t learner now limit id = reference s learner now limit id
  kept : ∀ id, s.Settled learner now limit id → t.Settled learner now limit id
  settled : ∀ id, s.InClosure ids id → t.Settled learner now limit id

namespace Store.FlagsSet

theorem refl (s : Store) : s.FlagsSet learner now limit b [] s where
  toSameBase := .refl s
  others _ _ _ := rfl
  flagged _ h := nomatch h
  unflagged _ _ := rfl
  kept _ h := h
  settled _ h := nomatch h

theorem map_flagged (h : s.FlagsSet learner now limit b ids t) (id : ModuleId) :
    (reference t learner now limit id).map (Progression.flagged b) =
      (reference s learner now limit id).map (Progression.flagged b) := by
  by_cases hid : id ∈ ids
  · rw [h.flagged id hid, map_flagged_flagged]
  · rw [h.unflagged id hid]

theorem trans (h : s.FlagsSet learner now limit b ids t)
    (g : t.FlagsSet learner now limit b ids' u) :
    s.FlagsSet learner now limit b (ids ++ ids') u where
  toSameBase := h.toSameBase.trans g.toSameBase
  others l id hl := (g.others l id hl).trans (h.others l id hl)
  flagged id hid := by
    by_cases hid' : id ∈ ids'
    · rw [g.flagged id hid', h.map_flagged]
    · rw [g.unflagged id hid', h.flagged id ((List.mem_append.1 hid).resolve_right hid')]
  unflagged id hid := by
    rw [List.mem_append, not_or] at hid
    rw [g.unflagged id hid.2, h.unflagged id hid.1]
  kept id hs := g.kept id (h.kept id hs)
  settled id := by
    rintro ⟨a, ha, hreach⟩
    rcases List.mem_append.1 ha with ha | ha
    · exact g.kept id (h.settled id ⟨a, ha, hreach⟩)
    · exact g.settled id (h.sameModules.inClosure ▸ ⟨a, ha, hreach⟩)

end Store.FlagsSet

/-- All that is looked at is settled, and the modules have the flag. -/
structure Store.Rests (s : Store) (learner : LearnerId) (now : Instant) (limit : Option Nat)
    (b : Bool) (ids : List ModuleId) : Prop where
  settled : ∀ i, s.InClosure ids i → s.Settled learner now limit i
  flagged : ∀ id ∈ ids, ∀ p, reference s learner now limit id = some p → p.collapsed = b

namespace Store.Rests

theorem head (h : s.Rests learner now limit b (id :: ids)) : s.Rests learner now limit b [id] where
  settled i hin := h.settled i (hin.mono List.mem_cons_self)
  flagged i hi := h.flagged i (List.mem_singleton.1 hi ▸ List.mem_cons_self)

theorem tail (h : s.Rests learner now limit b (id :: ids)) : s.Rests learner now limit b ids where
  settled i hin := h.settled i (hin.trans fun a ha => ⟨a, List.mem_cons_of_mem _ ha, .refl⟩)
  flagged i hi := h.flagged i (List.mem_cons_of_mem _ hi)

end Store.Rests

section Setting

end Setting

end Pathway
