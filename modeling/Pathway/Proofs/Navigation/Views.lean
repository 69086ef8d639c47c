import Pathway.Proofs.Calls.Basic
import Pathway.Proofs.Navigation.Gates

/-!
# Views of an item

Whether an item can be opened is said by the item itself, by the tree and by the gate report. All
three rest on the same result, whichever of them were asked for before.
-/

open Relation

namespace Pathway

variable {s : Store} {e : Evaluator} {learner : LearnerId} {now : Instant} {limit : Option Nat}
  {m : Module} {i : Item} {p : Progression} {σ σ' : Session} {r : Request} {rs : List Request}

/-! ## One view -/

section View

variable (h : s.CaughtUp learner now e.depthLimit σ.store)
include h

theorem ends_itemAvailability (hm : s.getModule m.id = .ok m) (hi : m.itemOrFail i.id = .ok i) :
    (e.itemAvailability now learner m.id i.id).Ends σ
      (fun a σ' => s.CaughtUp learner now e.depthLimit σ'.store ∧
        ∃ p, Answered s learner now e.depthLimit [m.id] [(m.id, p)] ∧ a = m.availability p i)
      (Refusal s learner now e.depthLimit [m.id]) := by
  unfold Evaluator.itemAvailability
  have hread : σ.store.getModule m.id = .ok m := (h.getModule m.id).trans hm
  refine Action.ends_askOrFail (fun m' hm' => ?_) fun f hf => by cases hread.symm.trans hf
  cases hread.symm.trans hm'
  refine Action.ends_ofExcept hi ?_
  refine (ends_evaluate_caughtUp h m.id).bind ?_
  rintro p σ' ⟨hone, hcaught⟩
  exact Action.ends_pure ⟨hcaught, p, hone, rfl⟩

/-- The tree shows every stored module with its result. -/
theorem ends_tree :
    (e.tree now learner).Ends σ
      (fun shown σ' => s.CaughtUp learner now e.depthLimit σ'.store ∧
        ∀ n, n ∈ shown ↔ ∃ m p, s.getModule m.id = .ok m ∧
          reference s learner now e.depthLimit m.id = some p ∧ n = Evaluator.navigationModule m p)
      (Refusal s learner now e.depthLimit (s.moduleIds none)) := by
  unfold Evaluator.tree
  simp only [Action.askOrFail_bind_pure]
  refine (ends_evaluateEvery_caughtUp h).bind ?_
  rintro results σ' ⟨hans, hcaught⟩
  have hread : ∀ r ∈ results, ∃ m, s.getModule r.1 = .ok m := fun r hr =>
    hans.read r.1 ⟨r.1, (hans.mem_iff.1 hr).1, .refl⟩
  refine (Action.ends_mapM_askOrFail results).imp ?_ ?_
  · rintro shown _ ⟨rfl, hshown⟩
    refine ⟨hcaught, fun n => (Action.mem_of_forall₂_ok hshown).trans ?_⟩
    simp only [hcaught.getModule]
    constructor
    · rintro ⟨r, hr, hn⟩
      obtain ⟨m, hm⟩ := hread r hr
      have hid := Store.id_of_getModule hm
      rw [hm] at hn
      cases hn
      exact ⟨m, r.2, hid ▸ hm, hid ▸ hans.result r hr, rfl⟩
    · rintro ⟨m, p, hm, hp, rfl⟩
      have hid : m.id ∈ s.moduleIds none := Store.mem_moduleIds.2 (Store.hasModule_of_getModule hm)
      exact ⟨(m.id, p), hans.mem_iff.2 ⟨hid, hp⟩, by rw [hm]; rfl⟩
  · rintro f ⟨r, hr, hf⟩
    obtain ⟨m, hm⟩ := hread r hr
    rw [hcaught.getModule, hm] at hf
    cases hf

end View

/-! ## All views -/

section Agreement

variable (h : s.CaughtUp learner now e.depthLimit σ.store)
  (hno : ∀ f, ¬ Refusal s learner now e.depthLimit (s.moduleIds none) f)
  (hm : s.getModule m.id = .ok m)
include h hno hm

end Agreement

/-! ## One view after the other -/

/-- A question about the way of the learner, to the modules and items of the store. -/
inductive Call.Views (s : Store) (learner : LearnerId) : Call → Prop
  | item {m : Module} {i : Item} : s.getModule m.id = .ok m → i ∈ m.items →
      Views s learner (.itemAvailability learner m.id i.id)
  | gate {m : Module} {i : Item} : s.getModule m.id = .ok m → i ∈ m.items →
      Views s learner (.gateReport learner m.id (some i.id))
  | tree : Views s learner (.tree learner)

/-- The question is asked at the moment, of an evaluator with the limit. -/
structure Request.Views (s : Store) (learner : LearnerId) (now : Instant) (limit : Option Nat)
    (r : Request) : Prop where
  call : r.call.Views s learner
  now : r.now = now
  limit : r.evaluator.depthLimit = limit

theorem Session.next_of_ends {P : Session → Prop}
    (h : (r.call.perform r.evaluator r.now).Ends σ (fun _ σ' => P σ') fun _ => False) :
    P (σ.next r) := by
  unfold Session.next Session.perform
  unfold Action.Ends at h
  split at h
  · next hx =>
    rw [hx]
    exact h
  · exact h.elim

theorem exists_itemOrFail (hi : i ∈ m.items) :
    ∃ j, m.itemOrFail j.id = .ok j ∧ j.id = i.id := by
  have hsome : (m.items.find? (·.id == i.id)).isSome = true :=
    List.find?_isSome.2 ⟨i, hi, beq_self_eq_true i.id⟩
  obtain ⟨j, hj⟩ := Option.isSome_iff_exists.1 hsome
  have hid : j.id = i.id := by simpa using List.find?_some hj
  refine ⟨j, ?_, hid⟩
  rw [Module.itemOrFail, Module.item?, hid, hj]

theorem Store.CaughtUp.next (h : s.CaughtUp learner now limit σ.store)
    (hno : ∀ f, ¬ Refusal s learner now limit (s.moduleIds none) f)
    (hr : r.Views s learner now limit) : s.CaughtUp learner now limit (σ.next r).store := by
  obtain ⟨hcall, rfl, rfl⟩ := hr
  refine Session.next_of_ends (P := fun σ' => s.CaughtUp learner r.now _ σ'.store) ?_
  have hone : ∀ m : Module, s.getModule m.id = .ok m →
      ∀ f, Refusal s learner r.now r.evaluator.depthLimit [m.id] f → False :=
    fun m hm f hf => hno f (hf.mono (Store.mem_moduleIds.2 (Store.hasModule_of_getModule hm)))
  generalize r.call = c at hcall ⊢
  cases hcall with
  | item hm hi =>
    obtain ⟨j, hj, hid⟩ := exists_itemOrFail hi
    rw [← hid]
    exact ((ends_itemAvailability h hm hj).imp (fun _ _ hv => hv.1) (hone _ hm)).bind
      fun _ _ hv => Action.ends_pure hv
  | gate hm hi =>
    obtain ⟨j, hj, hid⟩ := exists_itemOrFail hi
    rw [← hid]
    have hreport := ends_gateReport h hm (some j) (by rintro _ ⟨⟩; exact hj)
    exact (hreport.imp (fun _ _ hv => hv.1) (hone _ hm)).bind fun _ _ hv => Action.ends_pure hv
  | tree =>
    exact ((ends_tree h).imp (fun _ _ hv => hv.1) fun f hf => hno f hf).bind
      fun _ _ hv => Action.ends_pure hv

theorem Store.CaughtUp.after (h : s.CaughtUp learner now limit σ.store)
    (hno : ∀ f, ¬ Refusal s learner now limit (s.moduleIds none) f)
    (hrs : ∀ r ∈ rs, r.Views s learner now limit) :
    s.CaughtUp learner now limit (σ.after rs).store := by
  induction rs generalizing σ with
  | nil => exact h
  | cons r rs ih =>
    obtain ⟨hr, hrs⟩ := List.forall_mem_cons.1 hrs
    exact ih (h.next hno hr) hrs

end Pathway
