import Pathway.Proofs.Evaluation.Partition
import Pathway.Proofs.Navigation.Availability

/-!
# What is pending

The navigator tells what stands in the way from a progression alone, and comes to what the
evaluation saw of the facts: the same requirements, the same order and the same gate.
-/

namespace Pathway

open Assessment

variable {facts : Facts} {learner : LearnerId} {now : Instant} {met : Bool}
  {previous : Option Progression} {m : Module} {p : Progression} {i j : Item}
  {x y : Item × Requirement} {before after : List Item}

namespace Module

/-! ## Up to an item -/

theorem WellFormed.place_le_iff (hm : m.WellFormed) (hitems : m.items = before ++ i :: after)
    (hj : j ∈ m.items) : j.place.le i.place = true ↔ j ∈ before ++ [i] := by
  have hordered := hm.inOrder
  rw [InOrder, hitems, List.pairwise_append] at hordered
  constructor
  · intro hle
    by_contra hno
    rw [hitems, List.append_cons] at hj
    have hafter := (List.mem_append.1 hj).resolve_left hno
    obtain ⟨l₁, l₂, rfl⟩ := List.append_of_mem hafter
    have hsplit : m.items = (before ++ i :: l₁) ++ j :: l₂ := by simp [hitems]
    have hi : i ∈ m.items := by simp [hitems]
    have hbehind := (hm.place_le_eq_false_iff hsplit hi).2 (by simp)
    cases hbehind.symm.trans hle
  · intro h
    rcases List.mem_append.1 h with hbefore | hself
    · exact hordered.2.2 j hbefore i List.mem_cons_self
    · rw [List.mem_singleton.1 hself]
      exact Place.le_refl _

/-- What is pending up to an item are the first of all that is pending. -/
theorem exists_pendingBefore (hm : m.WellFormed) (p : Progression)
    (hitems : m.items = before ++ i :: after) :
    ∃ ahead behind, m.pending p = ahead ++ behind ∧ m.pendingBefore p i.id = .ok ahead ∧
      (∀ x ∈ ahead, x.item ∈ (before ++ [i]).map (·.id)) ∧
      ∀ x ∈ behind, x.item ∈ after.map (·.id) := by
  let pendingIn : List Item → List Pending := fun l =>
    ((requirementsIn l).filter fun x => !p.hasMet x.1.id x.2.kind).map
      fun x => m.pendingOf p x.1 x.2
  have item_mem : ∀ l, ∀ x ∈ pendingIn l, x.item ∈ l.map (·.id) := by
    intro l x hx
    obtain ⟨y, hy, rfl⟩ := List.mem_map.1 hx
    exact List.mem_map_of_mem (mem_requirementsIn.1 (List.mem_filter.1 hy).1).1
  have hreqs : m.requirements = requirementsIn (before ++ [i]) ++ requirementsIn after := by
    rw [← requirementsIn_append, ← List.append_cons, ← hitems]
    rfl
  have hi : i ∈ m.items := by simp [hitems]
  have mem_items : ∀ j, j ∈ (before ++ [i]) ∨ j ∈ after → j ∈ m.items := by
    intro j hj
    rwa [hitems, List.append_cons, List.mem_append]
  have hahead : (requirementsIn (before ++ [i])).filter
      (fun x => x.1.place.le i.place && !p.hasMet x.1.id x.2.kind) =
        (requirementsIn (before ++ [i])).filter fun x => !p.hasMet x.1.id x.2.kind := by
    refine List.filter_congr fun x hx => ?_
    have hx' := (mem_requirementsIn.1 hx).1
    rw [(hm.place_le_iff hitems (mem_items _ (Or.inl hx'))).2 hx', Bool.true_and]
  have hbehind : (requirementsIn after).filter
      (fun x => x.1.place.le i.place && !p.hasMet x.1.id x.2.kind) = [] := by
    refine List.filter_eq_nil_iff.2 fun x hx hle => ?_
    have hx' := (mem_requirementsIn.1 hx).1
    have hle' :=
      (hm.place_le_iff hitems (mem_items _ (Or.inr hx'))).1 (Bool.and_eq_true_iff.1 hle).1
    have hnodup : (before ++ [i] ++ after).Nodup := by
      rw [← List.append_cons, ← hitems]
      exact List.Nodup.of_map _ hm.distinct
    exact List.disjoint_of_nodup_append hnodup hle' hx'
  refine ⟨pendingIn (before ++ [i]), pendingIn after, ?_, ?_, item_mem _, item_mem _⟩
  · rw [pending, pendingUpTo, hreqs, List.filter_append, List.map_append]
    rfl
  · rw [pendingBefore, hm.itemOrFail hi]
    show Except.ok (m.pendingUpTo p (some i.place)) = _
    simp only [pendingUpTo, Option.all_some]
    rw [hreqs, List.filter_append, hahead, hbehind, List.append_nil]

/-! ## The first that is pending -/

theorem available_iff_first (hm : m.WellFormed) (hl : p.isLocked = false)
    (hs : m.sequential = true) {first : Pending} {rest : List Pending}
    (h : m.pending p = first :: rest) :
    first.available = true ∧ ∀ x ∈ rest, x.available = false := by
  rcases gate?_cases m p with ⟨-, hall⟩ | ⟨before, g, after, hg⟩
  · -- Where everything is met nothing is pending.
    have hnone : m.requirementItems.filter
        (fun i => (none : Option Place).all i.place.le && !isMet p i) = [] :=
      List.filter_eq_nil_iff.2 fun i hi => by simp [hall i hi]
    rw [pending, pendingUpTo_eq, hnone] at h
    cases h
  · obtain ⟨first', rest', hsplit, hfirst⟩ :=
      hg.exists_first hm hl hs (rfl : Option.all _ none = true)
    cases h.symm.trans hsplit
    exact hfirst

theorem available_of_mem_pending {x : Pending} (hx : x ∈ m.pending p) :
    ∃ i, x.available = m.isReachable p i := by
  obtain ⟨y, -, rfl⟩ := List.mem_map.1 hx
  exact ⟨y.1, rfl⟩

theorem item_pending_of_not_isMet (h : ∀ i, isMet p i = false) :
    (m.pending p).map (·.item) = m.requirementItems.map (·.id) := by
  have hall : m.requirementItems.filter
      (fun i => (none : Option Place).all i.place.le && !isMet p i) = m.requirementItems :=
    List.filter_eq_self.2 fun i _ => by simp [h i]
  rw [pending, pendingUpTo_eq, hall]
  refine map_filterMap_id (fun i r hr => ?_) fun i hi => (mem_requirementItems.1 hi).2
  exact ⟨m.pendingOf p i r, by rw [hr]; rfl, rfl⟩

end Module

/-! ## What the evaluation left -/

namespace Assessment

theorem eq_of_id_of_mem_requirements (hm : m.WellFormed) (hx : x ∈ m.requirements)
    (hy : y ∈ m.requirements) (h : x.1.id = y.1.id) : x = y := by
  obtain ⟨hxi, hxr⟩ := mem_requirementsIn.1 hx
  obtain ⟨hyi, hyr⟩ := mem_requirementsIn.1 hy
  have hi : x.1 = y.1 := hm.eq_of_id hxi hyi h
  rw [hi] at hxr
  exact Prod.ext hi (Option.some.inj (hxr.symm.trans hyr))

theorem mem_requirements_of_counted (hx : x ∈ counted facts m) : x ∈ m.requirements := by
  unfold counted at hx
  split at hx
  · exact (List.takeWhile_sublist _).subset hx
  · exact (List.mem_filter.1 hx).1

namespace Partitioned

variable (h : Partitioned facts m previous p)
include h

theorem hasMet_iff (hm : m.WellFormed) (hx : x ∈ m.requirements) :
    p.hasMet x.1.id x.2.kind = true ↔ x ∈ counted facts m := by
  rw [Progression.hasMet, List.contains_iff_mem, h.met, List.mem_map]
  constructor
  · rintro ⟨y, hy, he⟩
    have hid : y.1.id = x.1.id := congrArg Met.item he
    exact eq_of_id_of_mem_requirements hm (mem_requirements_of_counted hy) hx hid ▸ hy
  · exact fun hc => ⟨x, hc, rfl⟩

theorem pending_eq (hm : m.WellFormed) :
    m.pending p = (remaining facts m).map fun x => m.pendingOf p x.1 x.2 := by
  rw [Module.pending, Module.pendingUpTo, remaining]
  refine congrArg (List.map _) (List.filter_congr fun x hx => ?_)
  rw [Option.all_none, Bool.true_and, Bool.eq_iff_iff, Bool.not_eq_true', ← Bool.not_eq_true,
    h.hasMet_iff hm hx, decide_eq_true_iff]

theorem item_pending (hm : m.WellFormed) :
    (m.pending p).map (·.item) = p.unmet.map (·.item) := by
  rw [h.pending_eq hm, h.unmet, List.map_map, List.map_map]
  rfl

theorem isMet_iff (hm : m.WellFormed) (hi : i ∈ m.items) (hr : i.requirement.isSome = true) :
    Module.isMet p i = true ↔ i.id ∉ p.unmet.map (·.item) := by
  obtain ⟨r, hr⟩ := Option.isSome_iff_exists.1 hr
  have hx : (i, r) ∈ m.requirements := mem_requirementsIn.2 ⟨hi, hr⟩
  have hmet : Module.isMet p i = p.hasMet i.id r.kind := by rw [Module.isMet, hr]
  rw [hmet, h.hasMet_iff hm hx, h.unmet, List.map_map, ← not_iff_not, not_not, List.mem_map]
  constructor
  · intro hno
    exact ⟨(i, r), List.mem_filter.2 ⟨hx, decide_eq_true hno⟩, rfl⟩
  · rintro ⟨y, hy, hid⟩
    obtain ⟨hyr, hno⟩ := List.mem_filter.1 hy
    rw [← eq_of_id_of_mem_requirements hm hyr hx hid]
    exact of_decide_eq_true hno

theorem exists_requirement_of_unmet (hm : m.WellFormed) (hi : i ∈ m.items)
    (hu : i.id ∈ p.unmet.map (·.item)) : ∃ r, i.requirement = some r := by
  rw [h.unmet, List.map_map] at hu
  obtain ⟨y, hy, hid⟩ := List.mem_map.1 hu
  obtain ⟨hyi, hyr⟩ := mem_requirementsIn.1 (List.mem_filter.1 hy).1
  exact ⟨y.2, hm.eq_of_id hyi hi hid ▸ hyr⟩

/-- The gate stands where the learner does. -/
theorem position_of_gate (hm : m.WellFormed) (hs : m.sequential = true) {g : Place}
    (hg : m.gate? p = some g) : p.currentPosition = some g.1 := by
  rcases Module.gate?_cases m p with ⟨hnone, -⟩ | ⟨before, i, after, hgate⟩
  · cases hnone.symm.trans hg
  obtain rfl : i.place = g := Option.some.inj (hgate.place.symm.trans hg)
  obtain ⟨hi, r, hr⟩ := hgate.exists_requirement
  have hpending := (hgate.pendingUpTo hr rfl).symm.trans (h.pending_eq hm)
  -- The first that is pending is the first that does not count.
  cases hrest : remaining facts m with
  | nil =>
    rw [hrest] at hpending
    cases hpending
  | cons x rest =>
    rw [hrest, List.map_cons] at hpending
    have hx : x ∈ m.requirements :=
      (List.mem_filter.1 (hrest ▸ List.mem_cons_self : x ∈ remaining facts m)).1
    have hid : i.id = x.1.id := congrArg Pending.item (List.cons.inj hpending).1
    have hix : i = x.1 := hm.eq_of_id hi (mem_requirementsIn.1 hx).1 hid
    rw [h.position hs, find?_eq_head?_remaining hm hs, hrest, hix]
    rfl

end Partitioned

end Assessment

/-! ## The navigator's gate -/

/-- The navigator says of a progression of the module what the evaluation that made it saw. -/
structure Module.OneGate (m : Module) (p : Progression) : Prop where
  pending : p.isLocked = false → (m.pending p).map (·.item) = p.unmet.map (·.item)
  upTo : ∀ before i after, m.items = before ++ i :: after →
    ∃ ahead behind, m.pending p = ahead ++ behind ∧ m.pendingBefore p i.id = .ok ahead ∧
      (∀ x ∈ ahead, x.item ∈ (before ++ [i]).map (·.id)) ∧
      ∀ x ∈ behind, x.item ∈ after.map (·.id)
  reachable : p.isLocked = false → m.sequential = true →
    ∀ before i after, m.items = before ++ i :: after →
      (m.isReachable p i = true ↔ ∀ j ∈ before, j.id ∉ p.unmet.map (·.item))
  position : p.isLocked = false → m.sequential = true →
    ∀ g, m.gate? p = some g → p.currentPosition = some g.1
  available : p.isLocked = false → m.sequential = true →
    ∀ first rest, m.pending p = first :: rest →
      first.available = true ∧ ∀ x ∈ rest, x.available = false
  free : p.isLocked = false → m.sequential = false → ∀ x ∈ m.pending p, x.available = true
  locked : p.isLocked = true →
    (m.pending p).map (·.item) = m.requirementItems.map (·.id) ∧
      ∀ x ∈ m.pending p, x.available = false

theorem Assessment.oneGate (hm : m.WellFormed) :
    m.OneGate (progression facts learner now m met previous) := by
  have hopen : (progression facts learner now m met previous).isLocked = false →
      Partitioned facts m previous (progression facts learner now m met previous) := by
    intro hl
    rw [eq_unlocked hl]
    exact partitioned_unlocked hm
  refine ⟨fun hl => (hopen hl).item_pending hm, fun _ _ _ => Module.exists_pendingBefore hm _,
    fun hl hs before i after hitems => ?_, fun hl hs g => (hopen hl).position_of_gate hm hs,
    fun hl hs _ _ => Module.available_iff_first hm hl hs, fun hl hs x hx => ?_, fun hl => ⟨?_, ?_⟩⟩
  · rw [Module.isReachable_iff hm hitems hl]
    refine ⟨fun hall j hj hunmet => ?_, fun hall _ j hj hr => ?_⟩
    · have hji : j ∈ m.items := hitems ▸ List.mem_append_left _ hj
      obtain ⟨r, hr⟩ := (hopen hl).exists_requirement_of_unmet hm hji hunmet
      have hr' : j.requirement.isSome = true := by rw [hr]; rfl
      exact ((hopen hl).isMet_iff hm hji hr').1 (hall hs j hj hr') hunmet
    · have hji : j ∈ m.items := hitems ▸ List.mem_append_left _ hj
      exact ((hopen hl).isMet_iff hm hji hr).2 (hall j hj)
  · obtain ⟨i, hi⟩ := Module.available_of_mem_pending hx
    rw [hi]
    exact Module.isReachable_of_not_sequential hl hs i
  · exact Module.item_pending_of_not_isMet (isMet_of_isLocked hl)
  · intro x hx
    obtain ⟨i, hi⟩ := Module.available_of_mem_pending hx
    rw [hi]
    exact Module.isReachable_of_isLocked hl i

/-- Whatever is evaluated for a well-formed module, the navigator finds the requirements pending
that the evaluation left unmet, and the gate where the evaluation stopped. -/
theorem navigator_sees_the_gate (e : Evaluator) (now : Instant) (learner : LearnerId) (σ : Session)
    (hm : m.WellFormed) (hread : σ.store.getModule m.id = .ok m) :
    (e.evaluate now learner m.id).Ends σ (fun p _ => m.OneGate p)
      (Refusal σ.store learner now e.depthLimit [m.id]) := by
  refine (ends_evaluate e now learner m.id σ).imp ?_ fun _ hf => hf
  rintro p σ' ⟨memo, h, hp⟩
  obtain ⟨met, -, hresult⟩ := exists_met learner now e.depthLimit hread
  cases (h.reference_of_memo hp).2.symm.trans hresult
  exact oneGate hm

namespace Sample

/-- The second module without the first, so that it requires nothing that is known. -/
def alone : Store :=
  ((Store.empty .memory).addLearner "ada" "Ada").placeModule cells none

theorem getModule_alone {id : ModuleId} :
    alone.getModule id = if "cells" = id then .ok cells else .error (.notFound .module id) := by
  rw [alone, Store.getModule_placeModule]
  rfl

theorem not_requires_alone {a b : ModuleId} : ¬ alone.Requires a b := by
  rintro ⟨⟨m, hm, hb⟩, hknown⟩
  rw [getModule_alone] at hm
  split_ifs at hm
  cases hm
  rw [List.mem_singleton.1 hb, Store.hasModule_iff, getModule_alone] at hknown
  exact hknown rfl

theorem reachable_alone (now : Instant) : Reachable alone "ada" now none cells := by
  have hread : alone.getModule cells.id = .ok cells := getModule_alone
  refine ⟨?_, fun b hb hknown => absurd ⟨⟨cells, hread, hb⟩, hknown⟩ not_requires_alone⟩
  rintro (hcircle | ⟨n, hn, -⟩)
  · obtain ⟨b, hb, -⟩ := Relation.TransGen.head'_iff.1 hcircle
    exact not_requires_alone hb
  · cases hn

theorem not_refusal_alone {now : Instant} {f : Failure} :
    ¬ Refusal alone "ada" now none ["cells"] f := by
  refine not_refusal_of_memory rfl rfl fun id hin => ?_
  obtain ⟨a, ha, hr⟩ := hin
  rcases Relation.ReflTransGen.cases_tail hr with rfl | ⟨b, -, hb⟩
  · exact ⟨cells, by rw [getModule_alone, List.mem_singleton.1 ha]; rfl⟩
  · exact absurd hb not_requires_alone

end Sample

theorem sample_navigator_sees_the_gate : Sample.cells.WellFormed ∧
    Sample.alone.getModule Sample.cells.id = .ok Sample.cells ∧
    ∃ p σ', Evaluator.evaluate ⟨1, none⟩ ⟨0, 0⟩ "ada" Sample.cells.id (.ofStore Sample.alone) =
      .ok p σ' ∧ Sample.cells.OneGate p ∧ p.isLocked = false := by
  have hread : Sample.alone.getModule Sample.cells.id = .ok Sample.cells := Sample.getModule_alone
  have hgate := navigator_sees_the_gate ⟨1, none⟩ ⟨0, 0⟩ "ada" (.ofStore Sample.alone)
    Sample.wellFormed_cells hread
  obtain ⟨p, σ', h, hone⟩ := hgate.exists_ok fun f => Sample.not_refusal_alone
  refine ⟨Sample.wellFormed_cells, hread, p, σ', h, hone, ?_⟩
  obtain ⟨memo, hev, hp⟩ := (ends_evaluate _ _ _ _ _).of_ok h
  have href := reference_eq hread (iff_of_true rfl (Sample.reachable_alone ⟨0, 0⟩))
  rw [Option.some.inj ((hev.reference_of_memo hp).2.symm.trans href)]
  rfl

end Pathway
