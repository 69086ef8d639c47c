import Pathway.Proofs.Evaluation.Shape
import Pathway.Proofs.Sample

/-!
# How requirements are counted

In an open module the requirements part into those that count and the rest. What counts is said here
of the requirements alone, with no walk along the items, and the state is judged by how many count.
-/

namespace Pathway.Assessment

variable {facts : Facts} {learner : LearnerId} {now : Instant} {m : Module} {met : Bool}
  {previous : Option Progression} {i : Item} {l : List Item} {x : Item × Requirement}

/-! ## Fulfilled requirements -/

/-- The content can be reached, and there is a fact of the kind that is required, with a score that
is high enough where one is asked for. -/
def Fulfilled (facts : Facts) (x : Item × Requirement) : Prop :=
  x.1.contentLocked = false ∧ ∃ f, facts x.1.id x.2.kind = some f ∧
    ∀ t, x.2 = .minScore t → ∃ score, f.score = some score ∧ t.le score = true

theorem satisfied_iff : satisfied (facts x.1.id) x.1 x.2 = true ↔ Fulfilled facts x := by
  obtain ⟨i, r⟩ := x
  unfold satisfied Fulfilled
  rw [Bool.and_eq_true, Bool.not_eq_true']
  refine and_congr_right fun _ => ?_
  cases r with
  | minScore t =>
    cases hf : facts i.id .minScore with
    | none => simp [Requirement.kind, hf]
    | some f => cases hs : f.score <;> simp [Requirement.kind, hf, hs]
  | view | submit | contribute | markDone => simp [Requirement.kind, Option.isSome_iff_exists]

instance : DecidablePred (Fulfilled facts) := fun _ => decidable_of_iff _ satisfied_iff

theorem passes_of_requirement {r : Requirement} (hr : i.requirement = some r) :
    passes facts i = decide (Fulfilled facts (i, r)) := by
  rw [passes, hr, Bool.eq_iff_iff, decide_eq_true_iff, ← satisfied_iff]

/-! ## The requirements of some items -/

def requirementsIn (l : List Item) : List (Item × Requirement) :=
  l.filterMap fun i => i.requirement.map (i, ·)

theorem requirementsIn_cons_of_none (hr : i.requirement = none) :
    requirementsIn (i :: l) = requirementsIn l := by
  rw [requirementsIn, List.filterMap_cons, hr]
  rfl

theorem requirementsIn_cons_of_some {r : Requirement} (hr : i.requirement = some r) :
    requirementsIn (i :: l) = (i, r) :: requirementsIn l := by
  rw [requirementsIn, List.filterMap_cons, hr]
  rfl

theorem requirementsIn_append (l k : List Item) :
    requirementsIn (l ++ k) = requirementsIn l ++ requirementsIn k := List.filterMap_append

theorem mem_requirementsIn : x ∈ requirementsIn l ↔ x.1 ∈ l ∧ x.1.requirement = some x.2 := by
  simp only [requirementsIn, List.mem_filterMap, Option.map_eq_some_iff]
  constructor
  · rintro ⟨i, hi, r, hr, rfl⟩
    exact ⟨hi, hr⟩
  · rintro ⟨hi, hr⟩
    exact ⟨x.1, hi, x.2, hr, rfl⟩

theorem requirementsIn_takeWhile :
    requirementsIn (l.takeWhile (passes facts)) =
      (requirementsIn l).takeWhile (Fulfilled facts ·) := by
  induction l with
  | nil => rfl
  | cons i l ih =>
    cases hr : i.requirement with
    | none =>
      -- An item without a requirement passes, and is none of the requirements.
      rw [List.takeWhile_cons_of_pos (passes_of_isNone hr), requirementsIn_cons_of_none hr,
        requirementsIn_cons_of_none hr, ih]
    | some r =>
      rw [requirementsIn_cons_of_some hr, List.takeWhile_cons, List.takeWhile_cons,
        passes_of_requirement hr]
      split
      · rw [requirementsIn_cons_of_some hr, ih]
      · rfl

theorem requirementsIn_dropWhile :
    requirementsIn (l.dropWhile (passes facts)) =
      (requirementsIn l).dropWhile (Fulfilled facts ·) := by
  have happ : requirementsIn (l.takeWhile (passes facts)) ++
      requirementsIn (l.dropWhile (passes facts)) = requirementsIn l := by
    rw [← requirementsIn_append, List.takeWhile_append_dropWhile]
  rw [requirementsIn_takeWhile] at happ
  exact List.append_cancel_left (happ.trans List.takeWhile_append_dropWhile.symm)

theorem requirementsIn_filter {p : Item → Bool} {q : Item × Requirement → Bool}
    (h : ∀ i r, i.requirement = some r → p i = q (i, r)) :
    requirementsIn (l.filter p) = (requirementsIn l).filter q := by
  induction l with
  | nil => rfl
  | cons i l ih =>
    cases hr : i.requirement with
    | none =>
      rw [requirementsIn_cons_of_none hr, ← ih, List.filter_cons]
      split
      · exact requirementsIn_cons_of_none hr
      · rfl
    | some r =>
      rw [requirementsIn_cons_of_some hr, List.filter_cons, List.filter_cons, h i r hr]
      split
      · rw [requirementsIn_cons_of_some hr, ih]
      · exact ih

theorem requirementsIn_filter_passes :
    requirementsIn (l.filter fun i => i.requirement.isSome && passes facts i) =
      (requirementsIn l).filter (Fulfilled facts ·) :=
  requirementsIn_filter fun i r hr => by
    rw [hr, Option.isSome_some, Bool.true_and, passes_of_requirement hr]

theorem requirementsIn_filter_not_passes :
    requirementsIn (l.filter (!passes facts ·)) =
      (requirementsIn l).filter (¬ Fulfilled facts ·) :=
  requirementsIn_filter fun i r hr => by rw [passes_of_requirement hr, decide_not]

theorem requirementsIn_filter_isSome :
    requirementsIn (l.filter (·.requirement.isSome)) = requirementsIn l := by
  have h : requirementsIn (l.filter (·.requirement.isSome)) =
      (requirementsIn l).filter fun _ => true :=
    requirementsIn_filter fun i r hr => by rw [hr, Option.isSome_some]
  rw [h, List.filter_true]

theorem filterMap_eq_map_requirementsIn {α : Type} {f : Item → Option α}
    {g : Item × Requirement → α} (h : ∀ i, f i = i.requirement.map fun r => g (i, r)) :
    l.filterMap f = (requirementsIn l).map g := by
  rw [requirementsIn, List.map_filterMap]
  refine congrArg (List.filterMap · l) (funext fun i => ?_)
  rw [h, Option.map_map]
  rfl

theorem length_requirementsIn (h : ∀ i ∈ l, i.requirement.isSome = true) :
    (requirementsIn l).length = l.length := by
  rw [requirementsIn, List.length_filterMap_eq_countP, List.countP_eq_length]
  intro i hi
  simpa using h i hi

theorem find?_requirementsIn :
    (requirementsIn l).find? (¬ Fulfilled facts ·) =
      ((l.dropWhile (passes facts)).head?.bind fun i => i.requirement.map (i, ·)) := by
  induction l with
  | nil => rfl
  | cons i l ih =>
    cases hr : i.requirement with
    | none =>
      rw [requirementsIn_cons_of_none hr, List.dropWhile_cons_of_pos (passes_of_isNone hr), ih]
    | some r =>
      rw [requirementsIn_cons_of_some hr, List.find?_cons, List.dropWhile_cons,
        passes_of_requirement hr]
      by_cases hf : Fulfilled facts (i, r)
      · simpa [hf] using ih
      · simp [hf, hr]

/-! ## What counts -/

/-- All that is fulfilled, or in a sequential module the longest run of it from the start. -/
def counted (facts : Facts) (m : Module) : List (Item × Requirement) :=
  if m.sequential then m.requirements.takeWhile (Fulfilled facts ·)
  else m.requirements.filter (Fulfilled facts ·)

def remaining (facts : Facts) (m : Module) : List (Item × Requirement) :=
  m.requirements.filter (· ∉ counted facts m)

theorem nodup_requirements (hm : m.WellFormed) : m.requirements.Nodup := by
  refine List.Nodup.filterMap (fun i j x hi hj => ?_) (List.Nodup.of_map _ hm.distinct)
  obtain ⟨r, -, rfl⟩ := Option.map_eq_some_iff.1 hi
  obtain ⟨r', -, hx⟩ := Option.map_eq_some_iff.1 hj
  exact (congrArg Prod.fst hx).symm

theorem requirements_inOrder (hm : m.WellFormed) :
    m.requirements.Pairwise fun x y => x.1.place.le y.1.place = true := by
  refine hm.inOrder.filterMap _ fun i j hij x hx y hy => ?_
  obtain ⟨r, -, rfl⟩ := Option.map_eq_some_iff.1 hx
  obtain ⟨r', -, rfl⟩ := Option.map_eq_some_iff.1 hy
  exact hij

theorem counted_eq : requirementsIn (metItems facts m) = counted facts m := by
  rw [metItems, requirementsIn_filter_passes, counted, walk]
  by_cases hs : m.sequential = true
  · rw [if_pos hs, if_pos hs, requirementsIn_takeWhile]
    exact List.filter_eq_self.2 fun _ => List.mem_takeWhile_imp
  · rw [if_neg hs, if_neg hs]
    rfl

theorem filter_notMem_takeWhile {α : Type} [BEq α] [LawfulBEq α] {p : α → Bool}
    {l : List α} (h : l.Nodup) : l.filter (· ∉ l.takeWhile p) = l.dropWhile p := by
  have hparts := l.takeWhile_append_dropWhile (p := p)
  have hdisjoint := List.disjoint_of_nodup_append (hparts ▸ h)
  have hfirst : (l.takeWhile p).filter (· ∉ l.takeWhile p) = [] := by
    simp [List.filter_eq_nil_iff]
  have hrest : (l.dropWhile p).filter (· ∉ l.takeWhile p) = l.dropWhile p :=
    List.filter_eq_self.2 fun a ha => decide_eq_true fun ht => hdisjoint ht ha
  calc l.filter (· ∉ l.takeWhile p)
      = (l.takeWhile p ++ l.dropWhile p).filter (· ∉ l.takeWhile p) := by rw [hparts]
    _ = l.dropWhile p := by rw [List.filter_append, hfirst, hrest, List.nil_append]

theorem remaining_of_sequential (hm : m.WellFormed) (hs : m.sequential = true) :
    remaining facts m = m.requirements.dropWhile (Fulfilled facts ·) := by
  rw [remaining, counted, if_pos hs]
  exact filter_notMem_takeWhile (nodup_requirements hm)

theorem find?_eq_head?_remaining (hm : m.WellFormed) (hs : m.sequential = true) :
    m.requirements.find? (¬ Fulfilled facts ·) = (remaining facts m).head? := by
  rw [remaining_of_sequential hm hs, List.find?_eq_head?_dropWhile_not]
  simp

theorem remaining_of_not_sequential (hs : m.sequential = false) :
    remaining facts m = m.requirements.filter (¬ Fulfilled facts ·) := by
  rw [remaining, counted, if_neg (by simp [hs])]
  refine List.filter_congr fun x hx => ?_
  simp [List.mem_filter, hx]

theorem remaining_eq (hm : m.WellFormed) :
    requirementsIn (unmetItems facts m) = remaining facts m := by
  rw [unmetItems, requirementsIn_append, requirementsIn_filter_not_passes,
    requirementsIn_filter_isSome, walk]
  cases hs : m.sequential with
  | true =>
    have hnone : ((requirementsIn m.items).takeWhile (Fulfilled facts ·)).filter
        (¬ Fulfilled facts ·) = [] := by
      refine List.filter_eq_nil_iff.2 fun x hx => ?_
      have hx' := List.mem_takeWhile_imp hx
      simpa using hx'
    rw [if_pos rfl, requirementsIn_takeWhile, hnone, List.nil_append, requirementsIn_dropWhile,
      remaining_of_sequential hm hs]
    rfl
  | false =>
    rw [remaining_of_not_sequential hs]
    exact List.append_nil _

/-! ## What the walk makes of it -/

theorem met_eq : (metItems facts m).filterMap metOf =
    (counted facts m).map fun x => ⟨x.1.id, x.2.kind⟩ := by
  rw [← counted_eq]
  exact filterMap_eq_map_requirementsIn fun _ => rfl

theorem length_metItems : (metItems facts m).length = (counted facts m).length := by
  rw [← counted_eq, length_requirementsIn]
  exact fun i hi => isSome_of_mem_parts (List.mem_append_left _ hi)

theorem position?_eq (hs : m.sequential = true) : position? facts m =
    ((m.requirements.find? (¬ Fulfilled facts ·)).map (·.1.position)).or m.lastPosition? := by
  have hfind : m.requirements.find? (¬ Fulfilled facts ·) = _ := find?_requirementsIn
  rw [hfind, position?, if_pos hs, walk, if_pos hs]
  cases hdrop : m.items.dropWhile (passes facts) with
  | nil => rfl
  | cons i rest =>
    -- The walk stops at an item that has a requirement.
    have hstop : passes facts i = false := by
      have := List.head?_dropWhile_not (passes facts) m.items
      simpa [hdrop] using this
    cases hr : i.requirement with
    | none => cases hstop.symm.trans (passes_of_isNone hr)
    | some r => simp [hr]

/-! ## The state -/

theorem stateOf_eq_completed : stateOf facts m previous = .completed ↔
    previous.any (·.isCompleted) = true ∨ needed m ≤ (metItems facts m).length := by
  have hdone : (decide (needed m ≤ (metItems facts m).length) || wasCompleted previous) = true ↔
      previous.any (·.isCompleted) = true ∨ needed m ≤ (metItems facts m).length := by
    rw [Bool.or_eq_true, decide_eq_true_iff, or_comm, wasCompleted]
  rw [← hdone, stateOf]
  split
  · next h => exact iff_of_true rfl h
  · next h =>
    refine iff_of_false ?_ h
    split <;> simp

theorem stateOf_eq_unlocked : stateOf facts m previous = .unlocked ↔
    stateOf facts m previous ≠ .completed ∧ (metItems facts m).isEmpty = true := by
  constructor
  · intro h
    have hne : stateOf facts m previous ≠ .completed := by simp [h]
    exact ⟨hne, (isEmpty_metItems hne).2 h⟩
  · rintro ⟨hne, h⟩
    exact (isEmpty_metItems hne).1 h

theorem stateOf_eq_started : stateOf facts m previous = .started ↔
    stateOf facts m previous ≠ .completed ∧ ¬ (metItems facts m).isEmpty = true := by
  constructor
  · intro h
    have hne : stateOf facts m previous ≠ .completed := by simp [h]
    exact ⟨hne, fun hempty => by cases h.symm.trans ((isEmpty_metItems hne).1 hempty)⟩
  · rintro ⟨hne, h⟩
    rw [isEmpty_metItems hne] at h
    cases hs : stateOf facts m previous with
    | locked => exact absurd hs stateOf_ne_locked
    | unlocked => exact absurd hs h
    | started => rfl
    | completed => exact absurd hs hne

/-! ## The progression as a whole -/

/-- What a progression of an open module says of its requirements. -/
structure Partitioned (facts : Facts) (m : Module) (previous : Option Progression)
    (p : Progression) : Prop where
  inOrder : m.requirements.Pairwise fun x y => x.1.place.le y.1.place = true
  met : p.met = (counted facts m).map fun x => ⟨x.1.id, x.2.kind⟩
  unmet : p.unmet = (remaining facts m).map fun x =>
    ⟨x.1.id, x.2.kind, x.2.threshold?,
      if x.2.kind = .minScore then (facts x.1.id .minScore).bind (·.score) else none⟩
  /-- The learner of a sequential module stands at the first requirement that is not fulfilled, or
  else at the last item. -/
  position : m.sequential = true → p.currentPosition =
    ((m.requirements.find? (¬ Fulfilled facts ·)).map (·.1.position)).or m.lastPosition?
  nowhere : m.sequential = false → p.currentPosition = none
  completed : p.state = .completed ↔ previous.any (·.isCompleted) = true ∨
    (if m.requiredCount = 0 then m.requirements.length
      else min m.requiredCount m.requirements.length) ≤ p.met.length
  started : p.state = .started ↔ p.state ≠ .completed ∧ p.met ≠ []
  unlocked : p.state = .unlocked ↔ p.state ≠ .completed ∧ p.met = []

theorem partitioned_unlocked (hm : m.WellFormed) :
    Partitioned facts m previous (unlocked facts learner m previous) := by
  have hlength : (unlocked facts learner m previous).met.length = (metItems facts m).length := by
    rw [unlocked, met_eq, List.length_map, length_metItems]
  have hnil : (unlocked facts learner m previous).met = [] ↔
      (metItems facts m).isEmpty = true := by
    rw [List.isEmpty_iff, ← List.length_eq_zero_iff, hlength, List.length_eq_zero_iff]
  refine ⟨requirements_inOrder hm, met_eq, ?_, position?_eq, fun hs => ?_, ?_, ?_, ?_⟩
  · rw [← remaining_eq hm]
    exact filterMap_eq_map_requirementsIn fun _ => rfl
  · exact if_neg (by simp [hs])
  · rw [hlength]
    exact stateOf_eq_completed
  · rw [ne_eq _ [], hnil]
    exact stateOf_eq_started
  · rw [hnil]
    exact stateOf_eq_unlocked

/-- Of a well-formed module that is not locked, the requirements are parted by what the facts
fulfil, and the state says how many of them count. -/
theorem progression_partitions (facts : Facts) (learner : LearnerId) (now : Instant) (met : Bool)
    (previous : Option Progression) (hm : m.WellFormed)
    (h : (progression facts learner now m met previous).isLocked = false) :
    Partitioned facts m previous (progression facts learner now m met previous) := by
  rw [eq_unlocked h]
  exact partitioned_unlocked hm

/-- The first and the last requirement of the sequential sample are fulfilled, the one between them
is not. -/
def withGap : Facts := fun item kind =>
  if (item, kind) = ("cells-reading", .view) ∨ (item, kind) = ("cells-lab", .submit) then
    some ⟨item, kind, ⟨0, 0⟩, none⟩
  else none

theorem sample_partitioned : Sample.cells.WellFormed ∧
    ∃ p, progression withGap "ada" ⟨0, 0⟩ Sample.cells true none = p ∧ p.isLocked = false ∧
      Partitioned withGap Sample.cells none p ∧ p.met.map (·.item) = ["cells-reading"] ∧
      p.unmet.map (·.item) = ["cells-discussion", "cells-lab"] ∧ p.currentPosition = some 3 :=
  ⟨Sample.wellFormed_cells, _, rfl, rfl,
    progression_partitions _ _ _ _ _ Sample.wellFormed_cells rfl, by decide, by decide, by decide⟩

end Pathway.Assessment
