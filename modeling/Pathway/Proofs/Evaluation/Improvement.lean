import Mathlib.Data.List.Basic
import Mathlib.Data.List.TakeWhile
import Pathway.Evaluation.Assessment
import Pathway.Proofs.Course.Modules

/-!
# Assessments of a learner who did more

More facts, better scores, prerequisites met where they were not, a later clock and a completion
before: none of these makes an assessment worse.
-/

namespace Pathway

/-! ## Scores and facts -/

theorem Binary64.le_trans {a b c : Binary64} (h : a.le b = true) (g : b.le c = true) :
    a.le c = true := by
  rcases a with ⟨m, x⟩ | ⟨_ | _⟩ | _ <;> rcases b with ⟨n, y⟩ | ⟨_ | _⟩ | _ <;>
    rcases c with ⟨k, z⟩ | ⟨_ | _⟩ | _ <;>
    simp only [Binary64.le, decide_eq_true_eq, Bool.false_eq_true] at *
  -- What is left are three finite numbers.
  exact Int.le_trans h g

theorem Binary64.ne_nan_of_le {a b : Binary64} (h : a.le b = true) : a ≠ .nan ∧ b ≠ .nan := by
  constructor
  · rintro rfl
    cases h
  · rintro rfl
    cases a <;> cases h

theorem Binary64.le_refl {a : Binary64} (h : a ≠ .nan) : a.le a = true := by
  rcases a with ⟨m, x⟩ | ⟨_ | _⟩ | _
  · exact decide_eq_true (Int.le_refl _)
  · rfl
  · rfl
  · exact absurd rfl h

theorem Binary64.le_total {a b : Binary64} (ha : a ≠ .nan) (hb : b ≠ .nan) :
    a.le b = true ∨ b.le a = true := by
  rcases a with ⟨m, x⟩ | ⟨_ | _⟩ | _ <;> rcases b with ⟨n, y⟩ | ⟨_ | _⟩ | _ <;>
    simp only [Binary64.le, decide_eq_true_eq, true_or, or_true, ne_eq, not_true_eq_false,
      Bool.false_eq_true] at *
  exact Int.le_total _ _

/-- The second score is no worse than the first: as high as that, if that is a number at all. -/
def NoWorseScore : Option Binary64 → Option Binary64 → Prop
  | some x, score => x = .nan ∨ ∃ y, score = some y ∧ x.le y = true
  | none, _ => True

theorem NoWorseScore.refl (score : Option Binary64) : NoWorseScore score score := by
  cases score with
  | none => trivial
  | some x =>
    by_cases hx : x = .nan
    · exact Or.inl hx
    · exact Or.inr ⟨x, rfl, Binary64.le_refl hx⟩

namespace Assessment

/-- Each of the first facts stands among the second, with a score that is no worse. -/
def Improved (facts facts' : Facts) : Prop :=
  ∀ item kind f, facts item kind = some f →
    ∃ f', facts' item kind = some f' ∧ NoWorseScore f.score f'.score

variable {facts facts' : Facts} {item : Item} {r : Requirement} {m : Module} {learner : LearnerId}
  {now now' : Instant} {met met' : Bool} {previous previous' : Option Progression}

theorem satisfied_improved (h : Improved facts facts')
    (hs : satisfied (facts item.id) item r = true) : satisfied (facts' item.id) item r = true := by
  unfold satisfied at hs ⊢
  rw [Bool.and_eq_true] at hs ⊢
  refine ⟨hs.1, ?_⟩
  have hs := hs.2
  cases r with
  | minScore threshold =>
    dsimp only at hs ⊢
    split at hs
    · next x hx =>
      obtain ⟨f, hf, hscore⟩ := Option.bind_eq_some_iff.1 hx
      obtain ⟨f', hf', hbetter⟩ := h item.id .minScore f hf
      rw [hscore] at hbetter
      rcases hbetter with rfl | ⟨y, hy, hxy⟩
      · -- A score that is no number meets no threshold.
        exact absurd rfl (Binary64.ne_nan_of_le hs).2
      · rw [hf', Option.bind_some, hy]
        exact Binary64.le_trans hs hxy
    · cases hs
  | _ =>
    obtain ⟨f, hf⟩ := Option.isSome_iff_exists.1 hs
    obtain ⟨f', hf', -⟩ := h item.id _ f hf
    exact Option.isSome_iff_exists.2 ⟨f', hf'⟩

theorem passes_improved (h : Improved facts facts') (hp : passes facts item = true) :
    passes facts' item = true := by
  unfold passes at hp ⊢
  split
  · next r hr =>
    rw [hr] at hp
    exact satisfied_improved h hp
  · rfl

/-! ## The walk -/

section Lists

variable {α : Type} {p q : α → Bool} {l : List α}

theorem takeWhile_prefix_of_imp (h : ∀ a, p a = true → q a = true) :
    l.takeWhile p <+: l.takeWhile q := by
  have hpq : (fun a => decide (p a = true ∧ q a = true)) = p := by
    funext a
    rw [Bool.eq_iff_iff, decide_eq_true_eq]
    exact and_iff_left_of_imp (h a)
  have htake := List.takeWhile_takeWhile p q l
  rw [hpq] at htake
  exact htake ▸ List.takeWhile_prefix p

theorem dropWhile_suffix_of_imp (h : ∀ a, p a = true → q a = true) :
    l.dropWhile q <:+ l.dropWhile p := by
  induction l with
  | nil => exact List.suffix_rfl
  | cons a l ih =>
    by_cases hp : p a = true
    · rw [List.dropWhile_cons_of_pos hp, List.dropWhile_cons_of_pos (h a hp)]
      exact ih
    · rw [List.dropWhile_cons_of_neg hp]
      exact List.dropWhile_suffix q

end Lists

theorem metItems_sublist (h : Improved facts facts') :
    (metItems facts m).Sublist (metItems facts' m) := by
  have hpasses : ∀ i, passes facts i = true → passes facts' i = true := fun i => passes_improved h
  have hwalk : (walk facts m).1.Sublist (walk facts' m).1 := by
    unfold walk
    split
    · exact (takeWhile_prefix_of_imp hpasses).sublist
    · exact List.Sublist.refl _
  refine (hwalk.filter _).trans (List.monotone_filter_right _ fun i hi => ?_)
  rw [Bool.and_eq_true] at hi ⊢
  exact ⟨hi.1, hpasses i hi.2⟩

end Assessment

/-! ## Positions -/

theorem Place.fst_le_of_le {a b : Place} (h : a.le b = true) : a.1 ≤ b.1 := by
  unfold Place.le at h
  rw [Bool.or_eq_true, Bool.and_eq_true, decide_eq_true_eq, decide_eq_true_eq] at h
  omega

section Ordered

variable {l : List Item} {i j : Item}

theorem position_head_le (h : l.Pairwise fun i j => i.place.le j.place = true)
    (hi : l.head? = some i) (hj : j ∈ l) : i.position ≤ j.position := by
  cases l with
  | nil => cases hi
  | cons a l =>
    cases hi
    rcases List.mem_cons.1 hj with rfl | hj
    · exact Int.le_refl _
    · exact Place.fst_le_of_le ((List.pairwise_cons.1 h).1 j hj)

theorem position_le_last (h : l.Pairwise fun i j => i.place.le j.place = true)
    (hj : l.getLast? = some j) (hi : i ∈ l) : i.position ≤ j.position := by
  obtain ⟨l, rfl⟩ := List.getLast?_eq_some_iff.1 hj
  rcases List.mem_append.1 hi with hi | hi
  · exact Place.fst_le_of_le ((List.pairwise_append.1 h).2.2 i hi j List.mem_cons_self)
  · exact List.mem_singleton.1 hi ▸ Int.le_refl _

end Ordered

namespace Assessment

variable {facts facts' : Facts} {m : Module} {learner : LearnerId}
  {now now' : Instant} {met met' : Bool} {previous previous' : Option Progression}

/-- The item at which a learner stands in a sequential module. -/
def Stands (facts : Facts) (m : Module) (i : Item) : Prop :=
  (m.items.dropWhile (passes facts)).head? = some i ∨
    m.items.dropWhile (passes facts) = [] ∧ m.items.getLast? = some i

theorem exists_stands (facts : Facts) (hs : m.sequential = true) (hne : m.items ≠ []) :
    ∃ i ∈ m.items, position? facts m = some i.position ∧ Stands facts m i := by
  unfold position? Stands
  rw [if_pos hs, walk, if_pos hs]
  cases hd : m.items.dropWhile (passes facts) with
  | nil =>
    have hlast := List.getLast?_eq_some_getLast hne
    refine ⟨m.items.getLast hne, List.getLast_mem hne, ?_, Or.inr ⟨rfl, hlast⟩⟩
    rw [Module.lastPosition?, hlast, Option.map_some]
  | cons i l =>
    refine ⟨i, (List.dropWhile_sublist _).subset (hd ▸ List.mem_cons_self), rfl, Or.inl rfl⟩

theorem position_le_of_stands {i j : Item} (h : Improved facts facts') (ho : m.InOrder)
    (hi : Stands facts m i) (hj : Stands facts' m j) : i.position ≤ j.position := by
  have hsuffix : m.items.dropWhile (passes facts') <:+ m.items.dropWhile (passes facts) :=
    dropWhile_suffix_of_imp fun i => passes_improved h
  have hsub : (m.items.dropWhile (passes facts)).Sublist m.items := List.dropWhile_sublist _
  rcases hi with hi | ⟨hnil, hi⟩
  · rcases hj with hj | ⟨-, hj⟩
    · exact position_head_le (ho.sublist hsub) hi (hsuffix.subset (List.mem_of_mem_head? hj))
    · exact position_le_last ho hj (hsub.subset (List.mem_of_mem_head? hi))
  · -- Whoever was at the end is there again.
    rw [hnil, List.suffix_nil] at hsuffix
    rcases hj with hj | ⟨-, hj⟩
    · rw [hsuffix] at hj
      cases hj
    · cases hi.symm.trans hj
      exact Int.le_refl _

end Assessment

/-! ## Progressions -/

def ModuleState.rank : ModuleState → Nat
  | locked => 0
  | unlocked => 1
  | started => 2
  | completed => 3

/-- The second progression on a module is nowhere behind the first. -/
structure Progression.AtMost (m : Module) (p q : Progression) : Prop where
  state : p.state.rank ≤ q.state.rank
  met : ∀ x ∈ p.met, x ∈ q.met
  /-- The items of a module that is read from a document are in order. -/
  position : m.InOrder → m.sequential = true → m.items ≠ [] →
    ∃ i j, p.currentPosition = some i ∧ q.currentPosition = some j ∧ i ≤ j

theorem Progression.AtMost.isCompleted {m : Module} {p q : Progression} (h : p.AtMost m q)
    (hp : p.isCompleted = true) : q.isCompleted = true := by
  have hstate := h.state
  unfold Progression.isCompleted at *
  rw [beq_iff_eq] at *
  rw [hp] at hstate
  cases hq : q.state with
  | completed => rfl
  | _ =>
    rw [hq] at hstate
    simp [ModuleState.rank] at hstate

theorem Progression.AtMost.isLocked {m : Module} {p q : Progression} (h : p.AtMost m q)
    (hp : p.isLocked = false) : q.isLocked = false := by
  have hstate := h.state
  unfold Progression.isLocked at *
  rw [beq_eq_false_iff_ne] at *
  rintro hq
  rw [hq] at hstate
  cases hp' : p.state <;> simp_all [ModuleState.rank]

namespace Assessment

variable {facts facts' : Facts} {m : Module} {learner : LearnerId}
  {now now' : Instant} {met met' : Bool} {previous previous' : Option Progression}

theorem rank_stateOf_le (h : Improved facts facts')
    (hwas : wasCompleted previous = true → wasCompleted previous' = true) :
    (stateOf facts m previous).rank ≤ (stateOf facts' m previous').rank := by
  have hsub := metItems_sublist (m := m) h
  unfold stateOf
  split
  · next hc =>
    -- What completed the module before completes it now.
    rw [Bool.or_eq_true, decide_eq_true_eq] at hc
    have hc' : needed m ≤ (metItems facts' m).length ∨ wasCompleted previous' = true :=
      hc.imp (fun hn => hn.trans hsub.length_le) hwas
    rw [if_pos (by rwa [Bool.or_eq_true, decide_eq_true_eq])]
  · split
    · split
      · simp [ModuleState.rank]
      · split <;> simp [ModuleState.rank]
    · next hne =>
      have hne' : ¬ (metItems facts' m).isEmpty = true := by
        rw [List.isEmpty_iff] at hne ⊢
        exact fun hnil => hne (List.sublist_nil.1 (hnil ▸ hsub))
      rw [if_neg hne']
      split
      · simp [ModuleState.rank]
      · exact Nat.le_refl _

theorem toBeUnlocked_later (hnow : now'.before now = false) (h : m.toBeUnlocked now = false) :
    m.toBeUnlocked now' = false := by
  unfold Module.toBeUnlocked at *
  split at h
  · next t ht =>
    simp only [Instant.before, decide_eq_false_iff_not] at *
    omega
  · rfl

theorem firstPosition_eq (hne : m.items ≠ []) :
    ∃ i, m.items.head? = some i ∧ m.firstPosition? = some i.position := by
  obtain ⟨i, l, hi⟩ := List.exists_cons_of_ne_nil hne
  refine ⟨i, ?_, ?_⟩
  · rw [hi, List.head?_cons]
  · rw [Module.firstPosition?, hi, List.head?_cons, Option.map_some]

theorem atMost_progression (h : Improved facts facts') (hnow : now'.before now = false)
    (hmet : met = true → met' = true)
    (hwas : wasCompleted previous = true → wasCompleted previous' = true) :
    (progression facts learner now m met previous).AtMost m
      (progression facts' learner now' m met' previous') := by
  unfold progression
  split
  · next hopen =>
    have hopen' : isOpen now' m met' = true := by
      unfold isOpen at hopen ⊢
      rw [Bool.and_eq_true, Bool.not_eq_true'] at hopen ⊢
      exact ⟨hmet hopen.1, toBeUnlocked_later hnow hopen.2⟩
    rw [if_pos hopen']
    refine ⟨rank_stateOf_le h hwas, fun x hx => ?_, fun ho hs hne => ?_⟩
    · exact ((metItems_sublist h).filterMap metOf).subset hx
    · obtain ⟨i, -, hi, histands⟩ := exists_stands facts hs hne
      obtain ⟨j, -, hj, hjstands⟩ := exists_stands facts' hs hne
      exact ⟨_, _, hi, hj, position_le_of_stands h ho histands hjstands⟩
  · refine ⟨Nat.zero_le _, fun x hx => absurd hx List.not_mem_nil, fun ho hs hne => ?_⟩
    obtain ⟨i, hhead, hi⟩ := firstPosition_eq hne
    split
    · obtain ⟨j, hmem, hj, -⟩ := exists_stands facts' hs hne
      exact ⟨_, _, hi, hj, position_head_le ho hhead hmem⟩
    · exact ⟨_, _, hi, hi, Int.le_refl _⟩

end Assessment

end Pathway
