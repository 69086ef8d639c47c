import Pathway.Evaluation.Assessment
import Pathway.Proofs.Store

/-!
# Scores by value

A database keeps one zero where memory keeps two. In plain form all zeros are the one without a
sign; an assessment of plain facts is the plain form of the assessment.
-/

namespace Pathway

/-! ## Numbers -/

namespace Binary64

theorem signed_of_dropZeroSign {m : Bool} {a : Nat} :
    ∃ n, (finite m a).dropZeroSign = finite n a ∧ signed n a = signed m a := by
  unfold dropZeroSign
  split
  · next h =>
    cases h
    exact ⟨false, rfl, rfl⟩
  · exact ⟨m, rfl, rfl⟩

theorem same_dropZeroSign_dropZeroSign (x y : Binary64) :
    x.dropZeroSign.same y.dropZeroSign = x.same y := by
  cases x with
  | finite m a =>
    obtain ⟨m', hx, hm⟩ := signed_of_dropZeroSign (m := m) (a := a)
    cases y with
    | finite n b =>
      obtain ⟨n', hy, hn⟩ := signed_of_dropZeroSign (m := n) (a := b)
      rw [hx, hy, same, same, hm, hn]
    | _ => rw [hx]; rfl
  | _ =>
    cases y with
    | finite n b =>
      obtain ⟨n', hy, -⟩ := signed_of_dropZeroSign (m := n) (a := b)
      rw [hy]
      rfl
    | _ => rfl

theorem le_dropZeroSign (x y : Binary64) : x.le y.dropZeroSign = x.le y := by
  cases y with
  | finite n b =>
    obtain ⟨n', hy, hn⟩ := signed_of_dropZeroSign (m := n) (a := b)
    rw [hy]
    rcases x with ⟨m, a⟩ | ⟨_ | _⟩ | _
    · rw [le, le, hn]
    · rfl
    · rfl
    · rfl
  | _ => rfl

theorem dropZeroSign_dropZeroSign (x : Binary64) :
    x.dropZeroSign.dropZeroSign = x.dropZeroSign := by
  rcases x with ⟨_ | _, _ | n⟩ | _ | _ <;> rfl

end Binary64

/-! ## Facts and progressions -/

def Fact.plain (f : Fact) : Fact := { f with score := f.score.map Binary64.dropZeroSign }

def Unmet.plain (u : Unmet) : Unmet := { u with score := u.score.map Binary64.dropZeroSign }

def Progression.plain (p : Progression) : Progression := { p with unmet := p.unmet.map Unmet.plain }

def ItemFacts.plain (fs : ItemFacts) : ItemFacts := fun kind => (fs kind).map Fact.plain

namespace ItemFacts

variable {fs : ItemFacts}

theorem plain_set (f : Fact) : (fs.set f).plain = fs.plain.set f.plain := by
  funext k
  unfold plain set
  split <;> simp_all [Fact.plain]

theorem plain_without (name : Option String) :
    (fs.without name).plain = fs.plain.without name := by
  funext k
  unfold plain without
  split <;> rfl

theorem countOf_plain (name : Option String) : fs.plain.countOf name = fs.countOf name := by
  simp only [countOf, plain, Option.isSome_map]

theorem toList_plain : fs.plain.toList = fs.toList.map Fact.plain := by
  unfold toList plain
  rw [List.map_filterMap]

theorem isEmpty_plain : fs.plain.isEmpty = fs.isEmpty := by
  rw [isEmpty, toList_plain, List.isEmpty_map, isEmpty]

end ItemFacts

section Sameness

variable {α β : Type} {same : β → β → Bool} {same' : α → α → Bool} {f : α → β}

theorem sameOption_map (h : ∀ a b, same (f a) (f b) = same' a b) (a b : Option α) :
    sameOption same (a.map f) (b.map f) = sameOption same' a b := by
  cases a <;> cases b
  · rfl
  · rfl
  · rfl
  · exact h _ _

theorem sameList_map (h : ∀ a b, same (f a) (f b) = same' a b) (as bs : List α) :
    sameList same (as.map f) (bs.map f) = sameList same' as bs := by
  induction as generalizing bs with
  | nil => cases bs <;> rfl
  | cons a as ih =>
    cases bs with
    | nil => rfl
    | cons b bs => rw [List.map_cons, List.map_cons, sameList, sameList, h, ih]

end Sameness

theorem Unmet.same_plain (u v : Unmet) : u.plain.same v.plain = u.same v := by
  simp only [Unmet.same, Unmet.plain, sameOption_map Binary64.same_dropZeroSign_dropZeroSign]

/-- Whether a progression is saved depends on its plain form only. -/
theorem Progression.same_plain (p q : Progression) : p.plain.same q.plain = p.same q := by
  simp only [Progression.same, Progression.plain, sameList_map Unmet.same_plain]

theorem Progression.same_of_plain {p q : Progression} (h : p.plain = q.plain) :
    p.same q = true := by
  rw [← same_plain, h]
  exact Progression.same_refl _

/-! ## Assessments -/

namespace Assessment

def Facts.plain (facts : Facts) : Facts := fun item => (facts item).plain

variable {facts : Facts} {item : Item} {r : Requirement} {m : Module} {learner : LearnerId}
  {now : Instant} {met : Bool} {previous : Option Progression}

theorem satisfied_plain (fs : ItemFacts) (item : Item) (r : Requirement) :
    satisfied fs.plain item r = satisfied fs item r := by
  unfold satisfied ItemFacts.plain
  congr 1
  cases r with
  | minScore threshold =>
    cases hf : fs .minScore with
    | none => rfl
    | some f =>
      cases hs : f.score with
      | none => simp [Fact.plain, hs]
      | some x => simp [Fact.plain, hs, Binary64.le_dropZeroSign]
  | _ => exact Option.isSome_map

theorem passes_plain : passes facts.plain = passes facts := by
  funext item
  unfold passes
  split
  · exact satisfied_plain _ _ _
  · rfl

theorem flaw?_plain (fs : ItemFacts) (item : Item) (r : Requirement) :
    flaw? fs.plain item r = flaw? fs item r := by
  unfold flaw?
  rw [ItemFacts.isEmpty_plain]
  congr 1
  cases r with
  | minScore threshold => cases hf : fs .minScore <;> simp [ItemFacts.plain, hf, Fact.plain]
  | _ => rfl

theorem walk_plain : walk facts.plain m = walk facts m := by
  unfold walk
  rw [passes_plain]

theorem metItems_plain : metItems facts.plain m = metItems facts m := by
  unfold metItems
  rw [walk_plain, passes_plain]

theorem unmetItems_plain : unmetItems facts.plain m = unmetItems facts m := by
  unfold unmetItems
  rw [walk_plain, passes_plain]

theorem unmetOf_plain (item : Item) :
    unmetOf facts.plain item = (unmetOf facts item).map Unmet.plain := by
  unfold unmetOf
  rw [Option.map_map]
  congr 1
  funext r
  have hscore : (facts.plain item.id .minScore).bind (·.score) =
      ((facts item.id .minScore).bind (·.score)).map Binary64.dropZeroSign := by
    unfold Facts.plain ItemFacts.plain
    cases facts item.id .minScore <;> rfl
  simp only [Function.comp_apply, Unmet.plain, hscore]
  split <;> rfl

theorem metMoments_plain : metMoments facts.plain m = metMoments facts m := by
  unfold metMoments
  rw [metItems_plain]
  congr 1
  funext i
  cases i.requirement with
  | none => rfl
  | some r =>
    unfold Facts.plain ItemFacts.plain
    cases hf : facts i.id r.kind <;> simp [hf, Fact.plain]

theorem wasCompleted_plain :
    wasCompleted (previous.map Progression.plain) = wasCompleted previous := by
  cases previous <;> rfl

theorem completedAt_plain :
    completedAt facts.plain m (previous.map Progression.plain) = completedAt facts m previous := by
  unfold completedAt
  rw [metMoments_plain]
  cases previous <;> rfl

theorem isCollapsed_plain :
    isCollapsed (previous.map Progression.plain) = isCollapsed previous := by
  cases previous <;> rfl

theorem stateOf_plain :
    stateOf facts.plain m (previous.map Progression.plain) = stateOf facts m previous := by
  unfold stateOf
  rw [metItems_plain, wasCompleted_plain]

theorem progression_plain :
    progression facts.plain learner now m met (previous.map Progression.plain) =
      (progression facts learner now m met previous).plain := by
  unfold progression
  split
  · unfold unlocked
    have hunmet : (unmetItems facts m).filterMap (unmetOf facts.plain) =
        ((unmetItems facts m).filterMap (unmetOf facts)).map Unmet.plain := by
      rw [List.map_filterMap]
      exact congrArg (List.filterMap · _) (funext unmetOf_plain)
    have hposition : position? facts.plain m = position? facts m := by
      unfold position?
      rw [walk_plain]
    simp only [stateOf_plain, metItems_plain, unmetItems_plain, hunmet, hposition,
      completedAt_plain, isCollapsed_plain]
    rfl
  · unfold locked
    rw [isCollapsed_plain]
    rfl

theorem issues_plain : issues facts.plain learner now m met = issues facts learner now m met := by
  simp only [issues, factIssues, Facts.plain, flaw?_plain]

end Assessment

end Pathway
