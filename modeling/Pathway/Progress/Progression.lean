import Pathway.Course.Module

/-!
# Progress

Facts are what a learner did to items. A progression is what they amount to on one module.
-/

namespace Pathway

abbrev LearnerId := String

structure Fact where
  item : ItemId
  kind : RequirementKind
  satisfiedAt : Instant
  score : Option Binary64
deriving DecidableEq, Repr, Inhabited

inductive ModuleState where
  /-- A prerequisite is not completed, or the module opens later. -/
  | locked
  | unlocked
  | started
  | completed
deriving DecidableEq, Repr, Inhabited

namespace ModuleState

def all : List ModuleState := [locked, unlocked, started, completed]

def name : ModuleState → String
  | locked => "locked"
  | unlocked => "unlocked"
  | started => "started"
  | completed => "completed"

def ofName? (s : String) : Option ModuleState := all.find? fun x => x.name == s

theorem ofName?_name (x : ModuleState) : ofName? x.name = some x := by cases x <;> decide

end ModuleState

structure Met where
  item : ItemId
  kind : RequirementKind
deriving DecidableEq, Repr, Inhabited

/-- A requirement that is not met, with the score recorded for it. -/
structure Unmet where
  item : ItemId
  kind : RequirementKind
  threshold : Option Binary64
  score : Option Binary64
deriving DecidableEq, Repr, Inhabited

structure Progression where
  learner : LearnerId
  module : ModuleId
  state : ModuleState
  met : List Met
  unmet : List Unmet
  currentPosition : Option Int
  completedAt : Option Instant
  /-- A display flag of the learner's; it does not touch the state. -/
  collapsed : Bool
deriving DecidableEq, Repr, Inhabited

namespace Progression

def isLocked (p : Progression) : Bool := p.state == .locked

def isCompleted (p : Progression) : Bool := p.state == .completed

def hasMet (p : Progression) (item : ItemId) (kind : RequirementKind) : Bool :=
  p.met.contains ⟨item, kind⟩

end Progression

/-! ## Sameness

Scores are the same as numbers, and moments on whatever clock. -/

/-- Both absent, or both there and related. -/
def sameOption {α : Type} (same : α → α → Bool) : Option α → Option α → Bool
  | none, none => true
  | some a, some b => same a b
  | _, _ => false

/-- As long as each other, and related one by one. -/
def sameList {α : Type} (same : α → α → Bool) : List α → List α → Bool
  | [], [] => true
  | a :: as, b :: bs => same a b && sameList same as bs
  | _, _ => false

section Refl

variable {α : Type} {same : α → α → Bool}

theorem sameOption_refl (h : ∀ a, same a a = true) (o : Option α) : sameOption same o o = true := by
  cases o with
  | none => rfl
  | some a => exact h a

theorem sameList_refl (h : ∀ a, same a a = true) (as : List α) : sameList same as as = true := by
  induction as with
  | nil => rfl
  | cons a as ih => rw [sameList, h, ih, Bool.and_self]

end Refl

def Unmet.same (u v : Unmet) : Bool :=
  u.item == v.item && u.kind == v.kind && sameOption Binary64.same u.threshold v.threshold
    && sameOption Binary64.same u.score v.score

theorem Unmet.same_refl (u : Unmet) : u.same u = true := by
  simp only [Unmet.same, beq_self_eq_true, sameOption_refl Binary64.same_refl, Bool.and_self]

/-- Nothing of the two progressions differs but the writing of equal numbers and moments. -/
def Progression.same (p q : Progression) : Bool :=
  p.learner == q.learner && p.module == q.module && p.state == q.state && p.met == q.met
    && sameList Unmet.same p.unmet q.unmet && p.currentPosition == q.currentPosition
    && sameOption Instant.same p.completedAt q.completedAt && p.collapsed == q.collapsed

/-- A progression that has just been saved is not saved again. -/
theorem Progression.same_refl (p : Progression) : p.same p = true := by
  simp only [Progression.same, beq_self_eq_true, sameList_refl Unmet.same_refl,
    sameOption_refl Instant.same_refl, Bool.and_self]

end Pathway
