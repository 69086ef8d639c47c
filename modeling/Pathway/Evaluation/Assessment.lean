import Pathway.Issue
import Pathway.Store.Basic

/-!
# Assessment

What the facts of a learner amount to on one module, once it is known whether the prerequisites are
met. A completed module stays completed while it is not locked.
-/

namespace Pathway.Assessment

abbrev Facts := ItemId → ItemFacts

/-! ## One requirement -/

/-- Is the requirement of the item met by the facts? Locked content never counts. -/
def satisfied (facts : ItemFacts) (item : Item) (r : Requirement) : Bool :=
  !item.contentLocked &&
    match r with
    | .minScore threshold =>
      match (facts .minScore).bind (·.score) with
      | some score => threshold.le score
      | none => false
    | _ => (facts r.kind).isSome

/-- An item without a requirement blocks nothing. -/
def passes (facts : Facts) (item : Item) : Bool :=
  match item.requirement with
  | some r => satisfied (facts item.id) item r
  | none => true

/-- The flaw of the facts of an item, if they cannot count. -/
def flaw? (facts : ItemFacts) (item : Item) (r : Requirement) : Option FactFlaw :=
  if item.contentLocked then
    if facts.isEmpty then none else some .contentLocked
  else
    match r, facts .minScore with
    | .minScore _, some f => if f.score.isNone then some .noScore else none
    | _, _ => none

/-! ## The walk -/

/-- The items within reach, and those behind the first open requirement of a sequential module.
That requirement itself is the first of the second part. -/
def walk (facts : Facts) (m : Module) : List Item × List Item :=
  if m.sequential then (m.items.takeWhile (passes facts), m.items.dropWhile (passes facts))
  else (m.items, [])

/-- In a sequential module the learner stands at the first open requirement, or at the end. -/
def position? (facts : Facts) (m : Module) : Option Int :=
  if m.sequential then
    match (walk facts m).2 with
    | item :: _ => some item.position
    | [] => m.lastPosition?
  else none

def metOf (item : Item) : Option Met := item.requirement.map fun r => ⟨item.id, r.kind⟩

/-- A missed score is shown with what was reached. -/
def unmetOf (facts : Facts) (item : Item) : Option Unmet :=
  item.requirement.map fun r =>
    ⟨item.id, r.kind, r.threshold?,
      if r.kind = .minScore then (facts item.id .minScore).bind (·.score) else none⟩

def metItems (facts : Facts) (m : Module) : List Item :=
  (walk facts m).1.filter fun i => i.requirement.isSome && passes facts i

def unmetItems (facts : Facts) (m : Module) : List Item :=
  (walk facts m).1.filter (!passes facts ·) ++ (walk facts m).2.filter (·.requirement.isSome)

/-! ## The progression -/

/-- How many requirements complete the module. -/
def needed (m : Module) : Nat :=
  let total := m.requirements.length
  if m.requiredCount = 0 then total else min m.requiredCount total

/-- The latest of some moments, of equal ones the first. -/
def latest? : List Instant → Option Instant
  | [] => none
  | t :: ts => some (ts.foldl (fun a b => if a.before b then b else a) t)

def metMoments (facts : Facts) (m : Module) : List Instant :=
  (metItems facts m).filterMap fun i =>
    (i.requirement.bind fun r => facts i.id r.kind).map (·.satisfiedAt)

def wasCompleted (previous : Option Progression) : Bool := previous.any (·.isCompleted)

def stateOf (facts : Facts) (m : Module) (previous : Option Progression) : ModuleState :=
  if needed m ≤ (metItems facts m).length || wasCompleted previous then .completed
  else if (metItems facts m).isEmpty then .unlocked
  else .started

/-- A completion keeps its moment. A new one takes the moment of the last requirement met, or the
moment from which the module is open. -/
def completedAt (facts : Facts) (m : Module) (previous : Option Progression) : Option Instant :=
  match previous with
  | some p =>
    if p.isCompleted && p.completedAt.isSome then p.completedAt
    else (latest? (metMoments facts m)).or m.unlockAt
  | none => (latest? (metMoments facts m)).or m.unlockAt

def isCollapsed (previous : Option Progression) : Bool := previous.any (·.collapsed)

def locked (learner : LearnerId) (m : Module) (previous : Option Progression) : Progression :=
  ⟨learner, m.id, .locked, [], [], m.firstPosition?, none, isCollapsed previous⟩

def unlocked (facts : Facts) (learner : LearnerId) (m : Module) (previous : Option Progression) :
    Progression :=
  let state := stateOf facts m previous
  { learner
    module := m.id
    state
    met := (metItems facts m).filterMap metOf
    unmet := (unmetItems facts m).filterMap (unmetOf facts)
    currentPosition := position? facts m
    completedAt := if state = .completed then completedAt facts m previous else none
    collapsed := isCollapsed previous }

/-- A module is locked without its prerequisites, and before the moment from which it opens. -/
def isOpen (now : Instant) (m : Module) (prerequisitesMet : Bool) : Bool :=
  prerequisitesMet && !m.toBeUnlocked now

def progression (facts : Facts) (learner : LearnerId) (now : Instant) (m : Module)
    (prerequisitesMet : Bool) (previous : Option Progression) : Progression :=
  if isOpen now m prerequisitesMet then unlocked facts learner m previous
  else locked learner m previous

/-! ## Issues -/

/-- A count beyond the requirements there are. -/
def countIssues (m : Module) : List Issue :=
  let total := m.requirements.length
  if total < m.requiredCount then [.excessiveCount m.id m.requiredCount total] else []

def factIssues (facts : Facts) (learner : LearnerId) (m : Module) : List Issue :=
  m.requirements.filterMap fun p =>
    (flaw? (facts p.1.id) p.1 p.2).map (.unusableFact learner m.id p.1.id)

/-- A count is noted always, a fact only when it is looked at. -/
def issues (facts : Facts) (learner : LearnerId) (now : Instant) (m : Module)
    (prerequisitesMet : Bool) : List Issue :=
  countIssues m ++ if isOpen now m prerequisitesMet then factIssues facts learner m else []

end Pathway.Assessment
