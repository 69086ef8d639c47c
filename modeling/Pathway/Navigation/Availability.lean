import Pathway.Failure
import Pathway.Progress.Progression

/-!
# Availability

What a progression says about the items of its module: which can be opened, and which requirements
are still to be met.
-/

namespace Pathway

inductive Availability where
  /-- The module is locked, or an open requirement stands before the item. -/
  | locked
  | available
  | completed
deriving DecidableEq, Repr, Inhabited

def Availability.name : Availability → String
  | locked => "locked"
  | available => "available"
  | completed => "completed"

def ModuleState.indicator : ModuleState → String
  | .completed => "✓"
  | .started => "→"
  | .unlocked => "○"
  | .locked => "◌"

structure Pending where
  item : ItemId
  module : ModuleId
  title : String
  requirement : Requirement
  description : String
  available : Bool
deriving DecidableEq, Repr

namespace Module

/-- Is the requirement of the item among those the progression counts as met? -/
def isMet (p : Progression) (item : Item) : Bool :=
  match item.requirement with
  | some r => p.hasMet item.id r.kind
  | none => false

/-- The place of the first requirement that is not met. -/
def gate? (m : Module) (p : Progression) : Option Place :=
  (m.requirementItems.find? fun i => !isMet p i).map Item.place

/-- Items of a sequential module are within reach up to the gate. -/
def isReachable (m : Module) (p : Progression) (item : Item) : Bool :=
  !p.isLocked &&
    (!m.sequential ||
      match m.gate? p with
      | some gate => item.place.le gate
      | none => true)

def availability (m : Module) (p : Progression) (item : Item) : Availability :=
  if isMet p item then .completed
  else if m.isReachable p item then .available
  else .locked

def pendingOf (m : Module) (p : Progression) (item : Item) (r : Requirement) : Pending :=
  ⟨item.id, m.id, item.title, r, r.description, m.isReachable p item⟩

def pendingUpTo (m : Module) (p : Progression) (limit : Option Place) : List Pending :=
  (m.requirements.filter fun q =>
    limit.all q.1.place.le && !p.hasMet q.1.id q.2.kind).map fun q => m.pendingOf p q.1 q.2

def pending (m : Module) (p : Progression) : List Pending := m.pendingUpTo p none

def itemOrFail (m : Module) (id : ItemId) : Except Failure Item :=
  match m.item? id with
  | some i => .ok i
  | none => .error (.notFound .item id)

/-- The requirements that are not met, up to and including the one of an item. -/
def pendingBefore (m : Module) (p : Progression) (id : ItemId) : Except Failure (List Pending) :=
  (m.itemOrFail id).map fun i => m.pendingUpTo p (some i.place)

end Module

end Pathway
