import Pathway.Course.Place
import Pathway.Course.Requirement
import Pathway.Time.Instant

/-!
# Modules and courses

A module is a sequence of items behind a gate: other modules to complete first, and a moment from
which it opens. A course is a sequence of modules.
-/

namespace Pathway

abbrev ItemId := String

abbrev ModuleId := String

abbrev CourseId := String

structure Item where
  id : ItemId
  title : String
  position : Int
  requirement : Option Requirement
  /-- The content cannot be reached by learners. -/
  contentLocked : Bool
deriving DecidableEq, Repr, Inhabited

namespace Item

def place (i : Item) : Place := (i.position, i.id)

end Item

/-- A module as its authors define it. Prerequisites may be unknown, and may form cycles. -/
structure Module where
  id : ModuleId
  name : String
  position : Int
  /-- In walking order. -/
  items : List Item
  prerequisites : List ModuleId
  /-- Items open one after the other, each after the requirements before it. -/
  sequential : Bool
  /-- How many requirements complete the module; zero stands for all. -/
  requiredCount : Nat
  unlockAt : Option Instant
deriving DecidableEq, Repr, Inhabited

namespace Module

def place (m : Module) : Place := (m.position, m.id)

def requirementItems (m : Module) : List Item := m.items.filter (·.requirement.isSome)

def requirements (m : Module) : List (Item × Requirement) :=
  m.items.filterMap fun i => i.requirement.map (i, ·)

def firstPosition? (m : Module) : Option Int := m.items.head?.map (·.position)

def lastPosition? (m : Module) : Option Int := m.items.getLast?.map (·.position)

def item? (m : Module) (id : ItemId) : Option Item := m.items.find? (·.id == id)

def toBeUnlocked (m : Module) (now : Instant) : Bool :=
  match m.unlockAt with
  | some t => now.before t
  | none => false

end Module

structure Course where
  id : CourseId
  name : String
  /-- In walking order. -/
  modules : List Module
deriving DecidableEq, Repr, Inhabited

namespace Course

def moduleIds (c : Course) : List ModuleId := c.modules.map (·.id)

def module? (c : Course) (id : ModuleId) : Option Module := c.modules.find? (·.id == id)

end Course

end Pathway
