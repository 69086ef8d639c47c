import Pathway.Document

/-!
# Checked values

Reading a document gives a value or every fault found in it. Faults are collected in the order in
which the parts are read, and each carries its path from the outside in.
-/

namespace Pathway

inductive PathStep where
  | field (name : String)
  | index (i : Nat)
deriving DecidableEq, Repr

inductive Reason where
  | missing
  | notRecord
  | notText
  | emptyText
  | undecodedText
  | notWhole
  | unreadableWhole
  | oversizedWhole
  | fractional
  | notFinite
  | notReal
  | unreadableReal
  | belowMinimum
  | notFlag
  | unreadableFlag
  | notMember
  | notList
  | notPath
  | notMoment
  | momentOutOfRange
  | unreadableMoment
  /-- A rule of the domain, in its own words. -/
  | rule (message : String)
deriving DecidableEq, Repr

structure Fault where
  path : List PathStep
  reason : Reason
deriving DecidableEq, Repr

/-- A value, or the faults that keep it from being one. -/
inductive Checked (α : Type) where
  | valid (value : α)
  | faulty (faults : List Fault)
deriving DecidableEq, Repr

namespace Checked

variable {α β : Type}

def map (f : α → β) : Checked α → Checked β
  | .valid a => .valid (f a)
  | .faulty fs => .faulty fs

/-- Both parts are looked at, so the faults of both are kept. -/
def apply (f : Checked (α → β)) (x : Checked α) : Checked β :=
  match f, x with
  | .valid g, .valid a => .valid (g a)
  | .valid _, .faulty fs => .faulty fs
  | .faulty fs, .valid _ => .faulty fs
  | .faulty fs, .faulty gs => .faulty (fs ++ gs)

instance : Applicative Checked where
  pure := .valid
  map := map
  seq f x := apply f (x ())

theorem map_eq_valid {f : α → β} {x : Checked α} {b : β} (h : f <$> x = .valid b) :
    ∃ a, x = .valid a ∧ f a = b := by
  cases x with
  | valid a => exact ⟨a, rfl, Checked.valid.inj h⟩
  | faulty fs => cases h

theorem seq_eq_valid {f : Checked (α → β)} {x : Checked α} {b : β} (h : f <*> x = .valid b) :
    ∃ g a, f = .valid g ∧ x = .valid a ∧ g a = b := by
  cases f with
  | valid g =>
    cases x with
    | valid a => exact ⟨g, a, rfl, rfl, Checked.valid.inj h⟩
    | faulty fs => cases h
  | faulty fs => cases x <;> cases h

/-- A further check of a value that has no fault so far. -/
def andThen (x : Checked α) (f : α → Checked β) : Checked β :=
  match x with
  | .valid a => f a
  | .faulty fs => .faulty fs

def fail (reason : Reason) : Checked α := .faulty [⟨[], reason⟩]

/-- The faults of a part, seen from the whole. -/
def under (step : PathStep) : Checked α → Checked α
  | .valid a => .valid a
  | .faulty fs => .faulty (fs.map fun f => { f with path := step :: f.path })

theorem valid_of_under {step : PathStep} {x : Checked α} {a : α} (h : x.under step = .valid a) :
    x = .valid a := by
  cases x with
  | valid b => exact h
  | faulty fs => cases h

def toOption : Checked α → Option α
  | .valid a => some a
  | .faulty _ => none

end Checked

/-! ## Parts of documents -/

abbrev Check (α : Type) := Document → Checked α

namespace Check

variable {α : Type}

abbrev Fields := List (Document × Document)

def record (check : Fields → Checked α) : Check α
  | .map entries => check entries
  | _ => .fail .notRecord

def field (name : String) (check : Check α) (fields : Fields) : Checked α :=
  match Document.field? name fields with
  | some d => (check d).under (.field name)
  | none => .faulty [⟨[.field name], .missing⟩]

/-- A field with a value to take when it is not there. -/
def fieldOr (name : String) (default : α) (check : Check α) (fields : Fields) : Checked α :=
  match Document.field? name fields with
  | some d => (check d).under (.field name)
  | none => .valid default

def optional (check : Check α) : Check (Option α)
  | .null => .valid none
  | d => (check d).map some

def elementsFrom (check : Check α) : Nat → List Document → Checked (List α)
  | _, [] => .valid []
  | i, d :: rest => List.cons <$> (check d).under (.index i) <*> elementsFrom check (i + 1) rest

def list (check : Check α) : Check (List α)
  | .list ds => elementsFrom check 0 ds
  | _ => .fail .notList

end Check

end Pathway
