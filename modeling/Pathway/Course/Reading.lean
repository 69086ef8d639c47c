import Pathway.Course.Module
import Pathway.Validation.Scalar

/-!
# Reading courses

A course is read from a document field by field. Items and modules are put into walking order, and
ids must not repeat among them. `document` writes a module so that it reads back.
-/

namespace Pathway

open Check

/-! ## Requirements -/

/-- The rule that ties a threshold to its kind. -/
def Requirement.ofParts (kind : RequirementKind) (threshold : Option Binary64) :
    Checked Requirement :=
  match Requirement.of? kind threshold with
  | some r => .valid r
  | none =>
    if kind = .minScore then .fail (.rule "min_score requirement needs a min_score threshold")
    else .fail (.rule (kind.name ++ " requirement does not take a min_score"))

def kindOf : Check RequirementKind := member RequirementKind.ofName?

def Requirement.ofDocument : Check Requirement :=
  record fun fs =>
    (Prod.mk <$> field "type" kindOf fs
      <*> fieldOr "min_score" none (optional realFromZero) fs).andThen
        fun p => Requirement.ofParts p.1 p.2

/-! ## Items and modules -/

def Item.ofDocument : Check Item :=
  record fun fs =>
    Item.mk <$> field "id" nonEmptyText fs
      <*> fieldOr "title" "" text fs
      <*> field "position" whole fs
      <*> fieldOr "requirement" none (optional Requirement.ofDocument) fs
      <*> fieldOr "content_locked" false flag fs

/-- Things with distinct ids, in walking order. -/
def inOrder {α : Type} (what : String) (place : α → Place) (xs : List α) : Checked (List α) :=
  match repeatedIds (xs.map fun x => (place x).2) with
  | [] => .valid (sortByPlace place xs)
  | ids => .fail (.rule ("Duplicate " ++ what ++ ": " ++ ", ".intercalate ids))

def itemsOf (d : Document) : Checked (List Item) :=
  (list Item.ofDocument d).andThen (inOrder "item ids in module" Item.place)

/-- Prerequisites, each once, in the order given. -/
def prerequisitesOf (d : Document) : Checked (List ModuleId) :=
  (list text d).map List.eraseDups

def Module.ofDocument : Check Module :=
  record fun fs =>
    Module.mk <$> field "id" nonEmptyText fs
      <*> fieldOr "name" "" text fs
      <*> fieldOr "position" 0 whole fs
      <*> fieldOr "items" [] itemsOf fs
      <*> fieldOr "prerequisite_module_ids" [] prerequisitesOf fs
      <*> fieldOr "require_sequential_progress" false flag fs
      <*> fieldOr "requirement_count" 0 (wholeFrom 0) fs
      <*> fieldOr "unlock_at" none (optional moment) fs

/-! ## Courses -/

def modulesOf (d : Document) : Checked (List Module) :=
  (list Module.ofDocument d).andThen (inOrder "module ids in course" Module.place)

def Course.ofDocument : Check Course :=
  record fun fs =>
    Course.mk <$> field "id" nonEmptyText fs
      <*> fieldOr "name" "" text fs
      <*> fieldOr "modules" [] modulesOf fs

/-! ## Writing modules -/

/-- A number that is not finite has no form in a record, and becomes null. -/
def Binary64.document (x : Binary64) : Document := if x.isFinite then .real x else .null

def Requirement.document (r : Requirement) : Document :=
  .record [("type", .text r.kind.name),
    ("min_score", (r.threshold?.map Binary64.document).getD .null)]

def Item.document (i : Item) : Document :=
  .record [("id", .text i.id), ("title", .text i.title), ("position", .int i.position),
    ("requirement", (i.requirement.map Requirement.document).getD .null),
    ("content_locked", .bool i.contentLocked)]

def Instant.document (i : Instant) : Document := .timestamp i.toTimestamp

def Module.document (m : Module) : Document :=
  .record [("id", .text m.id), ("name", .text m.name), ("position", .int m.position),
    ("items", .list (m.items.map Item.document)),
    ("prerequisite_module_ids", .list (m.prerequisites.map .text)),
    ("require_sequential_progress", .bool m.sequential),
    ("requirement_count", .int m.requiredCount),
    ("unlock_at", (m.unlockAt.map Instant.document).getD .null)]

/-! ## Reading what was written -/

theorem text_of_nonEmptyText {s t : String} (h : nonEmptyText (.text s) = .valid t) : t = s := by
  simp only [nonEmptyText, text, Checked.andThen] at h
  split at h
  · cases h
  · exact (Checked.valid.inj h).symm

/-- A module that is read from its own document stands where it stood. -/
theorem Module.place_of_ofDocument {m n : Module} (h : Module.ofDocument m.document = .valid n) :
    n.place = m.place := by
  simp only [Module.ofDocument, Module.document, Document.record, record] at h
  obtain ⟨ofUnlockAt, _, h₁, _, rfl⟩ := Checked.seq_eq_valid h
  obtain ⟨ofCount, _, h₂, _, rfl⟩ := Checked.seq_eq_valid h₁
  obtain ⟨ofSequential, _, h₃, _, rfl⟩ := Checked.seq_eq_valid h₂
  obtain ⟨ofPrerequisites, _, h₄, _, rfl⟩ := Checked.seq_eq_valid h₃
  obtain ⟨ofItems, _, h₅, _, rfl⟩ := Checked.seq_eq_valid h₄
  obtain ⟨ofPosition, position, h₆, hp, rfl⟩ := Checked.seq_eq_valid h₅
  obtain ⟨ofName, _, h₇, _, rfl⟩ := Checked.seq_eq_valid h₆
  obtain ⟨id, hi, rfl⟩ := Checked.map_eq_valid h₇
  have hid : id = m.id := text_of_nonEmptyText (Checked.valid_of_under hi)
  have hposition : position = m.position := (Checked.valid.inj hp).symm
  rw [Module.place, hid, hposition, Module.place]

end Pathway
