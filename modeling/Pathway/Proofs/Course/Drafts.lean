import Pathway.Proofs.Course.Shapes

/-!
# Drafts of courses

A draft is what a document tells of a course before anything is held against it: a threshold or a
count may be any number, ids may repeat, nothing is in order, and a moment may lack its offset.
Reading a document gives what is made of its draft, just if the draft is acceptable.
-/

namespace Pathway

open Check

/-! ## Drafts -/

structure RequirementDraft where
  kind : RequirementKind
  threshold : Option Binary64

structure ItemDraft where
  id : ItemId
  title : String
  position : Int
  requirement : Option RequirementDraft
  contentLocked : Bool

structure ModuleDraft where
  id : ModuleId
  name : String
  position : Int
  items : List ItemDraft
  prerequisites : List ModuleId
  sequential : Bool
  requiredCount : Int
  unlockAt : Option Timestamp

structure CourseDraft where
  id : CourseId
  name : String
  modules : List ModuleDraft

/-! ## What is acceptable -/

/-- A threshold is there just for a least score, and it is not below zero. -/
structure RequirementDraft.Acceptable (r : RequirementDraft) : Prop where
  threshold : r.threshold.isSome = true ↔ r.kind = .minScore
  fromZero : ∀ t ∈ r.threshold, Binary64.zero.le t = true

structure ItemDraft.Acceptable (i : ItemDraft) : Prop where
  id : i.id ≠ ""
  requirement : ∀ r ∈ i.requirement, r.Acceptable

structure ModuleDraft.Acceptable (m : ModuleDraft) : Prop where
  id : m.id ≠ ""
  items : ∀ i ∈ m.items, i.Acceptable
  distinct : (m.items.map (·.id)).Nodup
  requiredCount : 0 ≤ m.requiredCount

structure CourseDraft.Acceptable (c : CourseDraft) : Prop where
  id : c.id ≠ ""
  modules : ∀ m ∈ c.modules, m.Acceptable
  distinct : (c.modules.map (·.id)).Nodup

/-! ## Their documents -/

/-- The fields of a requirement. -/
structure RequirementDraft.Told (fs : Fields) (r : RequirementDraft) : Prop where
  kind : Shape.kind.field "type" fs r.kind
  threshold : (Shape.optional Shape.Real).fieldOr "min_score" none fs r.threshold

def RequirementDraft.shape : Shape RequirementDraft := .record RequirementDraft.Told

structure ItemDraft.Told (fs : Fields) (i : ItemDraft) : Prop where
  id : Shape.text.field "id" fs i.id
  title : Shape.text.fieldOr "title" "" fs i.title
  position : Shape.whole.field "position" fs i.position
  requirement : RequirementDraft.shape.optional.fieldOr "requirement" none fs i.requirement
  contentLocked : Shape.flag.fieldOr "content_locked" false fs i.contentLocked

def ItemDraft.shape : Shape ItemDraft := .record ItemDraft.Told

structure ModuleDraft.Told (fs : Fields) (m : ModuleDraft) : Prop where
  id : Shape.text.field "id" fs m.id
  name : Shape.text.fieldOr "name" "" fs m.name
  position : Shape.whole.fieldOr "position" 0 fs m.position
  items : ItemDraft.shape.list.fieldOr "items" [] fs m.items
  prerequisites : Shape.text.list.fieldOr "prerequisite_module_ids" [] fs m.prerequisites
  sequential : Shape.flag.fieldOr "require_sequential_progress" false fs m.sequential
  requiredCount : Shape.whole.fieldOr "requirement_count" 0 fs m.requiredCount
  unlockAt : (Shape.optional Shape.Moment).fieldOr "unlock_at" none fs m.unlockAt

def ModuleDraft.shape : Shape ModuleDraft := .record ModuleDraft.Told

structure CourseDraft.Told (fs : Fields) (c : CourseDraft) : Prop where
  id : Shape.text.field "id" fs c.id
  name : Shape.text.fieldOr "name" "" fs c.name
  modules : ModuleDraft.shape.list.fieldOr "modules" [] fs c.modules

def CourseDraft.shape : Shape CourseDraft := .record CourseDraft.Told

/-! ## What is made of them -/

/-- What is made of an acceptable draft. -/
def RequirementDraft.requirement (r : RequirementDraft) : Requirement :=
  match r.kind with
  | .view => .view
  | .submit => .submit
  | .contribute => .contribute
  | .markDone => .markDone
  | .minScore => .minScore (r.threshold.getD .zero)

def ItemDraft.item (i : ItemDraft) : Item :=
  ⟨i.id, i.title, i.position, i.requirement.map (·.requirement), i.contentLocked⟩

def ModuleDraft.module (m : ModuleDraft) : Module :=
  ⟨m.id, m.name, m.position, sortByPlace Item.place (m.items.map (·.item)),
    m.prerequisites.eraseDups, m.sequential, m.requiredCount.toNat,
    m.unlockAt.map Timestamp.toInstant⟩

def CourseDraft.course (c : CourseDraft) : Course :=
  ⟨c.id, c.name, sortByPlace Module.place (c.modules.map (·.module))⟩

/-! ## Reading them -/

theorem RequirementDraft.validIff_ofParts (r : RequirementDraft) :
    (Requirement.ofParts r.kind r.threshold).ValidIff
      (r.threshold.isSome = true ↔ r.kind = .minScore) r.requirement := by
  obtain ⟨kind, threshold⟩ := r
  intro a
  cases kind <;> cases threshold <;>
    simp [Requirement.ofParts, Requirement.of?, requirement, Checked.fail]

theorem Requirement.reads_ofDocument :
    Requirement.ofDocument.Reads RequirementDraft.shape RequirementDraft.Acceptable
      RequirementDraft.requirement := by
  refine reads_record fun fs r h => ?_
  have hkind := (reads_kindOf.field h.kind).map (Prod.mk (β := Option Binary64))
  have hthreshold := (reads_realFromZero.optional.fieldOr h.threshold nofun rfl).congr Iff.rfl
    fun _ => (Option.map_id_apply (x := r.threshold)).symm
  refine ((hkind.seq hthreshold).andThen r.validIff_ofParts).congr ?_ fun _ => rfl
  exact ⟨fun hr => ⟨⟨trivial, hr.fromZero⟩, hr.threshold⟩, fun hr => ⟨hr.2, hr.1.2⟩⟩

theorem Item.reads_ofDocument :
    Item.ofDocument.Reads ItemDraft.shape ItemDraft.Acceptable ItemDraft.item := by
  refine reads_record fun fs i h => ?_
  have hid := (reads_nonEmptyText.field h.id).map Item.mk
  have htitle := reads_text.fieldOr h.title trivial rfl
  have hposition := reads_whole.field h.position
  have hrequirement := Requirement.reads_ofDocument.optional.fieldOr h.requirement nofun rfl
  have hlocked := reads_flag.fieldOr h.contentLocked trivial rfl
  refine ((((hid.seq htitle).seq hposition).seq hrequirement).seq hlocked).congr ?_ fun _ => rfl
  constructor
  · rintro ⟨hid, hrequirement⟩
    exact ⟨⟨⟨⟨hid, trivial⟩, trivial⟩, hrequirement⟩, trivial⟩
  · rintro ⟨⟨⟨⟨hid, -⟩, -⟩, hrequirement⟩, -⟩
    exact ⟨hid, hrequirement⟩

theorem reads_prerequisitesOf :
    Reads prerequisitesOf Shape.text.list (fun _ => True) List.eraseDups := by
  intro d ids hd
  refine ((reads_text.list d ids hd).map List.eraseDups).congr ?_ fun _ => ?_
  · exact iff_of_true trivial fun _ _ => trivial
  · rw [List.map_id]

theorem Module.reads_ofDocument :
    Module.ofDocument.Reads ModuleDraft.shape ModuleDraft.Acceptable ModuleDraft.module := by
  refine reads_record fun fs m h => ?_
  have hid := (reads_nonEmptyText.field h.id).map Module.mk
  have hname := reads_text.fieldOr h.name trivial rfl
  have hposition := reads_whole.fieldOr h.position trivial rfl
  have hread : Reads itemsOf _ _ _ := Item.reads_ofDocument.inOrder fun _ => rfl
  have hitems := hread.fieldOr h.items ⟨nofun, List.nodup_nil⟩ List.mergeSort_nil
  have hprerequisites := reads_prerequisitesOf.fieldOr h.prerequisites trivial List.eraseDups_nil
  have hsequential := reads_flag.fieldOr h.sequential trivial rfl
  have hcount := reads_wholeFrom.fieldOr h.requiredCount (Int.le_refl 0) rfl
  have hunlock := reads_moment.optional.fieldOr h.unlockAt nofun rfl
  refine (((((((hid.seq hname).seq hposition).seq hitems).seq hprerequisites).seq hsequential).seq
    hcount).seq hunlock).congr ?_ fun _ => rfl
  -- The fields that may hold anything of their type leave no condition.
  constructor
  · rintro ⟨hid, hitems, hdistinct, hcount⟩
    exact ⟨⟨⟨⟨⟨⟨⟨hid, trivial⟩, trivial⟩, hitems, hdistinct⟩, trivial⟩, trivial⟩, hcount⟩,
      fun _ _ => trivial⟩
  · rintro ⟨⟨⟨⟨⟨⟨⟨hid, -⟩, -⟩, hitems, hdistinct⟩, -⟩, -⟩, hcount⟩, -⟩
    exact ⟨hid, hitems, hdistinct, hcount⟩

theorem Course.reads_ofDocument :
    Course.ofDocument.Reads CourseDraft.shape CourseDraft.Acceptable CourseDraft.course := by
  refine reads_record fun fs c h => ?_
  have hid := (reads_nonEmptyText.field h.id).map Course.mk
  have hname := reads_text.fieldOr h.name trivial rfl
  have hread : Reads modulesOf _ _ _ := Module.reads_ofDocument.inOrder fun _ => rfl
  have hmodules := hread.fieldOr h.modules ⟨nofun, List.nodup_nil⟩ List.mergeSort_nil
  refine ((hid.seq hname).seq hmodules).congr ?_ fun _ => rfl
  constructor
  · rintro ⟨hid, hmodules, hdistinct⟩
    exact ⟨⟨hid, trivial⟩, hmodules, hdistinct⟩
  · rintro ⟨⟨hid, -⟩, hmodules, hdistinct⟩
    exact ⟨hid, hmodules, hdistinct⟩

/-! ## Writing them -/

def RequirementDraft.document (r : RequirementDraft) : Document :=
  .record [("type", .text r.kind.name), ("min_score", (r.threshold.map .real).getD .null)]

def ItemDraft.document (i : ItemDraft) : Document :=
  .record [("id", .text i.id), ("title", .text i.title), ("position", .int i.position),
    ("requirement", (i.requirement.map (·.document)).getD .null),
    ("content_locked", .bool i.contentLocked)]

def ModuleDraft.document (m : ModuleDraft) : Document :=
  .record [("id", .text m.id), ("name", .text m.name), ("position", .int m.position),
    ("items", .list (m.items.map (·.document))),
    ("prerequisite_module_ids", .list (m.prerequisites.map .text)),
    ("require_sequential_progress", .bool m.sequential),
    ("requirement_count", .int m.requiredCount),
    ("unlock_at", (m.unlockAt.map .timestamp).getD .null)]

def CourseDraft.document (c : CourseDraft) : Document :=
  .record [("id", .text c.id), ("name", .text c.name),
    ("modules", .list (c.modules.map (·.document)))]

section Writing

variable {α : Type} {s : Shape α} (write : α → Document)

theorem Shape.list_map (h : ∀ a, s (write a) a) (xs : List α) : s.list (.list (xs.map write)) xs :=
  ⟨xs.map write, rfl, List.forall₂_map_left_iff.2 (List.forall₂_same.2 fun a _ => h a)⟩

theorem Shape.optional_getD (h : ∀ a, write a ≠ .null ∧ s (write a) a) (o : Option α) :
    s.optional ((o.map write).getD .null) o := by
  cases o with
  | none => rfl
  | some a => exact h a

theorem RequirementDraft.shape_document (r : RequirementDraft) :
    RequirementDraft.shape r.document r :=
  ⟨_, rfl, ⟨_, rfl, rfl⟩,
    .inr ⟨_, rfl, Shape.optional_getD Document.real (fun x => ⟨nofun, .real x⟩) r.threshold⟩⟩

theorem ItemDraft.shape_document (i : ItemDraft) : ItemDraft.shape i.document i :=
  ⟨_, rfl, ⟨_, rfl, rfl⟩, .inr ⟨_, rfl, rfl⟩, ⟨_, rfl, rfl⟩,
    .inr ⟨_, rfl, Shape.optional_getD RequirementDraft.document
      (fun r => ⟨nofun, r.shape_document⟩) i.requirement⟩,
    .inr ⟨_, rfl, rfl⟩⟩

theorem ModuleDraft.shape_document (m : ModuleDraft) : ModuleDraft.shape m.document m :=
  ⟨_, rfl, ⟨_, rfl, rfl⟩, .inr ⟨_, rfl, rfl⟩, .inr ⟨_, rfl, rfl⟩,
    .inr ⟨_, rfl, Shape.list_map _ ItemDraft.shape_document m.items⟩,
    .inr ⟨_, rfl, Shape.list_map Document.text (fun _ => rfl) m.prerequisites⟩, .inr ⟨_, rfl, rfl⟩,
    .inr ⟨_, rfl, rfl⟩,
    .inr ⟨_, rfl, Shape.optional_getD Document.timestamp
      (fun t => ⟨nofun, .timestamp t⟩) m.unlockAt⟩⟩

theorem CourseDraft.shape_document (c : CourseDraft) : CourseDraft.shape c.document c :=
  ⟨_, rfl, ⟨_, rfl, rfl⟩, .inr ⟨_, rfl, rfl⟩,
    .inr ⟨_, rfl, Shape.list_map _ ModuleDraft.shape_document c.modules⟩⟩

end Writing

end Pathway
