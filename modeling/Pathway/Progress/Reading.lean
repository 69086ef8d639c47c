import Pathway.Course.Reading
import Pathway.Progress.Progression

/-!
# Reading and writing progress

Facts and progressions are read from documents field by field, and written field by field. Numbers
stay as they are, also those that are not finite.
-/

namespace Pathway

open Check

/-! ## Reading -/

def Fact.ofDocument : Check Fact :=
  record fun fs =>
    Fact.mk <$> field "item_id" text fs
      <*> field "requirement_type" kindOf fs
      <*> field "satisfied_at" moment fs
      <*> fieldOr "score" none (optional real) fs

def Met.ofDocument : Check Met :=
  record fun fs =>
    Met.mk <$> field "item_id" text fs
      <*> field "type" kindOf fs

def Unmet.ofDocument : Check Unmet :=
  record fun fs =>
    Unmet.mk <$> field "item_id" text fs
      <*> field "type" kindOf fs
      <*> fieldOr "min_score" none (optional real) fs
      <*> fieldOr "score" none (optional real) fs

def Progression.ofDocument : Check Progression :=
  record fun fs =>
    Progression.mk <$> field "learner_id" text fs
      <*> field "module_id" text fs
      <*> fieldOr "workflow_state" .locked (member ModuleState.ofName?) fs
      <*> fieldOr "requirements_met" [] (list Met.ofDocument) fs
      <*> fieldOr "incomplete_requirements" [] (list Unmet.ofDocument) fs
      <*> fieldOr "current_position" none (optional whole) fs
      <*> fieldOr "completed_at" none (optional moment) fs
      <*> fieldOr "collapsed" false flag fs

/-! ## Writing -/

def optionalDocument {α : Type} (f : α → Document) : Option α → Document
  | some a => f a
  | none => .null

def Fact.document (f : Fact) : Document :=
  .record [("item_id", .text f.item), ("requirement_type", .text f.kind.name),
    ("satisfied_at", .timestamp f.satisfiedAt.toTimestamp),
    ("score", optionalDocument .real f.score)]

def Met.document (m : Met) : Document :=
  .record [("item_id", .text m.item), ("type", .text m.kind.name)]

def Unmet.document (u : Unmet) : Document :=
  .record [("item_id", .text u.item), ("type", .text u.kind.name),
    ("min_score", optionalDocument .real u.threshold), ("score", optionalDocument .real u.score)]

def Progression.document (p : Progression) : Document :=
  .record [("learner_id", .text p.learner), ("module_id", .text p.module),
    ("workflow_state", .text p.state.name),
    ("requirements_met", .list (p.met.map Met.document)),
    ("incomplete_requirements", .list (p.unmet.map Unmet.document)),
    ("current_position", optionalDocument .int p.currentPosition),
    ("completed_at", optionalDocument (fun t => .timestamp t.toTimestamp) p.completedAt),
    ("collapsed", .bool p.collapsed)]

end Pathway
