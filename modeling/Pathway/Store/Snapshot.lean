import Pathway.Progress.Reading
import Pathway.Store.Basic

/-!
# Snapshots

A store as one document, from which a database is read again. Modules stand as the documents they
are kept as, facts and progressions with the learner they belong to.
-/

namespace Pathway.Snapshot

open Check

/-! ## Writing -/

def definitionDocument : Definition → Document
  | .value m => m.document
  | .document d => d

def moduleDocument (id : ModuleId) (m : StoredModule) : Document :=
  .record [("id", .text id), ("course", optionalDocument .text m.course),
    ("position", .int m.position), ("definition", definitionDocument m.definition)]

def factDocument (learner : LearnerId) (f : Fact) : Document :=
  .record [("learner", .text learner), ("fact", f.document)]

def learnersOf : Store → Table String
  | .memory d => d.learners
  | .database r => r.learners

/-- All facts, with the learner each belongs to. -/
def factsOf : Store → List (LearnerId × Fact)
  | .memory d => d.facts.toList.flatMap fun (key, fs) => fs.toList.map (key.1, ·)
  | .database r => r.facts.toList.filterMap fun (key, row) =>
    (RequirementKind.ofName? key.2.2).map fun kind => (key.1, row.read key.2.1 kind)

def document (s : Store) : Document :=
  .record
    [("learners", .list ((learnersOf s).toList.map fun (id, name) =>
        .record [("id", .text id), ("name", .text name)])),
      ("modules", .list (s.modules.toList.map fun (id, m) => moduleDocument id m)),
      ("facts", .list ((factsOf s).map fun (learner, f) => factDocument learner f)),
      ("progressions", .list ((s.listProgressions none).map Progression.document))]

/-! ## Reading -/

def learnerOf : Check (LearnerId × String) :=
  record fun fs => Prod.mk <$> field "id" text fs <*> field "name" text fs

/-- A module is taken only under its own id and position. -/
def moduleOf : Check { p : ModuleId × ModuleRow // p.2.Fits p.1 } :=
  record fun fs =>
    ((fun id course position d => (id, (⟨course, position, d⟩ : ModuleRow)))
      <$> field "id" text fs
      <*> field "course" (optional text) fs
      <*> field "position" whole fs
      <*> field "definition" .valid fs).andThen
        fun p => if h : p.2.Fits p.1 then .valid ⟨p, h⟩ else .fail (.rule "Misplaced module")

def factOf : Check (LearnerId × Fact) :=
  record fun fs => Prod.mk <$> field "learner" text fs <*> field "fact" Fact.ofDocument fs

/-- A database of what was written. -/
def assemble (learners : List (LearnerId × String))
    (modules : List { p : ModuleId × ModuleRow // p.2.Fits p.1 })
    (facts : List (LearnerId × Fact)) (progressions : List Progression) : Store :=
  let r := learners.foldl (fun r (id, name) => r.addLearner id name) Rows.empty
  let r := modules.foldl (fun r p => r.insertModule p.1.1 p.1.2 p.2) r
  let r := facts.foldl (fun r (id, f) => r.record id f.item f.kind f.score f.satisfiedAt) r
  .database (progressions.foldl (fun r p => r.insertProgression p.learner p.module p) r)

def ofDocument : Check Store :=
  record fun fs =>
    assemble <$> field "learners" (list learnerOf) fs
      <*> field "modules" (list moduleOf) fs
      <*> field "facts" (list factOf) fs
      <*> field "progressions" (list Progression.ofDocument) fs

end Pathway.Snapshot
