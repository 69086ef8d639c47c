import Pathway.Command.Console
import Pathway.Evaluation.Evaluator

/-!
# Recording activity

Adds a learner, or records or clears what a learner did to an item. The module of the item can be
evaluated afterwards.
-/

namespace Pathway.Command.RecordActivity

def known : List Options.Known :=
  [⟨"--db", .text, false⟩, ⟨"--add-learner", .text, false⟩, ⟨"--name", .text, false⟩,
    ⟨"--learner", .text, false⟩, ⟨"--item", .text, false⟩,
    ⟨"--type", .choice (RequirementKind.all.map RequirementKind.name), false⟩,
    ⟨"--score", .number, false⟩, ⟨"--clear", .flag, false⟩, ⟨"--module", .text, false⟩]

structure Activity where
  learner : LearnerId
  item : ItemId
  kind : RequirementKind

def activity? (given : Options.Given) : Option Activity := do
  return ⟨← given.word? "--learner", ← given.word? "--item",
    ← RequirementKind.ofName? (← given.word? "--type")⟩

def clear (db : Path) (a : Activity) : Command Unit := do
  let n ← onStore db do
    let (s, n) ← Action.askOrFail (·.clearNamed a.learner a.item (some a.kind.name))
    Action.update fun _ => s
    return n
  note ⟨.info, s!"Removed {n} fact(s) for {a.learner} on {a.item}"⟩

def record (db : Path) (a : Activity) (score : Option Binary64) (now : Instant) :
    Command Unit := do
  if a.kind = .minScore ∧ score = none then
    misuse (.rule "--score is required for min_score")
  onStore db <| Action.updateOrFail
    (·.record a.learner a.item a.kind (score.map .real) now)
  note ⟨.info, s!"Recorded {a.kind.name} for {a.learner} on {a.item}"⟩

def run (around : Surroundings) (words : List String) : Command Unit := do
  let given ← options known words
  let db := (given.text? "--db").elim around.settings.database Path.ofString
  let _ ← openStore db
  match given.word? "--add-learner" with
  | some learner => do
    onStore db (Action.update (·.addLearner learner ((given.text? "--name").getD "")))
    say s!"Learner registered: {learner}"
  | none =>
    match activity? given with
    | none => misuse (.rule "--learner, --item and --type are required")
    | some a => do
      if !(← onStore db (Action.ask (·.hasLearner a.learner))) then
        refuse s!"learner not found: {a.learner}"
      if given.has "--clear" then clear db a
      else record db a (given.number? "--score") around.now
      match given.word? "--module" with
      | none => pure ()
      | some m => do
        let e := Evaluator.ofSettings around.settings
        let p ← onStoreOrRefuse db (e.evaluate around.now a.learner m)
        say s!"{m}: {p.state.name}"

end Pathway.Command.RecordActivity
