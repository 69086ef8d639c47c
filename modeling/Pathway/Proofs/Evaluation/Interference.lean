import Pathway.Proofs.Evaluation.Process

/-!
# Processes that do not interfere

A process that keeps to its own modules neither changes an answer that another one gets nor minds
when the changes of another one are made. What it comes to is the same up to the order of issues.
-/

namespace Pathway

open Evaluation

namespace Evaluation

/-! ## The same end -/

/-- Issues count as the same if they are of one sort and say the same. -/
def SameIssues (σ τ : Session) : Prop := ∀ i : Issue, σ.issues.any i.same = τ.issues.any i.same

structure Alike (a b : Shared) : Prop where
  memo : a.memo = b.memo
  store : a.session.store = b.session.store
  issues : SameIssues a.session b.session

variable {learner : LearnerId} {st st' a b : Shared}

theorem Alike.refl (a : Shared) : Alike a a := ⟨rfl, rfl, fun _ => rfl⟩

theorem Alike.symm (h : Alike a b) : Alike b a :=
  ⟨h.memo.symm, h.store.symm, fun i => (h.issues i).symm⟩

theorem Alike.trans {c : Shared} (h : Alike a b) (g : Alike b c) : Alike a c :=
  ⟨h.memo.trans g.memo, h.store.trans g.store, fun i => (h.issues i).trans (g.issues i)⟩

/-! ## What a process touches -/

/-- Nothing is in both sets. -/
def Apart (own own' : Set ModuleId) : Prop := ∀ v ∈ own, v ∉ own'

theorem Apart.symm {own own' : Set ModuleId} (h : Apart own own') : Apart own' own :=
  fun v hv' hv => h v hv hv'

def Query.Within {α : Type} (q : Query α) (own calm : Set ModuleId) : Prop :=
  match q with
  | found id => id ∈ calm
  | load id => id ∈ own
  | facts => True

def Effect.Within (own : Set ModuleId) : Effect → Prop
  | remember id _ => id ∈ own
  | save id _ => id ∈ own
  | report _ => True
  | note _ => True

/-- The process looks up only what is calm, and loads and writes only what is its own. -/
def Process.Within (own calm : Set ModuleId) : Process → Prop
  | done => True
  | failed _ => True
  | ask q next => q.Within own calm ∧ ∀ a, (next a).Within own calm
  | act x next => x.Within own ∧ next.Within own calm

/-! ## Questions and changes -/

variable {α : Type} {q : Query α} {x y : Effect} {own own' calm calm' : Set ModuleId}

variable {p next : Process} {s u : Shared}

/-- Components with what is left of their processes. -/
abbrev Running := List (Graph.Component × Process)

def runAll (learner : LearnerId) : Running → Shared → Except Failure Shared
  | [], st => .ok st
  | y :: ys, st =>
    match y.2.run learner st with
    | .ok st => runAll learner ys st
    | .error f => .error f

variable {ys zs : Running} {c : Graph.Component}

def members (c : Graph.Component) : Set ModuleId := {v | v ∈ c}

/-- Each process keeps to its component, the components are apart, and what all may look up is in
none of them. -/
structure Tidy (ys : Running) (calm : Set ModuleId) : Prop where
  within : ∀ y ∈ ys, y.2.Within (members y.1) calm
  calm : ∀ y ∈ ys, Apart calm (members y.1)
  apart : (ys.map Prod.fst).Pairwise fun c c' => Apart (members c) (members c')

theorem Tidy.tail {y : Graph.Component × Process} (h : Tidy (y :: ys) calm) : Tidy ys calm where
  within z hz := h.within z (List.mem_cons_of_mem _ hz)
  calm z hz := h.calm z (List.mem_cons_of_mem _ hz)
  apart := (List.pairwise_cons.1 h.apart).2

end Evaluation

end Pathway
