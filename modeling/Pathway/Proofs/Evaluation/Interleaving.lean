import Pathway.Proofs.Evaluation.Interference

/-!
# Interleavings

The components of a generation run at once, step by step in whatever order, and a generation begins
when all of the one before has ended. Every order comes to the same end as one component after the
other.
-/

open Relation

namespace Pathway

namespace Evaluation

variable {r : Run} {learner : LearnerId} {st st' s : Shared} {ys zs : Running} {p p' : Process}
  {c : Graph.Component} {cs gen : List Graph.Component} {gens : List (List Graph.Component)}
  {d depth : Nat} {calm : Set ModuleId} {σ σ' : Session} {memo memo' : Memo}

/-! ## The system -/

/-- The components that are running, the generations that are still to come and the number of the
first of them. -/
structure Config where
  running : Running
  depth : Nat
  later : List (List Graph.Component)
  shared : Shared

def started (r : Run) (depth : Nat) (gen : List Graph.Component) : Running :=
  gen.map fun c => (c, Process.ofComponent r depth c)

/-- One component goes one step further, or all have ended and the next generation begins. -/
inductive Step (r : Run) : Config → Config → Prop
  | advance {ys zs : Running} {c : Graph.Component} {p p' : Process} {depth : Nat}
      {later : List (List Graph.Component)} {st st' : Shared} :
      p.step r.learner st = some (p', st') →
      Step r ⟨ys ++ (c, p) :: zs, depth, later, st⟩ ⟨ys ++ (c, p') :: zs, depth, later, st'⟩
  | begin {ys : Running} {depth : Nat} {gen : List Graph.Component}
      {later : List (List Graph.Component)} {st : Shared} : (∀ y ∈ ys, y.2 = .done) →
      Step r ⟨ys, depth, gen :: later, st⟩ ⟨started r depth gen, depth + 1, later, st⟩

namespace Config

def start (r : Run) (σ : Session) : Config := ⟨[], 0, r.graph.generations, ⟨∅, σ⟩⟩

def Ended (x : Config) : Prop := x.later = [] ∧ ∀ y ∈ x.running, y.2 = .done

end Config

/-! ## One component after the other -/

/-- The generations in turn, and the components of each in turn. -/
def finishLater (r : Run) : Nat → List (List Graph.Component) → Shared → Except Failure Shared
  | _, [], st => .ok st
  | depth, gen :: later, st =>
    match runAll r.learner (started r depth gen) st with
    | .ok st => finishLater r (depth + 1) later st
    | .error f => .error f

/-- The end of what is running, and then of the generations to come. -/
def Config.finish (r : Run) (x : Config) : Except Failure Shared :=
  match runAll r.learner x.running x.shared with
  | .ok st => finishLater r x.depth x.later st
  | .error f => .error f

theorem outcome_evaluateInTurn (r : Run) (d : Nat) (cs : List Graph.Component) (memo : Memo)
    (σ : Session) :
    outcome (evaluateInTurn r d cs memo σ) = runAll r.learner (started r d cs) ⟨memo, σ⟩ := by
  induction cs generalizing memo σ with
  | nil => rfl
  | cons c cs ih =>
    have hc := Process.does_ofComponent r d c memo σ
    unfold evaluateInTurn started
    rw [List.map_cons, runAll]
    dsimp only
    rw [← hc]
    cases hx : evaluateComponent r d c memo σ with
    | ok memo' σ' =>
      rw [Action.bind_of_ok hx]
      exact ih memo' σ'
    | error f σ' =>
      rw [Action.bind_of_error hx]
      rfl

theorem outcome_evaluateGenerations (limit : Option Nat) (r : Run) (d : Nat)
    (gens : List (List Graph.Component)) (memo : Memo) (σ : Session) :
    outcome (evaluateGenerations ⟨1, limit⟩ r d gens memo σ) = finishLater r d gens ⟨memo, σ⟩ := by
  induction gens generalizing d memo σ with
  | nil => rfl
  | cons gen gens ih =>
    have hgen := outcome_evaluateInTurn r d gen memo σ
    unfold evaluateGenerations
    rw [finishLater, ← hgen]
    dsimp only
    rw [if_neg (Nat.lt_irrefl 1)]
    cases hx : evaluateInTurn r d gen memo σ with
    | ok memo' σ' =>
      rw [Action.bind_of_ok hx]
      exact ih (d + 1) memo' σ'
    | error f σ' =>
      rw [Action.bind_of_error hx]
      rfl

theorem within_step {own : Set ModuleId} (hp : p.Within own calm)
    (h : p.step learner st = some (p', st')) : p'.Within own calm := by
  cases p with
  | done => cases h
  | failed f => cases h
  | ask q next =>
    cases h
    exact hp.2 _
  | act x next =>
    rw [Process.step] at h
    split at h
    · cases h
      exact hp.2
    · cases h
      trivial

theorem Tidy.step (ht : Tidy (ys ++ (c, p) :: zs) calm)
    (h : p.step learner st = some (p', st')) : Tidy (ys ++ (c, p') :: zs) calm where
  within y hy := by
    rcases List.mem_append.1 hy with hy | hy
    · exact ht.within y (List.mem_append_left _ hy)
    rcases List.mem_cons.1 hy with rfl | hy
    · exact within_step (ht.within (c, p) (by simp)) h
    · exact ht.within y (by simp [hy])
  calm y hy := by
    rcases List.mem_append.1 hy with hy | hy
    · exact ht.calm y (List.mem_append_left _ hy)
    rcases List.mem_cons.1 hy with rfl | hy
    · exact ht.calm (c, p) (by simp)
    · exact ht.calm y (by simp [hy])
  apart := by
    have := ht.apart
    rw [List.map_append, List.map_cons] at this ⊢
    exact this

theorem Tidy.before (ht : Tidy (ys ++ (c, p) :: zs) calm) :
    Tidy ys calm ∧ (∀ y ∈ ys, Apart (members c) (members y.1)) ∧ p.Within (members c) calm ∧
      Apart calm (members c) := by
  have happart := ht.apart
  rw [List.map_append, List.map_cons, List.pairwise_append] at happart
  refine ⟨⟨fun y hy => ht.within y (List.mem_append_left _ hy),
    fun y hy => ht.calm y (List.mem_append_left _ hy), happart.1⟩, fun y hy => ?_,
    ht.within (c, p) (by simp), ht.calm (c, p) (by simp)⟩
  exact (happart.2.2 y.1 (List.mem_map_of_mem hy) c List.mem_cons_self).symm

end Evaluation

end Pathway
