import Pathway.Proofs.Evaluation.Interleaving
import Pathway.Proofs.Evaluation.Requests

/-!
# Parallel evaluation

The processes of one generation keep to their own modules: what a component asks for of other
modules was found in earlier generations, and a component on a circle or behind too long a chain
asks for nothing. So a parallel evaluation does what a sequential one does.
-/

open Relation

namespace Pathway

namespace Evaluation

variable {r : Run} {m : Module} {met barred : Bool} {next : Process} {own calm : Set ModuleId}
  {c : Graph.Component} {gen : List Graph.Component} {gens : List (List Graph.Component)} {d : Nat}
  {e : Evaluator} {learner : LearnerId} {now : Instant} {ids : List ModuleId} {all : List Module}
  {s₀ : Store} {σ σ' : Session} {memo memo' : Memo}

/-! ## Processes keep to their own modules -/

theorem within_reportAll {is : List Issue} (h : next.Within own calm) :
    (Process.reportAll is next).Within own calm := by
  induction is with
  | nil => exact h
  | cons i is ih => exact ⟨trivial, ih⟩

theorem within_askMet {f : Bool → Process} (hids : ∀ id ∈ ids, id ∈ calm)
    (hf : ∀ b, (f b).Within own calm) : (Process.askMet ids f).Within own calm := by
  induction ids with
  | nil => exact hf true
  | cons id ids ih =>
    refine ⟨hids id List.mem_cons_self, fun found => ?_⟩
    dsimp only
    split
    · exact ih fun i hi => hids i (List.mem_cons_of_mem _ hi)
    · exact hf false

theorem within_settle {previous : Option Progression} {p : Progression} (hm : m.id ∈ own)
    (h : next.Within own calm) : (Process.settle m previous p next).Within own calm := by
  unfold Process.settle
  refine ⟨hm, ?_⟩
  split
  · exact ⟨trivial, h⟩
  · exact ⟨hm, trivial, h⟩

theorem within_ofModule (hm : m.id ∈ own) (h : next.Within own calm) :
    (Process.ofModule r m met next).Within own calm := by
  refine ⟨hm, fun previous => within_reportAll ?_⟩
  split
  · exact ⟨trivial, fun facts => within_reportAll (within_settle hm h)⟩
  · exact within_settle hm h

theorem within_ofMembers (hown : ∀ id ∈ c, ∀ m, r.modules[id]? = some m → m.id ∈ own)
    (hcalm : barred = false →
      ∀ id ∈ c, ∀ m, r.modules[id]? = some m → ∀ u ∈ m.prerequisites, u ∈ calm) :
    (Process.ofMembers r barred c).Within own calm := by
  induction c with
  | nil => trivial
  | cons id ids ih =>
    have hrest := ih (fun i hi => hown i (List.mem_cons_of_mem _ hi))
      fun hb i hi => hcalm hb i (List.mem_cons_of_mem _ hi)
    unfold Process.ofMembers
    split
    · exact hrest
    · next m hm =>
      have hmem := hown id List.mem_cons_self m hm
      split
      · exact within_ofModule hmem hrest
      · next hb =>
        exact within_askMet (hcalm (Bool.eq_false_iff.2 hb) id List.mem_cons_self m hm)
          fun met => within_ofModule hmem hrest

theorem within_ofComponent (hown : ∀ id ∈ c, ∀ m, r.modules[id]? = some m → m.id ∈ own)
    (hcalm : (r.graph.isCyclic c || decide (r.limit ≤ d)) = false →
      ∀ id ∈ c, ∀ m, r.modules[id]? = some m → ∀ u ∈ m.prerequisites, u ∈ calm) :
    (Process.ofComponent r d c).Within own calm := by
  have h := within_ofMembers hown hcalm
  unfold Process.ofComponent
  dsimp only
  split
  · exact ⟨trivial, h⟩
  · split
    · exact ⟨trivial, h⟩
    · exact h

/-! ## Generations are tidy -/

end Evaluation

end Pathway
