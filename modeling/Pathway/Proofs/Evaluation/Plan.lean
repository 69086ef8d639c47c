import Pathway.Evaluation.Evaluator
import Pathway.Proofs.Course.Modules
import Pathway.Proofs.Evaluation.Reference
import Pathway.Proofs.Prerequisites.Generations
import Pathway.Proofs.Session

/-!
# The plan of an evaluation

The graph of a closure says of the modules in it what the store says: which require which, which are
on a circle, and how long the chains are. So the components that an evaluation bars hold just the
modules that are barred in the store, whatever else was asked for.
-/

open Relation

namespace Pathway

open Evaluation

variable {s : Store} {e : Evaluator} {learner : LearnerId} {now : Instant} {ids : List ModuleId}
  {all : List Module} {m : Module} {id u v : ModuleId} {c : Graph.Component} {d : Nat}
  {σ : Session}

/-! ## What is in the closure -/

theorem Store.InClosure.tail (h : s.InClosure ids v) (hr : s.Requires v u) : s.InClosure ids u := by
  obtain ⟨a, ha, hav⟩ := h
  exact ⟨a, ha, hav.tail hr⟩

namespace Closed

theorem exists_module (hc : Closed s ids all) (h : s.InClosure ids id) :
    ∃ m ∈ all, m.id = id ∧ s.getModule id = .ok m := by
  obtain ⟨m, hm, rfl⟩ := List.mem_map.1 ((hc.mem id).2 h)
  exact ⟨m, hm, rfl, hc.read m hm⟩

theorem inClosure (hc : Closed s ids all) (hm : m ∈ all) : s.InClosure ids m.id :=
  (hc.mem m.id).1 (List.mem_map_of_mem hm)

theorem getElem?_tableOf (hc : Closed s ids all) (hm : m ∈ all) :
    (tableOf all)[m.id]? = some m := by
  refine Table.getElem?_ofList_of_mem ?_ (List.mem_map_of_mem hm)
  rw [List.map_map]
  exact hc.nodup

theorem mem_of_tableOf (hc : Closed s ids all) (h : (tableOf all)[id]? = some m) :
    m ∈ all ∧ m.id = id := by
  have hid : id ∈ all.map (·.id) := by
    have hmem := Std.ExtTreeMap.mem_iff_isSome_getElem?.2 (Option.isSome_of_eq_some h)
    simpa [tableOf, Std.ExtTreeMap.mem_ofList] using hmem
  obtain ⟨n, hn, rfl⟩ := List.mem_map.1 hid
  cases (hc.getElem?_tableOf hn).symm.trans h
  exact ⟨hn, rfl⟩

theorem mem_nodes_iff (hc : Closed s ids all) :
    id ∈ (Graph.ofModules all).nodes ↔ s.InClosure ids id :=
  Graph.mem_nodes_ofModules.trans (hc.mem id)

theorem agree (hc : Closed s ids all) :
    Agree (s.InClosure ids) s.Requires (Graph.ofModules all).Requires where
  iff v u hv := by
    rw [Graph.requires_ofModules]
    constructor
    · rintro h
      obtain ⟨⟨m, hm, hu⟩, -⟩ := id h
      obtain ⟨m', hm', rfl, hread⟩ := hc.exists_module hv
      cases hread.symm.trans hm
      exact ⟨m, hm', rfl, hu, (hc.mem u).2 (hv.tail h)⟩
    · rintro ⟨m, hm, rfl, hu, hmem⟩
      obtain ⟨n, -, -, hread⟩ := hc.exists_module ((hc.mem u).1 hmem)
      exact ⟨⟨m, hc.read m hm, hu⟩, Store.hasModule_of_getModule hread⟩
  closed v u hv hr := hv.tail hr

theorem chain_iff (hc : Closed s ids all) (hv : s.InClosure ids v) {n : Nat} :
    Chain s.Requires n v ↔ n ≤ (Graph.ofModules all).level v :=
  (hc.agree.chain_iff hv).trans
    (Graph.chain_iff_le_level (Graph.wellFormed_ofModules all) (hc.mem_nodes_iff.2 hv))

theorem level_lt_length (hc : Closed s ids all) (hv : s.InClosure ids v) :
    (Graph.ofModules all).level v < all.length := by
  have hg := Graph.wellFormed_ofModules all
  have hsub : (Graph.ofModules all).nodes ⊆ all.map (·.id) :=
    fun _ h => Graph.mem_nodes_ofModules.1 h
  have hle := (List.subperm_of_subset hg.nodup hsub).length_le
  rw [List.length_map] at hle
  exact (Graph.level_lt_length hg (hc.mem_nodes_iff.2 hv)).trans_le hle

theorem limit_le_iff (hc : Closed s ids all) (hv : s.InClosure ids v) :
    (runOf e learner now all).limit ≤ (Graph.ofModules all).level v ↔
      ∃ n ∈ e.depthLimit, Chain s.Requires n v := by
  cases hd : e.depthLimit with
  | none =>
    have hlt := hc.level_lt_length hv
    simp only [runOf, hd, Option.getD_none, Option.mem_def, reduceCtorEq, false_and, exists_false,
      iff_false]
    omega
  | some n =>
    simp only [runOf, hd, Option.getD_some, Option.mem_def, Option.some.injEq, exists_eq_left',
      hc.chain_iff hv]

theorem isCyclic_iff (hc : Closed s ids all) (h : (Graph.ofModules all).InGeneration d c)
    (hv : v ∈ c) (hin : s.InClosure ids v) :
    (Graph.ofModules all).isCyclic c = true ↔ OnCircle s.Requires v := by
  have hg := Graph.wellFormed_ofModules all
  rw [Graph.isCyclic_iff hg (Graph.mem_components_of_inGeneration hg h) hv]
  exact (hc.agree.onCircle_iff hin).symm

theorem inClosure_of_inGeneration (hc : Closed s ids all)
    (h : (Graph.ofModules all).InGeneration d c) (hv : v ∈ c) : s.InClosure ids v := by
  refine hc.mem_nodes_iff.1 ((Graph.perm_components _).mem_iff.1 (List.mem_flatten.2 ⟨c, ?_, hv⟩))
  exact Graph.mem_components_of_inGeneration (Graph.wellFormed_ofModules all) h

theorem barred_iff (hc : Closed s ids all) (h : (Graph.ofModules all).InGeneration d c)
    (hv : v ∈ c) :
    ((Graph.ofModules all).isCyclic c || decide ((runOf e learner now all).limit ≤ d)) = true ↔
      s.Barred e.depthLimit v := by
  have hin := hc.inClosure_of_inGeneration h hv
  have hd := Graph.level_eq (Graph.wellFormed_ofModules all) h hv
  rw [Bool.or_eq_true, decide_eq_true_iff, hc.isCyclic_iff h hv hin, ← hd, hc.limit_le_iff hin,
    Store.Barred]

theorem level_lt_of_requires (hc : Closed s ids all) (hv : s.InClosure ids v)
    (h : s.Requires v u) (hn : ¬ OnCircle s.Requires v) :
    (Graph.ofModules all).level u < (Graph.ofModules all).level v := by
  have hg := Graph.wellFormed_ofModules all
  refine Graph.level_lt_of_behind hg (hc.agree.behind hv ?_).2
  exact behind_of_not_onCircle h hn

end Closed

/-! ## Planning -/

/-- A plan is made of the whole closure, and nothing but the journal is touched. -/
structure Planned (e : Evaluator) (now : Instant) (learner : LearnerId) (ids : List ModuleId)
    (σ : Session) (run : Run) (σ' : Session) : Prop where
  known : σ.store.hasLearner learner = true
  closed : ∃ all, Closed σ.store ids all ∧ run = runOf e learner now all
  store : σ'.store = σ.store
  issues : σ'.issues = σ.issues

theorem ends_requireLearner {limit : Option Nat} :
    (Evaluator.requireLearner learner).Ends σ
      (fun _ σ' => σ' = σ ∧ σ.store.hasLearner learner = true)
      (Refusal σ.store learner now limit ids) := by
  unfold Evaluator.requireLearner
  refine Action.ends_ask ?_
  split
  · next h => exact Action.ends_pure ⟨rfl, h⟩
  · next h => exact Action.ends_throw (.learner (Bool.eq_false_iff.2 h))

theorem Closed.of_mem_iff {ids' : List ModuleId} (hc : Closed s ids all)
    (h : ∀ a, a ∈ ids ↔ a ∈ ids') : Closed s ids' all where
  nodup := hc.nodup
  read := hc.read
  mem id := by
    rw [hc.mem, Store.InClosure, Store.InClosure]
    simp only [h]

theorem forall₂_getModule {ms : List Module}
    (h : List.Forall₂ (fun id m => s.getModule id = .ok m) ids ms) :
    ms.map (·.id) = ids ∧ ∀ m ∈ ms, s.getModule m.id = .ok m := by
  induction h with
  | nil => exact ⟨rfl, by simp⟩
  | @cons id m ids ms hm _ ih =>
    have hid := Store.id_of_getModule hm
    refine ⟨by rw [List.map_cons, hid, ih.1], fun n hn => ?_⟩
    rcases List.mem_cons.1 hn with rfl | hn
    · exact hid ▸ hm
    · exact ih.2 n hn

theorem ends_plan (e : Evaluator) (now : Instant) (learner : LearnerId) (ids : List ModuleId)
    (σ : Session) :
    (e.plan now learner ids).Ends σ (Planned e now learner ids σ)
      (Refusal σ.store learner now e.depthLimit ids) := by
  unfold Evaluator.plan
  refine ends_requireLearner.bind ?_
  rintro _ _ ⟨rfl, hl⟩
  refine (Action.ends_mapM_askOrFail _).imp (fun _ _ h => h) ?_ |>.bind ?_
  · rintro f ⟨id, hid, hf⟩
    exact .module ⟨id, List.mem_eraseDups.1 hid, .refl⟩ hf
  rintro ms _ ⟨rfl, hms⟩
  obtain ⟨hids, hread⟩ := forall₂_getModule hms
  have hn : (ms.map (·.id)).Nodup := hids ▸ nodup_eraseDups ids
  refine Action.ends_askOrFail (fun all hall => ?_) fun f hf => ?_
  · refine Action.ends_noteAll (Action.ends_pure ?_)
    refine ⟨hl, ⟨all, ?_, rfl⟩, Session.store_noteAll _, Session.issues_noteAll _⟩
    refine (closed_of_closure hread hn hall).of_mem_iff fun a => ?_
    rw [hids, List.mem_eraseDups]
  · obtain ⟨id, ⟨a, ha, hid⟩, hf⟩ := exists_of_closure_error hread hf
    rw [hids, List.mem_eraseDups] at ha
    exact .module ⟨a, ha, hid⟩ hf

end Pathway
